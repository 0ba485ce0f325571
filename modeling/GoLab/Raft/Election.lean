import Mathlib.Data.Finset.Card
import GoLab.Raft.Ballots

/-!
# Elections

A candidate counts the votes that its own request was answered with.  A leader has
been supported by a majority in its term, and as a server supports one candidate
in a term, there is one leader in a term.
-/

namespace GoLab.Raft

variable {α : Type}
variable {cfg : Config} {me : Nat} {allowed : Cluster α → Label α → Prop} {labels : List (Label α)}
  {s : Cluster α} {sv : Server α} {out : Out α} {ev : Event α} {term : Int} {obs : List (Obs α)}

/-! ## Candidacies -/

/-- Each candidacy has its own role. -/
structure Candidacies (me : Nat) (sv : Server α) (history : List (Obs α)) : Prop where
  fresh : ∀ role term, Stood history me role term → role < sv.nextId
  term : ∀ role term term', Stood history me role term → Stood history me role term' →
    term = term'

/-- No candidacy begins. -/
def NoCandidacy (obs : List (Obs α)) : Prop :=
  ∀ me role term, ¬ Stood obs me role term

/-- A server that stands for election stands in a new role. -/
theorem Roles.stands {history : List (Obs α)} {rest : List (Event α)} (ok : Roles cfg me sv history)
    (isNext : sv.evCh = ev :: rest) (handles : Handles cfg me { sv with evCh := rest } ev out) :
    NoCandidacy out.obs ∨ ∃ term log, out.obs = [.selfVote me sv.nextId term log] ∧
      out.server.nextId = sv.nextId + 1 := by
  cases handles with
  | becameCandidate trans =>
      obtain ⟨rfl, rfl, -⟩ := ok.enter isNext trans nofun
      exact .inr ⟨_, _, rfl, rfl⟩
  | installed | appended | candidateHold | staleCandidate =>
      exact .inl (NoVote.raiseObs _ _ _).stood
  | _ => exact .inl (by simp [NoCandidacy, Stood])

theorem Executes.noCandidacy {op : Op α} (executes : Executes cfg me sv op out) :
    NoCandidacy out.obs := by
  cases executes with
  | _ => simp [NoCandidacy, Stood]

theorem Candidacies.frame {sv sv' : Server α} {history new : List (Obs α)}
    (ok : Candidacies me sv history) (quiet : NoCandidacy new) (nextId : sv.nextId ≤ sv'.nextId) :
    Candidacies me sv' (new ++ history) := by
  have stood_iff {role : Nat} {term : Int} :
      Stood (new ++ history) me role term ↔ Stood history me role term := by
    simp [stood_append, quiet me role term]
  constructor
  · intro role term stood
    exact Nat.lt_of_lt_of_le (ok.fresh role term (stood_iff.mp stood)) nextId
  · simpa only [stood_iff] using ok.term

theorem Candidacies.stand {sv sv' : Server α} {history : List (Obs α)} {log : List (LogEntry α)}
    (ok : Candidacies me sv history) (nextId : sv'.nextId = sv.nextId + 1) :
    Candidacies me sv' ([.selfVote me sv.nextId term log] ++ history) := by
  have stood_iff {role : Nat} {term' : Int} :
      Stood ([.selfVote me sv.nextId term log] ++ history) me role term' ↔
        (role = sv.nextId ∧ term' = term) ∨ Stood history me role term' := by
    simp [Stood, exists_or]
  constructor
  · intro role term' stood
    rcases stood_iff.mp stood with ⟨rfl, -⟩ | earlier
    · omega
    · have fresh := ok.fresh role term' earlier
      omega
  · intro role term₁ term₂ stood₁ stood₂
    rcases stood_iff.mp stood₁ with ⟨rfl, rfl⟩ | earlier₁ <;>
      rcases stood_iff.mp stood₂ with ⟨isNew, rfl⟩ | earlier₂
    · rfl
    · exact (Nat.lt_irrefl _ (ok.fresh _ _ earlier₂)).elim
    · exact (Nat.lt_irrefl _ (isNew ▸ ok.fresh _ _ earlier₁)).elim
    · exact ok.term role term₁ term₂ earlier₁ earlier₂

/-- No role stands twice, in any run. -/
theorem Cluster.candidacies (run : Run (step cfg) allowed init labels s) (i : Nat) :
    Candidacies i (s.servers i) (s.history i) := by
  refine local_invariant Candidacies ?_ ?_ run i
  · exact fun _ => ⟨by simp [Stood], by simp [Stood]⟩
  · intro _ s i act out earlier ok _ steps
    have nextId := steps.nextId_le
    cases steps with
    | popped up _ next handles =>
        rcases (roles earlier i up).stands next handles with quiet | ⟨term, log, obs, isNext⟩
        · exact ok.frame quiet nextId
        · rw [obs]
          exact ok.stand isNext
    | executed _ _ executes => exact ok.frame executes.noCandidacy nextId
    | applied _ applies =>
        refine ok.frame ?_ nextId
        cases applies <;> simp [NoCandidacy, Stood]
    | _ => exact ok.frame (by simp [NoCandidacy, Stood]) nextId

/-! ## Counting votes -/

/-- The candidate role behind a request for votes. -/
def Asked (obs : List (Obs α)) (caller : Caller) (args : RequestVoteArgs) : Prop :=
  args.candidateID = caller.server ∧ Stood obs caller.server caller.call args.term

def Event.isVoteGrant : Event α → Bool
  | .voteGrant .. => true
  | _ => false

/-- The votes of a candidate, counted and in its channel, are its own and those of
different peers that have granted them. -/
structure Counting (cfg : Config) (obs : List (Obs α)) (me : Nat) (sv : Server α)
    (cd : Candidate) : Prop where
  stood : Stood obs me sv.roleId cd.args.term
  polls : cd.polls.Nodup ∧ ∀ peer ∈ cd.polls, peer < cfg.peers ∧ peer ≠ me
  votes : ∃ voters : Finset Nat, (∀ voter ∈ voters, voter < cfg.peers ∧ voter ≠ me ∧
      voter ∉ cd.polls ∧ .granted voter cd.args.term me ∈ obs) ∧
    cd.votes + sv.evCh.countP Event.isVoteGrant ≤ voters.card + 1

/-- What a server knows of requests for votes. -/
structure Polling (cfg : Config) (obs : List (Obs α)) (me : Nat) (sv : Server α) : Prop where
  events : ∀ caller args, .requestVote caller args ∈ sv.evCh → Asked obs caller args
  grants : ∀ caller args, .grantVote caller args ∈ sv.todo → Asked obs caller args
  replies : ∀ caller args reply, .replyRequestVote caller args reply ∈ sv.todo →
    Asked obs caller args
  counting : ∀ cd, sv.role = .candidate cd → Counting cfg obs me sv cd

/-- What a message says about a vote. -/
def Msg.Polls (obs : List (Obs α)) : Msg α → Prop
  | .requestVote caller _ args => Asked obs caller args
  | .requestVoteReply caller src reply => reply.voteStatus = .voteGranted →
      ∃ term, Stood obs caller.server caller.call term ∧ .granted src term caller.server ∈ obs
  | _ => True

section Monotone

variable {obs obs' : List (Obs α)}

theorem Stood.mono {role : Nat} (stood : Stood obs me role term) (grows : obs ⊆ obs') :
    Stood obs' me role term := by
  obtain ⟨log, membership⟩ := stood
  exact ⟨log, grows membership⟩

theorem Asked.mono {caller : Caller} {args : RequestVoteArgs} (asked : Asked obs caller args)
    (grows : obs ⊆ obs') : Asked obs' caller args :=
  ⟨asked.1, asked.2.mono grows⟩

theorem Counting.mono {cd : Candidate} (counting : Counting cfg obs me sv cd) (grows : obs ⊆ obs') :
    Counting cfg obs' me sv cd where
  stood := counting.stood.mono grows
  polls := counting.polls
  votes := by
    obtain ⟨voters, granted, enough⟩ := counting.votes
    refine ⟨voters, fun voter membership => ?_, enough⟩
    obtain ⟨isPeer, other, polled, grant⟩ := granted voter membership
    exact ⟨isPeer, other, polled, grows grant⟩

theorem Polling.mono (polling : Polling cfg obs me sv) (grows : obs ⊆ obs') :
    Polling cfg obs' me sv where
  events caller args isEvent := (polling.events caller args isEvent).mono grows
  grants caller args due := (polling.grants caller args due).mono grows
  replies caller args reply pending := (polling.replies caller args reply pending).mono grows
  counting cd candidate := (polling.counting cd candidate).mono grows

theorem Msg.Polls.mono {msg : Msg α} (polls : msg.Polls obs) (grows : obs ⊆ obs') :
    msg.Polls obs' := by
  cases msg with
  | requestVote caller dst args => exact Asked.mono polls grows
  | requestVoteReply caller src reply =>
      intro granted
      obtain ⟨term, stood, grant⟩ := polls granted
      exact ⟨term, stood.mono grows, grows grant⟩
  | appendEntries | appendEntriesReply => trivial

end Monotone

namespace Counting

variable {sv sv' : Server α} {cd cd' : Candidate}

/-- The channel or the polls change, the votes stay. -/
theorem step (ok : Counting cfg obs me sv cd) (roleId : sv'.roleId = sv.roleId)
    (args : cd'.args = cd.args) (polls : cd'.polls.Sublist cd.polls)
    (votes : cd'.votes + sv'.evCh.countP Event.isVoteGrant ≤
      cd.votes + sv.evCh.countP Event.isVoteGrant) : Counting cfg obs me sv' cd' where
  stood := by
    rw [roleId, args]
    exact ok.stood
  polls := ⟨ok.polls.1.sublist polls, fun peer membership =>
    ok.polls.2 peer (polls.subset membership)⟩
  votes := by
    obtain ⟨voters, granted, enough⟩ := ok.votes
    refine ⟨voters, fun voter membership => ?_, by omega⟩
    obtain ⟨isPeer, other, polled, grant⟩ := granted voter membership
    refine ⟨isPeer, other, fun waiting => polled (polls.subset waiting), ?_⟩
    rw [args]
    exact grant

/-- The vote of a peer that was still asked arrives. -/
theorem granted (ok : Counting cfg obs me sv cd) (roleId : sv'.roleId = sv.roleId) {src : Nat}
    (waiting : src ∈ cd.polls) (grant : .granted src cd.args.term me ∈ obs)
    (evCh : sv'.evCh.countP Event.isVoteGrant = sv.evCh.countP Event.isVoteGrant + 1) :
    Counting cfg obs me sv' { cd with polls := cd.polls.erase src } where
  stood := by
    rw [roleId]
    exact ok.stood
  polls := ⟨ok.polls.1.sublist List.erase_sublist, fun peer membership =>
    ok.polls.2 peer (List.mem_of_mem_erase membership)⟩
  votes := by
    obtain ⟨voters, granted, enough⟩ := ok.votes
    have isNew : src ∉ voters := fun membership => (granted src membership).2.2.1 waiting
    refine ⟨insert src voters, fun voter membership => ?_, ?_⟩
    · rcases Finset.mem_insert.mp membership with rfl | earlier
      · obtain ⟨isPeer, other⟩ := ok.polls.2 voter waiting
        exact ⟨isPeer, other, ok.polls.1.not_mem_erase, grant⟩
      · obtain ⟨isPeer, other, polled, grant⟩ := granted voter earlier
        exact ⟨isPeer, other, fun waiting => polled (List.mem_of_mem_erase waiting), grant⟩
    · rw [Finset.card_insert_of_notMem isNew, evCh]
      dsimp only
      omega

end Counting

/-- Handlers answer the request they handle. -/
theorem Handles.asks (handles : Handles cfg me sv ev out) (idle : sv.todo = []) :
    (∀ caller args, .grantVote caller args ∈ out.server.todo → ev = .requestVote caller args) ∧
    ∀ caller args reply, .replyRequestVote caller args reply ∈ out.server.todo →
      ev = .requestVote caller args := by
  cases handles with
  | appended =>
      constructor <;>
        simp only [List.mem_append, List.mem_singleton, reduceCtorEq, or_false] <;>
        split <;> split <;> simp
  | counted =>
      dsimp only
      split <;> simp
  | _ => simp +contextual [idle]

namespace Polling

variable {sv sv' : Server α}

theorem handles {rest : List (Event α)} (ok : Polling cfg obs me sv) (isolated : Isolated sv)
    (idle : sv.todo = []) (isNext : sv.evCh = ev :: rest)
    (handles : Handles cfg me { sv with evCh := rest } ev out) :
    Polling cfg (out.obs ++ obs) me out.server ∧ ∀ msg ∈ out.msgs, msg.Polls (out.obs ++ obs) := by
  have later := ok.mono (List.subset_append_right out.obs obs)
  have asked {caller : Caller} {args : RequestVoteArgs}
      (isRequest : ev = .requestVote caller args) :
      Asked (out.obs ++ obs) caller args := later.events caller args (by simp [isNext, isRequest])
  obtain ⟨grants, replies⟩ := handles.asks idle
  refine ⟨⟨?_, ?_, ?_, ?_⟩, ?_⟩
  · rw [handles.evCh_eq]
    exact fun caller args later' => later.events caller args (by rw [isNext]; exact .tail _ later')
  · exact fun caller args due => asked (grants caller args due)
  · exact fun caller args reply due => asked (replies caller args reply due)
  · have shrinks : rest.countP Event.isVoteGrant ≤ sv.evCh.countP Event.isVoteGrant := by
      rw [isNext]
      exact (List.sublist_cons_self ev rest).countP_le
    have keep {cd : Candidate} (roleEq : sv.role = .candidate cd) {sv' : Server α}
        (roleId : sv'.roleId = sv.roleId) (evCh : sv'.evCh = rest) :
        Counting cfg (out.obs ++ obs) me sv' cd := by
      refine (later.counting cd roleEq).step roleId rfl (List.Sublist.refl _) ?_
      rw [evCh]
      omega
    cases handles with
    | becameFollower | becameLeader => exact nofun
    | confirmed => exact nofun
    | @counted _ _ _ cd cd' _ candidate _ _ counted =>
        rintro _ ⟨⟩
        refine (later.counting cd candidate).step rfl (by rw [counted]) ?_ ?_
        · rw [counted]
        · rw [counted, isNext, List.countP_cons_of_pos rfl]
          dsimp only
          omega
    | becameCandidate trans _ argsEq peers =>
        obtain ⟨-, rfl⟩ := isolated.trans_last isNext
        rintro _ ⟨⟩
        refine ⟨⟨_, by rw [argsEq]; exact .head _⟩, ?_, ∅, by simp, by simp⟩
        rw [peers]
        refine ⟨List.nodup_range.filter _, fun peer membership => ?_⟩
        simpa using membership
    | _ => exact fun cd candidate => keep candidate rfl rfl
  · cases handles with
    | ignored refusal =>
        rcases refusal with rfl | ⟨caller, rfl⟩ | ⟨caller, rfl⟩ <;> simp [Msg.Polls]
    | becameCandidate _ _ argsEq =>
        simp only [List.mem_map]
        rintro _ ⟨peer, -, rfl⟩
        exact ⟨by rw [argsEq], _, by rw [argsEq]; exact .head _⟩
    | _ => simp

/-- A step that neither counts a vote nor takes a new request. -/
theorem frame (ok : Polling cfg obs me sv) (roleId : sv'.roleId = sv.roleId)
    (role : ∀ cd, sv'.role = .candidate cd → sv.role = .candidate cd)
    (events : ∀ caller args, .requestVote caller args ∈ sv'.evCh →
      .requestVote caller args ∈ sv.evCh)
    (votes : sv'.evCh.countP Event.isVoteGrant = sv.evCh.countP Event.isVoteGrant)
    (grants : ∀ caller args, .grantVote caller args ∈ sv'.todo → .grantVote caller args ∈ sv.todo)
    (replies : ∀ caller args reply, .replyRequestVote caller args reply ∈ sv'.todo →
      .replyRequestVote caller args reply ∈ sv.todo ∨ .grantVote caller args ∈ sv.todo) :
    Polling cfg obs me sv' where
  events caller args isEvent := ok.events caller args (events caller args isEvent)
  grants caller args due := ok.grants caller args (grants caller args due)
  replies caller args reply pending :=
    (replies caller args reply pending).elim (ok.replies caller args reply) (ok.grants caller args)
  counting cd candidate := (ok.counting cd (role cd candidate)).step roleId rfl
    (List.Sublist.refl _) (by rw [votes])

theorem executes {op : Op α} {rest : List (Op α)} (ok : Polling cfg obs me sv)
    (next : sv.todo = op :: rest) (executes : Executes cfg me { sv with todo := rest } op out) :
    Polling cfg (out.obs ++ obs) me out.server ∧ ∀ msg ∈ out.msgs, msg.Polls (out.obs ++ obs) := by
  have later := ok.mono (List.subset_append_right out.obs obs)
  have goOn {op' : Op α} (membership : op' ∈ rest) : op' ∈ sv.todo := by
    rw [next]
    exact .tail _ membership
  cases executes with
  | stopped =>
      refine ⟨later.frame rfl (fun _ => id) (by simp) ?_ (fun _ _ => goOn)
        (fun _ _ _ due => .inl (goOn due)), by simp⟩
      rw [List.countP_append]
      rfl
  | committed =>
      refine ⟨later.frame rfl (fun _ => id) (fun _ _ => id) rfl ?_ ?_, by simp⟩
      · simp only [List.mem_cons, reduceCtorEq, false_or]
        exact fun _ _ => goOn
      · simp only [List.mem_cons, reduceCtorEq, false_or]
        exact fun _ _ _ due => .inl (goOn due)
  | voteGiven | voteDenied =>
      refine ⟨later.frame rfl (fun _ => id) (fun _ _ => id) rfl ?_ ?_, by simp⟩
      · simp only [List.mem_append, List.mem_singleton, reduceCtorEq, or_false]
        exact fun _ _ => goOn
      · simp only [List.mem_append, List.mem_singleton, Op.replyRequestVote.injEq]
        rintro _ _ _ (earlier | ⟨rfl, rfl, -⟩)
        · exact .inl (goOn earlier)
        · exact .inr (by simp [next])
  | started =>
      exact ⟨later.frame rfl nofun (fun _ _ => id) rfl (fun _ _ => goOn)
        (fun _ _ _ due => .inl (goOn due)), by simp⟩
  | @voteAnswered caller args reply =>
      refine ⟨later.frame rfl (fun _ => id) (fun _ _ => id) rfl (fun _ _ => goOn)
        (fun _ _ _ due => .inl (goOn due)), ?_⟩
      simp only [List.mem_singleton, forall_eq]
      intro granted
      obtain ⟨candidate, stood⟩ := later.replies caller args reply (by simp [next])
      refine ⟨args.term, stood, ?_⟩
      rw [if_pos granted, candidate]
      exact .head _
  | _ =>
      exact ⟨later.frame rfl (fun _ => id) (fun _ _ => id) rfl (fun _ _ => goOn)
        (fun _ _ _ due => .inl (goOn due)), by simp [Msg.Polls]⟩

/-- An event other than a vote or a request for one is pushed. -/
theorem push (ok : Polling cfg obs me sv) (evCh : sv'.evCh = sv.evCh ++ [ev])
    (roleId : sv'.roleId = sv.roleId) (role : sv'.role = sv.role) (todo : sv'.todo = sv.todo)
    (notVote : ev.isVoteGrant = false) (notRequest : ∀ caller args, ev ≠ .requestVote caller args) :
    Polling cfg obs me sv' := by
  refine ok.frame roleId (fun _ => role ▸ id) ?_ ?_ (fun _ _ => todo ▸ id)
    (fun _ _ _ due => .inl (todo ▸ due))
  · intro caller args membership
    rw [evCh, List.mem_append, List.mem_singleton] at membership
    exact membership.resolve_right fun isEv => notRequest caller args isEv.symm
  · rw [evCh, List.countP_append, List.countP_singleton, notVote]
    rfl

end Polling

theorem Polling.steps {net : List (Msg α)} {act : Act α} (ok : Polling cfg obs me sv)
    (messages : ∀ msg ∈ net, msg.Polls obs) (up : sv.up = true) (isolated : Isolated sv)
    (once : ∀ role term term', Stood obs me role term → Stood obs me role term' → term = term')
    (steps : Steps cfg me net sv act out) :
    (out.server.up = true → Polling cfg (out.obs ++ obs) me out.server) ∧
      ∀ msg ∈ out.msgs, msg.Polls (out.obs ++ obs) := by
  have later := ok.mono (List.subset_append_right out.obs obs)
  have same {sv' : Server α} (role : sv'.role = sv.role) (roleId : sv'.roleId = sv.roleId)
      (evCh : sv'.evCh = sv.evCh) (todo : sv'.todo = sv.todo) :
      Polling cfg (out.obs ++ obs) me sv' :=
    later.frame roleId (fun _ => role ▸ id) (fun _ _ => evCh ▸ id) (by rw [evCh])
      (fun _ _ => todo ▸ id) (fun _ _ _ due => .inl (todo ▸ due))
  cases steps with
  | popped _ idle next handles =>
      exact (ok.handles isolated idle next handles).imp_left fun kept _ => kept
  | executed _ next executes => exact (ok.executes next executes).imp_left fun kept _ => kept
  | applied _ applies => cases applies <;> exact ⟨fun _ => same rfl rfl rfl rfl, by simp⟩
  | snapshotPushed => exact ⟨fun _ => later.push rfl rfl rfl rfl rfl nofun, by simp⟩
  | arrived _ _ arrives =>
      refine ⟨fun _ => ?_, by simp⟩
      cases arrives with
      | requestVote sent =>
          refine { later with events := ?_, counting := ?_ }
          · intro caller args membership
            simp only [List.mem_append, List.mem_singleton, Event.requestVote.injEq] at membership
            rcases membership with earlier | ⟨rfl, rfl⟩
            · exact later.events caller args earlier
            · exact messages _ sent
          · intro cd candidate
            refine (later.counting cd candidate).step rfl rfl (List.Sublist.refl _) ?_
            rw [List.countP_append]
            exact Nat.le_refl _
      | _ => exact later.push rfl rfl rfl rfl rfl nofun
  | polled _ _ candidate =>
      refine ⟨fun _ => { later with counting := ?_ }, by simp⟩
      rintro _ ⟨⟩
      exact (later.counting _ candidate).step rfl rfl List.erase_sublist (Nat.le_refl _)
  | polledEvent _ _ candidate _ waiting sent _ event =>
      have counting := later.counting _ candidate
      refine ⟨fun _ => ?_, by simp⟩
      cases event with
      | granted granted =>
          obtain ⟨term, stood, grant⟩ := messages _ sent granted
          have termEq := once _ _ _ stood counting.stood
          refine { later with events := ?_, counting := ?_ }
          · intro caller args membership
            exact later.events caller args (by simpa using membership)
          · rintro _ ⟨⟩
            refine counting.granted ?_ waiting (termEq ▸ grant) ?_
            · rfl
            · rw [List.countP_append]
              rfl
      | _ =>
          refine { later with events := ?_, counting := ?_ }
          · intro caller args membership
            exact later.events caller args (by simpa using membership)
          · rintro _ ⟨⟩
            refine counting.step rfl rfl List.erase_sublist ?_
            rw [List.countP_append]
            exact Nat.le_refl _
  | repliedEvent _ _ _ _ receives =>
      refine ⟨fun _ => ?_, by simp⟩
      cases receives <;> exact later.push rfl rfl rfl rfl rfl nofun
  | steppedDown => exact ⟨fun _ => later.push rfl rfl rfl rfl rfl nofun, by simp⟩
  | crashed => exact ⟨nofun, by simp⟩
  | restarted down => simp [up] at down
  | called => exact ⟨fun _ => same rfl rfl rfl rfl, by simp [Msg.Polls]⟩
  | _ => exact ⟨fun _ => same rfl rfl rfl rfl, by simp⟩

theorem Polling.make {persister : Persister α} {me nextId : Nat}
    (made : make persister nextId = some sv) :
    Polling cfg obs me sv := by
  obtain ⟨applier, -, -, rfl⟩ := make_eq_some made
  exact ⟨by simp, by simp, by simp, by simp⟩

theorem Cluster.polling (run : Run (step cfg) allowed init labels s) :
    (∀ i, (s.servers i).up = true → Polling cfg s.obs i (s.servers i)) ∧
      ∀ msg ∈ s.net, msg.Polls s.obs := by
  refine global_invariant (fun _ s i sv => sv.up = true → Polling cfg s.obs i sv)
    (fun _ s msg => msg.Polls s.obs) ?_ ?_ ?_ run
  · exact fun _ _ => .make make_fresh
  · intro _ s i _ out _ _
    have grows : s.obs ⊆ (s.update i out).obs := List.subset_append_right ..
    exact ⟨fun j sv ok up => (ok up).mono grows, fun msg ok => ok.mono grows⟩
  · intro _ s i act out earlier servers messages _ _ steps
    cases up : (s.servers i).up with
    | true =>
        refine (servers i up).steps messages up (isolated earlier i up) ?_ steps
        intro role term term'
        rw [← stood_history, ← stood_history]
        exact (candidacies earlier i).term role term term'
    | false =>
        obtain ⟨-, made, msgs, -⟩ := steps.restarts up
        exact ⟨fun _ => .make made, by simp [msgs]⟩

/-- A vote is granted by the answer to its request. -/
theorem Steps.grants {net : List (Msg α)} {act : Act α} (steps : Steps cfg me net sv act out)
    {i candidate : Nat} (granted : .granted i term candidate ∈ out.obs) :
    sv.up = true ∧ ∃ caller args reply, .replyRequestVote caller args reply ∈ sv.todo ∧
      reply.voteStatus = .voteGranted ∧ i = me ∧ term = args.term ∧
      candidate = args.candidateID := by
  cases steps with
  | popped _ _ _ handles =>
      cases handles with
      | _ => simp at granted
  | executed up next executes =>
      cases executes with
      | @voteAnswered caller args reply =>
          dsimp only at granted
          split at granted
          case isTrue isGranted =>
            simp only [List.mem_singleton, Obs.granted.injEq] at granted
            obtain ⟨rfl, rfl, rfl⟩ := granted
            exact ⟨up, caller, args, reply, by simp [next], isGranted, rfl, rfl, rfl⟩
          case isFalse => cases granted
      | _ => simp at granted
  | applied _ applies => cases applies <;> simp at granted
  | _ => simp at granted

/-! ## Majorities -/

/-- The vote of a server supports a candidate in a term: its own, or one it has
answered with `VOTE_GRANTED`. -/
def Supports (obs : List (Obs α)) (voter : Nat) (term : Int) (candidate : Nat) : Prop :=
  (voter = candidate ∧ ∃ role, Stood obs candidate role term) ∨
    .granted voter term candidate ∈ obs

/-- A majority supports a candidate. -/
def Elected (cfg : Config) (obs : List (Obs α)) (candidate : Nat) (term : Int) : Prop :=
  ∃ voters ⊆ Finset.range cfg.peers, cfg.majorN ≤ voters.card ∧
    ∀ voter ∈ voters, Supports obs voter term candidate

theorem Elected.append {new obs : List (Obs α)} {candidate : Nat}
    (elected : Elected cfg obs candidate term) : Elected cfg (new ++ obs) candidate term := by
  obtain ⟨voters, peers, enough, supports⟩ := elected
  refine ⟨voters, peers, enough, fun voter membership => ?_⟩
  rcases supports voter membership with ⟨rfl, role, stood⟩ | granted
  · exact .inl ⟨rfl, role, stood_append.mpr (.inr stood)⟩
  · exact .inr (List.mem_append_right _ granted)

/-- A candidate that has counted a majority is elected. -/
theorem Counting.elected {cd : Candidate} (counting : Counting cfg obs me sv cd)
    (isPeer : me < cfg.peers) (enough : cfg.majorN ≤ cd.votes) :
    Elected cfg obs me cd.args.term := by
  obtain ⟨voters, granted, votes⟩ := counting.votes
  have notMe : me ∉ voters := fun membership => (granted me membership).2.1 rfl
  refine ⟨insert me voters, ?_, ?_, ?_⟩
  · intro voter membership
    rw [Finset.mem_range]
    rcases Finset.mem_insert.mp membership with rfl | other
    · exact isPeer
    · exact (granted voter other).1
  · rw [Finset.card_insert_of_notMem notMe]
    omega
  · intro voter membership
    rcases Finset.mem_insert.mp membership with rfl | other
    · exact .inl ⟨rfl, _, counting.stood⟩
    · exact .inr (granted voter other).2.2.2

/-- Two majorities share a peer. -/
theorem Config.majorities_meet {members members' : Finset Nat}
    (peers : members ⊆ Finset.range cfg.peers) (peers' : members' ⊆ Finset.range cfg.peers)
    (enough : cfg.majorN ≤ members.card) (enough' : cfg.majorN ≤ members'.card) :
    ∃ peer, peer ∈ members ∧ peer ∈ members' := by
  have more : (Finset.range cfg.peers).card < members.card + members'.card := by
    rw [Finset.card_range]
    unfold Config.majorN at enough enough'
    omega
  obtain ⟨peer, both⟩ := Finset.inter_nonempty_of_card_lt_card_add_card peers peers' more
  exact ⟨peer, Finset.mem_inter.mp both⟩

theorem Elected.share {i j : Nat} {term term' : Int} (elected : Elected cfg obs i term)
    (elected' : Elected cfg obs j term') :
    ∃ voter, Supports obs voter term i ∧ Supports obs voter term' j := by
  obtain ⟨voters, peers, enough, supports⟩ := elected
  obtain ⟨voters', peers', enough', supports'⟩ := elected'
  obtain ⟨voter, member, member'⟩ := Config.majorities_meet peers peers' enough enough'
  exact ⟨voter, supports voter member, supports' voter member'⟩

/-- Every leader has been elected by a majority. -/
theorem Cluster.elected (run : Run (step cfg) allowed init labels s) {i : Nat}
    (activated : Activated s.obs i term) : Elected cfg s.obs i term := by
  refine Run.invariant (fun _ s => ∀ i term, Activated s.obs i term → Elected cfg s.obs i term)
    ?_ ?_ run i term activated
  · exact fun _ _ ⟨_, _, membership⟩ => by simp [init] at membership
  · intro _ s label s' earlier before _ taken i term activated
    obtain ⟨out, isPeer, steps, rfl⟩ := step_steps taken
    rcases activates earlier steps with inactive | ⟨log, cd, up, obs, -, standing, votes⟩
    · exact (before i term (inactive.activated_iff.mp activated)).append
    · obtain ⟨role, log', membership⟩ := activated
      rcases List.mem_append.mp membership with new | old
      · simp only [obs, List.mem_cons, Obs.activated.injEq, reduceCtorEq, List.not_mem_nil,
          or_false] at new
        obtain ⟨rfl, -, rfl, -⟩ := new
        rw [standing.term]
        exact (((polling earlier).1 _ up).counting cd standing.role |>.elected isPeer votes).append
      · exact (before i term ⟨role, log', old⟩).append

/-- The votes a server has granted are votes it has cast. -/
theorem Cluster.voted_of_granted (run : Run (step cfg) votesOnce init labels s) {i candidate : Nat}
    (granted : .granted i term candidate ∈ s.obs) : Voted s.obs i term candidate := by
  refine Run.invariant (fun _ s => ∀ i term candidate, .granted i term candidate ∈ s.obs →
    Voted s.obs i term candidate) (by simp [init]) ?_ run i term candidate granted
  intro _ s label s' earlier before _ taken i term candidate granted
  obtain ⟨out, -, steps, rfl⟩ := step_steps taken
  rcases List.mem_append.mp granted with new | old
  · obtain ⟨up, caller, args, reply, pending, isGranted, rfl, rfl, rfl⟩ := steps.grants new
    have voted := ((ballots earlier _).2 up).reply caller args reply pending isGranted
    exact voted_append.mpr (.inr (voted_history.mp voted))
  · exact voted_append.mpr (.inr (before i term candidate old))

/-- A server supports one candidate in a term. -/
theorem Cluster.supports_unique (run : Run (step cfg) votesOnce init labels s) {voter i j : Nat}
    (supports : Supports s.obs voter term i) (supports' : Supports s.obs voter term j) : i = j := by
  obtain ⟨ballots, -⟩ := ballots run voter
  have exclusive {role candidate : Nat} (stood : Stood s.obs voter role term) :
      .granted voter term candidate ∉ s.obs := fun granted =>
    ballots.exclusive role term candidate (stood_history.mpr stood)
      (voted_history.mpr (voted_of_granted run granted))
  rcases supports with ⟨rfl, role, stood⟩ | granted <;>
    rcases supports' with ⟨rfl, role', stood'⟩ | granted'
  · rfl
  · exact (exclusive stood granted').elim
  · exact (exclusive stood' granted).elim
  · exact ballots.unique term i j (voted_history.mpr (voted_of_granted run granted))
      (voted_history.mpr (voted_of_granted run granted'))

/-- Two majorities share a voter, who supports one of their candidates only. -/
theorem Cluster.activated_unique (run : Run (step cfg) votesOnce init labels s) {i j : Nat}
    (activated : Activated s.obs i term) (activated' : Activated s.obs j term) : i = j := by
  obtain ⟨voter, supports, supports'⟩ := (elected run activated).share (elected run activated')
  exact supports_unique run supports supports'

/-- In every run in which no server forgets a term it stood in, and none takes a
vote of an earlier term for one of a term it stands in, there is one leader in a
term, and the vote of a server supports one candidate in a term. -/
theorem election_safety {cfg : Config} {labels : List (Label α)} {s : Cluster α}
    (run : Run (Cluster.step cfg) votesOnce Cluster.init labels s) (term : Int) :
    (∀ i j, Activated s.obs i term → Activated s.obs j term → i = j) ∧
      ∀ voter i j, Supports s.obs voter term i → Supports s.obs voter term j → i = j :=
  ⟨fun _ _ => Cluster.activated_unique run, fun _ _ _ => Cluster.supports_unique run⟩

theorem election_safety_firstCommit :
    ∃ s, Run (Cluster.step (.doubling 3)) votesOnce Cluster.init firstCommit s ∧
      Activated s.obs 0 1 ∧ ∀ j, Activated s.obs j 1 → j = 0 := by
  obtain ⟨s, run, activated⟩ : ∃ s, Run (Cluster.step (.doubling 3)) votesOnce Cluster.init
      firstCommit s ∧ Activated s.obs 0 1 :=
    Run.exists_of_runSteps (by decide +kernel)
  exact ⟨s, run, activated, fun j activated' => (election_safety run 1).1 j 0 activated' activated⟩

/-- Server 1 votes for server 0 in term 1.  Both stand in term 2, and server 1 takes
the vote it remembers for one of term 2; server 2 votes for server 1. -/
def twoLeaders : List (Label Nat) :=
  firstElection ++
  Label.all 1 [.pop, .receive 0, .pop, .exec] ++
  Label.all 0 [.election, .pop, .exec, .pop, .heartBeat, .pop, .exec, .pop] ++
  Label.all 1 [.heartBeat, .pop, .exec, .pop, .receive 3, .pop, .exec] ++
  Label.all 0 [.receive 7, .pop, .exec, .pop, .exec] ++
  Label.all 2 [.pop, .receive 6, .pop, .exec] ++
  Label.all 1 [.receive 8, .pop, .exec, .pop, .exec]

/-- Two servers lead in term 2: `startElection` leaves `voteFor` as it was. -/
theorem two_leaders_in_one_term :
    ∃ s, Run (Cluster.step (.doubling 3)) (fun _ _ => True) Cluster.init twoLeaders s ∧
      Activated s.obs 0 2 ∧ Activated s.obs 1 2 :=
  Run.exists_of_runSteps (by decide +kernel)

end GoLab.Raft
