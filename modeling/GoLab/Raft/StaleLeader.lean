import GoLab.Raft.Correspondence
import GoLab.Raft.Replicators

/-!
# The term a stale leader learns

`setTerm` asserts that the new term is larger, and the leader calls it for a
`StaleLeaderEvent` without a check of its own.  A reply `ENTRY_STALE` carries a larger term
than the request it answers, a replicator builds its requests in the term of its leader or
a later one, and the term of a leader does not change as long as it takes events.
-/

namespace GoLab.Raft

variable {α : Type}
variable {cfg : Config} {me : Nat} {allowed : Cluster α → Label α → Prop} {labels : List (Label α)}
  {s : Cluster α} {sv : Server α} {out : Out α} {act : Act α} {net : List (Msg α)} {ev : Event α}

/-! ## Stale replies -/

/-- An answer `ENTRY_STALE` carries a term larger than that of its request. -/
def Server.AnswersStale (sv : Server α) : Prop :=
  ∀ caller args reply, .replyAppendEntries caller args reply ∈ sv.todo →
    reply.entryStatus = .entryStale → args.term < reply.term

theorem Handles.answersStale (handles : Handles cfg me sv ev out) (cursors : sv.logs.Ok)
    (idle : sv.todo = []) :
    out.server.AnswersStale := by
  intro caller args reply due stale
  cases handles with
  | appendAnswered _ status =>
      cases List.mem_singleton.mp due
      rcases status with ⟨-, smaller, isTerm⟩ | ⟨isDefault, -⟩
      · rw [isTerm]
        exact smaller
      · cases stale.symm.trans isDefault
  | appended _ _ _ _ _ result =>
      have isReply := (List.mem_append.mp due).resolve_left (by split <;> split <;> simp)
      cases List.mem_singleton.mp isReply
      cases Logs.followerAppendEntries_appends cursors result <;> cases stale
  | installed | candidateHold | leaderHold =>
      simp only [List.mem_cons, reduceCtorEq, Op.replyAppendEntries.injEq, List.not_mem_nil,
        or_false, false_or] at due
      obtain ⟨-, -, rfl⟩ := due
      cases stale
  | counted =>
      dsimp only at due
      split at due <;> simp at due
  | confirmed => simp at due
  | _ => simp [idle] at due

theorem Steps.answersStale (steps : Steps cfg me net sv act out) (cursors : sv.logs.Ok)
    (ok : sv.up = true → sv.AnswersStale) (stays : out.server.up = true) :
    out.server.AnswersStale := by
  cases steps with
  | popped _ idle _ handles => exact handles.answersStale cursors idle
  | crashed => cases stays
  | restarted _ made =>
      obtain ⟨applier, -, -, rfl⟩ := make_eq_some made
      simp [Server.AnswersStale]
  | executed up next executes =>
      have later {caller : Caller} {args : AppendEntriesArgs α} {reply : AppendEntriesReply}
          (due : .replyAppendEntries caller args reply ∈ sv.todo.tail) :
          reply.entryStatus = .entryStale → args.term < reply.term :=
        ok up caller args reply (List.mem_of_mem_tail due)
      rw [next] at later
      cases executes with
      | committed | voteGiven | voteDenied =>
          intro caller args reply due
          exact later (by simpa using due)
      | _ => exact fun caller args reply due => later due
  | applied up applies => cases applies <;> exact ok up
  | _ => exact ok ‹_›

/-- A reply `ENTRY_STALE` answers a request of a smaller term. -/
def Msg.Outdates (net : List (Msg α)) : Msg α → Prop
  | .appendEntriesReply caller reply => reply.entryStatus = .entryStale →
      ∃ dst args, .appendEntries caller dst args ∈ net ∧ args.term < reply.term
  | _ => True

theorem Steps.mem_stale (steps : Steps cfg me net sv act out) {caller : Caller}
    {reply : AppendEntriesReply} (isSent : .appendEntriesReply caller reply ∈ out.msgs)
    (stale : reply.entryStatus = .entryStale) : sv.up = true ∧ ∃ args reply',
      .replyAppendEntries caller args reply' ∈ sv.todo ∧ reply'.entryStatus = .entryStale ∧
        reply.term = reply'.term := by
  cases steps with
  | popped _ _ _ handles =>
      cases handles with
      | ignored refusal =>
          rcases refusal with rfl | ⟨_, rfl⟩ | ⟨_, rfl⟩
          · cases isSent
          · simp at isSent
          · cases List.mem_singleton.mp isSent
            cases stale
      | _ => simp at isSent
  | executed up next executes =>
      cases executes with
      | @answered _ args reply' =>
          cases List.mem_singleton.mp isSent
          exact ⟨up, args, reply', by simp [next], stale, rfl⟩
      | _ => simp at isSent
  | applied _ applies => cases applies <;> simp at isSent
  | _ => simp at isSent

theorem Cluster.outdates (run : Run (step cfg) allowed init labels s) :
    (∀ i, (s.servers i).up = true → (s.servers i).AnswersStale) ∧
      ∀ msg ∈ s.net, msg.Outdates s.net := by
  refine global_invariant (fun _ _ _ sv => sv.up = true → sv.AnswersStale)
    (fun _ s msg => msg.Outdates s.net) ?_ ?_ ?_ run
  · exact fun _ _ => by simp [Server.AnswersStale, Server.initial]
  · intro _ s i _ out _ _
    refine ⟨fun _ _ ok => ok, fun msg outdates => ?_⟩
    cases msg with
    | appendEntriesReply caller reply =>
        intro stale
        obtain ⟨dst, args, sent, smaller⟩ := outdates stale
        exact ⟨dst, args, List.mem_append_left _ sent, smaller⟩
    | _ => trivial
  · intro _ s i act out earlier before _ _ _ steps
    refine ⟨steps.answersStale (sound earlier i).memory.cursors (before i), fun msg isSent => ?_⟩
    cases msg with
    | appendEntriesReply caller reply =>
        intro stale
        obtain ⟨up, args, reply', due, isStale, term⟩ := steps.mem_stale isSent stale
        refine ⟨i, args, ?_, ?_⟩
        · exact List.mem_append_left _ (((addressed earlier).1 i up).answers caller args reply' due)
        · rw [term]
          exact before i up caller args reply' due isStale
    | _ => trivial

/-! ## The terms of requests -/

/-- The requests of a server belong to roles it has had. -/
theorem Roles.calls_old {history : List (Obs α)} (roles : Roles cfg me sv history)
    (steps : Steps cfg me net sv act out) :
    Calls (fun repl _ => repl.ld < sv.nextId) out.server := by
  have before : Calls (fun repl _ => repl.ld < sv.nextId) sv :=
    fun repl inside _ _ => roles.replFresh repl inside
  refine before.steps (fun _ _ _ older => older) steps ?_ fun _ _ _ _ _ _ _ older => older
  exact fun _ repl _ _ _ found _ => roles.replFresh repl (List.mem_of_getElem? found)

/-- A replicator builds its requests in the term of its leader or a later one. -/
theorem Cluster.calls_current (run : Run (step cfg) allowed init labels s) (i : Nat) :
    Calls (fun repl args => ∀ term, Led (s.history i) i repl.ld term → term ≤ args.term)
      (s.servers i) := by
  refine local_invariant (fun i sv history =>
    Calls (fun repl args => ∀ term, Led history i repl.ld term → term ≤ args.term) sv) ?_ ?_ run i
  · simp [Calls, Server.initial]
  · intro _ s i act out earlier before _ steps repl inside call isCall term led
    have onward := before.steps (fun _ _ _ current => current) steps ?_
      (fun _ _ _ _ _ _ _ current => current)
    · obtain ⟨log, membership⟩ := led
      rcases List.mem_append.mp membership with isNew | wasLed
      · cases leads earlier steps with
        | kept quiet => exact (quiet.inactive _ _ _ _ isNew).elim
        | pushed _ _ _ _ _ _ _ obs => simp [obs] at isNew
        | activated up _ _ _ _ _ _ obs =>
            have older := (roles earlier i up).calls_old steps repl inside call isCall
            simp only [obs, List.mem_cons, Obs.activated.injEq, reduceCtorEq, List.not_mem_nil,
              or_false] at isNew
            omega
      · exact onward repl inside call isCall term ⟨log, wasLed⟩
    · intro _ repl args _ _ _ builds term led
      rw [builds.term_eq]
      have terms := terms earlier i
      exact Int.le_trans (terms.activated term ⟨_, led⟩) terms.disk

/-! ## The events of a leader -/

theorem Replicator.receive_stale {repl : Replicator α} {id role : Nat} {reply : AppendEntriesReply}
    {newTerm : Int} (pushes : (repl.receive sv id reply).2 = some (.staleLeader role newTerm)) :
    ∃ call, repl.pc = .sending call ∧ call.id = id ∧ reply.entryStatus = .entryStale ∧
      sv.leading role = true ∧ role = repl.ld ∧ newTerm = reply.term := by
  obtain ⟨repl', receives⟩ : ∃ repl',
      Receives sv repl id reply repl' (some (.staleLeader role newTerm)) :=
    ⟨_, Replicator.receive_receives (Prod.ext rfl pushes)⟩
  cases receives with
  | @stale call sent leading stale =>
      refine ⟨call, sent, ?_, stale, leading, rfl, rfl⟩
      by_contra other
      simp [Replicator.receive, sent, other] at pushes

/-- A step that brings a `StaleLeaderEvent`: the reply to a call of a replicator of the
present leader. -/
structure Deposes (me : Nat) (net : List (Msg α)) (sv : Server α) (role : Nat) (newTerm : Int)
    (sv' : Server α) : Prop where
  call : ∃ repl ∈ sv.repls, ∃ call reply, repl.pc = .sending call ∧ role = repl.ld ∧
    .appendEntriesReply ⟨me, call.id⟩ reply ∈ net ∧ reply.entryStatus = .entryStale ∧
    newTerm = reply.term
  leading : sv.leading role = true
  same : sv'.role = sv.role ∧ sv'.term = sv.term ∧ sv'.todo = sv.todo

section

variable {role : Nat} {newTerm : Int}

theorem Server.push_stale {pushed : Server α} (result : sv.push ev = some pushed)
    (other : .staleLeader role newTerm ≠ ev) (membership : .staleLeader role newTerm ∈ pushed.evCh)
     :
    .staleLeader role newTerm ∈ sv.evCh := by
  obtain ⟨-, rfl⟩ := Server.push_eq_some.mp result
  simpa [other] using membership

theorem Server.Takes.stale {server : Server α} (takes : sv.Takes me net act server)
    (membership : .staleLeader role newTerm ∈ server.evCh) :
    .staleLeader role newTerm ∈ sv.evCh ∨ Deposes me net sv role newTerm server := by
  cases takes with
  | event arrives _ pushed =>
      exact .inl (push_stale pushed (by cases arrives <;> simp) membership)
  | reply sent received =>
      obtain ⟨repl, repl', ev?, found, receives, -, rfl⟩ := replReceive_eq_some received
      rcases List.mem_append.mp membership with before | isNew
      · exact .inl before
      · obtain rfl := Option.mem_toList.mp isNew
        obtain ⟨call, sending, rfl, stale, leading, isRole, isTerm⟩ :=
          Replicator.receive_stale (congrArg Prod.snd receives)
        exact .inr ⟨⟨repl, List.mem_of_getElem? found, call, _, sending, isRole,
          List.mem_of_getElem? sent, stale, isTerm⟩, leading, rfl, rfl, rfl⟩
  | vote _ polled =>
      obtain ⟨_, -, -, -, -, polls⟩ := votePolled_polls polled
      cases polls with
      | quiet => exact .inl membership
      | event event =>
          rcases List.mem_append.mp membership with before | isNew
          · exact .inl before
          · cases event <;> simp at isNew

theorem Steps.stale_kept (steps : Steps cfg me net sv act out) (up : sv.up = true)
    (notInput : act.isInput = false) (membership : .staleLeader role newTerm ∈ out.server.evCh) :
    .staleLeader role newTerm ∈ sv.evCh := by
  cases steps with
  | popped _ _ next handles =>
      rw [handles.evCh_eq] at membership
      exact next ▸ List.mem_cons_of_mem _ membership
  | executed _ _ executes => cases executes <;> simp_all
  | applied _ applies => cases applies <;> exact membership
  | arrived input | polled input | polledEvent input | replied input | repliedEvent input =>
      cases input.symm.trans notInput
  | restarted down => simp [up] at down
  | _ => simp_all

theorem Server.act_stale (up : sv.up = true) (result : sv.act cfg me net act = some out)
    (membership : .staleLeader role newTerm ∈ out.server.evCh) :
    .staleLeader role newTerm ∈ sv.evCh ∨ Deposes me net sv role newTerm out.server := by
  by_cases input : act.isInput = true
  · obtain ⟨server, rfl, takes⟩ := Server.act_takes input result
    exact takes.stale membership
  · have steps := Server.act_steps up result
    exact .inl (steps.stale_kept up (Bool.not_eq_true _ ▸ input) membership)

end

/-! ## A leader that takes events keeps its term -/

section

/-- A new role finds an empty channel. -/
theorem Steps.role_kept (steps : Steps cfg me net sv act out) (up : sv.up = true)
    (isolated : Isolated sv) (still : ev ∈ out.server.evCh) :
    out.server.roleId = sv.roleId ∧
      ∀ rc, sv.role = .leader rc → ∃ rc', out.server.role = .leader rc' := by
  cases steps with
  | popped _ _ next handles =>
      rw [handles.evCh_eq] at still
      cases handles with
      | becameFollower | becameCandidate | becameLeader =>
          obtain ⟨-, rfl⟩ := isolated.trans_last next
          cases still
      | confirmed => exact ⟨rfl, fun _ _ => ⟨_, rfl⟩⟩
      | counted _ candidate => exact ⟨rfl, fun _ leader => by cases candidate.symm.trans leader⟩
      | _ => exact ⟨rfl, fun rc leader => ⟨rc, leader⟩⟩
  | executed _ _ executes =>
      cases executes with
      | started => exact ⟨rfl, fun _ _ => ⟨_, rfl⟩⟩
      | _ => exact ⟨rfl, fun rc leader => ⟨rc, leader⟩⟩
  | applied _ applies => cases applies <;> exact ⟨rfl, fun rc leader => ⟨rc, leader⟩⟩
  | polled _ _ candidate | polledEvent _ _ candidate =>
      exact ⟨rfl, fun _ leader => by cases candidate.symm.trans leader⟩
  | restarted down => simp [up] at down
  | _ => exact ⟨rfl, fun rc leader => ⟨rc, leader⟩⟩

/-- Whoever raises the term of a leader stops it in the same handler. -/
theorem Steps.office_kept (steps : Steps cfg me net sv act out) (isolated : Isolated sv)
    {rc : ReplCounter} (leader : sv.role = .leader rc) (still : ev ∈ out.server.evCh)
    (stays : out.server.up = true) (running : out.server.active = true)
    (steady : out.server.steady = true) :
    sv.active = true ∧ sv.steady = true ∧ out.server.term = sv.term := by
  cases steps with
  | popped _ idle next handles =>
      have before : sv.steady = true := by simp [Server.steady, idle]
      rw [handles.evCh_eq] at still
      cases handles with
      | becameFollower | becameCandidate | becameLeader =>
          obtain ⟨-, rfl⟩ := isolated.trans_last next
          cases still
      | leaderVote | leaderHold | staleLeader => simp [Server.steady] at steady
      | installed _ follower | appended _ follower | voteGiven _ follower | voteDenied _ follower
      | heartBeat _ follower => cases leader.symm.trans follower
      | candidateVote _ candidate | candidateHold _ candidate | electionOver _ candidate
      | staleCandidate _ candidate | counted _ candidate => cases leader.symm.trans candidate
      | _ => exact ⟨running, before, rfl⟩
  | executed _ next executes =>
      cases executes with
      | stopped => cases running
      | wasStopped stopped => exact (Bool.false_ne_true (stopped.symm.trans running)).elim
      | activated =>
          obtain ⟨-, -, empty⟩ := isolated.entering (by simp [next])
          simp [empty] at still
      | _ => exact ⟨running, by simpa [Server.steady, next] using steady, rfl⟩
  | applied _ applies => cases applies <;> exact ⟨running, steady, rfl⟩
  | crashed => cases stays
  | steppedDown => cases running
  | polled _ _ candidate | polledEvent _ _ candidate => cases leader.symm.trans candidate
  | restarted _ made =>
      obtain ⟨applier, -, -, server⟩ := make_eq_some made
      simp [server] at running
  | _ => exact ⟨running, steady, rfl⟩

end

/-- The `StaleLeaderEvent`s of a server are for the present leader, and carry a larger term
than its own as long as it takes events. -/
def Server.Deposed (sv : Server α) : Prop :=
  ∀ role newTerm, .staleLeader role newTerm ∈ sv.evCh → (∃ rc, sv.role = .leader rc) ∧
    (sv.active = true → sv.steady = true → sv.term < newTerm)

/-- All requests of a call carry the term of the call. -/
theorem Cluster.calls_term (run : Run (step cfg) allowed init labels s) {i : Nat}
    {repl : Replicator α} (inside : repl ∈ (s.servers i).repls) {call : Call α}
    (calling : repl.calling = some call) {dst : Nat} {args : AppendEntriesArgs α}
    (sent : .appendEntries ⟨i, call.id⟩ dst args ∈ s.net) : args.term = call.args.term := by
  have numbered :
      Numbered (fun _ built _ args => args.term = built.term) s.net i (s.servers i) := by
    refine numbered ?_ (fun _ _ _ _ _ _ _ _ => rfl) run i
    intro _ _ _ _ _ renewed _ _ isTerm
    exact isTerm.trans renewed.symm
  exact numbered.same repl inside call calling dst args sent

/-- The reply that deposes a leader carries a larger term than its own. -/
theorem Cluster.deposed_of_call (run : Run (step cfg) allowed init labels s) {i : Nat}
    (up : (s.servers i).up = true) {role : Nat} {newTerm : Int} {sv' : Server α}
    (deposes : Deposes i s.net (s.servers i) role newTerm sv') :
    ∃ rc, (s.servers i).role = .leader rc ∧
      ((s.servers i).steady = true → (s.servers i).term < newTerm) := by
  obtain ⟨repl, inside, call, reply, sending, rfl, sent, stale, rfl⟩ := deposes.call
  have leading := deposes.leading
  simp only [Server.leading, Bool.and_eq_true, beq_iff_eq] at leading
  obtain ⟨running, present⟩ := leading
  have roles := roles run i up
  obtain ⟨rc, leader⟩ := roles.present repl inside present.symm
  refine ⟨rc, leader, fun steady => ?_⟩
  have led := roles.leader rc leader (.inl running) steady
  rw [present] at led
  obtain ⟨dst, args, request, smaller⟩ := (outdates run).2 _ sent stale
  calc (s.servers i).term
      ≤ call.args.term :=
        calls_current run i repl inside call (by rw [sending]; rfl) _ led
    _ = args.term :=
        (calls_term run inside (by simp [Replicator.calling, sending]) request).symm
    _ < reply.term := smaller

theorem Cluster.deposed (run : Run (step cfg) allowed init labels s) {i : Nat}
    (up : (s.servers i).up = true) : (s.servers i).Deposed := by
  refine outcome_invariant (fun _ sv => sv.up = true → sv.Deposed) ?_ ?_ run i up
  · intro i _ role newTerm membership
    simp [Server.initial] at membership
  · intro _ s label out earlier _ outcome ok stays role newTerm membership
    have steps := (outcome_steps outcome).2
    cases up : (s.servers label.server).up with
    | false =>
        obtain ⟨-, made, -⟩ := steps.restarts up
        obtain ⟨applier, -, -, server⟩ := make_eq_some made
        simp [server] at membership
    | true =>
        have isolated := isolated earlier label.server up
        rcases Server.act_stale up (outcome_act outcome up) membership with before | deposes
        · obtain ⟨⟨rc, leader⟩, larger⟩ := ok up role newTerm before
          refine ⟨(steps.role_kept up isolated membership).2 rc leader, fun running steady => ?_⟩
          obtain ⟨wasRunning, wasSteady, term⟩ :=
            steps.office_kept isolated leader membership stays running steady
          rw [term]
          exact larger wasRunning wasSteady
        · obtain ⟨rc, leader, larger⟩ := deposed_of_call earlier up deposes
          obtain ⟨role', term, todo⟩ := deposes.same
          refine ⟨⟨rc, role'.trans leader⟩, fun _ steady => ?_⟩
          rw [term]
          exact larger (by rwa [Server.steady, ← todo])

end GoLab.Raft
