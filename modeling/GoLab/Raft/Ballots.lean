import GoLab.Raft.Roles

/-!
# The votes of one server

A server votes for itself when it stands for election, and for another candidate
when it grants a request.  It votes once in a term as long as it does not forget a
term in which it stood, and does not take a vote of an earlier term for one of the
term in which it stands: `startElection` neither persists the term nor resets
`voteFor`.
-/

namespace GoLab.Raft

variable {α : Type}
variable {s : Cluster α} {out : Out α} {term : Int} {rest : List (Op α)} {op : Op α}

/-- The server has stood for election in a term, in the candidate role `role`. -/
def Stood (history : List (Obs α)) (me role : Nat) (term : Int) : Prop :=
  ∃ log, .selfVote me role term log ∈ history

/-- The server has voted for another candidate in a term. -/
def Voted (history : List (Obs α)) (me : Nat) (term : Int) (candidate : Nat) : Prop :=
  ∃ log, .voted me term candidate log ∈ history

/-- The term in which a server stands, for the observation that it does. -/
def Obs.stoodIn (me : Nat) : Obs α → Option Int
  | .selfVote i _ term _ => if i = me then some term else none
  | _ => none

theorem Obs.stoodIn_eq_some {me : Nat} {obs : Obs α} :
    obs.stoodIn me = some term ↔ ∃ role log, obs = .selfVote me role term log := by
  cases obs <;> simp [stoodIn, eq_comm]

/-- The event that the processor takes in a step, if it takes one. -/
def Cluster.popped (s : Cluster α) (label : Label α) : Option (Event α) :=
  match label.act with
  | .pop => (s.servers label.server).evCh.head?
  | _ => none

/-- The vote that an event asks for. -/
def Event.ballot : Event α → Option RequestVoteArgs
  | .requestVote _ args => some args
  | _ => none

/-- The log request that an event carries. -/
def Event.request : Event α → Option (AppendEntriesArgs α)
  | .appendEntries _ args => some args
  | _ => none

/-- The server restarts in a step. -/
def Act.isRestart : Act α → Bool
  | .restart => true
  | _ => false

/-- A server restarts with the term of its last election at least, and repeats a
vote in terms in which it has not stood only. -/
def votesOnce (s : Cluster α) (label : Label α) : Prop :=
  (label.act.isRestart = true → ∀ obs ∈ s.obs, ∀ term ∈ obs.stoodIn label.server,
    term ≤ (s.servers label.server).persister.term) ∧
  ∀ args ∈ (s.popped label).bind Event.ballot,
    args.term = (s.servers label.server).term →
    (s.servers label.server).voteFor = some args.candidateID →
    ∀ obs ∈ s.obs, obs.stoodIn label.server ≠ some args.term

instance (s : Cluster α) (label : Label α) : Decidable (votesOnce s label) :=
  inferInstanceAs (Decidable (_ ∧ _))

/-- Where a vote that a candidate or leader is about to grant stands in the
handler: the new term is on disk when it is granted. -/
inductive GrantDue (sv : Server α) (caller : Caller) (args : RequestVoteArgs) : Prop where
  | unsaved (todo : sv.todo = [.persistState, .grantVote caller args,
      .transRole .followerFromLeader])
  | leaving (saved : sv.persister.term = sv.term)
      (todo : sv.todo = [.transRole .followerFromCandidate, .grantVote caller args])
  | next {rest : List (Op α)} (saved : sv.persister.term = sv.term)
      (todo : sv.todo = .grantVote caller args :: rest)
      (only : ∀ caller args, .grantVote caller args ∉ rest)

/-- A vote that is granted next. -/
theorem GrantDue.head {sv : Server α} {caller : Caller} {args : RequestVoteArgs}
    (due : GrantDue sv caller args) (next : sv.todo = .grantVote caller args :: rest) :
    sv.persister.term = sv.term ∧ ∀ caller args, .grantVote caller args ∉ rest := by
  cases due with
  | unsaved todo | leaving _ todo =>
      rw [next] at todo
      cases (List.cons.inj todo).1
  | next saved todo only =>
      rw [next] at todo
      exact ⟨saved, (List.cons.inj todo).2 ▸ only⟩

/-- The votes of a server, as its history and its persister have them. -/
structure Ballots (me : Nat) (sv : Server α) (history : List (Obs α)) : Prop where
  saved : ∀ term candidate, Voted history me term candidate → term ≤ sv.persister.term
  exclusive : ∀ role term candidate, Stood history me role term →
    ¬ Voted history me term candidate
  unique : ∀ term candidate candidate', Voted history me term candidate →
    Voted history me term candidate' → candidate = candidate'
  remembered : ∀ candidate, sv.persister.voteFor = some candidate →
    Voted history me sv.persister.term candidate ∨ ∃ role, Stood history me role sv.persister.term

/-- The votes of a server that runs. -/
structure Voting (me : Nat) (sv : Server α) (history : List (Obs α)) : Prop where
  stood : ∀ role term, Stood history me role term → term ≤ sv.term
  remembered : ∀ candidate, sv.voteFor = some candidate →
    Voted history me sv.term candidate ∨ ∃ role, Stood history me role sv.term
  due : ∀ caller args, .grantVote caller args ∈ sv.todo → GrantDue sv caller args ∧
    args.term = sv.term ∧ (∀ role, ¬ Stood history me role sv.term) ∧
    ∀ candidate, ¬ Voted history me sv.term candidate
  reply : ∀ caller args reply, .replyRequestVote caller args reply ∈ sv.todo →
    reply.voteStatus = .voteGranted → Voted history me args.term args.candidateID

/-! ## Steps without a vote -/

/-- No vote is cast. -/
structure NoVote (obs : List (Obs α)) : Prop where
  stood : ∀ me role term, ¬ Stood obs me role term
  voted : ∀ me term candidate, ¬ Voted obs me term candidate

theorem stood_append {new history : List (Obs α)} {me role : Nat} :
    Stood (new ++ history) me role term ↔ Stood new me role term ∨ Stood history me role term := by
  simp [Stood, exists_or]

theorem voted_append {new history : List (Obs α)} {me candidate : Nat} :
    Voted (new ++ history) me term candidate ↔
      Voted new me term candidate ∨ Voted history me term candidate := by
  simp [Voted, exists_or]

namespace NoVote

variable {new history : List (Obs α)} {me role candidate : Nat}

theorem stood_iff (quiet : NoVote new) :
    Stood (new ++ history) me role term ↔ Stood history me role term := by
  simp [stood_append, quiet.stood]

theorem voted_iff (quiet : NoVote new) :
    Voted (new ++ history) me term candidate ↔ Voted history me term candidate := by
  simp [voted_append, quiet.voted]

theorem nil : NoVote ([] : List (Obs α)) := ⟨by simp [Stood], by simp [Voted]⟩

theorem raiseObs (me : Nat) (sv : Server α) (term : Int) : NoVote (sv.raiseObs me term) := by
  exact ⟨by simp [Stood], by simp [Voted]⟩

end NoVote

/-- The term stays with its vote, or is raised and has none yet. -/
def Server.KeepsVote (sv sv' : Server α) : Prop :=
  (sv'.term = sv.term ∧ sv'.voteFor = sv.voteFor) ∨ (sv.term < sv'.term ∧ sv'.voteFor = none)

theorem Server.keepsVote_raiseTo (sv : Server α) (term : Int) : sv.KeepsVote (sv.raiseTo term) := by
  unfold KeepsVote raiseTo
  dsimp only
  split
  case isTrue larger => exact .inr ⟨larger, rfl⟩
  case isFalse => exact .inl ⟨rfl, rfl⟩

namespace Ballots

variable {me : Nat} {sv sv' : Server α} {history new : List (Obs α)}

/-- A step without a vote, whatever it saves. -/
theorem quiet (ok : Ballots me sv history) (quiet : NoVote new)
    (disk : sv.persister.term ≤ sv'.persister.term)
    (remembered : ∀ candidate, sv'.persister.voteFor = some candidate →
      Voted history me sv'.persister.term candidate ∨
        ∃ role, Stood history me role sv'.persister.term) :
    Ballots me sv' (new ++ history) where
  saved term candidate voted := by
    rw [quiet.voted_iff] at voted
    exact Int.le_trans (ok.saved term candidate voted) disk
  exclusive role term candidate := by
    rw [quiet.stood_iff, quiet.voted_iff]
    exact ok.exclusive role term candidate
  unique term candidate candidate' := by
    rw [quiet.voted_iff, quiet.voted_iff]
    exact ok.unique term candidate candidate'
  remembered := by simpa only [quiet.voted_iff, quiet.stood_iff] using remembered

theorem same (ok : Ballots me sv history) (quiet : NoVote new)
    (persister : sv'.persister = sv.persister) : Ballots me sv' (new ++ history) :=
  ok.quiet quiet (Int.le_of_eq (by rw [persister])) (by rw [persister]; exact ok.remembered)

theorem save (ok : Ballots me sv history) (terms : Terms me sv history)
    (voting : Voting me sv history) (quiet : NoVote new) (term : sv'.persister.term = sv.term)
    (voteFor : sv'.persister.voteFor = sv.voteFor) : Ballots me sv' (new ++ history) :=
  ok.quiet quiet (by rw [term]; exact terms.disk) (by rw [term, voteFor]; exact voting.remembered)

theorem raiseTo (ok : Ballots me sv history) (terms : Terms me sv history) (quiet : NoVote new)
    (persister : sv'.persister = (sv.raiseTo term).persister) :
    Ballots me sv' (new ++ history) := by
  refine ok.quiet quiet (by rw [persister]; exact (terms.raiseTo term).1) ?_
  rw [persister]
  unfold Server.raiseTo
  dsimp only
  split
  case isTrue => exact nofun
  case isFalse => exact ok.remembered

end Ballots

namespace Voting

variable {me : Nat} {sv sv' : Server α} {history new : List (Obs α)}

section

variable (ok : Voting me sv history) (quiet : NoVote new) (keeps : sv.KeepsVote sv')
include ok quiet keeps

theorem remembered_of_keepsVote {candidate : Nat} (isVote : sv'.voteFor = some candidate) :
    Voted (new ++ history) me sv'.term candidate ∨
      ∃ role, Stood (new ++ history) me role sv'.term := by
  simp only [quiet.voted_iff, quiet.stood_iff]
  rcases keeps with ⟨term, voteFor⟩ | ⟨-, none⟩
  · rw [term]
    exact ok.remembered candidate (voteFor ▸ isVote)
  · simp [none] at isVote

theorem stood_of_keepsVote {role : Nat} (stood : Stood (new ++ history) me role term) :
    term ≤ sv'.term := by
  rw [quiet.stood_iff] at stood
  have bound := ok.stood role term stood
  rcases keeps with ⟨same, -⟩ | ⟨larger, -⟩ <;> omega

/-- A handler is started that grants no new vote. -/
theorem handler (noGrant : ∀ caller args, .grantVote caller args ∉ sv'.todo)
    (reply : ∀ caller args reply, .replyRequestVote caller args reply ∈ sv'.todo →
      reply.voteStatus = .voteGranted → Voted history me args.term args.candidateID) :
    Voting me sv' (new ++ history) where
  stood _ _ := ok.stood_of_keepsVote quiet keeps
  remembered _ := ok.remembered_of_keepsVote quiet keeps
  due caller args due := (noGrant caller args due).elim
  reply := by simpa only [quiet.voted_iff] using reply

end

/-- A candidate or leader starts to grant a vote in a larger term. -/
theorem granting (ok : Voting me sv history) (terms : Terms me sv history)
    (ballots : Ballots me sv history) (quiet : NoVote new) (larger : sv.term < sv'.term)
    (none : sv'.voteFor = none) {caller : Caller} {args : RequestVoteArgs}
    (term : args.term = sv'.term) (due : GrantDue sv' caller args)
    (only : ∀ caller' args', .grantVote caller' args' ∈ sv'.todo → caller' = caller ∧ args' = args)
    (noReply : ∀ caller args reply, .replyRequestVote caller args reply ∉ sv'.todo) :
    Voting me sv' (new ++ history) where
  stood _ _ := ok.stood_of_keepsVote quiet (.inr ⟨larger, none⟩)
  remembered _ := ok.remembered_of_keepsVote quiet (.inr ⟨larger, none⟩)
  due caller' args' isDue := by
    obtain ⟨rfl, rfl⟩ := only caller' args' isDue
    simp only [quiet.voted_iff, quiet.stood_iff]
    have disk := terms.disk
    refine ⟨due, term, fun role stood => ?_, fun candidate voted => ?_⟩
    · have bound := ok.stood role _ stood
      omega
    · have bound := ballots.saved _ candidate voted
      omega
  reply caller args reply pending := (noReply caller args reply pending).elim

/-- The processor goes on with a handler. -/
theorem goOn (ok : Voting me sv history) (next : sv.todo = op :: rest) (quiet : NoVote new)
    (term : sv'.term = sv.term) (voteFor : sv'.voteFor = sv.voteFor)
    (due : ∀ caller args, .grantVote caller args ∈ sv'.todo →
      .grantVote caller args ∈ rest ∧ GrantDue sv' caller args)
    (reply : ∀ caller args reply, .replyRequestVote caller args reply ∈ sv'.todo →
      reply.voteStatus = .voteGranted → .replyRequestVote caller args reply ∈ rest) :
    Voting me sv' (new ++ history) where
  stood _ _ := ok.stood_of_keepsVote quiet (.inl ⟨term, voteFor⟩)
  remembered _ := ok.remembered_of_keepsVote quiet (.inl ⟨term, voteFor⟩)
  due caller args isDue := by
    obtain ⟨wasDue, isGrantDue⟩ := due caller args isDue
    obtain ⟨-, facts⟩ := ok.due caller args (by rw [next]; exact .tail _ wasDue)
    simp only [quiet.voted_iff, quiet.stood_iff, term]
    exact ⟨isGrantDue, facts⟩
  reply caller args reply' pending granted := by
    rw [quiet.voted_iff]
    refine ok.reply caller args reply' ?_ granted
    rw [next]
    exact .tail _ (reply caller args reply' pending granted)

/-- The operations a grant waits for. -/
theorem notDue (ok : Voting me sv history) (next : sv.todo = op :: rest)
    (notSave : op ≠ .persistState) (notLeaving : op ≠ .transRole .followerFromCandidate)
    (caller : Caller) (args : RequestVoteArgs) : .grantVote caller args ∉ rest := by
  intro membership
  obtain ⟨due, -⟩ := ok.due caller args (by rw [next]; exact .tail _ membership)
  cases due with
  | unsaved todo =>
      rw [next] at todo
      exact notSave (List.cons.inj todo).1
  | leaving _ todo =>
      rw [next] at todo
      exact notLeaving (List.cons.inj todo).1
  | next _ todo only =>
      rw [next] at todo
      exact only caller args ((List.cons.inj todo).2 ▸ membership)

end Voting

/-! ## Steps with a vote -/

theorem Ballots.stand {me role : Nat} {sv sv' : Server α} {history : List (Obs α)}
    {log : List (LogEntry α)} (ok : Ballots me sv history)
    (persister : sv'.persister = sv.persister)
    (fresh : ∀ candidate, ¬ Voted history me term candidate) :
    Ballots me sv' ([.selfVote me role term log] ++ history) := by
  have voted_iff {term' : Int} {candidate : Nat} :
      Voted ([.selfVote me role term log] ++ history) me term' candidate ↔
        Voted history me term' candidate := by
    simp [Voted]
  have stood_of {role' : Nat} {term' : Int}
      (stood : Stood ([.selfVote me role term log] ++ history) me role' term') :
      term' = term ∨ Stood history me role' term' := by
    rw [stood_append] at stood
    rcases stood with ⟨_, new⟩ | earlier
    · simp only [List.mem_singleton, Obs.selfVote.injEq] at new
      exact .inl new.2.2.1
    · exact .inr earlier
  exact {
    saved := fun term' candidate voted => by
      rw [voted_iff] at voted
      rw [persister]
      exact ok.saved term' candidate voted
    exclusive := fun role' term' candidate stood voted => by
      rw [voted_iff] at voted
      rcases stood_of stood with rfl | earlier
      · exact fresh candidate voted
      · exact ok.exclusive role' term' candidate earlier voted
    unique := fun term' candidate candidate' => by
      rw [voted_iff, voted_iff]
      exact ok.unique term' candidate candidate'
    remembered := fun candidate isVote => by
      rw [persister] at isVote ⊢
      rw [voted_iff]
      refine (ok.remembered candidate isVote).imp_right fun ⟨role', stood⟩ => ⟨role', ?_⟩
      exact stood_append.mpr (.inr stood) }

theorem Ballots.vote {me candidate : Nat} {sv sv' : Server α} {history new : List (Obs α)}
    {log : List (LogEntry α)} (ok : Ballots me sv history) (quiet : NoVote new)
    (disk : sv.persister.term ≤ sv'.persister.term) (saved : term ≤ sv'.persister.term)
    (remembered : ∀ candidate, sv'.persister.voteFor = some candidate →
      Voted history me sv'.persister.term candidate ∨
        ∃ role, Stood history me role sv'.persister.term)
    (notStood : ∀ role, ¬ Stood history me role term)
    (notVoted : ∀ candidate, ¬ Voted history me term candidate) :
    Ballots me sv' ((.voted me term candidate log :: new) ++ history) := by
  have before : Ballots me sv' (new ++ history) := ok.quiet quiet disk remembered
  have stood_iff {role' : Nat} {term' : Int} :
      Stood ((.voted me term candidate log :: new) ++ history) me role' term' ↔
        Stood (new ++ history) me role' term' := by
    simp [Stood]
  have voted_of {term' : Int} {candidate' : Nat}
      (voted : Voted ((.voted me term candidate log :: new) ++ history) me term' candidate') :
      (term' = term ∧ candidate' = candidate) ∨ Voted (new ++ history) me term' candidate' := by
    obtain ⟨log', membership⟩ := voted
    rcases List.mem_cons.mp membership with now | earlier
    · cases now
      exact .inl ⟨rfl, rfl⟩
    · exact .inr ⟨log', earlier⟩
  have stays {term' : Int} {candidate' : Nat} (voted : Voted (new ++ history) me term' candidate') :
      Voted ((.voted me term candidate log :: new) ++ history) me term' candidate' := by
    obtain ⟨log', membership⟩ := voted
    exact ⟨log', .tail _ membership⟩
  have notVoted' (candidate' : Nat) : ¬ Voted (new ++ history) me term candidate' := by
    rw [quiet.voted_iff]
    exact notVoted candidate'
  exact {
    saved := fun term' candidate' voted => by
      rcases voted_of voted with ⟨rfl, rfl⟩ | earlier
      · exact saved
      · exact before.saved term' candidate' earlier
    exclusive := fun role' term' candidate' stood voted => by
      rw [stood_iff] at stood
      rcases voted_of voted with ⟨rfl, rfl⟩ | earlier
      · rw [quiet.stood_iff] at stood
        exact notStood role' stood
      · exact before.exclusive role' term' candidate' stood earlier
    unique := fun term' candidate₁ candidate₂ voted₁ voted₂ => by
      rcases voted_of voted₁ with ⟨rfl, rfl⟩ | earlier₁ <;>
        rcases voted_of voted₂ with ⟨isTerm, rfl⟩ | earlier₂
      · rfl
      · exact (notVoted' _ earlier₂).elim
      · exact (notVoted' _ (isTerm ▸ earlier₁)).elim
      · exact before.unique term' candidate₁ candidate₂ earlier₁ earlier₂
    remembered := fun candidate' isVote =>
      (before.remembered candidate' isVote).imp stays fun ⟨role', stood⟩ =>
        ⟨role', stood_iff.mpr stood⟩ }

/-! ## Runs -/

section

variable {cfg : Config} {me : Nat} {sv : Server α} {history : List (Obs α)}

theorem Voting.handles {ev : Event α} (handles : Handles cfg me sv ev out)
    (ballots : Ballots me sv history) (voting : Voting me sv history) (terms : Terms me sv history)
    (idle : sv.todo = [])
    (once : ∀ caller args, ev = .requestVote caller args → args.term = sv.term →
      sv.voteFor = some args.candidateID → ∀ role, ¬ Stood history me role args.term) :
    Ballots me out.server (out.obs ++ history) ∧ Voting me out.server (out.obs ++ history) := by
  have saving : NoVote [(.saved me : Obs α)] := ⟨by simp [Stood], by simp [Voted]⟩
  have same {sv' : Server α} (term : sv'.term = sv.term) (voteFor : sv'.voteFor = sv.voteFor) :
      sv.KeepsVote sv' := .inl ⟨term, voteFor⟩
  have disk := terms.disk
  cases handles with
  | ignored | becameFollower =>
      exact ⟨ballots.same .nil rfl, voting.handler .nil (same rfl rfl) (by simp [idle])
        (by simp [idle])⟩
  | appendAnswered | heartBeat | electionOver | snapshotRefused =>
      exact ⟨ballots.same .nil rfl, voting.handler .nil (same rfl rfl) (by simp) (by simp)⟩
  | confirmed =>
      exact ⟨ballots.same .nil rfl, voting.handler .nil (same rfl rfl) (by simp) (by simp)⟩
  | counted =>
      refine ⟨ballots.same .nil rfl, voting.handler .nil (same rfl rfl) ?_ ?_⟩ <;>
        dsimp only <;> split <;> simp
  | started =>
      refine ⟨ballots.same ?_ rfl, voting.handler ?_ (same rfl rfl) (by simp) (by simp)⟩ <;>
        exact ⟨by simp [Stood], by simp [Voted]⟩
  | snapshotTaken =>
      exact ⟨ballots.save terms voting saving rfl rfl,
        voting.handler saving (same rfl rfl) (by simp) (by simp)⟩
  | becameLeader =>
      refine ⟨ballots.save terms voting ?_ rfl rfl,
        voting.handler ?_ (same rfl rfl) (by simp) (by simp)⟩ <;>
        exact ⟨by simp [Stood], by simp [Voted]⟩
  | installed | candidateHold | staleCandidate =>
      exact ⟨ballots.raiseTo terms (.raiseObs ..) rfl,
        voting.handler (.raiseObs ..) (sv.keepsVote_raiseTo _) (by simp) (by simp)⟩
  | appended =>
      refine ⟨ballots.raiseTo terms (.raiseObs ..) rfl,
        voting.handler (.raiseObs ..) (sv.keepsVote_raiseTo _) ?_ ?_⟩ <;>
        simp only [List.mem_append, List.mem_singleton, reduceCtorEq, or_false] <;>
        split <;> split <;> simp
  | voteRefused _ refused =>
      refine ⟨ballots.same .nil rfl, voting.handler .nil (same rfl rfl) (by simp) ?_⟩
      simp only [List.mem_singleton, Op.replyRequestVote.injEq]
      rintro _ _ _ ⟨-, -, rfl⟩ granted
      exact (refused granted).elim
  | voteDenied _ _ larger refused =>
      refine ⟨ballots.raiseTo terms saving rfl,
        voting.handler saving (sv.keepsVote_raiseTo _) (by simp) ?_⟩
      simp only [List.mem_singleton, Op.replyRequestVote.injEq]
      rintro _ _ _ ⟨-, -, rfl⟩ granted
      exact (refused granted).elim
  | voteRepeated _ _ equal remembered =>
      refine ⟨ballots.same .nil rfl, voting.handler .nil (same rfl rfl) (by simp) ?_⟩
      simp only [List.mem_singleton, Op.replyRequestVote.injEq]
      rintro _ _ _ ⟨-, rfl, -⟩ -
      have notStood := once _ _ rfl equal remembered
      rw [equal] at notStood ⊢
      exact (voting.remembered _ remembered).resolve_right fun ⟨role, stood⟩ => notStood role stood
  | leaderHold _ _ larger | staleLeader _ _ larger =>
      exact ⟨ballots.same .nil rfl,
        voting.handler .nil (.inr ⟨larger, rfl⟩) (by simp) (by simp)⟩
  | candidateVote _ _ larger =>
      obtain ⟨term, voteFor, onDisk, -⟩ := sv.raised_of_lt larger
      refine ⟨ballots.raiseTo terms saving rfl, ?_⟩
      refine voting.granting terms ballots saving (by simpa only [term]) voteFor term.symm
        (.leaving (onDisk.trans term.symm) rfl) ?_ (by simp)
      simp
  | leaderVote _ _ larger =>
      refine ⟨ballots.same .nil rfl, ?_⟩
      exact voting.granting terms ballots .nil larger rfl rfl (.unsaved rfl) (by simp) (by simp)
  | @voteGiven _ args _ _ _ larger =>
      obtain ⟨term, -, onDisk, noVote⟩ := sv.raised_of_lt larger
      have notStood (role : Nat) : ¬ Stood history me role args.term := fun stood => by
        have bound := voting.stood role _ stood
        omega
      have notVoted (candidate : Nat) : ¬ Voted history me args.term candidate := fun voted => by
        have bound := ballots.saved _ candidate voted
        omega
      refine ⟨ballots.vote saving ?_ ?_ ?_ notStood notVoted, ?_⟩
      · dsimp only
        omega
      · exact Int.le_of_eq onDisk.symm
      · simp [noVote]
      · exact {
          stood := fun role term' stood => by
            have bound := voting.stood role term' (by simpa [Stood] using stood)
            change term' ≤ (sv.raiseTo args.term).term
            omega
          remembered := fun candidate isVote => by
            cases isVote
            refine .inl ?_
            change Voted _ me (sv.raiseTo args.term).term args.candidateID
            rw [term]
            exact ⟨_, .head _⟩
          due := by simp
          reply := fun caller args' reply pending _ => by
            simp only [List.mem_singleton, Op.replyRequestVote.injEq] at pending
            obtain ⟨-, rfl, -⟩ := pending
            exact ⟨_, .head _⟩ }
  | becameCandidate =>
      have notVoted (candidate : Nat) : ¬ Voted history me (sv.term + 1) candidate :=
        fun voted => by
          have bound := ballots.saved _ candidate voted
          omega
      refine ⟨ballots.stand rfl notVoted, ?_⟩
      exact {
        stood := fun role term' stood => by
          rcases stood_append.mp stood with ⟨_, new⟩ | earlier
          · simp only [List.mem_singleton, Obs.selfVote.injEq] at new
            exact Int.le_of_eq new.2.2.1
          · have bound := voting.stood role term' earlier
            dsimp only
            omega
        remembered := fun _ _ => .inr ⟨_, _, .head _⟩
        due := by simp [idle]
        reply := by simp [idle] }

theorem Executes.noVote (executes : Executes cfg me sv op out)
    (notGrant : ∀ caller args, op ≠ .grantVote caller args) : NoVote out.obs := by
  cases executes with
  | voteGiven => exact (notGrant _ _ rfl).elim
  | _ => exact ⟨by simp [Stood], by simp [Voted]⟩

theorem Voting.executes (ballots : Ballots me sv history) (voting : Voting me sv history)
    (terms : Terms me sv history) (next : sv.todo = op :: rest)
    (executes : Executes cfg me { sv with todo := rest } op out) :
    Ballots me out.server (out.obs ++ history) ∧ Voting me out.server (out.obs ++ history) := by
  have quiet := executes.noVote
  cases executes with
  | persistState =>
      refine ⟨ballots.save terms voting (quiet nofun) rfl rfl,
        voting.goOn next (quiet nofun) rfl rfl ?_ fun _ _ _ pending _ => pending⟩
      intro caller args isDue
      refine ⟨isDue, ?_⟩
      obtain ⟨due, -⟩ := voting.due caller args (by rw [next]; exact .tail _ isDue)
      cases due with
      | unsaved todo =>
          rw [next] at todo
          exact .next rfl (List.cons.inj todo).2 (by simp)
      | leaving _ todo | next _ todo =>
          rw [next] at todo
          cases (List.cons.inj todo).1
  | persist =>
      exact ⟨ballots.save terms voting (quiet nofun) rfl rfl,
        voting.goOn next (quiet nofun) rfl rfl
          (fun caller args isDue => (voting.notDue next nofun nofun caller args isDue).elim)
          fun _ _ _ pending _ => pending⟩
  | stopped | wasStopped =>
      refine ⟨ballots.same .nil rfl,
        voting.goOn next .nil rfl rfl ?_ fun _ _ _ pending _ => pending⟩
      intro caller args isDue
      refine ⟨isDue, ?_⟩
      obtain ⟨due, -⟩ := voting.due caller args (by rw [next]; exact .tail _ isDue)
      cases due with
      | leaving saved todo =>
          rw [next] at todo
          exact .next saved (List.cons.inj todo).2 (by simp)
      | unsaved todo | next _ todo =>
          rw [next] at todo
          cases (List.cons.inj todo).1
  | @voteGiven caller args =>
      obtain ⟨due, term, notStood, notVoted⟩ := voting.due caller args (by simp [next])
      obtain ⟨saved, only⟩ := due.head next
      refine ⟨ballots.vote .nil (Int.le_refl _) (by dsimp only; omega) ballots.remembered
        (term ▸ notStood) (term ▸ notVoted), ?_⟩
      exact {
        stood := fun role term' stood => voting.stood role term' (by simpa [Stood] using stood)
        remembered := fun candidate isVote => by
          cases isVote
          exact .inl ⟨_, by rw [term]; exact .head _⟩
        due := by simp [only]
        reply := fun caller' args' reply pending granted => by
          simp only [List.mem_append, List.mem_singleton, Op.replyRequestVote.injEq] at pending
          rcases pending with earlier | ⟨-, rfl, -⟩
          · refine voted_append.mpr (.inr (voting.reply caller' args' reply ?_ granted))
            rw [next]
            exact .tail _ earlier
          · exact ⟨_, .head _⟩ }
  | @voteDenied caller args =>
      obtain ⟨due, -⟩ := voting.due caller args (by simp [next])
      obtain ⟨-, only⟩ := due.head next
      refine ⟨ballots.same .nil rfl, voting.goOn next .nil rfl rfl (by simp [only]) ?_⟩
      simp only [List.mem_append, List.mem_singleton, Op.replyRequestVote.injEq]
      rintro _ _ _ (earlier | ⟨-, -, rfl⟩) granted
      · exact earlier
      · cases granted
  | committed =>
      refine ⟨ballots.same (quiet nofun) rfl,
        voting.goOn next (quiet nofun) rfl rfl ?_ (by simp +contextual)⟩
      simp only [List.mem_cons, reduceCtorEq, false_or]
      exact fun caller args isDue => (voting.notDue next nofun nofun caller args isDue).elim
  | _ =>
      exact ⟨ballots.same (quiet nofun) rfl,
        voting.goOn next (quiet nofun) rfl rfl
          (fun caller args isDue => (voting.notDue next nofun nofun caller args isDue).elim)
          fun _ _ _ pending _ => pending⟩

end

/-- A goroutine beside the processor casts no vote. -/
theorem Voting.beside {me : Nat} {sv sv' : Server α} {history new : List (Obs α)}
    (voting : Voting me sv history) (quiet : NoVote new) (term : sv'.term = sv.term)
    (voteFor : sv'.voteFor = sv.voteFor) (todo : sv'.todo = sv.todo)
    (saved : sv.persister.term = sv.term → sv'.persister.term = sv'.term) :
    Voting me sv' (new ++ history) where
  stood _ _ := voting.stood_of_keepsVote quiet (.inl ⟨term, voteFor⟩)
  remembered _ := voting.remembered_of_keepsVote quiet (.inl ⟨term, voteFor⟩)
  due caller args isDue := by
    obtain ⟨due, facts⟩ := voting.due caller args (todo ▸ isDue)
    simp only [quiet.voted_iff, quiet.stood_iff, term]
    refine ⟨?_, facts⟩
    cases due with
    | unsaved shape => exact .unsaved (todo.trans shape)
    | leaving isSaved shape => exact .leaving (saved isSaved) (todo.trans shape)
    | next isSaved shape only => exact .next (saved isSaved) (todo.trans shape) only
  reply := by simpa only [quiet.voted_iff, todo] using voting.reply

theorem Cluster.stood_history {i role : Nat} :
    Stood (s.history i) i role term ↔ Stood s.obs i role term := by
  simp [Stood, history, Obs.server]

theorem Cluster.voted_history {i candidate : Nat} :
    Voted (s.history i) i term candidate ↔ Voted s.obs i term candidate := by
  simp [Voted, history, Obs.server]

/-- The votes of every server are in order in every run in which servers do not
forget the terms they stood in. -/
theorem Cluster.ballots {cfg : Config} {labels : List (Label α)}
    (run : Run (step cfg) votesOnce init labels s) (i : Nat) :
    Ballots i (s.servers i) (s.history i) ∧
      ((s.servers i).up = true → Voting i (s.servers i) (s.history i)) := by
  refine local_invariant (fun i sv history => Ballots i sv history ∧
    (sv.up = true → Voting i sv history)) ?_ ?_ run i
  · intro i
    constructor
    · exact ⟨by simp [Voted], by simp [Stood], by simp [Voted], by simp [Server.initial,
        Persister.fresh, Persister.voteFor]⟩
    · exact fun _ => ⟨by simp [Stood], by simp [Server.initial], by simp [Server.initial],
        by simp [Server.initial]⟩
  · rintro _ s i act out earlier ⟨before, running⟩ once steps
    have terms := terms earlier i
    have beside {sv' : Server α} (persister : sv'.persister = (s.servers i).persister)
        (up : (s.servers i).up = true) (term : sv'.term = (s.servers i).term)
        (voteFor : sv'.voteFor = (s.servers i).voteFor) (todo : sv'.todo = (s.servers i).todo) :
        Ballots i sv' ([] ++ s.history i) ∧ (sv'.up = true → Voting i sv' ([] ++ s.history i)) :=
      ⟨before.same .nil persister, fun _ =>
        (running up).beside .nil term voteFor todo (by rw [persister, term]; exact id)⟩
    cases steps with
    | popped up idle next handles =>
        have kept : Ballots i out.server (out.obs ++ s.history i) ∧
            Voting i out.server (out.obs ++ s.history i) := by
          refine Voting.handles handles ?_ ?_ ?_ idle ?_
          · exact before.same .nil rfl
          · exact (running up).beside .nil rfl rfl rfl id
          · exact ⟨terms.activated, terms.disk⟩
          · rintro caller args rfl equal remembered role ⟨log, stood⟩
            have asked : args ∈ (s.popped ⟨i, .pop⟩).bind Event.ballot := by
              simp [popped, next, Event.ballot]
            refine once.2 args asked equal remembered _ ?_
              (Obs.stoodIn_eq_some.mpr ⟨role, log, rfl⟩)
            exact (List.mem_filter.mp stood).1
        exact ⟨kept.1, fun _ => kept.2⟩
    | executed up next executes =>
        obtain ⟨kept, voting⟩ := Voting.executes before (running up) terms next executes
        exact ⟨kept, fun _ => voting⟩
    | applied up applies =>
        cases applies with
        | snapshotApplied =>
            have saving : NoVote [(.saved i : Obs α)] := ⟨by simp [Stood], by simp [Voted]⟩
            exact ⟨before.save terms (running up) saving rfl rfl, fun _ =>
              (running up).beside saving rfl rfl rfl fun _ => rfl⟩
        | delivered | snapshotDelivered =>
            have delivering (msg : ApplyMsg α) : NoVote [.delivered i msg] :=
              ⟨by simp [Stood], by simp [Voted]⟩
            exact ⟨before.same (delivering _) rfl, fun _ =>
              (running up).beside (delivering _) rfl rfl rfl id⟩
        | _ => exact beside rfl up rfl rfl rfl
    | crashed => exact ⟨before.same .nil rfl, nofun⟩
    | restarted _ made =>
        obtain ⟨applier, -, -, rfl⟩ := make_eq_some made
        have quiet : NoVote (applier.reverse.map (.queued i) ++
            [(.restarted i (s.servers i).persister.base : Obs α)]) :=
          ⟨by simp [Stood], by simp [Voted]⟩
        refine ⟨before.same quiet rfl, fun _ => ?_⟩
        exact {
          stood := fun role term stood => by
            rw [quiet.stood_iff] at stood
            obtain ⟨log, membership⟩ := stood
            exact once.1 rfl _ (List.mem_filter.mp membership).1 term
              (Obs.stoodIn_eq_some.mpr ⟨role, log, rfl⟩)
          remembered := by simpa only [quiet.voted_iff, quiet.stood_iff] using before.remembered
          due := by simp
          reply := by simp }
    | _ => exact beside rfl ‹_› rfl rfl rfl

end GoLab.Raft
