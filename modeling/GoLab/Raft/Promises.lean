import GoLab.Raft.Persistence
import GoLab.Raft.Branches
import GoLab.Raft.CommandIndex

/-!
# What servers promise

A follower that answers `ENTRY_MATCH` promises the leader of the term that it holds
the entries, and a leader counts itself for what it has appended.  The promise
outlives crashes, as the log is saved before the answer, and lasts until the server
follows a later leader that does not have the entries.
-/

namespace GoLab.Raft

variable {α : Type}

/-! ## Answers come after saves -/

/-- The operations after which others count on the log. -/
def Op.promises : Op α → Bool
  | .replyAppendEntries .. | .replyStart .. => true
  | _ => false

def Op.saves : Op α → Bool
  | .persistState | .persist => true
  | _ => false

/-- The log is on disk or is about to be saved, before anything is answered. -/
structure Ordered (me : Nat) (sv : Server α) (history : List (Obs α)) : Prop where
  log : sv.persister.logs.full = sv.logs.full ∨ sv.saveDue
  term : sv.term ≤ sv.persister.term ∨ .persistState ∈ sv.todo ∨
    ∃ role, Stood history me role sv.term
  order : sv.todo.Pairwise fun op later => op.promises = true → later.saves = false

namespace Ordered

variable {cfg : Config} {me : Nat} {sv sv' : Server α} {history new : List (Obs α)}

/-- Nothing is left to be saved when the processor answers. -/
theorem answering {op : Op α} {rest : List (Op α)} (ok : Ordered me sv history)
    (next : sv.todo = op :: rest) (promises : op.promises = true) :
    sv.persister.logs.full = sv.logs.full ∧
      (sv.term ≤ sv.persister.term ∨ ∃ role, Stood history me role sv.term) := by
  have order := ok.order
  rw [next, List.pairwise_cons] at order
  have notDue {save : Op α} (saves : save.saves = true) : save ∉ sv.todo := by
    rw [next]
    intro membership
    rcases List.mem_cons.mp membership with rfl | later
    · cases save <;> cases saves <;> cases promises
    · rw [order.1 save later promises] at saves
      cases saves
  refine ⟨ok.log.resolve_right ?_, ok.term.imp_right fun due => due.resolve_left (notDue rfl)⟩
  rintro (due | due)
  · exact notDue rfl due
  · exact notDue rfl due

/-- A handler is started. -/
theorem handles {ev : Event α} {out : Out α} (ok : Ordered me sv history) (idle : sv.todo = [])
    (cursors : sv.logs.Ok) (handles : Handles cfg me sv ev out) :
    Ordered me out.server (out.obs ++ history) := by
  have log : sv.persister.logs.full = sv.logs.full := by simpa [Server.saveDue, idle] using ok.log
  have known : sv.term ≤ sv.persister.term ∨
      ∃ role, Stood (out.obs ++ history) me role sv.term := by
    simpa [idle] using ok.term.imp_right fun due => due.imp_right
      (Exists.imp fun _ stood => stood_append.mpr (.inr stood))
  have raised (term : Int) : (sv.raiseTo term).persister.logs.full = sv.logs.full ∧
      ((sv.raiseTo term).term ≤ (sv.raiseTo term).persister.term ∨
        ∃ role, Stood (out.obs ++ history) me role (sv.raiseTo term).term) := by
    by_cases larger : sv.term < term
    · rw [Server.raiseTo_of_lt larger]
      exact ⟨Server.full_restore .., .inl (Int.le_refl _)⟩
    · rw [Server.raiseTo_of_le (Int.not_lt.mp larger)]
      exact ⟨log, known⟩
  cases handles with
  | installed =>
      exact ⟨.inr (.inr (by simp)), (raised _).2.imp_right .inr, by simp [Op.promises, Op.saves]⟩
  | appended _ _ _ _ _ result =>
      have appends := Logs.followerAppendEntries_appends cursors result
      refine ⟨?_, (raised _).2.imp_right .inr, ?_⟩
      · cases appends with
        | below | unmatched | held => exact .inl (raised _).1
        | appended => exact .inr (.inl (by simp))
      · dsimp only
        split <;> split <;> simp [Op.promises, Op.saves]
  | voteGiven | voteDenied | candidateVote | candidateHold | staleCandidate =>
      exact ⟨.inl (raised _).1, (raised _).2.imp_right .inr, by simp [Op.promises]⟩
  | leaderVote | leaderHold | staleLeader =>
      exact ⟨.inl log, .inr (.inl (.head _)), by simp [Op.promises, Op.saves]⟩
  | started =>
      exact ⟨.inr (.inl (.head _)), known.imp_right .inr, by simp [Op.promises, Op.saves]⟩
  | counted =>
      refine ⟨.inl log, known.imp_right .inr, ?_⟩
      dsimp only
      split <;> simp
  | becameCandidate =>
      exact ⟨.inl log, .inr (.inr ⟨_, _, .head _⟩), by simp [idle]⟩
  | becameLeader =>
      exact ⟨.inl (Server.full_restore ..), .inl (Int.le_refl _), by simp⟩
  | snapshotTaken =>
      exact ⟨.inl (Server.full_restore ..), .inl (Int.le_refl _), by simp⟩
  | confirmed =>
      refine ⟨.inl log, known.imp_right .inr, ?_⟩
      simp only [Option.toList]
      split <;> simp
  | ignored | becameFollower => exact ⟨.inl log, known.imp_right .inr, by simp [idle]⟩
  | _ => exact ⟨.inl log, known.imp_right .inr, by simp⟩

/-- A handler goes on. -/
theorem executes {op : Op α} {rest : List (Op α)} {out : Out α} (ok : Ordered me sv history)
    (next : sv.todo = op :: rest) (executes : Executes cfg me { sv with todo := rest } op out) :
    Ordered me out.server (out.obs ++ history) := by
  have order := ok.order
  rw [next, List.pairwise_cons] at order
  have stood : (∃ role, Stood history me role sv.term) →
      ∃ role, Stood (out.obs ++ history) me role sv.term :=
    fun ⟨role, stood⟩ => ⟨role, stood_append.mpr (.inr stood)⟩
  have log : op.saves = false → sv.persister.logs.full = sv.logs.full ∨
      .persistState ∈ rest ∨ .persist ∈ rest := by
    intro noSave
    rcases ok.log with flushed | due
    · exact .inl flushed
    · rw [Server.saveDue, next] at due
      cases op <;> simp_all [Op.saves]
  have term : op.saves = false → sv.term ≤ sv.persister.term ∨ .persistState ∈ rest ∨
      ∃ role, Stood (out.obs ++ history) me role sv.term := by
    intro noSave
    rcases ok.term with saved | due | isStood
    · exact .inl saved
    · rw [next] at due
      cases op <;> simp_all [Op.saves]
    · exact .inr (.inr (stood isStood))
  cases executes with
  | persistState | persist =>
      exact ⟨.inl (Server.full_restore ..), .inl (Int.le_refl _), order.2⟩
  | committed result =>
      refine ⟨.inr (.inl (.head _)), .inr (.inl (.head _)), ?_⟩
      exact List.pairwise_cons.mpr ⟨by simp [Op.promises], order.2⟩
  | voteGiven | voteDenied =>
      refine ⟨(log rfl).imp_right ?_, (term rfl).imp_right (.imp_left ?_), ?_⟩
      · exact Or.imp (List.mem_append_left _) (List.mem_append_left _)
      · exact List.mem_append_left _
      · exact List.pairwise_append.mpr ⟨order.2, by simp, by simp [Op.saves]⟩
  | _ => exact ⟨log rfl, term rfl, order.2⟩

end Ordered

/-- No server answers before its log is on disk, in any run. -/
theorem Cluster.ordered {cfg : Config} {allowed : Cluster α → Label α → Prop}
    {labels : List (Label α)} {s : Cluster α} (run : Run (step cfg) allowed init labels s)
    (i : Nat) (isUp : (s.servers i).up = true) : Ordered i (s.servers i) (s.history i) := by
  refine local_invariant (fun i sv history => sv.up = true → Ordered i sv history) ?_ ?_ run i isUp
  · exact fun _ _ => ⟨.inl rfl, .inl (Int.le_refl _), by simp [Server.initial]⟩
  · intro _ s i act out earlier before _ steps isUp
    have beside {sv' : Server α} (up : (s.servers i).up = true)
        (persister : sv'.persister = (s.servers i).persister)
        (logs : sv'.logs = (s.servers i).logs) (term : sv'.term = (s.servers i).term)
        (todo : sv'.todo = (s.servers i).todo) : Ordered i sv' (out.obs ++ s.history i) := by
      obtain ⟨log, known, order⟩ := before up
      constructor
      · rw [Server.saveDue, persister, logs, todo]
        exact log
      · rw [persister, term, todo]
        exact known.imp_right (.imp_right
          (Exists.imp fun _ stood => stood_append.mpr (.inr stood)))
      · rw [todo]
        exact order
    cases steps with
    | popped up idle _ handles =>
        have ok := before up
        refine Ordered.handles ?_ ?_ ?_ handles
        · exact ⟨ok.log, ok.term, ok.order⟩
        · exact idle
        · exact (sound earlier i).memory.cursors
    | executed up next executes => exact (before up).executes next executes
    | applied up applies =>
        cases applies with
        | snapshotApplied =>
            exact ⟨.inl (Server.full_restore ..), .inl (Int.le_refl _), (before up).order⟩
        | _ => exact beside up rfl rfl rfl rfl
    | crashed => cases isUp
    | restarted _ made =>
        obtain ⟨applier, -, -, rfl⟩ := make_eq_some made
        exact ⟨.inl rfl, .inl (Int.le_refl _), by simp⟩
    | _ => exact beside ‹_› rfl rfl rfl rfl

end GoLab.Raft
