import GoLab.Raft.Window

/-!
# The assertions of the protocol

`setTerm` asserts that the term grows, `watchIndex` that the new index follows the last
watched one, `confirm` that the confirmed range ends inside the window, and
`Replicator.start` that the next index is at least 0.  A failed assertion kills the
process; none of them fails in any run.
-/

namespace GoLab.Raft

variable {α : Type}

/-! ## The callers of `setTerm` -/

/-- The term the handler of an event calls `setTerm` with.  Only the leader calls it without
a check, for a `StaleLeaderEvent`. -/
def Server.setTermArg (sv : Server α) : Event α → Option Int
  | .appendEntries _ args => if args.term > sv.term then some args.term else none
  | .requestVote _ args => if args.term > sv.term then some args.term else none
  | .staleCandidate _ newTerm =>
      match sv.role with
      | .candidate _ => if newTerm > sv.term then some newTerm else none
      | _ => none
  | .staleLeader _ newTerm =>
      match sv.role with
      | .leader _ => some newTerm
      | _ => none
  | _ => none

section

variable {cfg : Config} {me : Nat} {sv : Server α} {ev : Event α} {out : Out α}

theorem Server.term_kept {term : Int} (notLarger : term ≤ sv.term) :
    sv.term = (if term > sv.term then some term else none).getD sv.term := by
  rw [if_neg (Int.not_lt.mpr notLarger)]
  rfl

theorem Server.term_set {term : Int} (larger : term > sv.term) :
    term = (if term > sv.term then some term else none).getD sv.term := by
  rw [if_pos larger]
  rfl

theorem Server.raiseTo_term (sv : Server α) (term : Int) :
    (sv.raiseTo term).term = (if term > sv.term then some term else none).getD sv.term := by
  by_cases larger : term > sv.term
  · rw [← Server.term_set larger, Server.raiseTo, if_pos larger]
  · rw [← Server.term_kept (Int.not_lt.mp larger), Server.raiseTo, if_neg larger]

theorem Server.storeTerm_term {raised : Server α} {term : Int}
    (stored : sv.storeTerm term = some raised) : raised.term = term := by
  simp only [Server.storeTerm, Option.bind_eq_bind, Option.bind_eq_some_iff] at stored
  obtain ⟨-, -, stored⟩ := stored
  cases stored
  rfl

theorem Follower.process_term (follower : sv.role = .follower)
    (result : Follower.process cfg me sv ev = some out) :
    out.server.term = (sv.setTermArg ev).getD sv.term := by
  cases ev with
  | appendEntries caller args =>
      simp only [Follower.process, Follower.appendEntries] at result
      split at result
      case isTrue stale =>
        cases result
        exact Server.term_kept (Int.le_of_lt stale)
      case isFalse =>
        simp only [Server.adoptTerm_eq, Option.bind_eq_bind, Option.bind_some] at result
        split at result
        case h_1 =>
          cases result
          exact sv.raiseTo_term args.term
        case h_2 =>
          simp only [Option.bind_eq_some_iff] at result
          obtain ⟨sendEntries, -, ⟨logs, status, appended⟩, -, result⟩ := result
          cases result
          cases appended <;> exact sv.raiseTo_term args.term
  | requestVote caller args =>
      simp only [Follower.process, Follower.requestVote] at result
      split at result
      case isTrue stale =>
        cases result
        exact Server.term_kept (Int.le_of_lt stale)
      split at result
      case isTrue equal =>
        split at result <;> cases result <;> exact Server.term_kept (Int.le_of_eq equal)
      case isFalse notLess notEqual =>
        rw [Server.setTerm_eq_raiseTo (by omega)] at result
        simp only [Option.bind_eq_bind, Option.bind_some, Option.bind_eq_some_iff] at result
        obtain ⟨upToDate, -, result⟩ := result
        cases upToDate <;> cases result <;> exact sv.raiseTo_term args.term
  | _ =>
      cases result
      simp [Server.setTermArg, follower]

theorem Candidate.auditVote_term {cd : Candidate} {term : Int} {voter : Nat}
    (result : Candidate.auditVote cfg sv cd term voter = some out) : out.server.term = sv.term := by
  unfold Candidate.auditVote at result
  split at result
  case isTrue =>
    simp only [Option.bind_eq_bind, Option.bind_eq_some_iff] at result
    obtain ⟨counted, -, result⟩ := result
    cases counted <;> cases result <;> rfl
  case isFalse =>
    cases result
    rfl

theorem Candidate.process_term {cd : Candidate} (candidate : sv.role = .candidate cd)
    (result : Candidate.process cfg me sv cd ev = some out) :
    out.server.term = (sv.setTermArg ev).getD sv.term := by
  cases ev with
  | appendEntries caller args =>
      simp only [Candidate.process, Candidate.appendEntries] at result
      split at result
      case isTrue =>
        rw [Server.adoptTerm_eq] at result
        cases result
        exact sv.raiseTo_term args.term
      case isFalse stale =>
        cases result
        exact Server.term_kept (Int.le_of_not_le stale)
  | requestVote caller args =>
      simp only [Candidate.process, Candidate.requestVote] at result
      split at result
      case isTrue stale =>
        cases result
        exact Server.term_kept (Int.le_of_lt stale)
      split at result
      case isTrue equal =>
        split at result <;> cases result <;> exact Server.term_kept (Int.le_of_eq equal)
      case isFalse notLess notEqual =>
        rw [Server.setTerm_eq_raiseTo (by omega)] at result
        cases result
        exact sv.raiseTo_term args.term
  | voteGrant role term voter =>
      rw [Candidate.auditVote_term result]
      rfl
  | staleCandidate role newTerm =>
      simp only [Candidate.process, Server.adoptTerm_eq] at result
      cases result
      simp only [Server.setTermArg, candidate]
      exact sv.raiseTo_term newTerm
  | _ =>
      cases result
      simp [Server.setTermArg, candidate]

theorem Leader.process_term {rc : ReplCounter} (leader : sv.role = .leader rc)
    (result : Leader.process cfg me sv rc ev = some out) :
    out.server.term = (sv.setTermArg ev).getD sv.term := by
  cases ev with
  | appendEntries caller args =>
      simp only [Leader.process, Leader.appendEntries] at result
      split at result
      case isTrue stale =>
        cases result
        exact Server.term_kept (Int.le_of_lt stale)
      split at result
      case isTrue equal =>
        cases result
        exact Server.term_kept (Int.le_of_eq equal)
      case isFalse notLess notEqual =>
        obtain ⟨raised, stored, result⟩ := Option.bind_eq_some_iff.mp result
        cases result
        exact (Server.storeTerm_term stored).trans (Server.term_set (by omega))
  | requestVote caller args =>
      simp only [Leader.process, Leader.requestVote] at result
      split at result
      case isTrue notLarger =>
        cases result
        exact Server.term_kept notLarger
      case isFalse larger =>
        obtain ⟨raised, stored, result⟩ := Option.bind_eq_some_iff.mp result
        cases result
        exact (Server.storeTerm_term stored).trans (Server.term_set (by omega))
  | replConfirm role id startIndex endIndex =>
      obtain ⟨⟨rc', commit⟩, -, result⟩ := Option.bind_eq_some_iff.mp result
      cases result
      rfl
  | staleLeader role newTerm =>
      obtain ⟨raised, stored, result⟩ := Option.bind_eq_some_iff.mp result
      cases result
      simp only [Server.setTermArg, leader]
      exact Server.storeTerm_term stored
  | _ =>
      cases result
      simp [Server.setTermArg, leader, Leader.start, Server.pushEntry, Server.appendSlice]

/-- A handler that returns has set the term it calls `setTerm` with, and no other. -/
theorem processRole_term (result : processRole cfg me sv ev = some out) :
    out.server.term = (sv.setTermArg ev).getD sv.term := by
  unfold processRole at result
  split at result
  case h_1 follower => exact Follower.process_term follower result
  case h_2 candidate => exact Candidate.process_term candidate result
  case h_3 leader => exact Leader.process_term leader result

end

/-- The assertions the next steps of a server execute. -/
structure Server.Asserts (sv : Server α) : Prop where
  /-- `assert(term > rf.Term())` of `setTerm`. -/
  setTerm : ∀ ev rest term, sv.active = true → sv.todo = [] → sv.evCh = ev :: rest →
    sv.setTermArg ev = some term → term > sv.term
  /-- `assert(len(rc.entries) == 0 || idx == rc.entries[len(rc.entries)-1].index+1)` of
  `watchIndex`, called for a command that was started; `activate` calls it on a new counter. -/
  watchIndex : ∀ rc commandIndex logIndex rest, sv.role = .leader rc →
    sv.todo = .replyStart commandIndex logIndex :: rest →
    ∀ last ∈ rc.entries.getLast?, logIndex = last.index + 1
  /-- `assert(endOffset <= len(rc.entries))` of `confirm`. -/
  confirm : ∀ rc role id startIndex endIndex rest, sv.role = .leader rc → sv.active = true →
    sv.todo = [] → sv.evCh = .replConfirm role id startIndex endIndex :: rest →
    ∀ first ∈ rc.entries.head?, endIndex - first.index ≤ rc.entries.length
  /-- `assert(repl.nextIndex >= 0)` of `Replicator.start`. -/
  nextIndex : ∀ repl ∈ sv.repls, repl.pc = .head → sv.leading repl.ld = true → repl.nextIndex ≥ 0

end GoLab.Raft
