import GoLab.Lib.Bisect
import GoLab.Lib.Execution
import GoLab.Raft.Edits
import GoLab.Raft.Representation
import Mathlib.Data.Prod.Lex
import Mathlib.Order.Bounds.Basic

/-!
# The search for the match point

`matchIndex` of `repl.go` looks for the last index at which a follower holds the leader's
entry.  Its answers come from `followerAppendEntries`, which does not look at an entry below
its `LCI`, and the log it bisects can be compacted and can grow between two probes.  A peer that
has stood for election answers `ENTRY_HOLD` first, and a peer that is between two roles discards
the probe: `appendEntries` keeps that reply, and the search waits for good.
-/

namespace GoLab.Raft

variable {α : Type}

/-! ## A leader that searches and a peer that answers -/

/-- A leader, the replicator of it that searches, and the peer it asks. -/
structure Search (α : Type) where
  leader : Server α
  repl : Replicator α
  peer : Server α

/-- The steps of a search: the replicator goes on, the processor of the peer takes the probe
under way, the peer does something else, or the leader's processor works on its log. -/
inductive SearchAct (α : Type) where
  | advance
  | answer
  | peer (net : List (Msg α)) (act : Act α)
  | leaderLog (op : LogOp α)
  deriving DecidableEq, Repr

/-- The steps of the replicator and the answers to it. -/
def SearchAct.isSearch : SearchAct α → Bool
  | .advance | .answer => true
  | .peer .. | .leaderLog _ => false

def SearchAct.isCompaction : SearchAct α → Bool
  | .leaderLog (.takeSnapshot ..) => true
  | _ => false

/-- The replicator is in `matchIndex` and does not wait for an answer. -/
def ReplPc.inSearch : ReplPc α → Bool
  | .outer _ | .inner .. | .probeBuild .. | .probe .. | .finish _ => true
  | _ => false

/-- The reply `discardEv` gives, or the one the handler ends with. -/
def Out.appendReply (out : Out α) : Option AppendEntriesReply :=
  match out.msgs, out.server.todo.getLast? with
  | .appendEntriesReply _ reply :: _, _ => some reply
  | _, some (.replyAppendEntries _ _ reply) => some { reply with responsed := true }
  | _, _ => none

/-- The server when this reply has been given. -/
def Out.replied (out : Out α) : Server α :=
  { out.server with todo := out.server.todo.dropLast }

namespace Search

/-- One step; `none` also where the process would crash. -/
def step (cfg : Config) (me : Nat) : SearchAct α → Search α → Option (Search α)
  | .advance, s => do
      guard s.repl.pc.inSearch
      let repl ← s.repl.advance me s.leader
      return { s with repl, leader := { s.leader with nextId := s.leader.nextId + 1 } }
  | .answer, s => do
      guard (s.peer.up ∧ s.peer.todo.isEmpty)
      let call ← s.repl.calling
      let out ← processEvent cfg s.repl.peerId s.peer
        (.appendEntries ⟨me, call.id⟩ (Replicator.copy s.leader call))
      let reply ← out.appendReply
      return { s with
        repl := (s.repl.receive s.leader call.id reply).1
        peer := out.replied }
  | .peer net act, s => do
      guard s.peer.up
      let out ← s.peer.act cfg s.repl.peerId net act
      return { s with peer := out.server }
  | .leaderLog op, s => do
      let outcome ← s.leader.logs.perform op
      return { s with leader := { s.leader with logs := outcome.logs } }

/-- The peer is no leader of the same term, stays up, does not get into a later term and keeps
its log.  A leader appends, commits and compacts.  An entry it appends is new: the peer has no
entry of that term at its index. -/
def Allowed (cfg : Config) (s : Search α) : SearchAct α → Prop
  | .advance => True
  | .answer => s.peer.active = true → s.peer.role.isLeader = true → s.peer.term < s.leader.term
  | .peer net act => ∀ out ∈ s.peer.act cfg s.repl.peerId net act, out.server.up = true ∧
      out.server.logs = s.peer.logs ∧ out.server.term ≤ s.leader.term
  | .leaderLog (.leaderAppendEntry et) =>
      ∀ entry ∈ s.peer.logs.full[s.leader.logs.full.length]?, entry.term ≠ et.term
  | .leaderLog (.updateCommit _) => True
  | .leaderLog (.takeSnapshot cmdIndex _) => cmdIndex ≠ noopIndex
  | .leaderLog (.followerAppendEntries _) | .leaderLog (.followerInstallSnapshot _) => False

instance [DecidableEq α] (cfg : Config) (s : Search α) (act : SearchAct α) :
    Decidable (s.Allowed cfg act) := by
  unfold Allowed
  split <;> infer_instance

/-- A probe is answered: the peer is not between two roles when it takes it. -/
def Answers (cfg : Config) (s : Search α) (act : SearchAct α) : Prop :=
  s.Allowed cfg act ∧ (act = .answer → s.peer.active = true)

instance [DecidableEq α] (cfg : Config) (s : Search α) (act : SearchAct α) :
    Decidable (s.Answers cfg act) :=
  inferInstanceAs (Decidable (_ ∧ _))

/-- The peer holds the leader's entry at an index. -/
def Shares (s : Search α) (idx : Int) : Prop :=
  0 ≤ idx ∧ ∃ entry ∈ s.leader.logs.full[idx.toNat]?, entry ∈ s.peer.logs.full[idx.toNat]?

end Search

/-- Two logs with entries of the same term at an index are equal up to there. -/
def Matching (log log' : List (LogEntry α)) : Prop :=
  ∀ k < log.length, log[k]?.map LogEntry.term = log'[k]?.map LogEntry.term →
    log.take (k + 1) = log'.take (k + 1)

/-- A leader that is active, and a peer of the same or an earlier term whose log matches the
leader's and has its `LCI` inside the common part. -/
structure Search.Ready (s : Search α) : Prop where
  leader : s.leader.logs.Sound
  peer : s.peer.logs.Sound
  commit : s.peer.logs.offset ≤ s.peer.logs.lci + 1
  leading : s.leader.leading s.repl.ld = true
  current : s.peer.term ≤ s.leader.term
  matching : Matching s.leader.logs.full s.peer.logs.full
  common : s.peer.logs.full.take (s.peer.logs.lci + 1).toNat <+: s.leader.logs.full

/-! ## The index the search begins with -/

section

variable {sv : Server α}

/-- `lii` is the index of the snapshot, just below `offset`, or 0. -/
theorem Replicator.lii_cases (ok : sv.logs.Sound) :
    (sv.logs.snapshot = none ∧ lii sv = 0 ∧ sv.logs.offset = 0) ∨
    ∃ snapshot, sv.logs.snapshot = some snapshot ∧ lii sv = snapshot.lastIncludeIndex ∧
      sv.logs.offset = snapshot.lastIncludeIndex + 1 ∧ 0 ≤ snapshot.lastIncludeIndex := by
  cases isSnapshot : sv.logs.snapshot with
  | none => exact .inl ⟨rfl, by simp [lii, isSnapshot], (ok.cursors.fresh isSnapshot).1⟩
  | some snapshot =>
      exact .inr ⟨snapshot, rfl, by simp [lii, isSnapshot], ok.cursors.base snapshot isSnapshot,
        (ok.term_at_base isSnapshot).1⟩

theorem Replicator.lii_nonneg (ok : sv.logs.Sound) : 0 ≤ lii sv := by
  rcases lii_cases ok with ⟨-, isLii, -⟩ | ⟨snapshot, -, isLii, -, nonneg⟩ <;> omega

/-- `tryIndexLogTerm` only fails where the log has been compacted. -/
theorem Logs.Sound.tryIndexLogTerm_lii (ok : sv.logs.Sound) {idx term : Int}
    (inside : idx ≤ sv.logs.lli) (failed : sv.logs.tryIndexLogTerm idx = some (term, false)) :
    idx < Replicator.lii sv := by
  unfold Logs.tryIndexLogTerm at failed
  rcases Replicator.lii_cases ok with
    ⟨isNone, isLii, atOffset⟩ | ⟨snapshot, isSome, isLii, atOffset, -⟩
  · simp only [isNone] at failed
    split at failed
    case isTrue outside => omega
    case isFalse =>
      obtain ⟨entry, -, ⟨⟩⟩ := Option.bind_eq_some_iff.mp failed
  · simp only [isSome] at failed
    split at failed
    case isTrue => cases failed
    split at failed
    case isTrue outside => omega
    case isFalse =>
      obtain ⟨entry, -, ⟨⟩⟩ := Option.bind_eq_some_iff.mp failed

end

/-! ## What the two logs have in common -/

namespace Search.Ready

variable {s : Search α}

/-- Where the follower has an entry of the term the leader has there, it is the same entry. -/
theorem shares_iff_term (ready : s.Ready) {idx : Int} (nonneg : 0 ≤ idx)
    (inside : idx ≤ s.leader.logs.lli) :
    s.Shares idx ↔ s.leader.logs.full[idx.toNat]?.map LogEntry.term =
      s.peer.logs.full[idx.toNat]?.map LogEntry.term := by
  constructor
  · rintro ⟨-, entry, held, held'⟩
    rw [Option.mem_def.mp held, Option.mem_def.mp held']
  · intro sameTerm
    have length := ready.leader.length_eq
    have inBounds : idx.toNat < s.leader.logs.full.length := by omega
    have equal := congrArg (·[idx.toNat]?) (ready.matching idx.toNat inBounds sameTerm)
    simp only [List.getElem?_take_of_lt (Nat.lt_succ_self _)] at equal
    obtain ⟨entry, held⟩ : ∃ entry, s.leader.logs.full[idx.toNat]? = some entry :=
      ⟨_, List.getElem?_eq_getElem inBounds⟩
    exact ⟨nonneg, entry, held, equal.symm.trans held⟩

theorem shares_le (ready : s.Ready) {idx : Int} (shares : s.Shares idx) :
    0 ≤ idx ∧ idx ≤ s.leader.logs.lli ∧ idx ≤ s.peer.logs.lli := by
  obtain ⟨nonneg, entry, held, held'⟩ := shares
  have inBounds := (List.getElem?_eq_some_iff.mp held).1
  have inBounds' := (List.getElem?_eq_some_iff.mp held').1
  have length := ready.leader.length_eq
  have length' := ready.peer.length_eq
  omega

/-- A follower that holds an entry of the leader holds all earlier ones. -/
theorem shares_earlier (ready : s.Ready) {idx earlier : Int} (nonneg : 0 ≤ earlier)
    (atMost : earlier ≤ idx) (shares : s.Shares idx) : s.Shares earlier := by
  have bounds := ready.shares_le shares
  have sameTerm := (ready.shares_iff_term bounds.1 bounds.2.1).mp shares
  have length := ready.leader.length_eq
  have equal := congrArg (·[earlier.toNat]?) (ready.matching idx.toNat (by omega) sameTerm)
  simp only [List.getElem?_take_of_lt (show earlier.toNat < idx.toNat + 1 by omega)] at equal
  exact (ready.shares_iff_term nonneg (by omega)).mpr (by rw [equal])

/-- The follower holds the leader's entries up to its `LCI`. -/
theorem shares_committed (ready : s.Ready) {idx : Int} (nonneg : 0 ≤ idx)
    (committed : idx ≤ s.peer.logs.lci) : s.Shares idx := by
  have length := ready.peer.length_eq
  have commit := ready.peer.cursors.commit
  obtain ⟨entry, held⟩ : ∃ entry, s.peer.logs.full[idx.toNat]? = some entry :=
    ⟨_, List.getElem?_eq_getElem (by omega)⟩
  have taken : (s.peer.logs.full.take (s.peer.logs.lci + 1).toNat)[idx.toNat]? =
      some entry := by
    rw [List.getElem?_take_of_lt (by omega), held]
  exact ⟨nonneg, entry, getElem?_extend ready.common taken, held⟩

/-- The answer to a probe. -/
theorem followerAppendEntries (ready : s.Ready) {idx term : Int} (nonneg : 0 ≤ idx)
    (isTerm : s.leader.logs.full[idx.toNat]?.map LogEntry.term = some term) :
    (s.Shares idx ∧ s.peer.logs.followerAppendEntries ⟨[], ⟨idx, term⟩⟩ =
      some (s.peer.logs, .entryMatch, false)) ∨
    ¬s.Shares idx ∧ s.peer.logs.followerAppendEntries ⟨[], ⟨idx, term⟩⟩ =
      some (s.peer.logs, .entryUnmatch, false) := by
  have commit := ready.commit
  unfold Logs.followerAppendEntries
  dsimp only
  by_cases committed : idx < s.peer.logs.lci
  · rw [if_pos committed]
    exact .inl ⟨ready.shares_committed nonneg (Int.le_of_lt committed), rfl⟩
  rw [if_neg committed, if_neg (by omega)]
  by_cases beyond : idx > s.peer.logs.lli
  · rw [if_pos beyond]
    refine .inr ⟨fun shares => ?_, rfl⟩
    have bounds := ready.shares_le shares
    omega
  rw [if_neg beyond]
  obtain ⟨term', found⟩ :=
    ready.peer.cursors.anchored.indexLogTermNoLock_isSome idx (by omega)
  have isTerm' := ready.peer.term_at (by omega) found
  have inBounds : idx.toNat < s.leader.logs.full.length := by
    obtain ⟨entry, held, -⟩ := Option.map_eq_some_iff.mp isTerm
    exact (List.getElem?_eq_some_iff.mp held).1
  have length := ready.leader.length_eq
  have sharesIff := ready.shares_iff_term nonneg (by omega)
  rw [isTerm, isTerm', Option.some.injEq] at sharesIff
  simp only [Logs.matchesPrev, if_neg (Int.not_lt.mpr nonneg), found, Option.map_some,
    Option.bind_eq_bind, Option.bind_some]
  by_cases sameTerm : term = term'
  · exact .inl ⟨sharesIff.mpr sameTerm, by simp [sameTerm]⟩
  · exact .inr ⟨mt sharesIff.mp sameTerm, by simp [Ne.symm sameTerm]⟩

end Search.Ready

section

variable {cfg : Config} {me : Nat} {sv : Server α} {caller : Caller} {args : AppendEntriesArgs α}
  {sent : SendEntries α} {status : EntryStatus}

/-- The handler of a probe: the log stays as it is, and so does the commit index. -/
theorem Follower.appendEntries_probe
    (current : sv.term ≤ args.term) (plain : args.snapshot = none)
    (query : args.entryType = .entryTQuery) (carried : args.sendEntries = some sent)
    (answered : sv.logs.followerAppendEntries sent = some (sv.logs, status, false)) :
    Follower.appendEntries cfg me sv caller args = some {
      server := { sv.raiseTo args.term with
        todo := [.replyAppendEntries caller args { entryStatus := status }] }
      obs := sv.raiseObs me args.term } := by
  unfold Follower.appendEntries
  rw [if_neg (Int.not_lt.mpr current)]
  simp [Server.adoptTerm_eq, plain, carried, answered, query]

/-- The peer may answer `ENTRY_HOLD` in its present term: it stands for election and has not
been told to stop. -/
def Server.MayHold (sv : Server α) : Prop :=
  (∃ cd, sv.role = .candidate cd) ∧
    (sv.active = true ∧ (∀ transFunc, .transRole transFunc ∉ sv.todo) ∨ .setActive ∈ sv.todo)

/-- A peer that is not between two roles answers a probe with what its log says, or with
`ENTRY_HOLD`, and then does not hold again in the leader's term. -/
theorem processEvent_probe
    (running : sv.active = true) (idle : sv.todo = []) (current : sv.term ≤ args.term)
    (alone : sv.role.isLeader = true → sv.term < args.term) (plain : args.snapshot = none)
    (query : args.entryType = .entryTQuery) (carried : args.sendEntries = some sent)
    (answered : sv.logs.followerAppendEntries sent = some (sv.logs, status, false)) :
    ∃ out reply, processEvent cfg me sv (.appendEntries caller args) = some out ∧
      out.appendReply = some reply ∧ reply.responsed = true ∧ out.replied.logs = sv.logs ∧
      out.replied.term = args.term ∧ ¬out.replied.MayHold ∧
      (reply.entryStatus = status ∨
        reply.entryStatus = .entryHold ∧ (sv.term < args.term ∨ sv.MayHold)) := by
  have raised : (if sv.term < args.term then args.term else sv.term) = args.term := by
    split <;> omega
  cases isRole : sv.role with
  | follower =>
      have handled : processEvent cfg me sv (.appendEntries caller args) =
          Follower.appendEntries cfg me sv caller args := by
        simp [processEvent, processRole, Follower.process, running, isRole]
      refine ⟨_, _, handled.trans (Follower.appendEntries_probe current plain query carried
        answered), rfl, rfl, rfl, raised, ?_, .inl rfl⟩
      simp [Server.MayHold, Out.replied, isRole]
  | candidate cd =>
      have handled : processEvent cfg me sv (.appendEntries caller args) = some {
          server := { sv.raiseTo args.term with todo := [.transRole .followerFromCandidate,
            .replyAppendEntries caller args { entryStatus := .entryHold }] }
          obs := sv.raiseObs me args.term } := by
        simp [processEvent, processRole, Candidate.process, running, isRole,
          Candidate.appendEntries, current, Server.adoptTerm_eq]
      refine ⟨_, _, handled, rfl, rfl, rfl, raised, ?_,
        .inr ⟨rfl, .inr ⟨⟨cd, isRole⟩, .inl ⟨running, by simp [idle]⟩⟩⟩⟩
      simp [Server.MayHold, Out.replied]
  | leader rc =>
      have larger := alone (by rw [isRole]; rfl)
      have handled : processEvent cfg me sv (.appendEntries caller args) = some {
          server := { sv with
            term := args.term
            voteFor := none
            todo := [.persistState, .transRole .followerFromLeader, .replyAppendEntries caller args
              { entryStatus := .entryHold, term := sv.term }] } } := by
        simp [processEvent, processRole, Leader.process, running, isRole, Leader.appendEntries,
          Int.not_lt.mpr current, (Int.ne_of_lt larger).symm, Server.storeTerm_of_lt larger]
      refine ⟨_, _, handled, rfl, rfl, rfl, rfl, ?_, .inr ⟨rfl, .inl larger⟩⟩
      simp [Server.MayHold, Out.replied]

/-- A peer that may not hold only gets to by standing for election in a later term. -/
theorem Steps.mayHold {net : List (Msg α)} {act : Act α} {out : Out α}
    (steps : Steps cfg me net sv act out) (up : sv.up = true) (stays : out.server.up = true)
    (sameTerm : out.server.term = sv.term) (may : out.server.MayHold) : sv.MayHold := by
  obtain ⟨⟨cd, candidate⟩, may⟩ := may
  cases steps with
  | popped _ idle next handles =>
      suffices standing : (∃ cd, sv.role = .candidate cd) ∧ sv.active = true from
        ⟨standing.1, .inl ⟨standing.2, by simp [idle]⟩⟩
      cases handles with
      | becameCandidate =>
          dsimp only at sameTerm
          omega
      | _ => simp_all
  | executed _ next executes =>
      unfold Server.MayHold
      cases executes <;> simp_all
  | applied _ applies => cases applies <;> exact ⟨⟨cd, candidate⟩, may⟩
  | crashed => cases stays
  | restarted down => simp [up] at down
  | polled _ _ standing | polledEvent _ _ standing => exact ⟨⟨_, standing⟩, may⟩
  | steppedDown => exact ⟨⟨cd, candidate⟩, .inr (may.resolve_left (by simp))⟩
  | _ => exact ⟨⟨cd, candidate⟩, may⟩

end

/-! ## What the search knows -/

/-- The request under way asks for the leader's entry at `m`. -/
structure Call.Probes (call : Call α) (leader : Server α) (m : Int) : Prop where
  term : call.args.term = leader.term
  query : call.args.entryType = .entryTQuery
  plain : call.args.snapshot = none
  view : call.view = Slice.nil
  waiting : call.atomReply = none
  sent : ∃ term, call.args.sendEntries = some ⟨[], ⟨m, term⟩⟩ ∧
    leader.logs.full[m.toNat]?.map LogEntry.term = some term

namespace Search

/-- The interval that is left lies in the leader's log. -/
structure Window (s : Search α) (lo l r best : Int) : Prop extends
    Bisect s.Shares lo l r best where
  nonneg : 0 ≤ lo
  base : lo ≤ Replicator.lii s.leader
  last : r < s.leader.logs.full.length

/-- `best` is the last index the follower shares, or all it shares has been compacted. -/
structure Concludes (s : Search α) (best : Int) : Prop where
  known : best = -1 ∨ s.Shares best
  last : (∀ idx, s.Shares idx → idx ≤ best) ∨ ∀ idx, s.Shares idx → idx < Replicator.lii s.leader

/-- What is known at each place of `matchIndex`. -/
def Phase (s : Search α) : ReplPc α → Prop
  | .outer best => best = -1 ∨ s.Shares best
  | .inner l r best => ∃ lo, s.Window lo l r best
  | .probeBuild l r best => l ≤ r ∧ ∃ lo, s.Window lo l r best
  | .probe l r best m call | .probing l r best m call =>
      (l ≤ m ∧ m ≤ r) ∧ call.Probes s.leader m ∧ ∃ lo, s.Window lo l r best
  | .finish best => s.Concludes best
  | .head => s.Concludes (s.repl.nextIndex - 1)
  | _ => False

/-- The leader's log has grown or has been compacted, and the follower shares what it
shared. -/
structure Extends (s s' : Search α) : Prop where
  shares : s'.Shares = s.Shares
  base : Replicator.lii s.leader ≤ Replicator.lii s'.leader
  front : s.leader.logs.full <+: s'.leader.logs.full
  term : s'.leader.term = s.leader.term
  nextIndex : s'.repl.nextIndex = s.repl.nextIndex

section

variable {s s' : Search α}

theorem Window.extend {lo l r best : Int} (window : s.Window lo l r best) (ext : s.Extends s') :
    s'.Window lo l r best where
  toBisect := ext.shares ▸ window.toBisect
  nonneg := window.nonneg
  base := window.base.trans ext.base
  last := by
    have last := window.last
    have atMost := ext.front.length_le
    omega

theorem Concludes.extend {best : Int} (concludes : s.Concludes best) (ext : s.Extends s') :
    s'.Concludes best := by
  refine ⟨ext.shares ▸ concludes.known, ?_⟩
  rw [ext.shares]
  exact concludes.last.imp_right fun below idx shares => (below idx shares).trans_le ext.base

theorem Call.Probes.extend {call : Call α} {m : Int} (probes : call.Probes s.leader m)
    (ext : s.Extends s') : call.Probes s'.leader m where
  term := probes.term.trans ext.term.symm
  query := probes.query
  plain := probes.plain
  view := probes.view
  waiting := probes.waiting
  sent := by
    obtain ⟨term, sent, isTerm⟩ := probes.sent
    obtain ⟨entry, held, rfl⟩ := Option.map_eq_some_iff.mp isTerm
    exact ⟨entry.term, sent, by rw [getElem?_extend ext.front held, Option.map_some]⟩

/-- What is known stays true while the leader works on its log. -/
theorem Phase.extend {pc : ReplPc α} (phase : s.Phase pc) (ext : s.Extends s') :
    s'.Phase pc := by
  cases pc with
  | outer best =>
      show best = -1 ∨ s'.Shares best
      rw [ext.shares]
      exact phase
  | inner l r best =>
      obtain ⟨lo, window⟩ := phase
      exact ⟨lo, window.extend ext⟩
  | probeBuild l r best =>
      obtain ⟨nonempty, lo, window⟩ := phase
      exact ⟨nonempty, lo, window.extend ext⟩
  | probe l r best m call | probing l r best m call =>
      obtain ⟨inside, probes, lo, window⟩ := phase
      exact ⟨inside, Call.Probes.extend probes ext, lo, window.extend ext⟩
  | finish best => exact Concludes.extend phase ext
  | head =>
      show s'.Concludes (s'.repl.nextIndex - 1)
      rw [ext.nextIndex]
      exact Concludes.extend phase ext
  | _ => exact phase

end

end Search

/-! ## What is left to do -/

/-- What is left of a round, `left` steps before the answer to its next probe.  A round that
begins below the snapshot may have to begin again. -/
def roundLeft (base l r : Int) (left : Nat) : Nat ×ₗ Nat :=
  toLex (if l < base then 2 else 0, 4 * (r + 1 - l).toNat + left)

/-- What is left of a search in a log that begins at `base`. -/
def ReplPc.left (base : Int) : ReplPc α → Nat ×ₗ Nat
  | .outer _ => toLex (1, 0)
  | .inner l r _ => roundLeft base l r 3
  | .probeBuild l r _ => roundLeft base l r 2
  | .probe l r _ _ _ => roundLeft base l r 1
  | .probing l r _ _ _ => roundLeft base l r 0
  | .finish _ => toLex (0, 1)
  | _ => toLex (0, 0)

theorem roundLeft_lt {base l r l' r' : Int} {left left' : Nat} (later : l ≤ l')
    (smaller : 4 * (r' + 1 - l').toNat + left' < 4 * (r + 1 - l).toNat + left) :
    roundLeft base l' r' left' < roundLeft base l r left := by
  rw [roundLeft, roundLeft, Prod.Lex.toLex_lt_toLex]
  by_cases before : l < base
  · rw [if_pos before]
    split <;> omega
  · rw [if_neg before, if_neg (by omega)]
    omega

theorem roundLeft_begin_lt (base r : Int) (left : Nat) :
    roundLeft base base r left < toLex (1, 0) := by
  rw [roundLeft, Prod.Lex.toLex_lt_toLex, if_neg (Int.lt_irrefl _)]
  omega

theorem lt_roundLeft_of_lt {base l : Int} (below : l < base) (r : Int) (left : Nat) :
    toLex (1, 0) < roundLeft base l r left := by
  rw [roundLeft, Prod.Lex.toLex_lt_toLex, if_pos below]
  omega

theorem lt_roundLeft_inner (base l r : Int) : toLex (0, 1) < roundLeft base l r 3 := by
  rw [roundLeft, Prod.Lex.toLex_lt_toLex]
  split <;> omega

open Classical in
/-- How often the peer may still answer `ENTRY_HOLD` to a leader of `term`. -/
noncomputable def Server.holdsLeft (sv : Server α) (term : Int) : Nat :=
  if sv.term < term then 2 else if sv.MayHold then 1 else 0

theorem Server.holdsLeft_le {sv sv' : Server α} {term : Int} (later : sv.term ≤ sv'.term)
    (current : sv'.term ≤ term) (kept : sv'.term = sv.term → sv'.MayHold → sv.MayHold) :
    sv'.holdsLeft term ≤ sv.holdsLeft term := by
  unfold holdsLeft
  by_cases before : sv.term < term
  · rw [if_pos before]
    split_ifs <;> omega
  · rw [if_neg before, if_neg (by omega)]
    have same := kept (by omega)
    split_ifs <;> simp_all

theorem Server.holdsLeft_of_term {sv : Server α} {term : Int} (current : sv.term = term)
    (settled : ¬sv.MayHold) : sv.holdsLeft term = 0 := by
  simp [holdsLeft, current, settled]

/-! ## The steps -/

namespace Search

variable {cfg : Config} {me : Nat} {s : Search α}

/-- The replicator has gone on to `repl`. -/
def moved (s : Search α) (repl : Replicator α) : Search α :=
  { s with repl, leader := { s.leader with nextId := s.leader.nextId + 1 } }

theorem Ready.probeBuild (ready : s.Ready) {l r best : Int}
    (phase : s.Phase (.probeBuild l r best)) :
    ∃ pc, s.repl.buildProbe me s.leader l r best = some { s.repl with pc } ∧ s.Phase pc ∧
      pc.left (Replicator.lii s.leader) < roundLeft (Replicator.lii s.leader) l r 2 := by
  obtain ⟨nonempty, lo, window⟩ := phase
  have inside := Bisect.mid nonempty
  have length := ready.leader.length_eq
  have last := window.last
  obtain ⟨⟨term, ok⟩, found⟩ :=
    ready.leader.cursors.anchored.tryIndexLogTerm_isSome (l + (r - l) / 2)
  unfold Replicator.buildProbe
  simp only [found, Option.bind_eq_bind, Option.bind_some]
  cases ok with
  | true =>
      refine ⟨_, rfl, ⟨inside, ?_, lo, window⟩, roundLeft_lt (Int.le_refl _) (by omega)⟩
      exact ⟨rfl, rfl, rfl, rfl, rfl, term, rfl, (ready.leader.tryIndexLogTerm found).2⟩
  | false =>
      -- the index has been compacted: `continue search`
      have below := ready.leader.tryIndexLogTerm_lii (by omega) found
      exact ⟨_, rfl, window.known, lt_roundLeft_of_lt (by omega) r 2⟩

/-- The replicator can go on, and then there is less left. -/
theorem Ready.advance (ready : s.Ready) (phase : s.Phase s.repl.pc)
    (searching : s.repl.pc.inSearch = true) :
    ∃ repl, s.repl.advance me s.leader = some repl ∧ repl.ld = s.repl.ld ∧
      (s.moved repl).Phase repl.pc ∧
      repl.pc.left (Replicator.lii s.leader) < s.repl.pc.left (Replicator.lii s.leader) := by
  have leading := ready.leading
  have kept (repl : Replicator α) (same : repl.nextIndex = s.repl.nextIndex) :
      s.Extends (s.moved repl) := ⟨rfl, Int.le_refl _, List.prefix_rfl, rfl, same⟩
  unfold Replicator.advance
  cases here : s.repl.pc with
  | outer best =>
      rw [here] at phase
      simp only [leading, if_true]
      refine ⟨_, rfl, rfl, ?_, roundLeft_begin_lt _ _ _⟩
      have length := ready.leader.length_eq
      have window : s.Window (Replicator.lii s.leader) (Replicator.lii s.leader)
          s.leader.logs.lli best := {
        toBisect := .begin phase fun idx shares => (ready.shares_le shares).2.1
        nonneg := Replicator.lii_nonneg ready.leader
        base := Int.le_refl _
        last := by omega }
      exact Phase.extend ⟨_, window⟩ (kept _ rfl)
  | inner l r best =>
      rw [here] at phase
      obtain ⟨lo, window⟩ := phase
      simp only [leading, true_and]
      split
      case isTrue nonempty =>
        refine ⟨_, rfl, rfl, ?_, roundLeft_lt (Int.le_refl _) (by omega)⟩
        exact Phase.extend ⟨nonempty, lo, window⟩ (kept _ rfl)
      case isFalse empty =>
        refine ⟨_, rfl, rfl, ?_, lt_roundLeft_inner _ l r⟩
        have concludes : s.Concludes best := by
          refine ⟨window.known, ?_⟩
          exact (window.done (by omega)).imp_right fun below idx shares =>
            (below idx shares).trans_le window.base
        exact Phase.extend concludes (kept _ rfl)
  | probeBuild l r best =>
      rw [here] at phase
      obtain ⟨pc, built, phase, less⟩ := ready.probeBuild phase
      exact ⟨_, built, rfl, phase.extend (kept _ rfl), less⟩
  | probe l r best m call =>
      rw [here] at phase
      obtain ⟨inside, probes, window⟩ := phase
      simp only [leading, if_true]
      refine ⟨_, rfl, rfl, ?_, roundLeft_lt (Int.le_refl _) (by omega)⟩
      exact Phase.extend ⟨inside, { probes with waiting := rfl }, window⟩ (kept _ rfl)
  | finish best =>
      rw [here] at phase
      simp only [Replicator.matched, leading, if_true]
      refine ⟨_, rfl, rfl, ?_, Prod.Lex.toLex_lt_toLex.mpr (by decide)⟩
      show Concludes _ (best + 1 - 1)
      rw [Int.add_sub_cancel]
      exact ⟨phase.known, phase.last⟩
  | _ =>
      rw [here] at searching
      cases searching

/-- The peer has become `peer` and the replicator has gone on to `pc`. -/
def answered (s : Search α) (pc : ReplPc α) (peer : Server α) : Search α :=
  { s with repl := { s.repl with pc }, peer }

/-- The peer has become another server with the same log. -/
theorem Ready.answered (ready : s.Ready) (pc : ReplPc α) {peer : Server α}
    (sameLogs : peer.logs = s.peer.logs) (current : peer.term ≤ s.leader.term) :
    (s.answered pc peer).Ready ∧ s.Extends (s.answered pc peer) := by
  have shares : (s.answered pc peer).Shares = s.Shares := by
    funext idx
    simp only [Shares, Search.answered, sameLogs]
  refine ⟨?_, shares, Int.le_refl _, List.prefix_rfl, rfl, rfl⟩
  exact {
    ready with
    current
    peer := sameLogs ▸ ready.peer
    commit := sameLogs ▸ ready.commit
    matching := sameLogs ▸ ready.matching
    common := sameLogs ▸ ready.common }

/-- The peer can answer a probe, and then there is less left: less of the search, or fewer
answers `ENTRY_HOLD`. -/
theorem Ready.answer (ready : s.Ready) {l r best m : Int} {call : Call α}
    (here : s.repl.pc = .probing l r best m call) (phase : s.Phase s.repl.pc)
    (up : s.peer.up = true) (idle : s.peer.todo = []) (answers : s.Answers cfg .answer) :
    ∃ pc peer, step cfg me .answer s = some (s.answered pc peer) ∧ (s.answered pc peer).Ready ∧
      (s.answered pc peer).Phase pc ∧ peer.holdsLeft s.leader.term = 0 ∧
      (pc.left (Replicator.lii s.leader) < s.repl.pc.left (Replicator.lii s.leader) ∨
        0 < s.peer.holdsLeft s.leader.term) := by
  rw [here] at phase ⊢
  obtain ⟨inside, probes, lo, window⟩ := phase
  obtain ⟨term, sent, isTerm⟩ := probes.sent
  have start := window.start
  have nonneg := window.nonneg
  -- Where the search goes on with the answer the log of the peer gives.
  obtain ⟨status, pc, result, next, known, less⟩ : ∃ status pc,
      s.peer.logs.followerAppendEntries ⟨[], ⟨m, term⟩⟩ = some (s.peer.logs, status, false) ∧
      (∀ reply, reply.entryStatus = status →
        s.repl.probed l r best m call reply = { s.repl with pc }) ∧ s.Phase pc ∧
      pc.left (Replicator.lii s.leader) < roundLeft (Replicator.lii s.leader) l r 0 := by
    rcases ready.followerAppendEntries (by omega) isTerm with ⟨shares, result⟩ | ⟨differs, result⟩
    · have hit : s.Window lo (m + 1) r m := { window with toBisect := window.hit inside.1 shares }
      exact ⟨_, .inner (m + 1) r m, result,
        fun reply isStatus => by simp [Replicator.probed, isStatus], ⟨lo, hit⟩,
        roundLeft_lt (by omega) (by omega)⟩
    · have closed (idx : Int) (after : m ≤ idx) (shares : s.Shares idx) : s.Shares m :=
        ready.shares_earlier (by omega) after shares
      have last := window.last
      have miss : s.Window lo l (m - 1) best :=
        { window with toBisect := window.miss closed differs, last := by omega }
      exact ⟨_, .inner l (m - 1) best, result,
        fun reply isStatus => by simp [Replicator.probed, isStatus], ⟨lo, miss⟩,
        roundLeft_lt (by omega) (by omega)⟩
  -- The peer gives this answer, or `ENTRY_HOLD`.
  have calling : s.repl.calling = some call := by simp [Replicator.calling, here]
  have carried : (Replicator.copy s.leader call).sendEntries = some ⟨[], ⟨m, term⟩⟩ := by
    simp [Replicator.copy, sent, probes.view, Slice.read, Slice.nil]
  have sameTerm : (Replicator.copy s.leader call).term = s.leader.term := probes.term
  have running := answers.2 rfl
  obtain ⟨out, reply, handled, isReply, responsed, logs, raised, settled, answer⟩ :
      ∃ out reply, processEvent cfg s.repl.peerId s.peer
        (.appendEntries ⟨me, call.id⟩ (Replicator.copy s.leader call)) = some out ∧ _ :=
    processEvent_probe running idle (ready.current.trans_eq sameTerm.symm)
      (sameTerm ▸ answers.1 running) probes.plain probes.query carried result
  rw [sameTerm] at raised answer
  have taken (pc : ReplPc α) (goes : s.repl.probed l r best m call reply = { s.repl with pc }) :
      step cfg me .answer s = some (s.answered pc out.replied) := by
    simp [step, guard, up, idle, calling, handled, isReply, Replicator.receive, here,
      probes.waiting, responsed, ready.leading, goes, Search.answered]
  have kept (pc : ReplPc α) := ready.answered pc logs raised.le
  have none := Server.holdsLeft_of_term raised settled
  rcases answer with real | ⟨held, may⟩
  · exact ⟨pc, _, taken pc (next reply real), (kept pc).1, known.extend (kept pc).2, none,
      .inl less⟩
  · refine ⟨.probe l r best m call, _, taken _ (by simp [Replicator.probed, held]), (kept _).1,
      Phase.extend ⟨inside, probes, lo, window⟩ (kept _).2, none, .inr ?_⟩
    unfold Server.holdsLeft
    split_ifs <;> simp_all

/-- The leader's log has become `logs`. -/
def worked (s : Search α) (logs : Logs α) : Search α :=
  { s with leader := { s.leader with logs } }

theorem Ready.recompacted (ready : s.Ready) {logs : Logs α} (sound : logs.Sound)
    (sameFull : logs.full = s.leader.logs.full)
    (base : Replicator.lii s.leader ≤ Replicator.lii (s.worked logs).leader) :
    (s.worked logs).Ready ∧ s.Extends (s.worked logs) := by
  have shares : (s.worked logs).Shares = s.Shares := by
    funext idx
    simp only [Shares, worked, sameFull]
  constructor
  · exact {
      ready with
      leader := sound
      matching := sameFull ▸ ready.matching
      common := sameFull ▸ ready.common }
  · exact ⟨shares, base, by simp [worked, sameFull], rfl, rfl⟩

theorem Ready.appended (ready : s.Ready) {logs : Logs α} {et : LogEntry α} {commandIndex : Int}
    (pushed : s.leader.logs.pushEntry et = (logs, commandIndex))
    (new : s.Allowed cfg (.leaderLog (.leaderAppendEntry et))) :
    (s.worked logs).Ready ∧ s.Extends (s.worked logs) ∧
      Replicator.lii (s.worked logs).leader = Replicator.lii s.leader := by
  have sound := ready.leader.pushEntry pushed
  have full : logs.full = s.leader.logs.full ++ [{ et with commandIndex }] :=
    Logs.full_pushEntry pushed
  have sameLii : Replicator.lii (s.worked logs).leader = Replicator.lii s.leader := by
    rw [worked, Logs.pushEntry_spec pushed]
    rfl
  have shares : (s.worked logs).Shares = s.Shares := by
    funext idx
    simp only [Shares, worked, full, Option.mem_def, getElem?_snoc]
    refine propext (and_congr_right fun _ => exists_congr fun entry => ?_)
    constructor
    · rintro ⟨held | ⟨atEnd, rfl⟩, held'⟩
      · exact ⟨held, held'⟩
      · exact absurd rfl (new { et with commandIndex } (by rw [← atEnd]; exact held'))
    · exact fun ⟨held, held'⟩ => ⟨.inl held, held'⟩
  have matching : Matching logs.full s.peer.logs.full := by
    intro k inBounds sameTerm
    rw [full] at inBounds sameTerm ⊢
    rw [List.length_append, List.length_singleton] at inBounds
    by_cases before : k < s.leader.logs.full.length
    · rw [List.getElem?_append_left before] at sameTerm
      rw [List.take_append_of_le_length before]
      exact ready.matching k before sameTerm
    · obtain rfl : k = s.leader.logs.full.length := by omega
      rw [List.getElem?_concat_length, Option.map_some, eq_comm, Option.map_eq_some_iff] at sameTerm
      obtain ⟨entry, held, sameTerm⟩ := sameTerm
      exact absurd sameTerm (new entry held)
  have front : s.leader.logs.full <+: logs.full := by
    rw [full]
    exact List.prefix_append ..
  refine ⟨?_, ⟨shares, sameLii.ge, front, rfl, rfl⟩, sameLii⟩
  exact { ready with leader := sound, matching, common := ready.common.trans front }

/-- What the leader does to its log leaves the search where it is, and only a compaction
moves the index it begins with. -/
theorem Ready.leaderLog (ready : s.Ready) {op : LogOp α} (allowed : s.Allowed cfg (.leaderLog op))
    {outcome : LogOutcome α} (performed : s.leader.logs.perform op = some outcome) :
    (s.worked outcome.logs).Ready ∧ s.Extends (s.worked outcome.logs) ∧
      ((SearchAct.leaderLog op).isCompaction = false →
        Replicator.lii (s.worked outcome.logs).leader = Replicator.lii s.leader) := by
  cases op with
  | leaderAppendEntry et =>
      cases performed
      obtain ⟨ready', ext, sameLii⟩ := ready.appended rfl allowed
      exact ⟨ready', ext, fun _ => sameLii⟩
  | updateCommit leaderCommit =>
      obtain ⟨⟨logs, item⟩, committed, ⟨⟩⟩ := Option.bind_eq_some_iff.mp performed
      have unchanged : logs.Sound ∧ logs.full = s.leader.logs.full ∧
          logs.snapshot = s.leader.logs.snapshot := by
        cases item with
        | none =>
            obtain rfl := Logs.updateCommit_none committed
            exact ⟨ready.leader, rfl, rfl⟩
        | some item =>
            refine ⟨ready.leader.updateCommit committed, Logs.full_updateCommit committed, ?_⟩
            obtain ⟨_, _, -, -, -, rfl, -⟩ := Logs.updateCommit_spec committed
            rfl
      have sameLii : Replicator.lii (s.worked logs).leader = Replicator.lii s.leader := by
        simp only [Replicator.lii, worked, unchanged.2.2]
      obtain ⟨ready', ext⟩ := ready.recompacted unchanged.1 unchanged.2.1 sameLii.ge
      exact ⟨ready', ext, fun _ => sameLii⟩
  | takeSnapshot cmdIndex snapshot =>
      obtain ⟨logs, taken, ⟨⟩⟩ := Option.bind_eq_some_iff.mp performed
      have atBase := Replicator.lii_cases ready.leader
      have later : Replicator.lii s.leader ≤ Replicator.lii (s.worked logs).leader := by
        obtain ⟨kept, _, _, _, -, -, -, -, rfl⟩ := Logs.takeSnapshot_spec taken
        show _ ≤ s.leader.logs.offset + kept
        rcases atBase with ⟨-, isLii, isOffset⟩ | ⟨_, -, isLii, isOffset, -⟩ <;> omega
      obtain ⟨ready', ext⟩ := ready.recompacted (ready.leader.takeSnapshot allowed taken)
        (Logs.full_takeSnapshot taken) later
      exact ⟨ready', ext, fun plain => by cases plain⟩
  | followerAppendEntries args | followerInstallSnapshot snapshot => exact allowed.elim

/-! ## Runs -/

/-- What is left of the search. -/
noncomputable def left (s : Search α) : Nat ×ₗ Nat ×ₗ Nat :=
  toLex (s.peer.holdsLeft s.leader.term, s.repl.pc.left (Replicator.lii s.leader))

/-- What holds at every moment of a search. -/
structure Inv (s : Search α) : Prop extends s.Ready where
  phase : s.Phase s.repl.pc

theorem Ready.moved (ready : s.Ready) {repl : Replicator α} (sameLd : repl.ld = s.repl.ld) :
    (s.moved repl).Ready :=
  { ready with leading := sameLd ▸ ready.leading }

/-- A step of the search leaves less to do. -/
theorem Inv.search {s' : Search α} (inv : s.Inv) {act : SearchAct α}
    (isSearch : act.isSearch = true) (answers : s.Answers cfg act)
    (taken : step cfg me act s = some s') : s'.Inv ∧ s'.left < s.left := by
  cases act with
  | advance =>
      simp only [step, Option.bind_eq_bind, Option.bind_eq_some_iff, Option.guard_eq_some'] at taken
      obtain ⟨_, searching, repl, advanced, ⟨⟩⟩ := taken
      obtain ⟨_, advanced', sameLd, phase, less⟩ := inv.toReady.advance inv.phase searching
      obtain rfl := Option.some.inj (advanced.symm.trans advanced')
      exact ⟨⟨inv.toReady.moved sameLd, phase⟩, Prod.Lex.toLex_lt_toLex.mpr (.inr ⟨rfl, less⟩)⟩
  | answer =>
      have phase := inv.phase
      obtain ⟨up, idle⟩ : s.peer.up = true ∧ s.peer.todo = [] := by
        simp only [step, Option.bind_eq_bind, Option.bind_eq_some_iff, Option.guard_eq_some',
          List.isEmpty_iff] at taken
        obtain ⟨_, guarded, -⟩ := taken
        exact guarded
      cases here : s.repl.pc with
      | probing l r best m call =>
          obtain ⟨pc, peer, answer, ready, phase', none, less⟩ :=
            inv.toReady.answer here phase up idle answers
          obtain rfl := Option.some.inj (taken.symm.trans answer)
          refine ⟨⟨ready, phase'⟩, Prod.Lex.toLex_lt_toLex.mpr ?_⟩
          rcases Nat.eq_zero_or_pos (s.peer.holdsLeft s.leader.term) with zero | positive
          · exact .inr ⟨none.trans zero.symm, less.resolve_right (by omega)⟩
          · exact .inl (none.trans_lt positive)
      | sending call => exact (here ▸ phase : s.Phase (.sending call)).elim
      | _ => simp [step, Replicator.calling, here] at taken
  | peer | leaderLog => cases isSearch

/-- A step of the leader on its log leaves as much to do, unless it is a compaction. -/
theorem Inv.leaderLog {s' : Search α} (inv : s.Inv) {op : LogOp α}
    (allowed : s.Allowed cfg (.leaderLog op)) (taken : step cfg me (.leaderLog op) s = some s') :
    s'.Inv ∧ ((SearchAct.leaderLog op).isCompaction = false → s'.left ≤ s.left) := by
  obtain ⟨outcome, performed, ⟨⟩⟩ := Option.bind_eq_some_iff.mp taken
  obtain ⟨ready, ext, sameLii⟩ := inv.toReady.leaderLog allowed performed
  refine ⟨⟨ready, inv.phase.extend ext⟩, fun plain => le_of_eq ?_⟩
  exact congrArg (fun base => toLex (s.peer.holdsLeft s.leader.term, s.repl.pc.left base))
    (sameLii plain)

/-- What the peer does besides leaves as much to do. -/
theorem Inv.peerStep {s' : Search α} (inv : s.Inv) {net : List (Msg α)} {act : Act α}
    (allowed : s.Allowed cfg (.peer net act)) (taken : step cfg me (.peer net act) s = some s') :
    s'.Inv ∧ s'.left ≤ s.left := by
  simp only [step, Option.bind_eq_bind, Option.bind_eq_some_iff, Option.guard_eq_some'] at taken
  obtain ⟨_, up, out, acted, ⟨⟩⟩ := taken
  obtain ⟨stays, logs, current⟩ := allowed out acted
  have steps := Server.act_steps up acted
  obtain ⟨ready, ext⟩ := inv.toReady.answered s.repl.pc logs current
  refine ⟨⟨ready, inv.phase.extend ext⟩, Prod.Lex.toLex_le_toLex.mpr ?_⟩
  have fewer := Server.holdsLeft_le (steps.term_le up) current (steps.mayHold up stays)
  exact (Nat.lt_or_eq_of_le fewer).imp_right fun same => ⟨same, le_rfl⟩

theorem Inv.step {s' : Search α} (inv : s.Inv) {act : SearchAct α} (answers : s.Answers cfg act)
    (taken : step cfg me act s = some s') : s'.Inv := by
  cases act with
  | advance | answer => exact (inv.search rfl answers taken).1
  | peer net act => exact (inv.peerStep answers.1 taken).1
  | leaderLog op => exact (inv.leaderLog answers.1 taken).1

theorem Inv.run {init : Search α} (inv : init.Inv) {acts : List (SearchAct α)}
    (run : Run (Search.step cfg me) (Answers cfg) init acts s) : s.Inv :=
  run.invariant (fun _ s => s.Inv) inv fun _ _ _ _ _ inv => inv.step

/-- The search is not stuck: until it has set `nextIndex`, it can go on or the peer can answer. -/
theorem Inv.goesOn (inv : s.Inv) (unfinished : s.repl.pc ≠ .head) (up : s.peer.up = true)
    (idle : s.peer.todo = []) (answers : s.Answers cfg .answer) :
    ∃ act s', act.isSearch = true ∧ Search.step cfg me act s = some s' := by
  have phase := inv.phase
  cases searching : s.repl.pc.inSearch with
  | true =>
      obtain ⟨repl, advanced, -⟩ : ∃ repl, s.repl.advance me s.leader = some repl ∧ _ :=
        inv.toReady.advance phase searching
      exact ⟨.advance, s.moved repl, rfl, by simp [Search.step, searching, guard, advanced, moved]⟩
  | false =>
      cases here : s.repl.pc with
      | probing l r best m call =>
          obtain ⟨_, _, answer, -⟩ := inv.toReady.answer here phase up idle answers
          exact ⟨.answer, _, rfl, answer⟩
      | head => exact absurd here unfinished
      | outer _ | inner _ _ _ | probeBuild _ _ _ | probe _ _ _ _ _ | finish _ =>
          simp [here, ReplPc.inSearch] at searching
      | _ =>
          rw [here] at phase
          exact phase.elim

/-! ## The result -/

/-- The three results of `matchIndex`. -/
inductive Result (s : Search α) : Prop where
  /-- `nextIndex` follows the last index at which the follower holds the leader's entry. -/
  | found : IsGreatest {idx | Replicator.lii s.leader ≤ idx ∧ idx ≤ s.leader.logs.lli ∧
      s.Shares idx} (s.repl.nextIndex - 1) → Result s
  /-- Nothing has been compacted and the follower holds no entry of the leader. -/
  | nothing : s.leader.logs.snapshot = none → (∀ idx, ¬s.Shares idx) →
      s.repl.nextIndex = 0 → Result s
  /-- The follower does not hold the last entry that has been compacted, and is sent the
  snapshot. -/
  | behind (snapshot : Snapshot α) : s.leader.logs.snapshot = some snapshot →
      ¬s.Shares snapshot.lastIncludeIndex → s.repl.nextIndex < s.leader.logs.offset →
      s.leader.logs.entriesAfter s.repl.nextIndex = some (some snapshot, none) → Result s

theorem Ready.result (ready : s.Ready) (concludes : s.Concludes (s.repl.nextIndex - 1)) :
    s.Result := by
  have nonneg := Replicator.lii_nonneg ready.leader
  have last (idx : Int) (notCompacted : Replicator.lii s.leader ≤ idx) (shares : s.Shares idx) :
      idx ≤ s.repl.nextIndex - 1 := by
    rcases concludes.last with atMost | below
    · exact atMost idx shares
    · exact absurd (below idx shares) (Int.not_lt.mpr notCompacted)
  by_cases above : Replicator.lii s.leader ≤ s.repl.nextIndex - 1
  · have shares := concludes.known.resolve_left (by omega)
    refine .found ⟨⟨above, (ready.shares_le shares).2.1, shares⟩, ?_⟩
    exact fun idx ⟨notCompacted, _, shares⟩ => last idx notCompacted shares
  · rcases Replicator.lii_cases ready.leader with
      ⟨isNone, isLii, -⟩ | ⟨snapshot, isSome, isLii, isOffset, -⟩
    · have fresh (idx : Int) (shares : s.Shares idx) : False := by
        have inside := ready.shares_le shares
        have atMost := last idx (by omega) shares
        omega
      have unset := concludes.known.resolve_right (fresh _)
      exact .nothing isNone fresh (by omega)
    · have differs : ¬s.Shares snapshot.lastIncludeIndex := by
        intro shares
        have atMost := last _ (by omega) shares
        omega
      refine .behind snapshot isSome differs (by omega) ?_
      rw [Logs.entriesAfter, if_pos (by omega), isSome]

/-- When compactions end, the search ends, as long as it is given its turn. -/
theorem Inv.terminates {states : Nat → Search α} {acts : Nat → SearchAct α} (inv : (states 0).Inv)
    (execution : Execution (Search.step cfg me) (Answers cfg) states acts) {start : Nat}
    (compacted : ∀ n, start ≤ n → (acts n).isCompaction = false)
    (fair : ∀ n, ∃ m, n ≤ m ∧ ((acts m).isSearch = true ∨ (states m).repl.pc = .head)) :
    ∃ n, (states n).repl.pc = .head := by
  have invs (n : Nat) : (states n).Inv := inv.run (execution.run n)
  have decreased (n : Nat) (isSearch : (acts n).isSearch = true) :
      (states (n + 1)).left < (states n).left :=
    ((invs n).search isSearch (execution.allowed n) (execution.taken n)).2
  have kept (n : Nat) (later : start ≤ n) : (states (n + 1)).left ≤ (states n).left := by
    have taken := execution.taken n
    have allowed := (execution.allowed n).1
    have plain := compacted n later
    cases isAct : acts n with
    | advance | answer => exact le_of_lt (decreased n (by rw [isAct]; rfl))
    | peer net act =>
        rw [isAct] at taken allowed
        exact ((invs n).peerStep allowed taken).2
    | leaderLog op =>
        rw [isAct] at taken plain allowed
        exact ((invs n).leaderLog allowed taken).2 plain
  obtain ⟨n, -, ended⟩ := Execution.idle Search.left
    (fun act : SearchAct α => act.isSearch = true) kept fun n _ => decreased n
  obtain ⟨m, later, isSearch | finished⟩ := fair n
  · exact absurd isSearch (ended m later)
  · exact ⟨m, finished⟩

end Search

/-- `matchIndex` finds the match point as long as the probes are answered: it is never stuck, it
ends in every execution in which compactions end, and it sets `nextIndex` to one of the three
results. -/
theorem match_point_found {cfg : Config} {me : Nat} {init : Search α} (ready : init.Ready)
    (begins : init.repl.pc = .outer (-1)) :
    (∀ acts s, Run (Search.step cfg me) (Search.Answers cfg) init acts s →
      (s.repl.pc ≠ .head → s.peer.up = true → s.peer.todo = [] → s.Answers cfg .answer →
        ∃ act s', act.isSearch = true ∧ Search.step cfg me act s = some s') ∧
      (s.repl.pc = .head → s.Result)) ∧
    ∀ (states : Nat → Search α) (acts : Nat → SearchAct α), states 0 = init →
      Execution (Search.step cfg me) (Search.Answers cfg) states acts →
      (∃ start, ∀ n, start ≤ n → (acts n).isCompaction = false) →
      (∀ n, ∃ m, n ≤ m ∧ ((acts m).isSearch = true ∨ (states m).repl.pc = .head)) →
      ∃ n, (states n).repl.pc = .head := by
  have inv : init.Inv := ⟨ready, begins ▸ .inl rfl⟩
  constructor
  · intro acts s run
    have invNow := inv.run run
    refine ⟨invNow.goesOn, fun finished => invNow.toReady.result ?_⟩
    have phase := invNow.phase
    rwa [finished] at phase
  · rintro states acts rfl execution ⟨start, compacted⟩ fair
    exact inv.terminates execution compacted fair

/-- A leader of term 3 has four entries.  The peer has lost the election of that term and holds
the first three. -/
def threeShared : Search Nat :=
  let shared : List (LogEntry Nat) := [⟨-1, 1, none⟩, ⟨1, 1, some 7⟩, ⟨2, 1, some 8⟩]
  let log (own : LogEntry Nat) (noopCount lci : Int) : Logs Nat :=
    { entries := shared ++ [own]
      lci
      lli := 3
      lai := -1
      noopCount
      offset := 0
      snapshot := none }
  { leader := { Server.initial with
      active := true, roleId := 1, term := 3, logs := log ⟨-1, 3, none⟩ 2 2 }
    repl := { peerId := 1, ld := 1, nextIndex := 0, pc := .outer (-1) }
    peer := { Server.initial with
      active := true, evCh := [], term := 3, logs := log ⟨3, 2, some 9⟩ 1 1
      role := .candidate ⟨⟨3, 1, ⟨3, 2⟩⟩, 1, [false, false, false], [0, 2]⟩ } }

theorem threeShared_ready : threeShared.Ready where
  leader := ⟨⟨rfl, by decide, by rintro _ ⟨⟩, fun _ => ⟨rfl, rfl⟩⟩, by rintro _ ⟨⟩, rfl⟩
  peer := ⟨⟨rfl, by decide, by rintro _ ⟨⟩, fun _ => ⟨rfl, rfl⟩⟩, by rintro _ ⟨⟩, rfl⟩
  commit := by decide
  leading := rfl
  current := by decide
  matching := by unfold Matching; decide
  common := by decide

/-- The leader compacts its log up to index 2 before the first probe, at index 1, is built,
and the search begins again.  The peer answers `ENTRY_HOLD` and becomes a follower. -/
def searchedAgain : List (SearchAct Nat) :=
  [.advance, .advance, .leaderLog (.takeSnapshot 2 [0])] ++ List.replicate 5 .advance ++
  [.answer, .peer [] .exec, .peer [] .pop, .advance, .answer] ++ List.replicate 3 .advance ++
  [.answer] ++ List.replicate 2 .advance

theorem match_point_found_searchedAgain : ∃ s,
    Run (Search.step (.doubling 3) 0) (Search.Answers (.doubling 3)) threeShared searchedAgain s ∧
      s.repl.pc = .head ∧ s.repl.nextIndex = 3 ∧ s.Result := by
  obtain ⟨s, run, finished, isNext⟩ : ∃ s, Run (Search.step (.doubling 3) 0)
      (Search.Answers (.doubling 3)) threeShared searchedAgain s ∧
      s.repl.pc = .head ∧ s.repl.nextIndex = 3 := Run.exists_of_runSteps (by decide +kernel)
  have found := (match_point_found threeShared_ready rfl).1 _ s run
  exact ⟨s, run, finished, isNext, found.2 finished⟩

/-! ## A probe that is discarded -/

/-- The call has stored a reply without `Responsed`. -/
def Replicator.stalled (repl : Replicator α) : Bool :=
  match repl.pc with
  | .probing _ _ _ _ call => call.atomReply.isSome
  | _ => false

theorem Search.stalled_step {cfg : Config} {me : Nat} {s s' : Search α} {act : SearchAct α}
    (stalled : s.repl.stalled = true) (taken : step cfg me act s = some s') :
    s'.repl = s.repl := by
  unfold Replicator.stalled at stalled
  split at stalled
  case h_2 => cases stalled
  case h_1 l r best m call here =>
    cases act with
    | advance => simp [step, guard, here, ReplPc.inSearch] at taken
    | answer =>
        simp only [step, Option.bind_eq_bind, Option.bind_eq_some_iff] at taken
        obtain ⟨_, -, call', -, out, -, reply, -, ⟨⟩⟩ := taken
        simp [Replicator.receive, here, Option.isSome_iff_ne_none.mp stalled]
    | peer net act =>
        simp only [step, Option.bind_eq_bind, Option.bind_eq_some_iff] at taken
        obtain ⟨_, -, out, -, ⟨⟩⟩ := taken
        rfl
    | leaderLog op =>
        obtain ⟨outcome, -, ⟨⟩⟩ := Option.bind_eq_some_iff.mp taken
        rfl

/-- The election timer of the peer fires while the first probe is under way.  The peer takes the
probe when it has stopped as a candidate, and then it becomes a follower. -/
def probeDiscarded : List (SearchAct Nat) :=
  List.replicate 4 .advance ++ [.peer [] .election, .peer [] .pop, .peer [] .exec, .answer,
    .peer [] .pop]

/-- The first reply to the probe is the one of `discardEv`.  It is stored for good, and the
search never goes on. -/
theorem search_stalled : threeShared.Ready ∧
    ∃ s, Run (Search.step (.doubling 3) 0) (Search.Allowed (.doubling 3)) threeShared
        probeDiscarded s ∧
      s.peer.role = .follower ∧ s.peer.active = true ∧ s.repl.pc ≠ .head ∧
      ∀ acts s', Run (Search.step (.doubling 3) 0) (Search.Allowed (.doubling 3)) s acts s' →
        s'.repl = s.repl := by
  obtain ⟨s, run, follower, running, unfinished, stalled⟩ : ∃ s,
      Run (Search.step (.doubling 3) 0) (Search.Allowed (.doubling 3)) threeShared
        probeDiscarded s ∧
      s.peer.role = .follower ∧ s.peer.active = true ∧ s.repl.pc ≠ .head ∧
      s.repl.stalled = true := Run.exists_of_runSteps (by decide +kernel)
  refine ⟨threeShared_ready, s, run, follower, running, unfinished, fun acts s' later => ?_⟩
  refine later.invariant (fun _ s' => s'.repl = s.repl) rfl ?_
  intro _ _ _ _ _ same _ taken
  exact (Search.stalled_step (same ▸ stalled) taken).trans same

end GoLab.Raft
