import Mathlib.Order.Bounds.Basic
import GoLab.Raft.Representation
import GoLab.Raft.Tally

/-!
# Commit counting is exact

A leader appends and watches one index after the other, and its replicators report the
ranges their peers have confirmed, in any order and any number of times.  The commit index
is then the greatest index up to which every index of the leader's own term was confirmed
by a majority, counted from the set of all reports so far.  The cursors of the log are 32-bit
atomics, so this holds as long as the watched indices are below `2 ^ 31`.
-/

namespace GoLab.Raft

variable {α : Type}
variable {confirms : List Confirm} {idx : Int} {confirm : Confirm}

/-- The arguments of a call of `confirm`. -/
structure Confirm where
  peer : Nat
  startIdx : Int
  endIdx : Int
  deriving DecidableEq, Repr

/-- The peers that have confirmed an index. -/
def confirmers (confirms : List Confirm) (idx : Int) : Finset Nat :=
  ((confirms.filter fun confirm => confirm.startIdx ≤ idx ∧ idx < confirm.endIdx).map
    Confirm.peer).toFinset

theorem mem_confirmers {peer : Nat} :
    peer ∈ confirmers confirms idx ↔
      ∃ confirm ∈ confirms, (confirm.startIdx ≤ idx ∧ idx < confirm.endIdx) ∧
        confirm.peer = peer := by
  simp [confirmers, and_assoc]

/-- An index is confirmed by the leader and enough others. -/
def Quorum (majorN : Nat) (confirms : List Confirm) (idx : Int) : Prop :=
  majorN - 1 ≤ (confirmers confirms idx).card

/-- Every index from `first` to `idx` is confirmed by a majority. -/
def Replicated (majorN : Nat) (confirms : List Confirm) (first idx : Int) : Prop :=
  first ≤ idx ∧ ∀ j, first ≤ j → j ≤ idx → Quorum majorN confirms j

/-! ## The counter and the log of a leader -/

/-- The counter and the log of a leader, and the calls of `confirm` so far. -/
structure Committing (α : Type) where
  rc : ReplCounter
  logs : Logs α
  confirms : List Confirm
  deriving DecidableEq, Repr

inductive CountOp (α : Type) where
  /-- Append an entry and watch its index, as `activate` and `StartCommandEvent` do. -/
  | watch (et : LogEntry α)
  /-- A `ReplConfirmEvent`. -/
  | confirm (confirm : Confirm)
  deriving DecidableEq, Repr

namespace Committing

/-- A leader with the log it was elected with. -/
def elected (logs : Logs α) : Committing α := ⟨.new, logs, []⟩

def step (cfg : Config) (me : Nat) : CountOp α → Committing α → Option (Committing α)
  | .watch et, s => do
      let logs := (s.logs.pushEntry et).1.stored
      let rc ← s.rc.watchIndex cfg.peers me logs.lli
      return { s with rc, logs }
  | .confirm confirm, s => do
      let (rc, commit) ← s.rc.confirm cfg.majorN confirm.peer confirm.startIdx confirm.endIdx
      let logs ← match commit with
        | none => some s.logs
        | some idx => (s.logs.updateCommit idx).map fun (logs, _) => logs.stored
      return ⟨rc, logs, confirm :: s.confirms⟩

/-- A leader of `term` appends entries of its term, and the ranges confirmed for other
peers end at the last watched index. -/
def Allowed (cfg : Config) (me : Nat) (term : Int) (s : Committing α) : CountOp α → Prop
  | .watch et => et.term = term
  | .confirm confirm => confirm.peer < cfg.peers ∧ confirm.peer ≠ me ∧
      confirm.endIdx ≤ s.logs.lli + 1

instance (cfg : Config) (me : Nat) (term : Int) (s : Committing α) (op : CountOp α) :
    Decidable (s.Allowed cfg me term op) := by
  unfold Allowed
  cases op <;> infer_instance

/-- The next index fits into 32 bits. -/
def Fits (s : Committing α) : CountOp α → Prop
  | .watch _ => s.logs.lli + 1 < 2 ^ 31
  | .confirm _ => True

instance (s : Committing α) : (op : CountOp α) → Decidable (s.Fits op)
  | .watch _ => inferInstanceAs (Decidable (_ < _))
  | .confirm _ => .isTrue trivial

/-! ## What the counter keeps -/

section

variable {cfg : Config} {me : Nat} {term : Int} {start : Logs α} {s s' : Committing α}

/-- The last index that is not in the window. -/
def settled (start : Logs α) (s : Committing α) : Int :=
  max s.logs.lci start.lli

/-- The window holds the watched indices that are not committed, with the confirmations of
each; what is committed of the leader's term was confirmed by a majority, and the first
index of the window was not. -/
structure Exact (cfg : Config) (me : Nat) (term : Int) (start : Logs α) (s : Committing α) :
    Prop where
  positioned : s.logs.Positioned
  width : s.logs.lli < 2 ^ 31
  commit : s.logs.lci = start.lci ∨ start.lli < s.logs.lci
  grown : start.lli ≤ s.logs.lli
  length : (s.rc.entries.length : Int) = s.logs.lli - s.settled start
  index : ∀ (k : Nat) entry, s.rc.entries[k]? = some entry → entry.index = s.settled start + 1 + k
  bits : ∀ entry ∈ s.rc.entries,
    entry.bitVec.Represents (insert me (confirmers s.confirms entry.index))
  room : ∀ entry ∈ s.rc.entries, ∀ peer < cfg.peers, peer / 8 < entry.bitVec.bits.length
  counted : ∀ idx, start.lli < idx → idx ≤ s.logs.lci → Quorum cfg.majorN s.confirms idx
  missing : ¬Quorum cfg.majorN s.confirms (s.settled start + 1)
  valid : ∀ confirm ∈ s.confirms, confirm.peer ≠ me ∧ confirm.endIdx ≤ s.logs.lli + 1
  own : ∀ idx, start.lli < idx → idx ≤ s.logs.lli →
    ∃ entry, s.logs.entryAt idx = some entry ∧ entry.term = term

/-- An index nobody has confirmed is not confirmed by a majority of two or more. -/
theorem not_quorum_of_beyond (several : 2 ≤ cfg.peers)
    (beyond : ∀ confirm ∈ confirms, confirm.endIdx ≤ idx) :
    ¬Quorum cfg.majorN confirms idx := by
  have nobody : confirmers confirms idx = ∅ := by
    refine Finset.eq_empty_of_forall_notMem fun peer membership => ?_
    obtain ⟨confirm, inside, covers, -⟩ := mem_confirmers.mp membership
    have endIdx := beyond confirm inside
    omega
  unfold Quorum Config.majorN
  rw [nobody, Finset.card_empty]
  omega

/-- The cursors are read back as they were. -/
theorem Exact.stored {rc : ReplCounter} {logs : Logs α}
    (exact : Exact cfg me term start ⟨rc, logs, confirms⟩) :
    Exact cfg me term start ⟨rc, logs.stored, confirms⟩ ∧ logs.stored.lli = logs.lli := by
  have nonneg := exact.positioned.offset_nonneg
  have commit := exact.positioned.commit
  have width := exact.width
  have lci : int32 logs.lci = logs.lci := int32_eq (by dsimp only at *; omega)
  have lli : int32 logs.lli = logs.lli := int32_eq (by dsimp only at *; omega)
  refine ⟨?_, lli⟩
  unfold Logs.stored
  rw [lci, lli]
  exact { exact with positioned := { exact.positioned with } }

theorem exact_elected (several : 2 ≤ cfg.peers) (positioned : start.Positioned)
    (width : start.lli < 2 ^ 31) : (elected start).Exact cfg me term start where
  positioned := positioned
  width := width
  commit := .inl rfl
  grown := Int.le_refl _
  length := by
    have commit := positioned.commit
    simp only [elected, ReplCounter.new, settled, List.length_nil]
    omega
  index := by simp [elected, ReplCounter.new]
  bits := by simp [elected, ReplCounter.new]
  room := by simp [elected, ReplCounter.new]
  counted idx above atMost := by
    have commit := positioned.commit
    simp only [elected] at atMost
    omega
  missing := not_quorum_of_beyond several (by simp [elected])
  valid := by simp [elected]
  own idx above atMost := by
    simp only [elected] at atMost
    omega

/-! ## Watching an index -/

theorem watchIndex_eq (rc : ReplCounter) {peers : Nat} (isPeer : me < peers)
    (follows : ∀ last ∈ rc.entries.getLast?, idx = last.index + 1) :
    ∃ bitVec, rc.watchIndex peers me idx = some ⟨rc.entries ++ [⟨bitVec, idx⟩]⟩ ∧
      bitVec.Represents {me} ∧ ∀ peer < peers, peer / 8 < bitVec.bits.length := by
  obtain ⟨bitVec, changed, set⟩ := BitVec.Write.perform_isSome (.set me) (BitVec.room_new isPeer)
  rw [BitVec.Write.perform] at set
  refine ⟨bitVec, ?_, ?_, fun peer inside => ?_⟩
  · unfold ReplCounter.watchIndex
    rw [(Option.guard_eq_some' ()).mpr follows, set]
    rfl
  · simpa using ((BitVec.represents_new peers).set set).1
  · rw [BitVec.Write.length_perform (.set me) set]
    exact BitVec.room_new inside

theorem Exact.last_index (exact : s.Exact cfg me term start) :
    ∀ last ∈ s.rc.entries.getLast?, s.logs.lli = last.index := by
  intro last isLast
  have length := exact.length
  rw [Option.mem_def, List.getLast?_eq_getElem?] at isLast
  have inside := (List.getElem?_eq_some_iff.mp isLast).1
  have index := exact.index _ last isLast
  omega

theorem Exact.watched (isPeer : me < cfg.peers)
    (exact : s.Exact cfg me term start) {et : LogEntry α} (isOwn : et.term = term)
    (fits : s.Fits (.watch et)) :
    ∃ s', step cfg me (.watch et) s = some s' ∧ s'.Exact cfg me term start := by
  generalize pushed : s.logs.pushEntry et = result
  obtain ⟨logs, commandIndex⟩ := result
  have positioned := exact.positioned.pushEntry pushed
  have isLogs := Logs.pushEntry_spec pushed
  have grown := exact.grown
  have length := exact.length
  have last := exact.positioned.last
  have lliEq : logs.lli = s.logs.lli + 1 := by rw [isLogs]
  have lciEq : logs.lci = s.logs.lci := by rw [isLogs]
  have follows : ∀ last ∈ s.rc.entries.getLast?, logs.lli = last.index + 1 := fun last isLast => by
    rw [lliEq, exact.last_index last isLast]
  obtain ⟨bitVec, watched, represents, room⟩ := watchIndex_eq s.rc isPeer follows
  have sameSettled : settled start ⟨⟨s.rc.entries ++ [⟨bitVec, logs.lli⟩]⟩, logs, s.confirms⟩ =
      s.settled start := by simp only [settled, lciEq]
  have exact' : Exact cfg me term start
      ⟨⟨s.rc.entries ++ [⟨bitVec, logs.lli⟩]⟩, logs, s.confirms⟩ := {
    positioned := positioned
    width := lliEq ▸ fits
    commit := lciEq ▸ exact.commit
    grown := by simp only; omega
    length := by
      rw [sameSettled]
      simp only [List.length_append, List.length_singleton]
      omega
    index := by
      rw [sameSettled]
      intro k entry found
      rcases getElem?_snoc.mp found with earlier | ⟨rfl, rfl⟩
      · exact exact.index k entry earlier
      · simp only
        omega
    bits := by
      intro entry membership
      rcases List.mem_append.mp membership with earlier | isNew
      · exact exact.bits entry earlier
      · cases List.mem_singleton.mp isNew
        have nobody : confirmers s.confirms logs.lli = ∅ := by
          refine Finset.eq_empty_of_forall_notMem fun peer membership => ?_
          obtain ⟨confirm, inside, covers, -⟩ := mem_confirmers.mp membership
          have valid := exact.valid confirm inside
          omega
        simpa [nobody] using represents
    room := by
      intro entry membership
      rcases List.mem_append.mp membership with earlier | isNew
      · exact exact.room entry earlier
      · cases List.mem_singleton.mp isNew
        exact room
    counted := by
      simp only [lciEq]
      exact exact.counted
    missing := sameSettled ▸ exact.missing
    valid := fun confirm inside => by
      have valid := exact.valid confirm inside
      exact ⟨valid.1, by simp only; omega⟩
    own := by
      intro idx above atMost
      dsimp only at atMost ⊢
      rw [isLogs]
      by_cases isNew : idx = s.logs.lli + 1
      · refine ⟨{ et with commandIndex }, ?_, isOwn⟩
        simp only [Logs.entryAt, index?_eq_some, getElem?_snoc]
        exact ⟨by omega, .inr ⟨by omega, trivial⟩⟩
      · obtain ⟨entry, found, entryTerm⟩ := exact.own idx above (by omega)
        refine ⟨entry, ?_, entryTerm⟩
        simp only [Logs.entryAt, index?_eq_some, getElem?_snoc] at found ⊢
        exact ⟨found.1, .inl found.2⟩ }
  obtain ⟨stored, lli⟩ := exact'.stored
  exact ⟨_, by simp [step, pushed, lli, watched], stored⟩

/-! ## Confirming a range -/

theorem confirmers_cons (confirm : Confirm) (confirms : List Confirm) (idx : Int) :
    confirmers (confirm :: confirms) idx =
      if confirm.startIdx ≤ idx ∧ idx < confirm.endIdx then
        insert confirm.peer (confirmers confirms idx)
      else confirmers confirms idx := by
  unfold confirmers
  rw [List.filter_cons]
  by_cases covers : confirm.startIdx ≤ idx ∧ idx < confirm.endIdx
  · simp [covers]
  · simp [covers]

theorem quorum_cons {majorN : Nat} (confirm : Confirm) (quorum : Quorum majorN confirms idx) :
    Quorum majorN (confirm :: confirms) idx := by
  refine Nat.le_trans quorum (Finset.card_le_card ?_)
  rw [confirmers_cons]
  split
  case isTrue => exact Finset.subset_insert ..
  case isFalse => exact subset_rfl

/-- The window after a range was marked. -/
theorem Exact.marked (exact : s.Exact cfg me term start) (isPeer : confirm.peer < cfg.peers)
    {first : ReplEntry} (isFirst : s.rc.entries[0]? = some first) :
    ∃ entries, ReplCounter.mark confirm.peer (max (confirm.startIdx - first.index) 0)
        (confirm.endIdx - first.index) 0 s.rc.entries = some entries ∧
      entries.length = s.rc.entries.length ∧
      (∀ (k : Nat) entry, entries[k]? = some entry → entry.index = s.settled start + 1 + k) ∧
      (∀ entry ∈ entries, entry.bitVec.Represents
        (insert me (confirmers (confirm :: s.confirms) entry.index))) ∧
      ∀ entry ∈ entries, ∀ peer < cfg.peers, peer / 8 < entry.bitVec.bits.length := by
  have firstIndex := exact.index 0 first isFirst
  obtain ⟨entries, marked, length⟩ := ReplCounter.mark_isSome
    (max (confirm.startIdx - first.index) 0) (confirm.endIdx - first.index) 0
    fun entry inside => exact.room entry inside confirm.peer isPeer
  refine ⟨entries, marked, length, fun k entry found => ?_, fun entry inside => ?_,
    fun entry inside peer isPeer => ?_⟩
  · obtain ⟨before, wasThere, index, -⟩ := ReplCounter.mark_spec marked found
    rw [index]
    exact exact.index k before wasThere
  · obtain ⟨k, found⟩ := List.mem_iff_getElem?.mp inside
    obtain ⟨before, wasThere, index, bits⟩ := ReplCounter.mark_spec marked found
    have beforeIndex := exact.index k before wasThere
    have represents := exact.bits before (List.mem_of_getElem? wasThere)
    rw [index, confirmers_cons]
    rcases bits with ⟨outside, same⟩ | ⟨range, changed, set⟩
    · rw [if_neg (by omega), same]
      exact represents
    · rw [if_pos (by omega), Finset.insert_comm]
      exact (represents.set set).1
  · obtain ⟨k, found⟩ := List.mem_iff_getElem?.mp inside
    obtain ⟨before, wasThere, -, bits⟩ := ReplCounter.mark_spec marked found
    have room := exact.room before (List.mem_of_getElem? wasThere) peer isPeer
    rcases bits with ⟨-, same⟩ | ⟨-, changed, set⟩
    · rw [same]
      exact room
    · rw [BitVec.Write.length_perform (.set _) set]
      exact room

/-- The entry behind those that a majority confirmed was not. -/
theorem not_confirmed {majorN : Nat} {entries : List ReplEntry} {entry : ReplEntry}
    (found : entries[(ReplCounter.confirmed majorN entries).length]? = some entry) :
    ¬entry.bitVec.count ≥ majorN := by
  induction entries with
  | nil => simp at found
  | cons first rest ih =>
      unfold ReplCounter.confirmed at found ih
      rw [List.takeWhile_cons] at found
      by_cases enough : first.bitVec.count ≥ majorN
      · rw [if_pos (decide_eq_true enough)] at found
        exact ih found
      · rw [if_neg (by simpa using enough)] at found
        cases found
        exact enough

theorem Exact.quorum_iff {entry : ReplEntry} (others : ∀ confirm ∈ confirms, confirm.peer ≠ me)
    (represents : entry.bitVec.Represents (insert me (confirmers confirms entry.index))) :
    entry.bitVec.count ≥ cfg.majorN ↔ Quorum cfg.majorN confirms entry.index := by
  have notMe : me ∉ confirmers confirms entry.index := fun membership => by
    obtain ⟨confirm, inside, -, isMe⟩ := mem_confirmers.mp membership
    exact others confirm inside isMe
  have count := represents.count
  rw [Finset.card_insert_of_notMem notMe] at count
  unfold Quorum
  omega

/-- The state after a call of `confirm` that left the window `entries` and the commit index
`lci`. -/
theorem Exact.confirmed_state (exact : s.Exact cfg me term start)
    (allowed : s.Allowed cfg me term (.confirm confirm)) {entries : List ReplEntry} {count : Nat}
    (inBounds : count ≤ entries.length) (length : entries.length = s.rc.entries.length)
    (index : ∀ (k : Nat) entry, entries[k]? = some entry → entry.index = s.settled start + 1 + k)
    (bits : ∀ entry ∈ entries, entry.bitVec.Represents
      (insert me (confirmers (confirm :: s.confirms) entry.index)))
    (room : ∀ entry ∈ entries, ∀ peer < cfg.peers, peer / 8 < entry.bitVec.bits.length)
    (counted : ∀ (k : Nat) entry, entries[k]? = some entry → k < count →
      Quorum cfg.majorN (confirm :: s.confirms) entry.index)
    (missing : ¬Quorum cfg.majorN (confirm :: s.confirms) (s.settled start + count + 1))
    {logs : Logs α} (isLogs : logs = { s.logs with
      lci := if count = 0 then s.logs.lci else s.settled start + count }) :
    (⟨⟨entries.drop count⟩, logs, confirm :: s.confirms⟩ : Committing α).Exact cfg me term
      start := by
  have lengthEq := exact.length
  have positioned := exact.positioned
  have commit := positioned.commit
  have grown := exact.grown
  have lciEq : logs.lci = if count = 0 then s.logs.lci else s.settled start + count := by
    rw [isLogs]
  have settledEq : settled start ⟨⟨entries.drop count⟩, logs, confirm :: s.confirms⟩ =
      s.settled start + count := by
    simp only [settled, lciEq]
    split <;> omega
  have atLeast : s.logs.lci ≤ s.settled start ∧ start.lli ≤ s.settled start := by
    simp only [settled]
    omega
  exact {
    positioned := by
      rw [isLogs]
      exact { positioned with
        commit := by
          simp only
          split <;> omega }
    width := by
      rw [isLogs]
      exact exact.width
    commit := by
      simp only [lciEq]
      split
      case isTrue => exact exact.commit
      case isFalse => exact .inr (by omega)
    grown := by
      rw [isLogs]
      exact grown
    length := by
      rw [settledEq, isLogs, List.length_drop]
      simp only
      omega
    index := by
      rw [settledEq]
      intro k entry found
      rw [List.getElem?_drop] at found
      have isIndex := index (count + k) entry found
      omega
    bits := fun entry inside => bits entry (List.mem_of_mem_drop inside)
    room := fun entry inside => room entry (List.mem_of_mem_drop inside)
    counted := by
      intro idx above atMost
      simp only [lciEq] at atMost
      by_cases before : idx ≤ s.logs.lci
      · exact quorum_cons confirm (exact.counted idx above before)
      · have inside : s.settled start < idx ∧ idx ≤ s.settled start + count := by
          simp only [settled] at atMost ⊢
          split at atMost <;> omega
        have isEntry := @List.getElem?_eq_getElem _ entries (idx - s.settled start - 1).toNat
          (by omega)
        have isIndex := index _ _ isEntry
        have quorum := counted _ _ isEntry (by omega)
        rwa [isIndex, show s.settled start + 1 + ((idx - s.settled start - 1).toNat : Int) = idx
          by omega] at quorum
    missing := settledEq ▸ missing
    valid := by
      rw [isLogs]
      intro other inside
      rcases List.mem_cons.mp inside with rfl | earlier
      · exact allowed.2
      · exact exact.valid other earlier
    own := by
      rw [isLogs]
      exact exact.own }

/-- `updateCommit` with an index of the log above the commit index. -/
theorem updateCommit_to {logs : Logs α} (positioned : logs.Positioned) (idx : Int)
    (above : logs.lci < idx) (inside : idx ≤ logs.lli) :
    (logs.updateCommit idx).map Prod.fst = some { logs with lci := idx } := by
  have commit := positioned.commit
  have last := positioned.last
  obtain ⟨batch, window⟩ : ∃ batch, slice? logs.entries (logs.lci - logs.offset + 1)
      (idx - logs.offset + 1) = some batch := slice?_isSome (by omega)
  unfold Logs.updateCommit
  rw [if_neg (by omega), Int.min_eq_left inside]
  dsimp only
  rw [if_pos above, window]
  rfl

/-- The result of `confirm` on a window that is not empty. -/
theorem confirm_eq {rc : ReplCounter} (majorN : Nat) {first : ReplEntry}
    {rest entries : List ReplEntry} (isEntries : rc.entries = first :: rest)
    (inside : confirm.endIdx - first.index ≤ rc.entries.length)
    (marked : ReplCounter.mark confirm.peer (max (confirm.startIdx - first.index) 0)
      (confirm.endIdx - first.index) 0 rc.entries = some entries) {base : Int}
    (index : ∀ (k : Nat) entry, entries[k]? = some entry → entry.index = base + 1 + k) :
    rc.confirm majorN confirm.peer confirm.startIdx confirm.endIdx =
      some (⟨entries.drop (ReplCounter.confirmed majorN entries).length⟩,
        if (ReplCounter.confirmed majorN entries).length = 0 then none
        else some (base + (ReplCounter.confirmed majorN entries).length)) := by
  unfold ReplCounter.confirm
  simp only [isEntries] at inside marked ⊢
  rw [(Option.guard_eq_some' ()).mpr inside, marked]
  simp only [Option.bind_eq_bind, Option.bind_some]
  cases isLast : (ReplCounter.confirmed majorN entries).getLast? with
  | none =>
      rw [List.getLast?_eq_none_iff] at isLast
      simp [isLast]
  | some last =>
      rw [List.getLast?_eq_getElem?] at isLast
      have positive := (List.getElem?_eq_some_iff.mp isLast).1
      have found : entries[(ReplCounter.confirmed majorN entries).length - 1]? = some last :=
        getElem?_extend (List.takeWhile_prefix _) isLast
      have isIndex : last.index = base + (ReplCounter.confirmed majorN entries).length := by
        rw [index _ last found]
        omega
      dsimp only
      rw [if_neg (by omega), isIndex]
      rfl

theorem Exact.confirmed (several : 2 ≤ cfg.peers) (exact : s.Exact cfg me term start)
    (allowed : s.Allowed cfg me term (.confirm confirm)) :
    ∃ s', step cfg me (.confirm confirm) s = some s' ∧ s'.Exact cfg me term start := by
  have length := exact.length
  have others : ∀ other ∈ confirm :: s.confirms, other.peer ≠ me := by
    intro other inside
    rcases List.mem_cons.mp inside with rfl | earlier
    · exact allowed.2.1
    · exact (exact.valid other earlier).1
  have ends : ∀ other ∈ confirm :: s.confirms, other.endIdx ≤ s.logs.lli + 1 := by
    intro other inside
    rcases List.mem_cons.mp inside with rfl | earlier
    · exact allowed.2.2
    · exact (exact.valid other earlier).2
  cases isEntries : s.rc.entries with
  | nil =>
      rw [isEntries, List.length_nil] at length
      refine ⟨⟨s.rc, s.logs, confirm :: s.confirms⟩, by
        simp [step, ReplCounter.confirm, isEntries], ?_⟩
      have missing : ¬Quorum cfg.majorN (confirm :: s.confirms) (s.settled start + (0 : Nat) + 1) :=
        not_quorum_of_beyond several fun other inside => by
          have endIdx := ends other inside
          omega
      have kept := exact.confirmed_state allowed (Nat.zero_le 0) (by rw [isEntries]) (by simp)
        (by simp) (by simp) (by simp) missing rfl
      simpa only [if_true, List.drop_zero, ← isEntries] using kept
  | cons first rest =>
      have isFirst : s.rc.entries[0]? = some first := by rw [isEntries]; rfl
      obtain ⟨entries, marked, sameLength, index, bits, room⟩ := exact.marked allowed.1 isFirst
      have firstIndex := exact.index 0 first isFirst
      have endIdx := allowed.2.2
      have atLeast : s.logs.lci ≤ s.settled start := by
        simp only [settled]
        omega
      have confirmedEq := confirm_eq cfg.majorN isEntries (by omega) marked index
      have isPrefix : ReplCounter.confirmed cfg.majorN entries <+: entries :=
        List.takeWhile_prefix _
      generalize isConfirmed : ReplCounter.confirmed cfg.majorN entries = confirmed at *
      have inBounds := isPrefix.length_le
      have counted (k : Nat) (entry : ReplEntry) (found : entries[k]? = some entry)
          (below : k < confirmed.length) :
          Quorum cfg.majorN (confirm :: s.confirms) entry.index := by
        have inside : entry ∈ confirmed := by
          rw [List.prefix_iff_eq_take.mp isPrefix, List.mem_iff_getElem?]
          exact ⟨k, by rw [List.getElem?_take, if_pos below, found]⟩
        rw [← Exact.quorum_iff others (bits entry (isPrefix.subset inside))]
        rw [← isConfirmed] at inside
        exact of_decide_eq_true (List.all_eq_true.mp List.all_takeWhile entry inside)
      have missing : ¬Quorum cfg.majorN (confirm :: s.confirms)
          (s.settled start + confirmed.length + 1) := by
        cases isNext : entries[confirmed.length]? with
        | none =>
            rw [List.getElem?_eq_none_iff] at isNext
            refine not_quorum_of_beyond several fun other inside => ?_
            have endIdx := ends other inside
            omega
        | some entry =>
            have isIndex := index _ entry isNext
            have notEnough := not_confirmed (isConfirmed ▸ isNext)
            rwa [Exact.quorum_iff others (bits entry (List.mem_of_getElem? isNext)), isIndex,
              Int.add_right_comm] at notEnough
      have kept := exact.confirmed_state allowed inBounds sameLength index bits room counted
        missing rfl
      by_cases none : confirmed.length = 0
      · exact ⟨_, by simp [step, confirmedEq, none], kept⟩
      · refine ⟨_, ?_, kept.stored.1⟩
        have committed := updateCommit_to exact.positioned (s.settled start + confirmed.length)
          (by omega) (by omega)
        obtain ⟨result, isResult, isLogs⟩ := Option.map_eq_some_iff.mp committed
        simp [step, confirmedEq, none, isResult, isLogs]

/-! ## Runs -/

theorem Exact.step (several : 2 ≤ cfg.peers) (isPeer : me < cfg.peers)
    (exact : s.Exact cfg me term start) {op : CountOp α} (allowed : s.Allowed cfg me term op)
    (fits : s.Fits op) :
    ∃ s', Committing.step cfg me op s = some s' ∧ s'.Exact cfg me term start := by
  cases op with
  | watch et => exact exact.watched isPeer allowed fits
  | confirm confirm => exact exact.confirmed several allowed

theorem exact_of_run (several : 2 ≤ cfg.peers) (isPeer : me < cfg.peers)
    (positioned : start.Positioned) (width : start.lli < 2 ^ 31) {ops : List (CountOp α)}
    (run : Run (Committing.step cfg me) (fun s op => s.Allowed cfg me term op ∧ s.Fits op)
      (elected start) ops s) : s.Exact cfg me term start := by
  refine run.invariant (fun _ s => s.Exact cfg me term start)
    (exact_elected several positioned width) ?_
  rintro _ s op s' _ exact ⟨allowed, fits⟩ taken
  obtain ⟨next, isNext, exact'⟩ := exact.step several isPeer allowed fits
  cases isNext.symm.trans taken
  exact exact'

/-- The greatest index up to which everything is confirmed is committed. -/
theorem Exact.greatest (exact : s.Exact cfg me term start) (above : start.lli < s.logs.lci) :
    IsGreatest {idx | Replicated cfg.majorN s.confirms (start.lli + 1) idx} s.logs.lci := by
  have missing := exact.missing
  rw [settled, Int.max_eq_left (Int.le_of_lt above)] at missing
  refine ⟨⟨by omega, fun idx after atMost => exact.counted idx (by omega) atMost⟩, ?_⟩
  intro idx replicated
  by_contra beyond
  exact missing (replicated.2 _ (by omega) (by omega))

theorem Exact.none_replicated (exact : s.Exact cfg me term start)
    (notAbove : ¬start.lli < s.logs.lci) (idx : Int) :
    ¬Replicated cfg.majorN s.confirms (start.lli + 1) idx := by
  intro replicated
  have missing := exact.missing
  rw [settled, Int.max_eq_right (by omega)] at missing
  exact missing (replicated.2 _ (by omega) (by have := replicated.1; omega))

end

/-- The commit index that the calls of `confirm` so far stand for. -/
def CommitIs (cfg : Config) (start : Logs α) (confirms : List Confirm) (lci : Int) : Prop :=
  (∃ greatest, IsGreatest {idx | Replicated cfg.majorN confirms (start.lli + 1) idx} greatest ∧
      lci = max start.lci greatest) ∨
    (∀ idx, ¬Replicated cfg.majorN confirms (start.lli + 1) idx) ∧ lci = start.lci

theorem CommitIs.unique {cfg : Config} {start : Logs α} {confirms others : List Confirm}
    {lci lci' : Int} (first : CommitIs cfg start confirms lci)
    (second : CommitIs cfg start others lci')
    (same : ∀ confirm, confirm ∈ others ↔ confirm ∈ confirms) : lci' = lci := by
  have sameConfirmers (idx : Int) : confirmers others idx = confirmers confirms idx := by
    ext peer
    simp only [mem_confirmers, same]
  have sameSet : Replicated cfg.majorN others (start.lli + 1) =
      Replicated cfg.majorN confirms (start.lli + 1) := by
    funext idx
    simp only [Replicated, Quorum, sameConfirmers]
  unfold CommitIs at second
  rw [sameSet] at second
  rcases first with ⟨greatest, isGreatest, rfl⟩ | ⟨none, rfl⟩
  · rcases second with ⟨other, isGreatest', rfl⟩ | ⟨none, -⟩
    · rw [isGreatest'.unique isGreatest]
    · exact (none greatest isGreatest.1).elim
  · rcases second with ⟨other, isGreatest', -⟩ | ⟨-, rfl⟩
    · exact (none other isGreatest'.1).elim
    · rfl

theorem Exact.commitIs {cfg : Config} {me : Nat} {term : Int} {start : Logs α} {s : Committing α}
    (positioned : start.Positioned) (exact : s.Exact cfg me term start) :
    CommitIs cfg start s.confirms s.logs.lci := by
  have commit := positioned.commit
  by_cases above : start.lli < s.logs.lci
  · exact .inl ⟨s.logs.lci, exact.greatest above, by omega⟩
  · exact .inr ⟨exact.none_replicated above, exact.commit.resolve_right above⟩

end Committing

/-- A leader of `term` among at least two peers watches the indices from `start.lli + 1` on,
below `2 ^ 31`, and counts confirmations.  After every call the commit index is the one the
confirmations stand for, whatever their order; the indices counted are those of entries of the
leader's term; and no call crashes. -/
theorem commit_counting_exact {cfg : Config} {me : Nat} {term : Int} {start : Logs α}
    (several : 2 ≤ cfg.peers) (isPeer : me < cfg.peers) (positioned : start.Positioned)
    (width : start.lli < 2 ^ 31) {ops : List (CountOp α)} {s : Committing α}
    (run : Run (Committing.step cfg me) (fun s op => s.Allowed cfg me term op ∧ s.Fits op)
      (.elected start) ops s) :
    Committing.CommitIs cfg start s.confirms s.logs.lci ∧
      (∀ idx, start.lli < idx → idx ≤ s.logs.lli →
        ∃ entry, s.logs.entryAt idx = some entry ∧ entry.term = term) ∧
      (∀ op, s.Allowed cfg me term op → s.Fits op →
        ∃ s', Committing.step cfg me op s = some s') ∧
      ∀ ops' s',
        Run (Committing.step cfg me) (fun s op => s.Allowed cfg me term op ∧ s.Fits op)
          (.elected start) ops' s' →
        (∀ confirm, confirm ∈ s'.confirms ↔ confirm ∈ s.confirms) → s'.logs.lci = s.logs.lci := by
  have exact := Committing.exact_of_run several isPeer positioned width run
  refine ⟨exact.commitIs positioned, exact.own, fun op allowed fits => ?_,
    fun ops' s' run' same => ?_⟩
  · obtain ⟨s', taken, -⟩ := exact.step several isPeer allowed fits
    exact ⟨s', taken⟩
  · have exact' := Committing.exact_of_run several isPeer positioned width run'
    exact (exact.commitIs positioned).unique (exact'.commitIs positioned) same

/-- Five servers: peers 1 and 2 confirm the no-op and the command of server 0, the first of
them twice. -/
def confirmedOutOfOrder : List (CountOp Nat) :=
  [.watch ⟨-1, 1, none⟩, .watch ⟨0, 1, some 7⟩, .confirm ⟨1, 1, 2⟩, .confirm ⟨2, 0, 2⟩,
    .confirm ⟨1, 0, 1⟩, .confirm ⟨1, 0, 2⟩]

theorem commit_counting_exact_confirmedOutOfOrder :
    ∃ s : Committing Nat, Run (Committing.step (.doubling 5) 0)
        (fun s op => s.Allowed (.doubling 5) 0 1 op ∧ s.Fits op) (.elected .empty)
        confirmedOutOfOrder s ∧
      s.logs.lci = 1 ∧
      Committing.CommitIs (.doubling 5) (.empty : Logs Nat) s.confirms 1 := by
  obtain ⟨s, run, commit⟩ : ∃ s : Committing Nat,
      Run (Committing.step (.doubling 5) 0)
        (fun s op => s.Allowed (.doubling 5) 0 1 op ∧ s.Fits op) (.elected .empty)
        confirmedOutOfOrder s ∧ s.logs.lci = 1 := Run.exists_of_runSteps (by decide +kernel)
  have exact :=
    (commit_counting_exact (by decide) (by decide) Logs.empty_positioned (by decide) run).1
  exact ⟨s, run, commit, commit ▸ exact⟩

/-- A log that is compacted up to the last index but one. -/
def almostFull : Logs Nat where
  entries := []
  lci := 2 ^ 31 - 2
  lli := 2 ^ 31 - 2
  lai := 2 ^ 31 - 2
  noopCount := 0
  offset := 2 ^ 31 - 1
  snapshot := some ⟨[], 2 ^ 31 - 2, 1, 2 ^ 31 - 1, 0, []⟩

/-- The leader watches its no-op at the last index.  The index of its first command is stored as
`-2 ^ 31`, and the assertion of `watchIndex` fails. -/
theorem watched_index_wraps :
    almostFull.Positioned ∧ almostFull.lli < 2 ^ 31 ∧
      ∃ s : Committing Nat, Run (Committing.step (.doubling 5) 0)
          (Committing.Allowed (.doubling 5) 0 2) (.elected almostFull) [.watch ⟨-1, 2, none⟩] s ∧
        s.Allowed (.doubling 5) 0 2 (.watch ⟨0, 2, some 7⟩) ∧
        Committing.step (.doubling 5) 0 (.watch ⟨0, 2, some 7⟩) s = none :=
  ⟨⟨by decide, by decide, by decide, by decide⟩, by decide,
    Run.exists_of_runSteps (by decide +kernel)⟩

end GoLab.Raft
