import GoLab.Raft.Representation

/-!
# Compaction is transparent

A log and the same log with a prefix compacted are driven by the same calls.  The
compacted one has the same cursors and answers as the other one in everything that can
still be asked: `Logs.Compacts` is the simulation relation between the two.
-/

namespace GoLab.Raft

variable {α : Type}

namespace Logs

/-! ## Terms by position -/

section

variable {logs : Logs α}

theorem Positioned.indexLogTermNoLock_above (positioned : logs.Positioned) {idx : Int}
    (inside : logs.offset ≤ idx ∧ idx ≤ logs.lli) :
    logs.indexLogTermNoLock idx =
      (index? logs.entries (idx - logs.offset)).map LogEntry.term := by
  have nonneg := positioned.offset_nonneg
  unfold indexLogTermNoLock
  rw [if_neg (by omega)]
  cases isSnapshot : logs.snapshot with
  | none => rfl
  | some snapshot =>
      have base := positioned.base snapshot isSnapshot
      dsimp only
      rw [if_neg (by omega), if_neg (by omega)]

theorem Positioned.indexLogTermNoLock_base (positioned : logs.Positioned) {snapshot : Snapshot α}
    (isSnapshot : logs.snapshot = some snapshot) :
    logs.indexLogTermNoLock snapshot.lastIncludeIndex = some snapshot.lastIncludeTerm := by
  have base := positioned.base snapshot isSnapshot
  have commit := positioned.commit
  unfold indexLogTermNoLock
  rw [if_neg (by omega)]
  simp [isSnapshot]

theorem Positioned.tryIndexLogTerm_above (positioned : logs.Positioned) {idx : Int}
    (above : logs.offset ≤ idx) :
    logs.tryIndexLogTerm idx = if idx > logs.lli then some (0, false) else
      (index? logs.entries (idx - logs.offset)).map fun entry => (entry.term, true) := by
  have body : (if idx < logs.offset ∨ idx > logs.lli then some ((0 : Int), false) else do
        let entry ← index? logs.entries (idx - logs.offset)
        return (entry.term, true)) = if idx > logs.lli then some (0, false) else
      (index? logs.entries (idx - logs.offset)).map fun entry => (entry.term, true) := by
    have notBelow : ¬idx < logs.offset := by omega
    simp only [notBelow, false_or]
    cases index? logs.entries (idx - logs.offset) <;> rfl
  unfold tryIndexLogTerm
  cases isSnapshot : logs.snapshot with
  | none => exact body
  | some snapshot =>
      have base := positioned.base snapshot isSnapshot
      dsimp only
      rw [if_neg (by omega)]
      exact body

theorem tryIndexLogTerm_base {snapshot : Snapshot α} (isSnapshot : logs.snapshot = some snapshot) :
    logs.tryIndexLogTerm snapshot.lastIncludeIndex = some (snapshot.lastIncludeTerm, true) := by
  simp [tryIndexLogTerm, isSnapshot]

/-- The end of a log that is not empty, whether or not it is compacted. -/
theorem Positioned.lastLogInfo_eq (positioned : logs.Positioned) (nonempty : 0 ≤ logs.lli) :
    logs.lastLogInfo = (logs.indexLogTermNoLock logs.lli).map (LogInfo.mk logs.lli) := by
  have last := positioned.last
  unfold lastLogInfo
  split
  case isTrue noEntries =>
    cases isSnapshot : logs.snapshot with
    | none =>
        have fresh := positioned.fresh isSnapshot
        omega
    | some snapshot =>
        have base := positioned.base snapshot isSnapshot
        have atBase : logs.lli = snapshot.lastIncludeIndex := by omega
        rw [atBase, positioned.indexLogTermNoLock_base isSnapshot]
        rfl
  case isFalse =>
    rw [positioned.indexLogTermNoLock_above (by omega)]
    cases index? logs.entries (logs.lli - logs.offset) <;> rfl

/-- The term of the entry in front of position `k` of `entries`. -/
def termBefore (logs : Logs α) : Nat → Option Int
  | 0 => logs.snapshot.map Snapshot.lastIncludeTerm
  | k + 1 => (logs.entries[k]?).map LogEntry.term

theorem Positioned.termBefore (positioned : logs.Positioned) {k : Nat} (idx : Int) {term : Int}
    (isIndex : idx + 1 = logs.offset + k) (inside : idx ≤ logs.lli)
    (isTerm : logs.termBefore k = some term) :
    logs.indexLogTermNoLock idx = some term ∧ logs.tryIndexLogTerm idx = some (term, true) := by
  cases k with
  | zero =>
      obtain ⟨snapshot, isSnapshot, rfl⟩ := Option.map_eq_some_iff.mp isTerm
      have base := positioned.base snapshot isSnapshot
      have atBase : idx = snapshot.lastIncludeIndex := by omega
      rw [atBase]
      exact ⟨positioned.indexLogTermNoLock_base isSnapshot, tryIndexLogTerm_base isSnapshot⟩
  | succ k =>
      obtain ⟨entry, found, rfl⟩ := Option.map_eq_some_iff.mp isTerm
      have isEntry : index? logs.entries (idx - logs.offset) = some entry := by
        rw [index?_eq_some, ← found]
        exact ⟨by omega, by congr; omega⟩
      rw [positioned.indexLogTermNoLock_above (by omega),
        positioned.tryIndexLogTerm_above (by omega), if_neg (by omega), isEntry]
      exact ⟨rfl, rfl⟩

end

/-! ## The simulation relation -/

/-- `compact` is `plain` with the first `k` entries compacted. -/
structure Compacts (plain compact : Logs α) (k : Nat) : Prop where
  positioned : plain.Positioned
  inBounds : k ≤ plain.entries.length
  entries : compact.entries = plain.entries.drop k
  offset : compact.offset = plain.offset + k
  lci : compact.lci = plain.lci
  lli : compact.lli = plain.lli
  noopCount : compact.noopCount = plain.noopCount
  committed : compact.offset ≤ plain.lci + 1
  snapshot : ∃ snapshot, compact.snapshot = some snapshot ∧
    0 ≤ snapshot.lastIncludeIndex ∧ compact.offset = snapshot.lastIncludeIndex + 1 ∧
    plain.termBefore k = some snapshot.lastIncludeTerm

variable {plain compact : Logs α} {k : Nat}

theorem Compacts.compact_positioned (compacts : plain.Compacts compact k) :
    compact.Positioned := by
  have last := compacts.positioned.last
  have commit := compacts.positioned.commit
  have inBounds := compacts.inBounds
  have offset := compacts.offset
  have lci := compacts.lci
  have lli := compacts.lli
  have committed := compacts.committed
  obtain ⟨snapshot, isSnapshot, nonneg, isBase, -⟩ := compacts.snapshot
  exact {
    last := by
      rw [compacts.entries, List.length_drop]
      omega
    base := by
      rw [isSnapshot]
      rintro _ ⟨⟩
      exact ⟨nonneg, isBase⟩
    fresh := by simp [isSnapshot]
    commit := by omega }

/-! ## Equal answers -/

section

variable (compacts : plain.Compacts compact k)
include compacts

theorem Compacts.index?_entries {idx : Int} (above : compact.offset ≤ idx) :
    index? compact.entries (idx - compact.offset) = index? plain.entries (idx - plain.offset) := by
  have offset := compacts.offset
  unfold index?
  rw [if_pos (by omega), if_pos (by omega), compacts.entries, List.getElem?_drop]
  congr 1
  omega

/-- The last compacted entry. -/
theorem Compacts.base {idx : Int} (isBase : idx + 1 = compact.offset) : ∃ term,
      (compact.indexLogTermNoLock idx = some term ∧ plain.indexLogTermNoLock idx = some term) ∧
      compact.tryIndexLogTerm idx = some (term, true) ∧
      plain.tryIndexLogTerm idx = some (term, true) := by
  have offset := compacts.offset
  have commit := compacts.positioned.commit
  have committed := compacts.committed
  obtain ⟨snapshot, isSnapshot, nonneg, baseEq, isTerm⟩ := compacts.snapshot
  obtain ⟨plainTerm, plainTry⟩ :=
    compacts.positioned.termBefore idx (by omega) (by omega) isTerm
  have atBase : idx = snapshot.lastIncludeIndex := by omega
  refine ⟨_, ⟨?_, plainTerm⟩, ?_, plainTry⟩
  · rw [atBase]
    exact compacts.compact_positioned.indexLogTermNoLock_base isSnapshot
  · rw [atBase]
    exact tryIndexLogTerm_base isSnapshot

theorem Compacts.indexLogTermNoLock {idx : Int} (notBelow : compact.offset ≤ idx + 1) :
    compact.indexLogTermNoLock idx = plain.indexLogTermNoLock idx := by
  by_cases isBase : idx + 1 = compact.offset
  · obtain ⟨term, ⟨compactTerm, plainTerm⟩, -⟩ := compacts.base isBase
    rw [compactTerm, plainTerm]
  · have offset := compacts.offset
    have lli := compacts.lli
    by_cases beyond : idx > plain.lli
    · unfold Logs.indexLogTermNoLock
      rw [if_pos (by omega), if_pos (by omega)]
    · rw [compacts.compact_positioned.indexLogTermNoLock_above (by omega),
        compacts.positioned.indexLogTermNoLock_above (by omega), compacts.index?_entries (by omega)]

theorem Compacts.tryIndexLogTerm {idx : Int} (notBelow : compact.offset ≤ idx + 1) :
    compact.tryIndexLogTerm idx = plain.tryIndexLogTerm idx := by
  by_cases isBase : idx + 1 = compact.offset
  · obtain ⟨term, -, compactTerm, plainTerm⟩ := compacts.base isBase
    rw [compactTerm, plainTerm]
  · have offset := compacts.offset
    rw [compacts.compact_positioned.tryIndexLogTerm_above (by omega),
      compacts.positioned.tryIndexLogTerm_above (by omega), compacts.index?_entries (by omega),
      compacts.lli]

theorem Compacts.slice?_entries {lo hi : Int} (above : compact.offset ≤ lo) :
    slice? compact.entries (lo - compact.offset) (hi - compact.offset) =
      slice? plain.entries (lo - plain.offset) (hi - plain.offset) := by
  have offset := compacts.offset
  have inBounds := compacts.inBounds
  unfold slice?
  rw [compacts.entries, List.length_drop, List.drop_drop]
  congr 1
  · simp only [eq_iff_iff]
    omega
  · congr 3 <;> omega

end

theorem Positioned.length_entries {logs : Logs α} (positioned : logs.Positioned) :
    (logs.entries.length : Int) = logs.lli + 1 - logs.offset := by
  have last := positioned.last
  omega

theorem Compacts.entriesAfter (compacts : plain.Compacts compact k) {idx : Int}
    (above : compact.offset ≤ idx) : compact.entriesAfter idx = plain.entriesAfter idx := by
  have offset := compacts.offset
  unfold Logs.entriesAfter indexLogTerm
  rw [if_neg (by omega), if_neg (by omega), compacts.compact_positioned.length_entries,
    compacts.positioned.length_entries, compacts.slice?_entries above,
    compacts.indexLogTermNoLock (by omega), compacts.lli]

theorem Compacts.lastLogInfo (compacts : plain.Compacts compact k) :
    compact.lastLogInfo = plain.lastLogInfo := by
  have commit := compacts.positioned.commit
  have committed := compacts.committed
  have lli := compacts.lli
  obtain ⟨snapshot, -, nonneg, isBase, -⟩ := compacts.snapshot
  rw [compacts.compact_positioned.lastLogInfo_eq (by omega),
    compacts.positioned.lastLogInfo_eq (by omega), compacts.indexLogTermNoLock (by omega), lli]

theorem Compacts.atLeastUpToDate (compacts : plain.Compacts compact k) (lg : LogInfo) :
    compact.atLeastUpToDate lg = plain.atLeastUpToDate lg := by
  unfold Logs.atLeastUpToDate
  rw [compacts.lastLogInfo]

/-! ## Calls on both logs -/

/-- The branches of `followerAppendEntries` exclude each other. -/
theorem Appends.followerAppendEntries {logs logs' : Logs α} {args : SendEntries α}
    {status : EntryStatus} {written : Bool} (appends : logs.Appends args logs' status written)
    (positioned : logs.Positioned) :
    logs.followerAppendEntries args = some (logs', status, written) := by
  have last := positioned.last
  have matchesPrev_of (matched : args.prevLogInfo.index < 0 ∨
      logs.indexLogTermNoLock args.prevLogInfo.index = some args.prevLogInfo.term) :
      logs.matchesPrev args.prevLogInfo = some true := by
    unfold matchesPrev
    rcases matched with negative | found
    · rw [if_pos negative]
    · simp [found]
  unfold Logs.followerAppendEntries
  dsimp only
  cases appends with
  | below below => rw [if_pos below]
  | unmatched notBelow reason =>
      rw [if_neg (by omega)]
      split
      case isTrue => rfl
      split
      case isTrue => rfl
      case isFalse inside outside =>
        obtain ⟨term, nonneg, found, different⟩ :
            ∃ term, 0 ≤ args.prevLogInfo.index ∧
              logs.indexLogTermNoLock args.prevLogInfo.index = some term ∧
              term ≠ args.prevLogInfo.term := by
          rcases reason with tooSmall | tooLarge | mismatch
          · exact (inside tooSmall).elim
          · exact (outside tooLarge).elim
          · exact mismatch
        simp [matchesPrev, found, different, Int.not_lt.mpr nonneg]
  | held notBelow inside matched nothing =>
      rw [if_neg (by omega), if_neg (by omega), if_neg (by omega), matchesPrev_of matched]
      simp [nothing]
  | appended kept notBelow inside matched something keptEq inBounds =>
      have length : args.entries.length > 0 := List.length_pos_iff.mpr something
      obtain ⟨replaced, isReplaced⟩ :=
        replaceAfter_isSome logs args.prevLogInfo.index args.entries (by omega)
      obtain ⟨count, countEq, -, rfl⟩ := replaceAfter_spec (by omega) inside.2 isReplaced
      have sameCount : count = kept := by omega
      rw [if_neg (by omega), if_neg (by omega), if_neg (by omega), matchesPrev_of matched]
      simp [length, isReplaced, sameCount]

section

variable (compacts : plain.Compacts compact k)
include compacts

/-- The logs differ behind the compacted part only in what a call has written to both. -/
theorem Compacts.rewritten {plain' compact' : Logs α} {kept : Nat} {ets : List (LogEntry α)}
    (positioned : plain'.Positioned) (enough : k ≤ kept) (inBounds : kept ≤ plain.entries.length)
    (plainEntries : plain'.entries = plain.entries.take kept ++ ets)
    (compactEntries : compact'.entries = compact.entries.take (kept - k) ++ ets)
    (plainBase : plain'.offset = plain.offset ∧ plain'.snapshot = plain.snapshot)
    (compactBase : compact'.offset = compact.offset ∧ compact'.snapshot = compact.snapshot)
    (cursors : compact'.lci = plain'.lci ∧ compact'.lli = plain'.lli ∧
      compact'.noopCount = plain'.noopCount) (committed : plain.lci ≤ plain'.lci) :
    plain'.Compacts compact' k where
  positioned := positioned
  inBounds := by
    rw [plainEntries, List.length_append, List.length_take]
    omega
  entries := by
    rw [plainEntries, compactEntries, compacts.entries, List.drop_append_of_le_length
      (by rw [List.length_take]; omega), List.drop_take]
  offset := by rw [compactBase.1, plainBase.1, compacts.offset]
  lci := cursors.1
  lli := cursors.2.1
  noopCount := cursors.2.2
  committed := by
    have before := compacts.committed
    omega
  snapshot := by
    obtain ⟨snapshot, isSnapshot, nonneg, isBase, isTerm⟩ := compacts.snapshot
    refine ⟨snapshot, compactBase.2 ▸ isSnapshot, nonneg, compactBase.1 ▸ isBase, ?_⟩
    rw [← isTerm]
    cases k with
    | zero => simp only [Logs.termBefore, plainBase.2]
    | succ k =>
        simp only [Logs.termBefore, plainEntries]
        rw [List.getElem?_append_left (by rw [List.length_take]; omega), List.getElem?_take,
          if_pos (by omega)]

theorem Compacts.pushEntry (et : LogEntry α) :
    ∃ plain' compact' commandIndex, plain.pushEntry et = (plain', commandIndex) ∧
      compact.pushEntry et = (compact', commandIndex) ∧ plain'.Compacts compact' k := by
  have lli := compacts.lli
  have noopCount := compacts.noopCount
  generalize pushed : plain.pushEntry et = plainPushed
  generalize pushed' : compact.pushEntry et = compactPushed
  obtain ⟨plain', commandIndex⟩ := plainPushed
  obtain ⟨compact', commandIndex'⟩ := compactPushed
  have sameIndex : commandIndex' = commandIndex := by
    rw [pushEntry_index pushed, pushEntry_index pushed', lli, noopCount]
  subst sameIndex
  have positioned := compacts.positioned.pushEntry pushed
  have allKept : compact.entries.take (plain.entries.length - k) = compact.entries := by
    exact List.take_of_length_le (by simp [compacts.entries])
  refine ⟨plain', compact', commandIndex', rfl, rfl, ?_⟩
  rw [pushEntry_spec pushed] at positioned ⊢
  rw [pushEntry_spec pushed']
  exact compacts.rewritten positioned compacts.inBounds (Nat.le_refl _)
    (by rw [List.take_length]) (by rw [allKept]) ⟨rfl, rfl⟩ ⟨rfl, rfl⟩
    ⟨compacts.lci, by rw [lli], by rw [noopCount]⟩ (Int.le_refl _)

/-- Both logs take the same branch of `followerAppendEntries`. -/
theorem Compacts.appends {plain' : Logs α} {args : SendEntries α} {status : EntryStatus}
    {written : Bool} (appends : plain.Appends args plain' status written) :
    ∃ compact', compact.Appends args compact' status written ∧ plain'.Compacts compact' k := by
  have positioned := compacts.positioned.appends appends
  have offset := compacts.offset
  have lci := compacts.lci
  have lli := compacts.lli
  have committed := compacts.committed
  cases appends with
  | below below => exact ⟨compact, .below (by omega), compacts⟩
  | unmatched notBelow reason =>
      refine ⟨compact, .unmatched (by omega) ?_, compacts⟩
      rw [lli, compacts.indexLogTermNoLock (by omega)]
      exact reason
  | held notBelow inside matched nothing =>
      refine ⟨compact, .held (by omega) (by omega) ?_ nothing, compacts⟩
      rw [compacts.indexLogTermNoLock (by omega)]
      exact matched
  | appended kept notBelow inside matched something keptEq inBounds =>
      have enough : k ≤ kept := by omega
      refine ⟨_, .appended (kept - k) (by omega) (by omega) ?_ something (by omega) ?_, ?_⟩
      · rw [compacts.indexLogTermNoLock (by omega)]
        exact matched
      · rw [compacts.entries, List.length_drop]
        omega
      · refine compacts.rewritten positioned enough inBounds rfl rfl ⟨rfl, rfl⟩ ⟨rfl, rfl⟩
          ⟨lci, rfl, ?_⟩ (Int.le_refl _)
        simp only [compacts.noopCount, compacts.entries, List.drop_drop]
        rw [Nat.add_sub_cancel' enough]

theorem Compacts.followerAppendEntries (args : SendEntries α) :
    ∃ plain' compact' status written,
      plain.followerAppendEntries args = some (plain', status, written) ∧
      compact.followerAppendEntries args = some (compact', status, written) ∧
      plain'.Compacts compact' k := by
  have last := compacts.positioned.last
  obtain ⟨plain', status, written, result⟩ :=
    compacts.positioned.spans.followerAppendEntries_isSome args
  obtain ⟨compact', appends, compacts'⟩ :=
    compacts.appends (followerAppendEntries_of_last (by omega) result)
  exact ⟨plain', compact', status, written, result,
    appends.followerAppendEntries compacts.compact_positioned, compacts'⟩

theorem Compacts.updateCommit_eq (leaderCommit : Int) :
    compact.updateCommit leaderCommit = (plain.updateCommit leaderCommit).map fun result =>
      ({ compact with lci := result.1.lci }, result.2) := by
  have committed := compacts.committed
  have unchanged : ({ compact with lci := plain.lci, lli := plain.lli } : Logs α) = compact := by
    rw [← compacts.lci, ← compacts.lli]
  have shift (idx offset : Int) : idx - offset + 1 = idx + 1 - offset := by omega
  unfold Logs.updateCommit
  rw [compacts.lci, compacts.lli]
  split
  case isTrue => simp [unchanged]
  dsimp only
  split
  case isTrue =>
    simp only [shift, compacts.slice?_entries committed]
    cases slice? plain.entries (plain.lci + 1 - plain.offset)
      (min leaderCommit plain.lli + 1 - plain.offset) <;> rfl
  case isFalse => simp [unchanged]

theorem Compacts.updateCommit (leaderCommit : Int) :
    ∃ plain' compact' item, plain.updateCommit leaderCommit = some (plain', item) ∧
      compact.updateCommit leaderCommit = some (compact', item) ∧ plain'.Compacts compact' k := by
  obtain ⟨plain', item, result⟩ := compacts.positioned.spans.updateCommit_isSome leaderCommit
  have positioned := compacts.positioned.updateCommit result
  have same := compacts.updateCommit_eq leaderCommit
  rw [result, Option.map_some] at same
  refine ⟨plain', _, item, result, same, ?_⟩
  obtain ⟨lci, isPlain, larger⟩ : ∃ lci, plain' = { plain with lci } ∧ plain.lci ≤ lci := by
    cases item with
    | none => exact ⟨plain.lci, updateCommit_none result, Int.le_refl _⟩
    | some item =>
        obtain ⟨commit, batch, larger, -, -, rfl, -⟩ := updateCommit_spec result
        exact ⟨commit, rfl, Int.le_of_lt larger⟩
  subst isPlain
  exact { compacts with
    positioned := positioned
    lci := rfl
    committed := Int.le_trans compacts.committed (by simp only; omega) }

end

/-! ## Compaction itself -/

/-- `takeSnapshot` compacts up to an entry of the command. -/
theorem Positioned.compacts {logs logs' : Logs α} (positioned : logs.Positioned) {cmdIndex : Int}
    {bytes : List UInt8} (taken : logs.takeSnapshot cmdIndex bytes = some logs')
    (committed : logs'.offset ≤ logs.lci + 1) :
    ∃ (place : Nat) (entry : LogEntry α), logs.entries[place]? = some entry ∧
      entry.commandIndex = cmdIndex ∧ logs.Compacts logs' (place + 1) := by
  have nonneg := positioned.offset_nonneg
  have commit := positioned.commit
  obtain ⟨kept, entry, term, passed, found, isCommand, isTerm, -, rfl⟩ := takeSnapshot_spec taken
  have inBounds : kept < logs.entries.length := (List.getElem?_eq_some_iff.mp found).1
  dsimp only at committed
  have atPlace : index? logs.entries (logs.offset + kept - logs.offset) = some entry := by
    rw [index?_eq_some, ← found]
    exact ⟨by omega, by congr; omega⟩
  rw [positioned.indexLogTermNoLock_above (by omega), atPlace] at isTerm
  cases isTerm
  refine ⟨kept, entry, found, isCommand, ?_⟩
  exact {
    positioned := positioned
    inBounds := inBounds
    entries := rfl
    offset := by simp only; omega
    lci := rfl
    lli := rfl
    noopCount := rfl
    committed := committed
    snapshot := ⟨_, rfl, by simp only; omega, rfl, by simp [Logs.termBefore, found]⟩ }

theorem Compacts.trans {middle : Logs α} {j : Nat} (first : plain.Compacts middle k)
    (second : middle.Compacts compact j) : plain.Compacts compact (k + j) where
  positioned := first.positioned
  inBounds := by
    have inBounds := first.inBounds
    have inBounds' := second.inBounds
    rw [first.entries, List.length_drop] at inBounds'
    omega
  entries := by rw [second.entries, first.entries, List.drop_drop]
  offset := by
    rw [second.offset, first.offset]
    omega
  lci := second.lci.trans first.lci
  lli := second.lli.trans first.lli
  noopCount := second.noopCount.trans first.noopCount
  committed := by
    rw [← first.lci]
    exact second.committed
  snapshot := by
    obtain ⟨snapshot, isSnapshot, nonneg, isBase, isTerm⟩ := second.snapshot
    refine ⟨snapshot, isSnapshot, nonneg, isBase, ?_⟩
    cases j with
    | zero =>
        obtain ⟨before, isBefore, -, -, beforeTerm⟩ := first.snapshot
        rw [Logs.termBefore, isBefore, Option.map_some] at isTerm
        exact beforeTerm.trans isTerm
    | succ j =>
        rw [Logs.termBefore, first.entries, List.getElem?_drop] at isTerm
        exact isTerm

/-- Where both logs are compacted up to the same entry, nothing distinguishes them. -/
theorem Compacts.both {plain' compact' : Logs α} {i j : Nat} (compacts : plain.Compacts compact k)
    (plainTaken : plain.Compacts plain' (i + 1)) (compactTaken : compact.Compacts compact' (j + 1))
    (sameEntry : i = k + j) : plain'.Compacts compact' 0 where
  positioned := plainTaken.compact_positioned
  inBounds := Nat.zero_le _
  entries := by
    rw [compactTaken.entries, compacts.entries, plainTaken.entries, List.drop_drop, List.drop_zero,
      sameEntry, Nat.add_assoc]
  offset := by
    rw [compactTaken.offset, compacts.offset, plainTaken.offset]
    omega
  lci := by rw [compactTaken.lci, compacts.lci, plainTaken.lci]
  lli := by rw [compactTaken.lli, compacts.lli, plainTaken.lli]
  noopCount := by rw [compactTaken.noopCount, compacts.noopCount, plainTaken.noopCount]
  committed := by
    rw [plainTaken.lci, ← compacts.lci]
    exact compactTaken.committed
  snapshot := by
    obtain ⟨snapshot, isSnapshot, nonneg, isBase, isTerm⟩ := compactTaken.snapshot
    obtain ⟨snapshot', isSnapshot', -, -, isTerm'⟩ := plainTaken.snapshot
    refine ⟨snapshot, isSnapshot, nonneg, isBase, ?_⟩
    rw [Logs.termBefore, compacts.entries, List.getElem?_drop, ← sameEntry] at isTerm
    rw [Logs.termBefore, isTerm] at isTerm'
    rw [Logs.termBefore, isSnapshot', Option.map_some]
    exact isTerm'.symm

/-- The commands of a log have different command indices. -/
def Distinct (logs : Logs α) : Prop :=
  logs.entries.Pairwise fun earlier later =>
    earlier.commandIndex ≠ noopIndex → earlier.commandIndex ≠ later.commandIndex

instance (logs : Logs α) : Decidable logs.Distinct :=
  inferInstanceAs (Decidable (List.Pairwise _ _))

theorem Distinct.place_eq {logs : Logs α} (distinct : logs.Distinct) {i j : Nat}
    {entry entry' : LogEntry α} (found : logs.entries[i]? = some entry)
    (found' : logs.entries[j]? = some entry') (same : entry.commandIndex = entry'.commandIndex)
    (command : entry.commandIndex ≠ noopIndex) : i = j := by
  obtain ⟨inBounds, rfl⟩ := List.getElem?_eq_some_iff.mp found
  obtain ⟨inBounds', rfl⟩ := List.getElem?_eq_some_iff.mp found'
  have pairwise := List.pairwise_iff_getElem.mp distinct
  rcases Nat.lt_trichotomy i j with before | equal | after
  · exact (pairwise i j inBounds inBounds' before command same).elim
  · exact equal
  · exact (pairwise j i inBounds' inBounds after (same ▸ command) same.symm).elim

end Logs

/-! ## Runs of the two logs -/

/-- A log and the same log after a compaction. -/
structure Twins (α : Type) where
  plain : Logs α
  compact : Logs α
  deriving DecidableEq, Repr

/-- A call on both logs, or a further compaction of the compacted one alone. -/
inductive TwinOp (α : Type) where
  | both (op : LogOp α)
  | compactOnly (cmdIndex : Int) (snapshot : List UInt8)
  deriving DecidableEq, Repr

namespace Twins

def step : TwinOp α → Twins α → Option (Twins α)
  | .both op, twins => do
      let plain ← twins.plain.perform op
      let compact ← twins.compact.perform op
      return ⟨plain.logs, compact.logs⟩
  | .compactOnly cmdIndex snapshot, twins => do
      let compact ← twins.compact.perform (.takeSnapshot cmdIndex snapshot)
      return { twins with compact := compact.logs }

/-- Further snapshots are taken at committed commands that are still in the compacted log,
and where both logs take one, commands have different indices. -/
def Allowed (twins : Twins α) : TwinOp α → Prop
  | .both (.followerInstallSnapshot _) => False
  | .both (.takeSnapshot cmdIndex _) =>
      twins.compact.HasCommitted cmdIndex ∧ twins.plain.Distinct
  | .both _ => True
  | .compactOnly cmdIndex _ => twins.compact.HasCommitted cmdIndex

instance (twins : Twins α) (op : TwinOp α) : Decidable (twins.Allowed op) := by
  unfold Allowed
  split <;> infer_instance

/-- The two logs give the same answers, as far as the compacted one can be asked. -/
structure Agree (twins : Twins α) : Prop where
  lli : twins.compact.lli = twins.plain.lli
  lci : twins.compact.lci = twins.plain.lci
  noopCount : twins.compact.noopCount = twins.plain.noopCount
  lastLogInfo : twins.compact.lastLogInfo = twins.plain.lastLogInfo
  atLeastUpToDate : ∀ lg, twins.compact.atLeastUpToDate lg = twins.plain.atLeastUpToDate lg
  compacted : twins.compact.snapshot.isSome
  term : ∀ snapshot ∈ twins.compact.snapshot, ∀ idx ≥ snapshot.lastIncludeIndex,
    twins.compact.indexLogTerm idx = twins.plain.indexLogTerm idx ∧
      twins.compact.tryIndexLogTerm idx = twins.plain.tryIndexLogTerm idx
  entriesAfter : ∀ snapshot ∈ twins.compact.snapshot, ∀ idx > snapshot.lastIncludeIndex,
    twins.compact.entriesAfter idx = twins.plain.entriesAfter idx

/-- A call returns, with the same value and the same item for the applier on both logs. -/
def SameOutcome (twins : Twins α) : TwinOp α → Prop
  | .both op => ∃ plain compact, twins.plain.perform op = some plain ∧
      twins.compact.perform op = some compact ∧ compact.reply = plain.reply ∧
      compact.item = plain.item
  | .compactOnly cmdIndex bytes => ∃ compact,
      twins.compact.perform (.takeSnapshot cmdIndex bytes) = some compact ∧ compact.item = none

variable {twins twins' : Twins α} {k : Nat}

section

variable (compacts : twins.plain.Compacts twins.compact k)
include compacts

theorem agree_of_compacts : twins.Agree where
  lli := compacts.lli
  lci := compacts.lci
  noopCount := compacts.noopCount
  lastLogInfo := compacts.lastLogInfo
  atLeastUpToDate := compacts.atLeastUpToDate
  compacted := by
    obtain ⟨snapshot, isSnapshot, -⟩ := compacts.snapshot
    exact Option.isSome_of_eq_some isSnapshot
  term snapshot isSnapshot idx notBelow := by
    have base := compacts.compact_positioned.base snapshot isSnapshot
    exact ⟨compacts.indexLogTermNoLock (by omega), compacts.tryIndexLogTerm (by omega)⟩
  entriesAfter snapshot isSnapshot idx above := by
    have base := compacts.compact_positioned.base snapshot isSnapshot
    exact compacts.entriesAfter (by omega)

/-- A call on both logs keeps the relation. -/
theorem both_compacts {op : LogOp α} (allowed : twins.Allowed (.both op)) : ∃ plain compact k',
      twins.plain.perform op = some plain ∧ twins.compact.perform op = some compact ∧
      compact.reply = plain.reply ∧ compact.item = plain.item ∧
      plain.logs.Compacts compact.logs k' := by
  cases op with
  | leaderAppendEntry et =>
      obtain ⟨plain, compact, commandIndex, pushed, pushed', compacts'⟩ := compacts.pushEntry et
      refine ⟨⟨plain, .appended plain.lli commandIndex, none⟩,
        ⟨compact, .appended compact.lli commandIndex, none⟩, k, ?_, ?_, ?_, rfl, compacts'⟩
      · simp [Logs.perform, pushed]
      · simp [Logs.perform, pushed']
      · simp [compacts'.lli]
  | followerAppendEntries args =>
      obtain ⟨plain, compact, status, written, result, result', compacts'⟩ :=
        compacts.followerAppendEntries args
      exact ⟨⟨plain, .status status, none⟩, ⟨compact, .status status, none⟩, k,
        by simp [Logs.perform, result], by simp [Logs.perform, result'], rfl, rfl, compacts'⟩
  | updateCommit leaderCommit =>
      obtain ⟨plain, compact, item, result, result', compacts'⟩ :=
        compacts.updateCommit leaderCommit
      exact ⟨⟨plain, .done, item⟩, ⟨compact, .done, item⟩, k,
        by simp [Logs.perform, result], by simp [Logs.perform, result'], rfl, rfl, compacts'⟩
  | takeSnapshot cmdIndex bytes =>
      obtain ⟨hasCommitted, distinct⟩ := allowed
      obtain ⟨compact, taken', atMost'⟩ :=
        compacts.compact_positioned.spans.takeSnapshot_committed hasCommitted bytes
      obtain ⟨place', entry', found', isCommand', compactTaken⟩ :=
        compacts.compact_positioned.compacts taken' atMost'
      rw [compacts.entries, List.getElem?_drop] at found'
      have hasCommitted' : twins.plain.HasCommitted cmdIndex := by
        refine .of_found hasCommitted.1 found' isCommand' ?_
        have offset := compacts.offset
        have offset' := compactTaken.offset
        have lci := compacts.lci
        omega
      obtain ⟨plain, taken, atMost⟩ :=
        compacts.positioned.spans.takeSnapshot_committed hasCommitted' bytes
      obtain ⟨place, entry, found, isCommand, plainTaken⟩ :=
        compacts.positioned.compacts taken atMost
      have sameEntry : place = k + place' :=
        distinct.place_eq found found' (isCommand.trans isCommand'.symm)
          (isCommand ▸ hasCommitted.1)
      exact ⟨⟨plain, .done, none⟩, ⟨compact, .done, none⟩, 0, by simp [Logs.perform, taken],
        by simp [Logs.perform, taken'], rfl, rfl, compacts.both plainTaken compactTaken sameEntry⟩
  | followerInstallSnapshot => exact allowed.elim

theorem compactOnly_compacts {cmdIndex : Int} {bytes : List UInt8}
    (allowed : twins.Allowed (.compactOnly cmdIndex bytes)) :
    ∃ compact k', twins.compact.perform (.takeSnapshot cmdIndex bytes) = some compact ∧
      compact.item = none ∧ twins.plain.Compacts compact.logs k' := by
  obtain ⟨compact, taken, atMost⟩ :=
    compacts.compact_positioned.spans.takeSnapshot_committed allowed bytes
  obtain ⟨place, -, -, -, compactTaken⟩ := compacts.compact_positioned.compacts taken atMost
  exact ⟨⟨compact, .done, none⟩, _, by simp [Logs.perform, taken], rfl,
    compacts.trans compactTaken⟩

theorem sameOutcome_of_compacts {op : TwinOp α} (allowed : twins.Allowed op) :
    twins.SameOutcome op := by
  cases op with
  | both op =>
      obtain ⟨plain, compact, -, result, result', reply, item, -⟩ := both_compacts compacts allowed
      exact ⟨plain, compact, result, result', reply, item⟩
  | compactOnly =>
      obtain ⟨compact, -, result, item, -⟩ := compactOnly_compacts compacts allowed
      exact ⟨compact, result, item⟩

theorem compacts_of_step {op : TwinOp α} (allowed : twins.Allowed op)
    (taken : step op twins = some twins') :
    ∃ k', twins'.plain.Compacts twins'.compact k' := by
  cases op with
  | both op =>
      obtain ⟨plain, compact, k', result, result', -, -, compacts'⟩ :=
        both_compacts compacts allowed
      simp only [step, result, result', Option.bind_eq_bind, Option.bind_some] at taken
      cases taken
      exact ⟨k', compacts'⟩
  | compactOnly =>
      obtain ⟨compact, k', result, -, compacts'⟩ := compactOnly_compacts compacts allowed
      simp only [step, result, Option.bind_eq_bind, Option.bind_some] at taken
      cases taken
      exact ⟨k', compacts'⟩

theorem compacts_of_run {ops : List (TwinOp α)} (run : Run step Allowed twins ops twins') :
    ∃ k', twins'.plain.Compacts twins'.compact k' := by
  induction run with
  | start => exact ⟨k, compacts⟩
  | next _ allowed taken ih =>
      obtain ⟨_, compacts⟩ := ih
      exact compacts_of_step compacts allowed taken

end

end Twins

/-- A log of a no-op and two commands, the first of them committed. -/
def oneCommitted : Logs Nat where
  entries := [⟨-1, 1, none⟩, ⟨1, 1, some 7⟩, ⟨2, 1, some 8⟩]
  lci := 1
  lli := 2
  lai := -1
  noopCount := 1
  offset := 0
  snapshot := none

/-- The same log with its first command compacted. -/
def oneCompacted : Logs Nat where
  entries := [⟨2, 1, some 8⟩]
  lci := 1
  lli := 2
  lai := 1
  noopCount := 1
  offset := 2
  snapshot := some ⟨[1], 1, 1, 1, 1, [⟨-1, 1, none⟩, ⟨1, 1, some 7⟩]⟩

/-- The second command is committed and compacted on both logs, and a third one follows. -/
def compactedAgain : List (TwinOp Nat) :=
  [.both (.updateCommit 2), .both (.takeSnapshot 2 [2]),
    .both (.leaderAppendEntry ⟨0, 1, some 9⟩)]

end GoLab.Raft
