import GoLab.Lib.Slice
import GoLab.Raft.BitSet
import GoLab.Raft.ReplCounter

/-!
# What the commit counter counts

The counter keeps for every watched index the set of peers that hold it.  An index is
committed only if the set is a majority.
-/

namespace GoLab.Raft

namespace ReplCounter

/-- Every watched index follows the one before it, and the bits of an index are those of
peers that hold it. -/
structure Tallied (holds : Nat → Int → Prop) (entries : List ReplEntry) : Prop where
  next : ∀ (k : Nat) entry later, entries[k]? = some entry → entries[k + 1]? = some later →
    later.index = entry.index + 1
  members : ∀ entry ∈ entries, ∃ members : Finset Nat, entry.bitVec.Represents members ∧
    ∀ peer ∈ members, holds peer entry.index

variable {holds : Nat → Int → Prop} {entries entries' : List ReplEntry} {rc rc' : ReplCounter}

theorem Tallied.nil : Tallied holds [] :=
  ⟨by simp, by simp⟩

theorem Tallied.mono {more : Nat → Int → Prop} (tallied : Tallied holds entries)
    (weaker : ∀ peer idx, holds peer idx → more peer idx) : Tallied more entries where
  next := tallied.next
  members entry inside := by
    obtain ⟨members, represents, held⟩ := tallied.members entry inside
    exact ⟨members, represents, fun peer member => weaker peer _ (held peer member)⟩

theorem Tallied.index_eq (tallied : Tallied holds entries) {first : ReplEntry}
    (isFirst : entries[0]? = some first) {k : Nat} {entry : ReplEntry}
    (found : entries[k]? = some entry) : entry.index = first.index + k := by
  induction k generalizing entry with
  | zero =>
      cases isFirst.symm.trans found
      simp
  | succ k ih =>
      obtain ⟨inside, -⟩ := List.getElem?_eq_some_iff.mp found
      have before : entries[k]? = some _ := List.getElem?_eq_getElem (Nat.lt_of_succ_lt inside)
      rw [tallied.next k _ entry before found, ih before]
      omega

theorem Tallied.drop (tallied : Tallied holds entries) (n : Nat) :
    Tallied holds (entries.drop n) where
  next k entry later found found' := by
    rw [List.getElem?_drop] at found found'
    exact tallied.next (n + k) entry later found found'
  members entry inside := tallied.members entry (List.mem_of_mem_drop inside)

/-- A leader watches an index it holds itself. -/
theorem Tallied.watchIndex (tallied : Tallied holds rc.entries) {peers me : Nat} {idx : Int}
    (watched : rc.watchIndex peers me idx = some rc') (held : holds me idx) :
    Tallied holds rc'.entries ∧ ∀ entry ∈ rc'.entries, entry ∈ rc.entries ∨ entry.index = idx := by
  simp only [ReplCounter.watchIndex, Option.bind_eq_bind, Option.bind_eq_some_iff,
    Option.guard_eq_some'] at watched
  obtain ⟨-, follows, ⟨bitVec, changed⟩, set, watched⟩ := watched
  cases watched
  refine ⟨⟨fun k entry later found found' => ?_, fun entry inside => ?_⟩, fun entry inside => ?_⟩
  · dsimp only at found found'
    rw [List.getElem?_append] at found found'
    split at found'
    case isTrue inside =>
      rw [if_pos (Nat.lt_of_succ_lt inside)] at found
      exact tallied.next k entry later found found'
    case isFalse outside =>
      obtain ⟨atEnd, -⟩ := List.getElem?_eq_some_iff.mp found'
      rw [List.length_singleton] at atEnd
      have isLast : k + 1 = rc.entries.length := by omega
      rw [if_pos (by omega)] at found
      rw [isLast, Nat.sub_self] at found'
      cases found'
      refine follows entry ?_
      rw [Option.mem_def, List.getLast?_eq_getElem?, ← found, ← isLast]
      rfl
  · rcases List.mem_append.mp inside with earlier | isNew
    · exact tallied.members entry earlier
    · cases List.mem_singleton.mp isNew
      refine ⟨_, ((BitVec.represents_new peers).set set).1, fun peer member => ?_⟩
      rw [Finset.mem_insert] at member
      rcases member with rfl | impossible
      · exact held
      · simp at impossible
  · rcases List.mem_append.mp inside with earlier | isNew
    · exact .inl earlier
    · cases List.mem_singleton.mp isNew
      exact .inr rfl

/-- What `mark` does to the entry at a place. -/
theorem mark_spec {peerId : Nat} {lo hi offset : Int}
    (marked : mark peerId lo hi offset entries = some entries') {k : Nat} {entry' : ReplEntry}
    (found : entries'[k]? = some entry') : ∃ entry, entries[k]? = some entry ∧
      entry'.index = entry.index ∧
      ((¬(lo ≤ offset + k ∧ offset + k < hi) ∧ entry'.bitVec = entry.bitVec) ∨
        (lo ≤ offset + k ∧ offset + k < hi) ∧
          ∃ changed, entry.bitVec.set peerId = some (entry'.bitVec, changed)) := by
  induction entries generalizing offset entries' k with
  | nil =>
      cases marked
      simp at found
  | cons entry rest ih =>
      obtain ⟨first, others, isOthers, rfl, index, bits⟩ : ∃ first others,
          mark peerId lo hi (offset + 1) rest = some others ∧ entries' = first :: others ∧
            first.index = entry.index ∧
            ((¬(lo ≤ offset ∧ offset < hi) ∧ first.bitVec = entry.bitVec) ∨
              (lo ≤ offset ∧ offset < hi) ∧
                ∃ changed, entry.bitVec.set peerId = some (first.bitVec, changed)) := by
        unfold mark at marked
        split at marked
        case isTrue inside =>
          simp only [Option.bind_eq_bind, Option.bind_eq_some_iff, Option.bind_some] at marked
          obtain ⟨⟨bitVec, changed⟩, set, others, isOthers, marked⟩ := marked
          cases marked
          exact ⟨_, others, isOthers, rfl, rfl, .inr ⟨inside, changed, set⟩⟩
        case isFalse outside =>
          simp only [Option.bind_eq_bind, Option.bind_eq_some_iff, Option.bind_some] at marked
          obtain ⟨others, isOthers, marked⟩ := marked
          cases marked
          exact ⟨entry, others, isOthers, rfl, rfl, .inl ⟨outside, rfl⟩⟩
      cases k with
      | zero =>
          cases found
          refine ⟨entry, rfl, index, ?_⟩
          simpa using bits
      | succ k =>
          obtain ⟨before, wasThere, index, bits⟩ := ih isOthers found
          refine ⟨before, wasThere, index, ?_⟩
          have position : offset + 1 + (k : Int) = offset + ((k + 1 : Nat) : Int) := by omega
          rwa [position] at bits

/-- `mark` does not crash where the bit vectors have room for the peer. -/
theorem mark_isSome {peerId : Nat} (lo hi offset : Int)
    (room : ∀ entry ∈ entries, peerId / 8 < entry.bitVec.bits.length) :
    ∃ entries', mark peerId lo hi offset entries = some entries' ∧
      entries'.length = entries.length := by
  induction entries generalizing offset with
  | nil => exact ⟨[], rfl, rfl⟩
  | cons entry rest ih =>
      obtain ⟨others, isOthers, length⟩ :=
        ih (offset + 1) fun other membership => room other (.tail _ membership)
      obtain ⟨bitVec, changed, set⟩ :=
        BitVec.Write.perform_isSome (.set peerId) (room entry (.head _))
      rw [BitVec.Write.perform] at set
      unfold mark
      split
      case isTrue =>
        exact ⟨{ entry with bitVec } :: others, by simp [set, isOthers], by simp [length]⟩
      case isFalse => exact ⟨entry :: others, by simp [isOthers], by simp [length]⟩

theorem Tallied.mark (tallied : Tallied holds entries) {peerId : Nat} {lo hi : Int}
    (marked : mark peerId lo hi 0 entries = some entries')
    (held : ∀ (k : Nat) entry, entries[k]? = some entry → lo ≤ k → k < hi →
      holds peerId entry.index) : Tallied holds entries' where
  next k entry later found found' := by
    obtain ⟨before, wasThere, index, -⟩ := mark_spec marked found
    obtain ⟨before', wasThere', index', -⟩ := mark_spec marked found'
    rw [index, index']
    exact tallied.next k before before' wasThere wasThere'
  members entry inside := by
    obtain ⟨k, found⟩ := List.mem_iff_getElem?.mp inside
    obtain ⟨before, wasThere, index, bits⟩ := mark_spec marked found
    obtain ⟨members, represents, known⟩ := tallied.members before (List.mem_of_getElem? wasThere)
    rw [index]
    rcases bits with ⟨-, same⟩ | ⟨range, changed, set⟩
    · exact ⟨members, same ▸ represents, known⟩
    · refine ⟨_, (represents.set set).1, fun peer member => ?_⟩
      rcases Finset.mem_insert.mp member with rfl | earlier
      · exact held k before wasThere (by omega) (by omega)
      · exact known peer earlier

/-- A peer has confirmed a range of indices it holds.  What is committed thereupon was
watched, and a majority holds it. -/
theorem Tallied.confirm (tallied : Tallied holds rc.entries) {majorN peerId : Nat}
    {startIdx endIdx : Int} {commit : Option Int}
    (result : rc.confirm majorN peerId startIdx endIdx = some (rc', commit))
    (held : ∀ idx, startIdx ≤ idx → idx < endIdx → holds peerId idx) :
    Tallied holds rc'.entries ∧
      (∀ entry ∈ rc'.entries, ∃ before ∈ rc.entries, entry.index = before.index) ∧
      ∀ idx ∈ commit, (∃ entry ∈ rc.entries, entry.index = idx) ∧
        ∃ members : Finset Nat, majorN ≤ members.card ∧ ∀ peer ∈ members, holds peer idx := by
  unfold ReplCounter.confirm at result
  split at result
  case h_1 =>
    cases result
    exact ⟨tallied, fun entry inside => ⟨entry, inside, rfl⟩, nofun⟩
  case h_2 first others isEntries =>
    simp only [Option.bind_eq_bind, Option.bind_eq_some_iff] at result
    obtain ⟨-, -, entries, marked, result⟩ := result
    have isFirst : rc.entries[0]? = some first := by rw [isEntries]; rfl
    have now : Tallied holds entries := tallied.mark marked fun k entry found atLeast below => by
      have index := tallied.index_eq isFirst found
      exact held entry.index (by omega) (by omega)
    have watched (entry : ReplEntry) (inside : entry ∈ entries) :
        ∃ before ∈ rc.entries, entry.index = before.index := by
      obtain ⟨k, found⟩ := List.mem_iff_getElem?.mp inside
      obtain ⟨before, wasThere, index, -⟩ := mark_spec marked found
      exact ⟨before, List.mem_of_getElem? wasThere, index⟩
    split at result
    case h_1 =>
      cases result
      exact ⟨now, watched, nofun⟩
    case h_2 last isLast =>
      cases result
      refine ⟨now.drop _, fun entry inside => watched entry (List.mem_of_mem_drop inside), ?_⟩
      rintro _ ⟨⟩
      have inside := List.mem_of_getLast? isLast
      have enough := of_decide_eq_true (List.all_eq_true.mp List.all_takeWhile last inside)
      have isMarked := (List.takeWhile_sublist _).subset inside
      obtain ⟨before, wasThere, index⟩ := watched last isMarked
      obtain ⟨members, represents, known⟩ := now.members last isMarked
      refine ⟨⟨before, wasThere, index.symm⟩, members, ?_, known⟩
      have count := represents.count
      omega

end ReplCounter

end GoLab.Raft
