import Mathlib.Data.Finset.Card
import Mathlib.Data.Nat.Bitwise
import GoLab.Raft.BitVec

/-!
# The bit vector as a set

A bit vector stands for a set of indices with its cardinality.  An index is found in the
byte `idx / 8`, at the bit `idx % 8`; `Set` and `Unset` change one bit of one byte and keep
the count beside it.
-/

namespace GoLab.Raft

namespace BitVec

theorem mask_toNat (idx : Nat) : (mask idx).toNat = 2 ^ (idx % 8) := by
  have all : ∀ k < 8, (1 <<< UInt8.ofNat k : UInt8).toNat = 2 ^ k := by decide
  exact all _ (Nat.mod_lt _ (by decide))

theorem and_mask_ne_zero (num : UInt8) (idx : Nat) :
    num &&& mask idx ≠ 0 ↔ num.toNat.testBit (idx % 8) = true := by
  have same : num &&& mask idx = 0 ↔ num.toNat &&& 2 ^ (idx % 8) = 0 := by
    rw [← UInt8.toNat_inj, UInt8.toNat_and, mask_toNat]
    rfl
  rw [Ne, same, Nat.and_two_pow]
  cases num.toNat.testBit (idx % 8) <;> simp

theorem testBit_or_mask (num : UInt8) (idx other : Nat) :
    (num ||| mask idx).toNat.testBit (other % 8) = true ↔
      num.toNat.testBit (other % 8) = true ∨ other % 8 = idx % 8 := by
  rw [UInt8.toNat_or, mask_toNat, Nat.testBit_or, Nat.testBit_two_pow, Bool.or_eq_true,
    decide_eq_true_eq, eq_comm (a := idx % 8)]

theorem testBit_xor_mask (num : UInt8) (idx other : Nat) :
    (num ^^^ mask idx).toNat.testBit (other % 8) = true ↔
      ¬(num.toNat.testBit (other % 8) = true ↔ other % 8 = idx % 8) := by
  rw [UInt8.toNat_xor, mask_toNat, Nat.testBit_xor, Nat.testBit_two_pow, bne_iff_ne, Ne,
    Bool.eq_iff_iff, decide_eq_true_eq, eq_comm (a := idx % 8)]

/-- The set bits are those of the members, and they are counted. -/
structure Represents (bv : BitVec) (members : Finset Nat) : Prop where
  bits : ∀ (idx : Nat) num, bv.bits[idx / 8]? = some num →
    (num.toNat.testBit (idx % 8) = true ↔ idx ∈ members)
  count : bv.count = members.card

theorem represents_new (cap : Nat) : (new cap).Represents ∅ where
  bits idx num found := by
    cases List.eq_of_mem_replicate (List.mem_of_getElem? found)
    simp
  count := rfl

variable {bv : BitVec}

/-- A byte is written over: the byte has to hold the new members among its own indices, and
an index of another byte keeps its membership. -/
theorem Represents.write {members members' : Finset Nat} {idx : Nat} {num : UInt8} {count : Int}
    (represents : bv.Represents members) (byte : ∀ other, idx / 8 = other / 8 →
      (num.toNat.testBit (other % 8) = true ↔ other ∈ members'))
    (kept : ∀ other, other ≠ idx → (other ∈ members ↔ other ∈ members'))
    (counted : count = members'.card) :
    ({ bv with bits := bv.bits.set (idx / 8) num, count } : BitVec).Represents members' where
  bits other num' found := by
    dsimp only at found
    rw [List.getElem?_set] at found
    split at found
    case isTrue sameByte =>
      split at found
      case isTrue =>
        cases found
        exact byte other sameByte
      case isFalse => cases found
    case isFalse otherByte =>
      rw [represents.bits other num' found]
      exact kept other fun same => otherByte (by rw [same])
  count := counted

variable {members : Finset Nat}

theorem Represents.set {bv bv' : BitVec} {idx : Nat} {changed : Bool}
    (represents : bv.Represents members) (result : bv.set idx = some (bv', changed)) :
    bv'.Represents (insert idx members) ∧ (changed = true ↔ idx ∉ members) := by
  unfold BitVec.set at result
  simp only [Option.bind_eq_bind, Option.bind_eq_some_iff] at result
  obtain ⟨num, found, result⟩ := result
  have isMember := (and_mask_ne_zero num idx).trans (represents.bits idx num found)
  split at result
  case isTrue isSet =>
    cases result
    have member := isMember.mp isSet
    rw [Finset.insert_eq_self.mpr member]
    exact ⟨represents, by simp [member]⟩
  case isFalse notSet =>
    cases result
    have isNew : idx ∉ members := fun member => notSet (isMember.mpr member)
    refine ⟨represents.write (fun other sameByte => ?_) (fun other differs => ?_) ?_,
      by simp [isNew]⟩
    · rw [testBit_or_mask, represents.bits other num (sameByte ▸ found), Finset.mem_insert]
      have same : other % 8 = idx % 8 ↔ other = idx := by omega
      rw [same, or_comm]
    · simp [differs]
    · rw [Finset.card_insert_of_notMem isNew, represents.count]
      rfl

theorem Represents.unset {bv bv' : BitVec} {idx : Nat} {changed : Bool}
    (represents : bv.Represents members) (result : bv.unset idx = some (bv', changed)) :
    bv'.Represents (members.erase idx) ∧ (changed = true ↔ idx ∈ members) := by
  unfold BitVec.unset at result
  simp only [Option.bind_eq_bind, Option.bind_eq_some_iff] at result
  obtain ⟨num, found, result⟩ := result
  have isMember := (and_mask_ne_zero num idx).trans (represents.bits idx num found)
  split at result
  case isTrue notSet =>
    cases result
    have absent : idx ∉ members := fun member => isMember.mpr member notSet
    rw [Finset.erase_eq_of_notMem absent]
    exact ⟨represents, by simp [absent]⟩
  case isFalse isSet =>
    cases result
    have member := isMember.mp isSet
    refine ⟨represents.write (fun other sameByte => ?_) (fun other differs => ?_) ?_,
      by simp [member]⟩
    · -- The exclusive or clears the bit because it is set.
      have same : other % 8 = idx % 8 ↔ other = idx := by omega
      rw [testBit_xor_mask, represents.bits other num (sameByte ▸ found), Finset.mem_erase,
        same]
      by_cases here : other = idx
      · simp [here, member]
      · simp [here]
    · simp [differs]
    · rw [Finset.card_erase_of_mem member, represents.count]
      have positive := Finset.card_pos.mpr ⟨idx, member⟩
      omega

theorem Represents.get {idx : Nat} (represents : bv.Represents members)
    (room : idx / 8 < bv.bits.length) :
    bv.get idx = some (decide (idx ∈ members)) := by
  have found := List.getElem?_eq_getElem room
  unfold BitVec.get
  rw [found]
  simp only [Option.bind_eq_bind, Option.bind_some, Option.pure_def, Option.some.injEq,
    decide_eq_decide]
  exact (and_mask_ne_zero _ idx).trans (represents.bits idx _ found)

/-- A new bit vector has a byte for each of its bits. -/
theorem room_new {cap idx : Nat} (inside : idx < cap) : idx / 8 < (new cap).bits.length := by
  unfold new
  rw [List.length_replicate]
  split <;> omega

/-! ## Sequences of operations -/

/-- An operation that writes. -/
inductive Write where
  | set (idx : Nat)
  | unset (idx : Nat)
  deriving DecidableEq, Repr

namespace Write

/-- The index an operation is on. -/
def idx : Write → Nat
  | set idx => idx
  | unset idx => idx

/-- Carry out the operation, with its answer. -/
def perform : Write → BitVec → Option (BitVec × Bool)
  | set idx, bv => bv.set idx
  | unset idx, bv => bv.unset idx

variable {bv bv' : BitVec} {changed : Bool}

theorem perform_isSome (op : Write) (room : op.idx / 8 < bv.bits.length) :
    ∃ bv' changed, op.perform bv = some (bv', changed) := by
  have found := List.getElem?_eq_getElem room
  cases op with
  | set | unset =>
      simp only [idx] at found
      simp only [perform, BitVec.set, BitVec.unset, found, Option.bind_eq_bind, Option.bind_some]
      split <;> exact ⟨_, _, rfl⟩

theorem length_perform (op : Write) (result : op.perform bv = some (bv', changed)) :
    bv'.bits.length = bv.bits.length := by
  cases op with
  | set | unset =>
      simp only [perform, BitVec.set, BitVec.unset, Option.bind_eq_bind,
        Option.bind_eq_some_iff] at result
      obtain ⟨num, -, result⟩ := result
      split at result
      case isTrue => cases result; rfl
      case isFalse => cases result; simp

/-- The last operation on the index. -/
def last (ops : List Write) (idx : Nat) : Option Write :=
  ops.reverse.find? (·.idx == idx)

@[simp]
theorem last_nil (idx : Nat) : last [] idx = none :=
  rfl

theorem last_concat (ops : List Write) (op : Write) (idx : Nat) :
    last (ops ++ [op]) idx = if op.idx = idx then some op else last ops idx := by
  unfold last
  rw [List.reverse_append, List.reverse_singleton, List.singleton_append, List.find?_cons]
  by_cases here : op.idx = idx
  · simp [here]
  · rw [beq_eq_false_iff_ne.mpr here, if_neg here]

end Write

/-- Carry out operations one after another. -/
def performAll (ops : List Write) (bv : BitVec) : Option BitVec :=
  ops.foldlM (fun bv op => (op.perform bv).map Prod.fst) bv

/-- The bit vector after the operations `ops` on a new one of `cap` bits: the indices it
stands for are those set last, and there is a byte for each bit. -/
structure After (cap : Nat) (ops : List Write) (bv : BitVec) (members : Finset Nat) : Prop where
  represents : bv.Represents members
  inside : ∀ idx ∈ members, idx < cap
  last : ∀ idx, idx ∈ members ↔ Write.last ops idx = some (.set idx)
  room : ∀ idx, idx < cap → idx / 8 < bv.bits.length

theorem after_new (cap : Nat) : After cap [] (new cap) ∅ where
  represents := represents_new cap
  inside := by simp
  last := by simp
  room _ inside := room_new inside

variable {ops : List Write}

/-- One more operation is carried out and tells whether it changed its bit. -/
theorem After.perform {cap : Nat} (after : After cap ops bv members) {op : Write}
    (inside : op.idx < cap) :
    ∃ bv' changed members', op.perform bv = some (bv', changed) ∧
      After cap (ops ++ [op]) bv' members' ∧
      (changed = true ↔ (op.idx ∈ members' ↔ op.idx ∉ members)) := by
  obtain ⟨bv', changed, result⟩ := op.perform_isSome (after.room op.idx inside)
  have length := op.length_perform result
  cases op with
  | set idx =>
      have represents := after.represents.set result
      refine ⟨bv', changed, insert idx members, result, ⟨represents.1, ?_, ?_, ?_⟩, ?_⟩
      · simpa [Write.idx] using ⟨inside, after.inside⟩
      · intro other
        rw [Write.last_concat, Finset.mem_insert, after.last other]
        by_cases here : idx = other
        · simp [Write.idx, here]
        · simp [Write.idx, here, Ne.symm here]
      · rw [length]
        exact after.room
      · rw [represents.2]
        simp [Write.idx]
  | unset idx =>
      have represents := after.represents.unset result
      refine ⟨bv', changed, members.erase idx, result, ⟨represents.1, ?_, ?_, ?_⟩, ?_⟩
      · exact fun other member => after.inside other (Finset.mem_of_mem_erase member)
      · intro other
        rw [Write.last_concat, Finset.mem_erase, after.last other]
        by_cases here : idx = other
        · simp [Write.idx, here]
        · simp [Write.idx, here, Ne.symm here]
      · rw [length]
        exact after.room
      · rw [represents.2]
        simp [Write.idx]

/-- Operations below the capacity are carried out one after another. -/
theorem performAll_after {cap : Nat} (inside : ∀ op ∈ ops, op.idx < cap) :
    ∃ bv members, performAll ops (new cap) = some bv ∧ After cap ops bv members := by
  induction ops using List.reverseRecOn with
  | nil => exact ⟨_, _, rfl, after_new cap⟩
  | append_singleton ops op ih =>
      obtain ⟨bv, members, result, after⟩ := ih fun op' member =>
        inside op' (List.mem_append_left _ member)
      obtain ⟨bv', _, members', performed, after', _⟩ := after.perform (inside op (by simp))
      refine ⟨bv', members', ?_, after'⟩
      unfold performAll at result ⊢
      rw [List.foldlM_append, result]
      simp [performed]

theorem After.get {cap : Nat} (after : After cap ops bv members) {idx : Nat} (inside : idx < cap) :
    bv.get idx = some (decide (idx ∈ members)) :=
  after.represents.get (after.room idx inside)

/-- The count is the number of indices below the capacity that are set. -/
theorem After.count {cap : Nat} (after : After cap ops bv members) :
    bv.count = ((Finset.range cap).filter fun idx => bv.get idx = some true).card := by
  have same : members = (Finset.range cap).filter fun idx => bv.get idx = some true := by
    ext idx
    rw [Finset.mem_filter, Finset.mem_range]
    constructor
    · intro member
      have below := after.inside idx member
      exact ⟨below, by simp [after.get below, member]⟩
    · rintro ⟨below, isSet⟩
      simpa [after.get below] using isSet
  rw [after.represents.count, ← same]

/-- A bit vector is a set of the indices below its capacity with its cardinality: after any
operations below the capacity every access is inside, an index is in the set if the last
operation on it was `Set`, the next operation answers whether it changes the bit, and the
count is that of the bits that are set. -/
theorem performAll_is_set {cap : Nat} {ops : List Write} (inside : ∀ op ∈ ops, op.idx < cap) :
    ∃ bv, performAll ops (new cap) = some bv ∧
      (∀ idx < cap, ∃ present, bv.get idx = some present ∧
        (present = true ↔ Write.last ops idx = some (.set idx))) ∧
      (∀ op : Write, op.idx < cap → ∃ bv' changed present present',
        op.perform bv = some (bv', changed) ∧ bv.get op.idx = some present ∧
        bv'.get op.idx = some present' ∧ (changed = true ↔ present' ≠ present)) ∧
      bv.count = ((Finset.range cap).filter fun idx => bv.get idx = some true).card := by
  obtain ⟨bv, members, result, after⟩ := performAll_after inside
  refine ⟨bv, result, fun idx below => ?_, fun op below => ?_, after.count⟩
  · exact ⟨_, after.get below, by rw [decide_eq_true_eq, after.last]⟩
  · obtain ⟨bv', changed, members', performed, after', answer⟩ := after.perform below
    refine ⟨bv', changed, _, _, performed, after.get below, after'.get below, ?_⟩
    rw [answer, Ne, decide_eq_decide]
    tauto

/-- Ten bits, with one set twice and one set and cleared again. -/
theorem performAll_is_set_ten :
    ∃ bv, performAll [.set 9, .set 3, .set 9, .unset 3] (new 10) = some bv ∧
      bv.get 9 = some true ∧ bv.get 3 = some false ∧ bv.count = 1 := by
  obtain ⟨bv, result, _, _, _⟩ := @performAll_is_set 10
    [.set 9, .set 3, .set 9, .unset 3] (by decide)
  cases result
  decide

end BitVec

end GoLab.Raft
