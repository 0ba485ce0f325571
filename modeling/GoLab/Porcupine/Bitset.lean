import Mathlib.Data.BitVec
import Mathlib.Data.List.GetD

/-!
# Sets of numbers in 64-bit words (`porcupine/bitset.go`)

The bits 0 to 63 are in the first word, the next ones in the second, and so on.  `none` is an
index outside the words.
-/

namespace GoLab.Porcupine

abbrev Bitset := List (BitVec 64)

def newBitset (bits : Nat) : Bitset :=
  let extra := if bits % 64 ≠ 0 then 1 else 0
  List.replicate (bits / 64 + extra) 0

def bitsetIndex (pos : Nat) : Nat × Nat :=
  (pos / 64, pos % 64)

/-- `bits.OnesCount64` -/
def onesCount64 (word : BitVec 64) : Nat :=
  (List.range 64).countP word.getLsbD

namespace Bitset

/-- The word for `pos` is replaced. -/
def update (b : Bitset) (pos : Nat) (f : BitVec 64 → BitVec 64 → BitVec 64) : Option Bitset :=
  let (major, minor) := bitsetIndex pos
  (b[major]?).map fun word => List.set b major (f word (1#64 <<< minor))

def set (b : Bitset) (pos : Nat) : Option Bitset :=
  b.update pos fun word bit => word ||| bit

def clear (b : Bitset) (pos : Nat) : Option Bitset :=
  b.update pos fun word bit => word &&& ~~~bit

def get (b : Bitset) (pos : Nat) : Option Bool :=
  let (major, minor) := bitsetIndex pos
  (b[major]?).map fun word => word &&& (1#64 <<< minor) != 0#64

def popcnt (b : Bitset) : Nat :=
  b.foldl (fun total word => total + onesCount64 word) 0

def hash (b : Bitset) : BitVec 64 :=
  b.foldl (· ^^^ ·) (BitVec.ofNat 64 b.popcnt)

def equals (b b2 : Bitset) : Bool :=
  b.length == b2.length && (List.zip b b2).all fun (word, word2) => word == word2

/-- The numbers in the set. -/
def mem (b : Bitset) (pos : Nat) : Bool :=
  (b[pos / 64]?).any (·.getLsbD (pos % 64))

section

variable {b b' : Bitset} {pos i : Nat}

theorem getLsbD_bit {minor : Nat} (i : Nat) (small : i < 64) :
    (1#64 <<< minor).getLsbD i = decide (i = minor) := by
  rw [BitVec.getLsbD_shiftLeft, BitVec.getLsbD_one]
  grind

/-- Two numbers are in one place when they have the same word and the same bit. -/
theorem mem_update {f : BitVec 64 → BitVec 64 → BitVec 64} {o : Bool → Bool → Bool}
    (bitwise : ∀ word bit i, (f word bit).getLsbD i = o (word.getLsbD i) (bit.getLsbD i))
    (keeps : ∀ value, o value false = value) (updated : b.update pos f = some b') :
    b'.length = b.length ∧ b'.mem pos = o (b.mem pos) true ∧
      ∀ i, i ≠ pos → b'.mem i = b.mem i := by
  obtain ⟨word, found, rfl⟩ := Option.map_eq_some_iff.mp updated
  refine ⟨List.length_set .., ?_, fun i other => ?_⟩
  · obtain ⟨inside, rfl⟩ := List.getElem?_eq_some_iff.mp found
    have small : pos % 64 < 64 := Nat.mod_lt _ (by decide)
    simp [mem, inside, bitwise, getLsbD_bit _ small]
  · by_cases sameWord : i / 64 = pos / 64
    · have otherBit : i % 64 ≠ pos % 64 := by omega
      obtain ⟨inside, rfl⟩ := List.getElem?_eq_some_iff.mp found
      have small : i % 64 < 64 := Nat.mod_lt _ (by decide)
      simp [mem, sameWord, inside, bitwise, getLsbD_bit _ small, otherBit, keeps]
    · simp [mem, Ne.symm sameWord]

theorem update_isSome {f : BitVec 64 → BitVec 64 → BitVec 64} (inside : pos / 64 < b.length) :
    ∃ b', b.update pos f = some b' := by
  simp [update, bitsetIndex, inside]

/-- The word has a place for the number. -/
theorem set_eq (inside : pos / 64 < b.length) :
    ∃ b', b.set pos = some b' ∧ b'.length = b.length ∧ b'.mem pos = true ∧
      ∀ i, i ≠ pos → b'.mem i = b.mem i := by
  obtain ⟨b', updated⟩ := update_isSome (f := fun word bit => word ||| bit) inside
  obtain ⟨length, here, others⟩ :=
    mem_update (o := or) (fun _ _ _ => BitVec.getLsbD_or ..) Bool.or_false updated
  exact ⟨b', updated, length, by simpa using here, others⟩

/-- A number that was put in is taken out again. -/
theorem clear_set (absent : b.mem pos = false) (added : b.set pos = some b') :
    b'.clear pos = some b := by
  obtain ⟨word, found, rfl⟩ := Option.map_eq_some_iff.mp added
  have inside : pos / 64 < b.length := (List.getElem?_eq_some_iff.mp found).1
  have isWord : b[pos / 64] = word := (List.getElem?_eq_some_iff.mp found).2
  have off : word.getLsbD (pos % 64) = false := by simpa [mem, found] using absent
  have same : (word ||| 1#64 <<< (pos % 64)) &&& ~~~(1#64 <<< (pos % 64)) = word := by
    refine BitVec.eq_of_getLsbD_eq fun i small => ?_
    simp only [BitVec.getLsbD_and, BitVec.getLsbD_or, BitVec.getLsbD_not, getLsbD_bit i small,
      small]
    by_cases isBit : i = pos % 64
    · simp [isBit, off]
    · simp [isBit]
  have back : List.set b (pos / 64) word = b := by rw [← isWord, List.set_getElem_self]
  simp [clear, update, bitsetIndex, inside, same, back]

theorem newBitset_mem (bits : Nat) : (newBitset bits).mem pos = false := by
  unfold newBitset mem
  rw [List.getElem?_replicate]
  split <;> split <;> simp

theorem lt_newBitset_length {bits : Nat} (small : pos < bits) :
    pos / 64 < (newBitset bits).length := by
  simp only [newBitset, List.length_replicate]
  split <;> omega

theorem equals_iff : b.equals b' = true ↔ b = b' := by
  unfold equals
  rw [Bool.and_eq_true, beq_iff_eq]
  induction b generalizing b' with
  | nil => cases b' <;> simp
  | cons word b ih =>
      cases b' with
      | nil => simp
      | cons word' b' =>
          simp only [List.length_cons, Nat.add_right_cancel_iff, List.zip_cons_cons, List.all_cons,
            Bool.and_eq_true, beq_iff_eq, List.cons.injEq]
          rw [and_left_comm, ih]

end

end Bitset

end GoLab.Porcupine
