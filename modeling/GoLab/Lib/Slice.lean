import Mathlib.Data.Option.Basic

/-!
# Go slices

A Go slice is a window on a heap-allocated array.  Two slices of one array share
its cells, `append` writes into the array while the capacity lasts, and only
then moves to a fresh array.  The heap below keeps the arrays a program has
allocated, by allocation order, with the cells written so far.

The first part states the two bounds-checked expressions `s[i]` and `s[lo:hi]`
on the value of a slice; `none` stands for the run-time panic.
-/

namespace GoLab

universe u

variable {β : Type u}

/-- `s[i]`; `none` is the index-out-of-range panic. -/
def index? (values : List β) (i : Int) : Option β :=
  if 0 ≤ i then values[i.toNat]? else none

/-- `s[lo:hi]`; `none` is the slice-bounds-out-of-range panic. -/
def slice? (values : List β) (lo hi : Int) : Option (List β) :=
  if 0 ≤ lo ∧ lo ≤ hi ∧ hi ≤ values.length then
    some ((values.drop lo.toNat).take (hi - lo).toNat)
  else
    none

theorem index?_eq_some {values : List β} {i : Int} {value : β} :
    index? values i = some value ↔ 0 ≤ i ∧ values[i.toNat]? = some value := by
  unfold index?
  split
  case isTrue inBounds => simp [inBounds]
  case isFalse negative => simp [negative]

theorem slice?_eq_some {values window : List β} {lo hi : Int} :
    slice? values lo hi = some window ↔
      (0 ≤ lo ∧ lo ≤ hi ∧ hi ≤ values.length) ∧
        (values.drop lo.toNat).take (hi - lo).toNat = window := by
  unfold slice?
  split
  case isTrue inBounds => simp [inBounds]
  case isFalse outOfBounds =>
    constructor
    · intro impossible
      cases impossible
    · intro window
      exact (outOfBounds window.1).elim

theorem index?_isSome {values : List β} {i : Int} (inBounds : 0 ≤ i ∧ i < values.length) :
    ∃ value, index? values i = some value := by
  rw [index?, if_pos inBounds.1]
  exact ⟨_, List.getElem?_eq_getElem (by omega)⟩

theorem slice?_isSome {values : List β} {lo hi : Int}
    (inBounds : 0 ≤ lo ∧ lo ≤ hi ∧ hi ≤ values.length) :
    ∃ window, slice? values lo hi = some window :=
  ⟨_, slice?_eq_some.mpr ⟨inBounds, rfl⟩⟩

theorem length_of_slice? {values window : List β} {lo hi : Int}
    (sliced : slice? values lo hi = some window) :
    0 ≤ lo ∧ hi ≤ values.length ∧ (window.length : Int) = hi - lo := by
  rw [slice?_eq_some] at sliced
  obtain ⟨bounds, rfl⟩ := sliced
  rw [List.length_take, List.length_drop]
  omega

/-- The arrays allocated so far. -/
abbrev Heap (β : Type u) := List (List β)

/-- A slice header: the array, where the window starts, its length, and how far
it may grow before `append` has to reallocate. -/
structure Slice where
  array : Nat
  start : Nat
  len : Nat
  cap : Nat
  deriving DecidableEq, Repr

namespace Slice

/-- The nil slice. -/
def nil : Slice := ⟨0, 0, 0, 0⟩

/-- The cells of the array behind a slice. -/
def cells (heap : Heap β) (s : Slice) : List β :=
  (heap[s.array]?).getD []

/-- The elements a slice shows at the moment. -/
def read (heap : Heap β) (s : Slice) : List β :=
  ((s.cells heap).drop s.start).take s.len

/-- `s[lo:]`. -/
def dropFirst (s : Slice) (lo : Nat) : Slice :=
  { s with start := s.start + lo, len := s.len - lo, cap := s.cap - lo }

/-- `s[:hi]`. -/
def takeFirst (s : Slice) (hi : Nat) : Slice :=
  { s with len := min hi s.len }

/-- Overwrite cells from position `at_` on, extending the array at its end. -/
def overwrite (cells : List β) (at_ : Nat) (values : List β) : List β :=
  cells.take at_ ++ values ++ cells.drop (at_ + values.length)

/-- `append(s, values...)`.  The capacity of a fresh array is the run-time
library's choice, given by `grow`. -/
def append (grow : Nat → Nat → Nat) (heap : Heap β) (s : Slice) (values : List β) :
    Heap β × Slice :=
  let needed := s.len + values.length
  if needed ≤ s.cap then
    (heap.set s.array (overwrite (s.cells heap) (s.start + s.len) values),
      { s with len := needed })
  else
    (heap ++ [s.read heap ++ values], ⟨heap.length, 0, needed, grow s.cap needed⟩)

end Slice

end GoLab
