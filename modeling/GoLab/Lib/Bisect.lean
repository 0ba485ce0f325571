/-!
# Bisection with a carried result

A search for the last index at which a predicate holds.  The interval that is left is
`[l, r]`, and `best` is the last index that was hit, `-1` if there is none.  A search that
is begun anew at a larger `lo` keeps the `best` of the one before.
-/

namespace GoLab

variable {holds : Int → Prop} {lo l r m best : Int}

/-- What is known while `[l, r]` is left of the interval that began at `lo`. -/
structure Bisect (holds : Int → Prop) (lo l r best : Int) : Prop where
  known : best = -1 ∨ holds best
  start : lo ≤ l
  left : l = best + 1 ∨ l = lo
  right : ∀ idx, holds idx → idx ≤ r

namespace Bisect

theorem begin (known : best = -1 ∨ holds best) (right : ∀ idx, holds idx → idx ≤ r) :
    Bisect holds lo lo r best :=
  ⟨known, Int.le_refl _, .inr rfl, right⟩

theorem hit (bisect : Bisect holds lo l r best) (inside : l ≤ m) (held : holds m) :
    Bisect holds lo (m + 1) r m where
  known := .inr held
  start := by
    have start := bisect.start
    omega
  left := .inl rfl
  right := bisect.right

theorem miss (bisect : Bisect holds lo l r best)
    (closed : ∀ idx, m ≤ idx → holds idx → holds m) (missing : ¬holds m) :
    Bisect holds lo l (m - 1) best where
  known := bisect.known
  start := bisect.start
  left := bisect.left
  right := by
    intro idx held
    have before : ¬m ≤ idx := fun behind => missing (closed idx behind held)
    omega

/-- When nothing is left, either `best` is the last index or there is none from `lo` on. -/
theorem done (bisect : Bisect holds lo l r best) (empty : r < l) :
    (∀ idx, holds idx → idx ≤ best) ∨ ∀ idx, holds idx → idx < lo := by
  have right := bisect.right
  rcases bisect.left with afterBest | atStart
  · refine .inl fun idx held => ?_
    have atMost := right idx held
    omega
  · refine .inr fun idx held => ?_
    have atMost := right idx held
    omega

theorem mid (nonempty : l ≤ r) : l ≤ l + (r - l) / 2 ∧ l + (r - l) / 2 ≤ r := by
  omega

end Bisect

end GoLab
