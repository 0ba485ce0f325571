import GoLab.Lib.Run
import Mathlib.Order.WellFounded

/-!
# Executions that go on for ever

An execution takes a step at every moment.  A measure in a well-founded order that no step
increases, and that the steps of one kind decrease, leaves only finitely many steps of that
kind.
-/

namespace GoLab

universe u v w

variable {σ : Type u} {ι : Type v}

/-- The step `labels n` takes `states n` to `states (n + 1)`. -/
structure Execution (step : ι → σ → Option σ) (allowed : σ → ι → Prop) (states : Nat → σ)
    (labels : Nat → ι) : Prop where
  allowed : ∀ n, allowed (states n) (labels n)
  taken : ∀ n, step (labels n) (states n) = some (states (n + 1))

namespace Execution

variable {step : ι → σ → Option σ} {allowed : σ → ι → Prop} {states : Nat → σ}
  {labels : Nat → ι}

/-- What an execution does up to some moment is a run. -/
theorem run (execution : Execution step allowed states labels) (n : Nat) :
    Run step allowed (states 0) ((List.range n).map labels) (states n) := by
  induction n with
  | zero => exact .start
  | succ n ih =>
      rw [List.range_succ, List.map_append]
      exact ih.next (execution.allowed n) (execution.taken n)

/-- Steps that decrease a measure which no step increases end at some moment. -/
theorem idle {β : Type w} [Preorder β] [WellFoundedLT β] (measure : σ → β)
    (work : ι → Prop) {start : Nat}
    (kept : ∀ n, start ≤ n → measure (states (n + 1)) ≤ measure (states n))
    (decreased : ∀ n, start ≤ n → work (labels n) →
      measure (states (n + 1)) < measure (states n)) :
    ∃ n, start ≤ n ∧ ∀ m, n ≤ m → ¬work (labels m) := by
  obtain ⟨_, ⟨n, later, rfl⟩, least⟩ := wellFounded_lt.has_min
    {value | ∃ n, start ≤ n ∧ measure (states n) = value} ⟨_, start, Nat.le_refl _, rfl⟩
  have atMost (m : Nat) (after : n ≤ m) : measure (states m) ≤ measure (states n) := by
    induction m, after using Nat.le_induction with
    | base => exact le_refl _
    | succ m after ih => exact (kept m (later.trans after)).trans ih
  refine ⟨n, later, fun m after works => ?_⟩
  have smaller := decreased m (later.trans after) works
  exact least _ ⟨m + 1, by omega, rfl⟩ (smaller.trans_le (atMost m after))

end Execution

end GoLab
