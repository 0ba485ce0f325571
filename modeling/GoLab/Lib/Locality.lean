import Mathlib.Data.List.Nodup
import Mathlib.Data.Option.Basic
import Mathlib.Order.Lattice

/-!
# Orders of operations on several objects

Each operation is on one of several objects and takes some time.  If the operations on every
object can be put in an order that keeps to their times, the orders can be merged into one
that does so too: the first of all operations is the first one on the object of which an
operation returns first.

Objects that are used one by one in this way are in the same states as in the merged order.
-/

namespace GoLab

universe u v w

variable {α : Type u} {κ : Type v} {τ : Type w} [DecidableEq κ]

section

variable [LinearOrder τ] {call ret : α → τ}

theorem exists_least_ret {history : List α} (notEmpty : history ≠ []) :
    ∃ first ∈ history, ∀ b ∈ history, ret first ≤ ret b := by
  induction history with
  | nil => exact absurd rfl notEmpty
  | cons a history ih =>
      by_cases isNil : history = []
      · subst isNil
        exact ⟨a, by simp, by simp⟩
      · obtain ⟨first, inside, least⟩ := ih isNil
        rcases le_total (ret a) (ret first) with before | after
        · refine ⟨a, by simp, fun b isB => ?_⟩
          rcases List.mem_cons.mp isB with rfl | later
          · exact le_refl _
          · exact le_trans before (least b later)
        · refine ⟨first, List.mem_cons_of_mem _ inside, fun b isB => ?_⟩
          rcases List.mem_cons.mp isB with rfl | later
          · exact after
          · exact least b later

/-- No operation returns before the first one on the object of which an operation returns
first has been called. -/
theorem not_before_head {a first : α} {rest : List α} (inside : first ∈ a :: rest)
    (timed : call a ≤ ret a) (keeps : (a :: rest).Pairwise fun a b => ¬ret b < call a) {b : α}
    (least : ret first ≤ ret b) : ¬ret b < call a := by
  rcases List.mem_cons.mp inside with rfl | later
  · exact not_lt_of_ge (le_trans timed least)
  · have notBefore := (List.pairwise_cons.mp keeps).1 first later
    exact not_lt_of_ge (le_trans (le_of_not_gt notBefore) least)

section

variable {key : α → κ} {orders : κ → List α} {a : α} {rest front back : List α}

/-- The head of one of the orders is taken away. -/
theorem perm_update (perm : ∀ k, (orders k).Perm ((front ++ a :: back).filter (key · = k)))
    (isOrder : orders (key a) = a :: rest) (k : κ) :
    (Function.update orders (key a) rest k).Perm ((front ++ back).filter (key · = k)) := by
  have whole := perm k
  by_cases isKey : key a = k
  · subst isKey
    rw [Function.update_self]
    rw [isOrder] at whole
    refine (whole.trans ?_).cons_inv
    simp only [List.filter_append, List.filter_cons, decide_true, if_true]
    exact List.perm_middle
  · rw [Function.update_of_ne (Ne.symm isKey)]
    simpa [List.filter_append, List.filter_cons, isKey] using whole

theorem pairwise_update {p : α → α → Prop} (keeps : ∀ k, (orders k).Pairwise p)
    (isOrder : orders (key a) = a :: rest) (k : κ) :
    (Function.update orders (key a) rest k).Pairwise p := by
  by_cases isKey : key a = k
  · subst isKey
    rw [Function.update_self]
    exact (List.pairwise_cons.mp (isOrder ▸ keeps (key a))).2
  · rw [Function.update_of_ne (Ne.symm isKey)]
    exact keeps k

/-- The head of one of the orders is put in front of an order of the others. -/
theorem filter_cons_eq {order : List α} (isOrder : orders (key a) = a :: rest)
    (filters : ∀ k, order.filter (key · = k) = Function.update orders (key a) rest k) (k : κ) :
    (a :: order).filter (key · = k) = orders k := by
  rw [List.filter_cons, filters]
  by_cases isKey : key a = k
  · subst isKey
    simp [isOrder]
  · simp [isKey, Function.update_of_ne (Ne.symm isKey)]

end

/-- Orders of the operations on every object are merged. -/
theorem exists_merge (key : α → κ) {history : List α} (timed : ∀ a ∈ history, call a ≤ ret a)
    {orders : κ → List α} (perm : ∀ k, (orders k).Perm (history.filter (key · = k)))
    (keeps : ∀ k, (orders k).Pairwise fun a b => ¬ret b < call a) :
    ∃ order : List α, order.Perm history ∧ (∀ k, order.filter (key · = k) = orders k) ∧
      order.Pairwise fun a b => ¬ret b < call a := by
  induction isSize : history.length generalizing history orders with
  | zero =>
      cases List.length_eq_zero_iff.mp isSize
      exact ⟨[], .nil, fun k => (List.perm_nil.mp (perm k)).symm, .nil⟩
  | succ size ih =>
      have notEmpty : history ≠ [] := by
        rintro rfl
        cases isSize
      obtain ⟨first, isFirst, least⟩ : ∃ first ∈ history, ∀ b ∈ history, ret first ≤ ret b :=
        exists_least_ret notEmpty
      -- the head of the order of the object that `first` is on
      have inOrder : first ∈ orders (key first) :=
        (perm (key first)).mem_iff.mpr (List.mem_filter.mpr ⟨isFirst, by simp⟩)
      obtain ⟨a, rest, isOrder⟩ := List.exists_cons_of_ne_nil (List.ne_nil_of_mem inOrder)
      have isA : a ∈ history.filter (key · = key first) :=
        (perm (key first)).mem_iff.mp (isOrder ▸ List.mem_cons_self ..)
      obtain ⟨inHistory, sameKey⟩ := List.mem_filter.mp isA
      rw [← of_decide_eq_true sameKey] at isOrder inOrder
      obtain ⟨front, back, rfl⟩ := List.append_of_mem inHistory
      have subset : ∀ b ∈ front ++ back, b ∈ front ++ a :: back := by
        intro b isB
        simp only [List.mem_append, List.mem_cons] at isB ⊢
        tauto
      have size' : (front ++ back).length = size := by
        simp only [List.length_append, List.length_cons] at isSize ⊢
        omega
      obtain ⟨order, permOrder, filters, keepsOrder⟩ := ih
        (fun b isB => timed b (subset b isB)) (perm_update perm isOrder)
        (pairwise_update keeps isOrder) size'
      refine ⟨a :: order, (permOrder.cons a).trans List.perm_middle.symm,
        filter_cons_eq isOrder filters, List.pairwise_cons.mpr ⟨fun b isB => ?_, keepsOrder⟩⟩
      exact not_before_head (isOrder ▸ inOrder) (timed a inHistory) (isOrder ▸ keeps _)
        (least b (subset b (permOrder.mem_iff.mp isB)))

end

section

variable {σ : Type w}

/-- An operation on one of the objects. -/
def stepOne (key : α → κ) (step : σ → α → Option σ) (s : κ → σ) (a : α) : Option (κ → σ) :=
  (step (s (key a)) a).map (Function.update s (key a))

/-- The operations can be carried out if and only if those on every object can. -/
theorem foldlM_stepOne (key : α → κ) (step : σ → α → Option σ) (order : List α) (s : κ → σ) :
    (order.foldlM (stepOne key step) s).isSome ↔
      ∀ k, ((order.filter (key · = k)).foldlM step (s k)).isSome := by
  induction order generalizing s with
  | nil => simp
  | cons a order ih =>
      rw [List.foldlM_cons, stepOne]
      cases isNext : step (s (key a)) a with
      | none =>
          refine iff_of_false (by simp) fun all => ?_
          have here := all (key a)
          rw [List.filter_cons_of_pos (by simp), List.foldlM_cons, isNext] at here
          cases here
      | some t =>
          rw [Option.map_some, Option.bind_eq_bind, Option.bind_some, ih]
          refine forall_congr' fun k => ?_
          by_cases isKey : key a = k
          · subst isKey
            rw [Function.update_self, List.filter_cons_of_pos (by simp), List.foldlM_cons, isNext]
            rfl
          · rw [Function.update_of_ne (Ne.symm isKey), List.filter_cons_of_neg (by simpa using isKey)]

end

end GoLab
