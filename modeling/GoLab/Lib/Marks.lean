import Mathlib.Data.List.Nodup
import Mathlib.Data.List.Sublists

/-!
# Operations that overlap in time

A history marks the moments at which operations are called and at which they return.  An
object that carries out one operation at a time explains the history if the operations can
be put in an order which it accepts, and in which an operation that had returned before
another was called comes before that one.

`Picks` builds such an order from the front: the next operation is one that was called before
any of those that are left has returned.
-/

namespace GoLab

universe u v

/-- An operation is called, or returns. -/
inductive Mark (ι : Type u) where
  | call (id : ι)
  | ret (id : ι)
  deriving DecidableEq, Repr

variable {ι : Type u} {σ : Type v}

namespace Mark

/-- The operation. -/
def id : Mark ι → ι
  | .call id | .ret id => id

def isCall : Mark ι → Bool
  | .call _ => true
  | .ret _ => false

end Mark

namespace Marks

/-- Every operation is called once, and returns once after that. -/
structure Balanced (marks : List (Mark ι)) : Prop where
  once : marks.Nodup
  returns : ∀ x, .call x ∈ marks → [.call x, .ret x].Sublist marks
  called : ∀ x, .ret x ∈ marks → .call x ∈ marks

/-- `x` had returned before `y` was called. -/
def Precedes (marks : List (Mark ι)) (x y : ι) : Prop :=
  [.ret x, .call y].Sublist marks

/-- The operations of `order` are put in an order that keeps to the one in time.  Those that
had returned before one of them was called are among them. -/
structure Ordering (marks : List (Mark ι)) (order : List ι) : Prop where
  once : order.Nodup
  called : ∀ x ∈ order, .call x ∈ marks
  realTime : ∀ x ∈ order, ∀ y, Precedes marks y x → [y, x].Sublist order

/-- `x` was called before an operation has returned. -/
def Ready (marks : List (Mark ι)) (x : ι) : Prop :=
  ∃ front back, marks = front ++ .call x :: back ∧ ∀ mark ∈ front, mark.isCall = true

section

variable {marks front back : List (Mark ι)} {x y : ι} {order : List ι}

theorem sublist_filter {p : ι → Bool} {a b : Mark ι} (isA : p a.id = true) (isB : p b.id = true) :
    [a, b].Sublist (marks.filter (p ·.id)) ↔ [a, b].Sublist marks := by
  constructor
  · exact fun sublist => sublist.trans List.filter_sublist
  · intro sublist
    have filtered := sublist.filter (p ·.id)
    simpa [isA, isB] using filtered

/-- The history of some of the operations. -/
theorem Balanced.filter (balanced : Balanced marks) (p : ι → Bool) :
    Balanced (marks.filter (p ·.id)) where
  once := balanced.once.filter _
  returns := fun y called => by
    obtain ⟨inside, holds⟩ := List.mem_filter.mp called
    exact (sublist_filter (a := .call y) (b := .ret y) holds holds).mpr
      (balanced.returns y inside)
  called := fun y returned => by
    obtain ⟨inside, holds⟩ := List.mem_filter.mp returned
    exact List.mem_filter.mpr ⟨balanced.called y inside, holds⟩

/-- What returned before `x` was called stands before the call of `x`. -/
theorem Balanced.mem_front (balanced : Balanced (front ++ .call x :: back))
    (precedes : Precedes (front ++ .call x :: back) y x) : .ret y ∈ front := by
  have once := balanced.once
  rw [List.nodup_append, List.nodup_cons] at once
  obtain ⟨early, late, whole, inEarly, inLate⟩ := List.sublist_append_iff.mp precedes
  rcases early with _ | ⟨first, _ | ⟨second, early⟩⟩
  · cases whole
    rcases List.sublist_cons_iff.mp inLate with inBack | ⟨rest, isRest, -⟩
    · exact absurd (inBack.subset (by simp)) once.2.1.1
    · cases isRest
  · cases whole
    exact List.singleton_sublist.mp inEarly
  · simp only [List.cons_append, List.cons.injEq] at whole
    obtain ⟨rfl, rfl, -⟩ := whole
    have inFront : .call x ∈ front := inEarly.subset (by simp)
    exact absurd rfl (once.2.2 _ inFront _ (List.mem_cons_self ..))

/-- An operation returns after its call. -/
theorem Balanced.mem_back (balanced : Balanced (front ++ .call x :: back)) : .ret x ∈ back := by
  have once := balanced.once
  rw [List.nodup_append, List.nodup_cons] at once
  have returns := balanced.returns x (by simp)
  obtain ⟨early, late, whole, inEarly, inLate⟩ := List.sublist_append_iff.mp returns
  cases early with
  | nil =>
      cases whole
      rcases List.sublist_cons_iff.mp inLate with inBack | ⟨rest, isRest, inBack⟩
      · exact inBack.subset (by simp)
      · cases isRest
        exact inBack.subset (by simp)
  | cons first early =>
      obtain ⟨rfl, -⟩ := List.cons.inj whole
      have inFront : .call x ∈ front := inEarly.subset (by simp)
      exact absurd rfl (once.2.2 _ inFront _ (List.mem_cons_self ..))

theorem Precedes.of_mem_front (returned : .ret y ∈ front) :
    Precedes (front ++ .call x :: back) y x :=
  (List.singleton_sublist.mpr returned).append
    (List.singleton_sublist.mpr (List.mem_cons_self ..))

theorem Ready.called (ready : Ready marks x) : .call x ∈ marks := by
  obtain ⟨front, back, rfl, -⟩ := ready
  simp

/-- Nothing had returned before an operation that is ready was called. -/
theorem Ready.not_precedes (balanced : Balanced marks) (ready : Ready marks x) :
    ¬Precedes marks y x := by
  obtain ⟨front, back, rfl, calls⟩ := ready
  intro precedes
  cases calls _ (balanced.mem_front precedes)

theorem Ready.of_not_precedes (called : .call x ∈ marks)
    (first : ∀ y, ¬Precedes marks y x) : Ready marks x := by
  obtain ⟨front, back, rfl⟩ := List.append_of_mem called
  refine ⟨front, back, rfl, fun mark inside => ?_⟩
  cases mark with
  | call => rfl
  | ret y => exact absurd (Precedes.of_mem_front inside) (first y)

theorem Ordering.nil : Ordering marks [] where
  once := List.nodup_nil
  called := by simp
  realTime := by simp

theorem Ordering.head_ready (ordering : Ordering marks (x :: order)) : Ready marks x := by
  refine .of_not_precedes (ordering.called x (List.mem_cons_self ..)) fun y precedes => ?_
  have notLater := (List.nodup_cons.mp ordering.once).1
  rcases List.sublist_cons_iff.mp (ordering.realTime x (List.mem_cons_self ..) y precedes)
    with inside | ⟨rest, isRest, inside⟩
  · exact notLater (inside.subset (by simp))
  · cases isRest
    exact notLater (inside.subset (by simp))

end

section

variable {α : Type u} {l : List α} {a b : α}

theorem sublist_or_sublist (isA : a ∈ l) (isB : b ∈ l) (differ : a ≠ b) :
    [a, b].Sublist l ∨ [b, a].Sublist l := by
  obtain ⟨front, back, rfl⟩ := List.append_of_mem isA
  rcases List.mem_append.mp isB with before | after
  · exact .inr ((List.singleton_sublist.mpr before).append
      (List.singleton_sublist.mpr (List.mem_cons_self ..)))
  · rcases List.mem_cons.mp after with rfl | later
    · exact absurd rfl differ
    · exact .inl (((List.singleton_sublist.mpr later).cons_cons a).trans
        (List.sublist_append_right ..))

theorem not_sublist_swap (once : l.Nodup) (first : [a, b].Sublist l) : ¬[b, a].Sublist l := by
  intro second
  induction l with
  | nil => cases first
  | cons c l ih =>
      obtain ⟨notLater, once'⟩ := List.nodup_cons.mp once
      rcases List.sublist_cons_iff.mp first with inside | ⟨rest, isRest, inside⟩
      · rcases List.sublist_cons_iff.mp second with inside' | ⟨rest, isRest, -⟩
        · exact ih once' inside inside'
        · cases isRest
          exact notLater (inside.subset (by simp))
      · cases isRest
        rcases List.sublist_cons_iff.mp second with inside' | ⟨rest, isRest, inside'⟩
        · exact notLater (inside'.subset (by simp))
        · cases isRest
          exact notLater (List.singleton_sublist.mp inside)

end

/-- An order of all operations keeps to the one in time if none of them stands before one that
precedes it. -/
theorem ordering_iff {marks : List (Mark ι)} {order : List ι} (balanced : Balanced marks)
    (once : order.Nodup) (all : ∀ x, .call x ∈ marks ↔ x ∈ order) :
    Ordering marks order ↔ order.Pairwise fun x y => ¬Precedes marks y x := by
  rw [List.pairwise_iff_forall_sublist]
  constructor
  · intro ordering x y sublist precedes
    have isX : x ∈ order := sublist.subset (by simp)
    exact not_sublist_swap once sublist (ordering.realTime x isX y precedes)
  · intro keeps
    refine ⟨once, fun x => (all x).mpr, fun x isX y precedes => ?_⟩
    have isY : y ∈ order := (all y).mp (balanced.called y (precedes.subset (by simp)))
    have differ : y ≠ x := by
      rintro rfl
      exact not_sublist_swap balanced.once (balanced.returns y ((all y).mpr isY)) precedes
    refine (sublist_or_sublist isY isX differ).resolve_right fun swapped => ?_
    exact keeps swapped precedes

variable [DecidableEq ι]

/-- The history without an operation. -/
def without (marks : List (Mark ι)) (x : ι) : List (Mark ι) :=
  marks.filter (·.id ≠ x)

/-- Operations that are ready are picked one after the other, each accepted by the object. -/
inductive Picks (step : σ → ι → Option σ) :
    List (Mark ι) → σ → List ι → List (Mark ι) → σ → Prop where
  | nil {marks : List (Mark ι)} {s : σ} : Picks step marks s [] marks s
  | cons {marks rest : List (Mark ι)} {s s' t : σ} {x : ι} {order : List ι}
      (ready : Ready marks x) (accepted : step s x = some s')
      (onward : Picks step (without marks x) s' order rest t) :
      Picks step marks s (x :: order) rest t

section

variable {marks : List (Mark ι)} {x y : ι} {order : List ι}

theorem mem_without {mark : Mark ι} : mark ∈ without marks x ↔ mark ∈ marks ∧ mark.id ≠ x := by
  simp [without]

theorem Balanced.without (balanced : Balanced marks) (x : ι) : Balanced (without marks x) :=
  balanced.filter (· ≠ x)

theorem precedes_without (notX : x ≠ y) {z : ι} (notZ : z ≠ y) :
    Precedes (without marks y) x z ↔ Precedes marks x z :=
  sublist_filter (p := (· ≠ y)) (decide_eq_true notX) (decide_eq_true notZ)

namespace Ordering

/-- An operation that is ready before an order of the others. -/
theorem cons (balanced : Balanced marks) (ready : Ready marks x)
    (others : Ordering (Marks.without marks x) order) : Ordering marks (x :: order) where
  once := by
    refine List.nodup_cons.mpr ⟨fun inside => ?_, others.once⟩
    exact (mem_without.mp (others.called x inside)).2 rfl
  called := fun y inside => by
    rcases List.mem_cons.mp inside with rfl | later
    · exact ready.called
    · exact (mem_without.mp (others.called y later)).1
  realTime := fun z inside y precedes => by
    rcases List.mem_cons.mp inside with rfl | later
    · exact absurd precedes (ready.not_precedes balanced)
    · have notZ : z ≠ x := (mem_without.mp (others.called z later)).2
      by_cases isX : y = x
      · subst isX
        exact (List.singleton_sublist.mpr later).cons_cons y
      · exact (others.realTime z later y ((precedes_without isX notZ).mpr precedes)).cons x

theorem tail (ordering : Ordering marks (x :: order)) :
    Ordering (Marks.without marks x) order where
  once := (List.nodup_cons.mp ordering.once).2
  called := fun y inside => by
    refine mem_without.mpr ⟨ordering.called y (List.mem_cons_of_mem _ inside), ?_⟩
    rintro rfl
    exact (List.nodup_cons.mp ordering.once).1 inside
  realTime := fun z inside y precedes => by
    have inMarks : Precedes marks y z := precedes.trans List.filter_sublist
    have returned : .ret y ∈ Marks.without marks x := precedes.subset (by simp)
    have notY : y ≠ x := (mem_without.mp returned).2
    rcases List.sublist_cons_iff.mp
      (ordering.realTime z (List.mem_cons_of_mem _ inside) y inMarks) with later | ⟨rest, isRest, -⟩
    · exact later
    · cases isRest
      exact absurd rfl notY

end Ordering

variable {step : σ → ι → Option σ} {rest : List (Mark ι)} {s t : σ}

theorem without_filter (order : List ι) :
    (without marks x).filter (·.id ∉ order) = marks.filter (·.id ∉ x :: order) := by
  simp only [without, List.filter_filter]
  congr 1
  funext mark
  simp [Bool.and_comm]

/-- Nothing is left when all that is called has been picked. -/
theorem Balanced.filter_eq_nil (balanced : Balanced marks) :
    marks.filter (·.id ∉ order) = [] ↔ ∀ x, .call x ∈ marks → x ∈ order := by
  simp only [List.filter_eq_nil_iff, decide_eq_true_eq, not_not]
  constructor
  · exact fun all x called => all _ called
  · intro all mark inside
    cases mark with
    | call x => exact all x inside
    | ret x => exact all x (balanced.called x inside)

namespace Picks

/-- What is picked is an order that the object accepts. -/
theorem ordering (balanced : Balanced marks) (picks : Picks step marks s order rest t) :
    Ordering marks order ∧ order.foldlM step s = some t ∧
      rest = marks.filter (·.id ∉ order) := by
  induction picks with
  | nil => exact ⟨.nil, rfl, by simp⟩
  | cons ready accepted onward ih =>
      obtain ⟨others, legal, left⟩ := ih (balanced.without _)
      refine ⟨.cons balanced ready others, ?_, ?_⟩
      · rw [List.foldlM_cons, accepted]
        exact legal
      · rw [left, without_filter]

/-- An order that the object accepts can be picked from the front. -/
theorem of_ordering (ordering : Ordering marks order) (legal : order.foldlM step s = some t) :
    Picks step marks s order (marks.filter (·.id ∉ order)) t := by
  induction order generalizing marks s with
  | nil =>
      cases legal
      simpa using Picks.nil
  | cons x order ih =>
      rw [List.foldlM_cons] at legal
      obtain ⟨s', accepted, legal⟩ := Option.bind_eq_some_iff.mp legal
      refine .cons ordering.head_ready accepted ?_
      rw [← without_filter]
      exact ih ordering.tail legal

/-- What can be picked in one state can be picked in another that accepts as much. -/
theorem simulate {r : σ → σ → Prop}
    (simulates : ∀ s t x s', r s t → step s x = some s' → ∃ t', step t x = some t' ∧ r s' t')
    (picks : Picks step marks s order rest t) {s' : σ} (related : r s s') :
    ∃ t', Picks step marks s' order rest t' := by
  induction picks generalizing s' with
  | nil => exact ⟨s', .nil⟩
  | cons ready accepted _ ih =>
      obtain ⟨next, accepted', related'⟩ := simulates _ _ _ _ related accepted
      obtain ⟨t', picks⟩ := ih related'
      exact ⟨t', .cons ready accepted' picks⟩

theorem append {order' : List ι} {rest' : List (Mark ι)} {t' : σ}
    (first : Picks step marks s order rest t) (later : Picks step rest t order' rest' t') :
    Picks step marks s (order ++ order') rest' t' := by
  induction first with
  | nil => exact later
  | cons ready accepted _ ih => exact .cons ready accepted (ih later)

end Picks

end

end Marks

end GoLab
