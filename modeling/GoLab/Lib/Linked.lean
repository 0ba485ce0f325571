import Mathlib.Data.List.Chain
import Mathlib.Logic.Function.Basic

/-!
# Doubly linked lists

The cells of a doubly linked list are named by pointers; what they hold is not looked at.
A cell that is taken out keeps its own two pointers, and with them it can be put back in the
place it came from as long as everything that was changed in between has been undone.
-/

namespace GoLab

universe u

/-- The two pointers of every cell. -/
@[ext]
structure Links (π : Type u) where
  next : π → Option π
  prev : π → Option π

namespace Links

variable {π : Type u}

/-- `q` comes right after `p`. -/
def Joined (links : Links π) (p q : π) : Prop :=
  links.next p = some q ∧ links.prev q = some p

/-- The cells follow one another, and nothing comes after the last. -/
structure Strung (links : Links π) (cells : List π) : Prop where
  joined : cells.IsChain links.Joined
  ends : ∀ p ∈ cells.getLast?, links.next p = none

section

variable {links : Links π} {before p : π} {front back : List π}

/-- What follows the cell `p`. -/
theorem Strung.next_eq (strung : links.Strung (front ++ p :: back)) :
    links.next p = back.head? := by
  cases back with
  | nil => exact strung.ends p (by simp)
  | cons q back =>
      have joined := (List.isChain_append.mp strung.joined).2.1
      exact (List.isChain_cons_cons.mp joined).1.1

theorem Strung.tail (strung : links.Strung (p :: back)) : links.Strung back where
  joined := strung.joined.tail
  ends := fun q isLast => strung.ends q (List.mem_getLast?_cons isLast)

/-- What comes before the cell `p`. -/
theorem Strung.prev_eq (strung : links.Strung (front ++ before :: p :: back)) :
    links.prev p = some before := by
  have joined := (List.isChain_append.mp strung.joined).2.1
  exact (List.isChain_cons_cons.mp joined).1.2

/-- Cells of which neither a `next` nor, past the first, a `prev` is written stay joined. -/
theorem joined_frame {links' : Links π} {cells : List π} (joined : cells.IsChain links.Joined)
    (next : ∀ p ∈ cells.dropLast, links'.next p = links.next p)
    (prev : ∀ p ∈ cells.tail, links'.prev p = links.prev p) :
    cells.IsChain links'.Joined := by
  induction cells with
  | nil => exact .nil
  | cons first rest ih =>
      cases rest with
      | nil => exact .singleton _
      | cons second rest =>
          rw [List.isChain_cons_cons] at joined ⊢
          refine ⟨⟨?_, ?_⟩, ih joined.2 ?_ ?_⟩
          · exact (next first (by simp)).trans joined.1.1
          · exact (prev second (by simp)).trans joined.1.2
          · intro p inside
            exact next p (by simp [inside])
          · intro p inside
            exact prev p (List.mem_cons_of_mem _ inside)

end

variable [DecidableEq π]

/-- `p.next = q` -/
def setNext (links : Links π) (p : π) (q : Option π) : Links π :=
  { links with next := Function.update links.next p q }

/-- `p.prev = q` -/
def setPrev (links : Links π) (p : π) (q : Option π) : Links π :=
  { links with prev := Function.update links.prev p q }

/-- The neighbours of `p` are made to point past it.  `none` is a write through a null
pointer. -/
def unlink (links : Links π) (p : π) : Option (Links π) := do
  let before ← links.prev p
  let links := links.setNext before (links.next p)
  match links.next p with
  | none => return links
  | some after => return links.setPrev after (links.prev p)

/-- The cells that `p` points to are made to point back to it. -/
def relink (links : Links π) (p : π) : Option (Links π) := do
  let before ← links.prev p
  let links := links.setNext before (some p)
  match links.next p with
  | none => return links
  | some after => return links.setPrev after (some p)

section

variable {links : Links π} {before p q after : π} {front back : List π}

@[simp]
theorem setNext_next_self {q : Option π} : (links.setNext p q).next p = q :=
  Function.update_self ..

@[simp]
theorem setNext_next_of_ne {q : Option π} (other : after ≠ p) :
    (links.setNext p q).next after = links.next after :=
  Function.update_of_ne other ..

@[simp]
theorem setNext_prev {q : Option π} : (links.setNext p q).prev = links.prev :=
  rfl

@[simp]
theorem setPrev_prev_self {q : Option π} : (links.setPrev p q).prev p = q :=
  Function.update_self ..

@[simp]
theorem setPrev_prev_of_ne {q : Option π} (other : after ≠ p) :
    (links.setPrev p q).prev after = links.prev after :=
  Function.update_of_ne other ..

@[simp]
theorem setPrev_next {q : Option π} : (links.setPrev p q).next = links.next :=
  rfl

/-- A cell can be put back where it was taken out. -/
theorem unlink_relink (isPrev : links.prev p = some before) (ofBefore : links.next before = some p)
    (ofAfter : ∀ after ∈ links.next p, links.prev after = some p ∧ after ≠ p)
    (distinct : p ≠ before) :
    ∃ links', links.unlink p = some links' ∧ links'.relink p = some links ∧
      links'.next p = links.next p ∧ links'.prev p = links.prev p := by
  cases isNext : links.next p with
  | none =>
      refine ⟨links.setNext before none, ?_, ?_, ?_, rfl⟩
      · simp [Links.unlink, isPrev, isNext, distinct]
      · have same : (links.setNext before none).setNext before (some p) = links := by
          ext1
          · simp [setNext, ← ofBefore]
          · rfl
        simp [Links.relink, isPrev, same, isNext]
      · exact (setNext_next_of_ne distinct).trans isNext
  | some after =>
      obtain ⟨backward, apart⟩ := ofAfter after isNext
      refine ⟨(links.setNext before (some after)).setPrev after (some before), ?_, ?_, ?_, ?_⟩
      · simp [Links.unlink, isPrev, isNext, distinct]
      · have same : (((links.setNext before (some after)).setPrev after (some before)).setNext before
            (some p)).setPrev after (some p) = links := by
          ext1
          · simp [setNext, setPrev, ← ofBefore]
          · simp [setNext, setPrev, ← backward]
        have keeps : ((links.setNext before (some after)).setPrev after (some before)).prev p =
            some before := (setPrev_prev_of_ne (Ne.symm apart)).trans isPrev
        simp only [Links.relink, keeps, Option.bind_eq_bind, Option.bind_some]
        rw [setNext_next_of_ne distinct, setPrev_next, setNext_next_of_ne distinct, isNext]
        exact congrArg some same
      · exact (setNext_next_of_ne distinct).trans isNext
      · exact setPrev_prev_of_ne (Ne.symm apart)

/-- The list without its last cell. -/
theorem Strung.setNext_none (strung : links.Strung (front ++ [before, p]))
    (once : (front ++ [before]).Nodup) : (links.setNext before none).Strung (front ++ [before]) := by
  have chain := List.isChain_append.mp strung.joined
  have kept : (front ++ [before]).IsChain links.Joined := by
    rw [List.isChain_append]
    exact ⟨chain.1, .singleton _, by simpa using chain.2.2⟩
  refine ⟨joined_frame kept (fun first inside => ?_) fun _ _ => rfl, by simp⟩
  rw [List.dropLast_concat] at inside
  refine setNext_next_of_ne ?_
  rintro rfl
  exact (List.nodup_append.mp once).2.2 first inside first (List.mem_singleton_self _) rfl

/-- The list without a cell that has one before and one after it. -/
theorem Strung.setNext_setPrev (strung : links.Strung (front ++ before :: p :: after :: back))
    (once : (front ++ before :: after :: back).Nodup) :
    ((links.setNext before (some after)).setPrev after (some before)).Strung
      (front ++ before :: after :: back) := by
  simp only [List.nodup_append, List.nodup_cons, List.mem_cons, not_or] at once
  obtain ⟨-, ⟨⟨distinct, notBack⟩, notInBack, -⟩, apart⟩ := once
  have chain := List.isChain_append.mp strung.joined
  have rest := (List.isChain_cons_cons.mp (List.isChain_cons_cons.mp chain.2.1).2).2
  have notBefore : ∀ q ∈ after :: back, q ≠ before := by
    rintro q inside rfl
    exact (List.mem_cons.mp inside).elim distinct notBack
  refine ⟨?_, fun last isLast => ?_⟩
  · rw [List.isChain_append, List.isChain_cons_cons]
    refine ⟨?_, ⟨⟨by simp, by simp⟩, ?_⟩, ?_⟩
    · refine joined_frame chain.1 (fun first inside => ?_) fun first inside => ?_
      · exact setNext_next_of_ne (apart first (List.dropLast_subset _ inside) before (.inl rfl))
      · exact setPrev_prev_of_ne
          (apart first (List.mem_of_mem_tail inside) after (.inr (.inl rfl)))
    · refine joined_frame rest (fun first inside => ?_) fun first inside => ?_
      · exact setNext_next_of_ne (notBefore first (List.dropLast_subset _ inside))
      · refine setPrev_prev_of_ne ?_
        rintro rfl
        exact notInBack inside
    · intro last isLast first isFirst
      cases Option.some.inj isFirst
      have joined := chain.2.2 last isLast before rfl
      have notLast := apart last (List.mem_of_mem_getLast? isLast) before (.inl rfl)
      exact ⟨(setNext_next_of_ne notLast).trans joined.1,
        (setPrev_prev_of_ne distinct).trans joined.2⟩
  · have inside : last ∈ after :: back := List.mem_of_mem_getLast? (by simpa using isLast)
    exact (setNext_next_of_ne (notBefore last inside)).trans
      (strung.ends last (by simpa using isLast))

/-- A cell that is not the first of its list can be taken out and put back. -/
theorem Strung.unlink (strung : links.Strung (front ++ before :: p :: back))
    (once : (front ++ before :: p :: back).Nodup) :
    ∃ links', links.unlink p = some links' ∧ links'.Strung (front ++ before :: back) ∧
      links'.relink p = some links ∧ links'.next p = links.next p ∧
      links'.prev p = links.prev p := by
  have isPrev : links.prev p = some before := strung.prev_eq
  have behind : links.Strung ((front ++ [before]) ++ p :: back) := by simpa using strung
  have isNext : links.next p = back.head? := behind.next_eq
  have distinct : p ≠ before := by
    rintro rfl
    simp [List.nodup_append] at once
  have shorter : (front ++ before :: back).Nodup :=
    once.sublist (((List.sublist_cons_self p back).cons_cons before).append_left front)
  have ofAfter : ∀ after ∈ links.next p, links.prev after = some p ∧ after ≠ p := by
    intro after isAfter
    obtain ⟨back', rfl⟩ := List.head?_eq_some_iff.mp (isNext.symm.trans isAfter)
    refine ⟨behind.prev_eq, ?_⟩
    rintro rfl
    simp [List.nodup_append] at once
  obtain ⟨links', taken, restored, next, prev⟩ :=
    unlink_relink isPrev strung.next_eq ofAfter distinct
  refine ⟨links', taken, ?_, restored, next, prev⟩
  cases back with
  | nil =>
      have isLinks : links.unlink p = some (links.setNext before none) := by
        simp [Links.unlink, isPrev, isNext, distinct]
      cases taken.symm.trans isLinks
      exact strung.setNext_none shorter
  | cons after back =>
      have isLinks : links.unlink p =
          some ((links.setNext before (some after)).setPrev after (some before)) := by
        simp [Links.unlink, isPrev, isNext, distinct]
      cases taken.symm.trans isLinks
      exact strung.setNext_setPrev shorter

/-- The same with the first cell set apart. -/
theorem Strung.unlink_cons {first : π} (strung : links.Strung (first :: (front ++ p :: back)))
    (once : (first :: (front ++ p :: back)).Nodup) :
    ∃ links', links.unlink p = some links' ∧ links'.Strung (first :: (front ++ back)) ∧
      links'.relink p = some links ∧ links'.next p = links.next p ∧
      links'.prev p = links.prev p := by
  rcases List.eq_nil_or_concat front with rfl | ⟨front, before, rfl⟩
  · have strung' : links.Strung ([] ++ first :: p :: back) := strung
    exact strung'.unlink once
  · simp only [List.concat_eq_append, List.append_assoc, List.singleton_append,
      ← List.cons_append] at strung once ⊢
    exact strung.unlink once

end

end Links

end GoLab
