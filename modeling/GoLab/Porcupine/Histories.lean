import GoLab.Porcupine.Verdict

/-!
# Histories of operations

`makeEntries` numbers the operations and sorts their calls and returns by time, calls before
returns at the same time.  An operation returned before another was called if and only if its
return has the smaller time, so that the entries are linearizable if and only if the
operations can be carried out in an order that keeps to their times.
-/

namespace GoLab.Porcupine

open Marks

variable {V S : Type}

/-- What `sort.Sort` does. -/
structure Sorts (sort : List (Entry V) → List (Entry V)) : Prop where
  perm : ∀ entries, (sort entries).Perm entries
  sorted : ∀ entries, (sort entries).Pairwise fun a b => b.less a = false

/-- Insertion sort is one way to sort by time. -/
theorem sorts_insertionSort : Sorts fun entries : List (Entry V) =>
    entries.insertionSort fun a b => b.less a = false where
  perm := fun entries => List.perm_insertionSort _ entries
  sorted := fun entries => by
    have total : Std.Total fun a b : Entry V => b.less a = false := by
      constructor
      intro a b
      unfold Entry.less
      grind
    have trans : IsTrans (Entry V) fun a b => b.less a = false := by
      constructor
      intro a b c
      unfold Entry.less
      cases kind : b.kind <;> grind
    exact List.pairwise_insertionSort _ entries

/-- No operation returns before it is called. -/
def Timed (history : List (Operation V)) : Prop :=
  ∀ op ∈ history, op.call ≤ op.ret

namespace Operation

def callAt (op : Operation V) (i : Nat) : Entry V :=
  ⟨.callEntry, op.input, i, op.call, op.clientId⟩

def returnAt (op : Operation V) (i : Nat) : Entry V :=
  ⟨.returnEntry, op.output, i, op.ret, op.clientId⟩

/-- The model carries out an operation. -/
def accept (model : FullModel V S) (s : S) (op : Operation V) : Option S := do
  let (ok, s') ← model.step s op.input op.output
  if ok then some s' else none

end Operation

/-- The operations in an order in which the model accepts them, and in which none stands before
one that had returned before it was called. -/
structure Linearization (model : FullModel V S) (history order : List (Operation V)) : Prop where
  perm : order.Perm history
  realTime : order.Pairwise fun a b => ¬b.ret < a.call
  legal : (order.foldlM (Operation.accept model) model.init).isSome

section

variable {history : List (Operation V)} {sort : List (Entry V) → List (Entry V)}

theorem mem_operationEntries {e : Entry V} : e ∈ operationEntries history ↔
    ∃ (i : Nat) (op : Operation V), history[i]? = some op ∧ (e = op.callAt i ∨ e = op.returnAt i) := by
  simp only [operationEntries, List.mem_flatMap, Prod.exists, List.mem_zipIdx_iff_getElem?,
    List.mem_cons, List.not_mem_nil, or_false]
  exact ⟨fun ⟨op, i, inside, isEntry⟩ => ⟨i, op, inside, isEntry⟩,
    fun ⟨i, op, inside, isEntry⟩ => ⟨op, i, inside, isEntry⟩⟩

theorem marks_operationEntries : (operationEntries history).map Entry.mark =
    (List.range history.length).flatMap fun i => [.call (i : Int), .ret (i : Int)] := by
  have indices : history.zipIdx.map Prod.snd = List.range history.length := by
    rw [List.zipIdx_map_snd, List.range_eq_range']
  rw [operationEntries, List.map_flatMap, ← indices, List.flatMap_map]
  rfl

theorem length_operationEntries : (operationEntries history).length = 2 * history.length := by
  rw [← List.length_map Entry.mark, marks_operationEntries]
  simp [List.length_flatMap, Nat.mul_comm]

theorem nodup_operationEntries : ((operationEntries history).map Entry.mark).Nodup := by
  rw [marks_operationEntries, List.nodup_flatMap]
  refine ⟨by simp, List.nodup_range.imp fun differ => ?_⟩
  intro mark first second
  simp only [List.mem_cons, List.not_mem_nil, or_false] at first second
  rcases first with rfl | rfl <;> simp at second <;> omega

section

variable (sorts : Sorts sort)
include sorts

/-- Of two entries the smaller one comes first. -/
theorem Sorts.sublist {entries : List (Entry V)} {a b : Entry V} (isA : a ∈ entries)
    (isB : b ∈ entries) (less : a.less b = true) :
    [a, b].Sublist (sort entries) := by
  have differ : a ≠ b := by
    rintro rfl
    cases kind : a.kind <;> simp [Entry.less, kind] at less
  have perm := sorts.perm entries
  refine (sublist_or_sublist (perm.mem_iff.mpr isA) (perm.mem_iff.mpr isB) differ).resolve_right
    fun swapped => ?_
  have sorted := List.pairwise_iff_forall_sublist.mp (sorts.sorted entries) swapped
  rw [less] at sorted
  cases sorted

theorem mem_makeEntries {e : Entry V} : e ∈ makeEntries sort history ↔
    ∃ (i : Nat) (op : Operation V), history[i]? = some op ∧
      (e = op.callAt i ∨ e = op.returnAt i) := by
  rw [makeEntries, (sorts.perm _).mem_iff, mem_operationEntries]

/-- The operations that are called. -/
theorem call_mem_makeEntries {x : Int} :
    .call x ∈ (makeEntries sort history).map Entry.mark ↔
      ∃ (i : Nat) (op : Operation V), history[i]? = some op ∧ x = i := by
  simp only [List.mem_map, mem_makeEntries sorts]
  constructor
  · rintro ⟨e, ⟨i, op, isOp, rfl | rfl⟩, isMark⟩
    · cases isMark
      exact ⟨i, op, isOp, rfl⟩
    · cases isMark
  · rintro ⟨i, op, isOp, rfl⟩
    exact ⟨op.callAt i, ⟨i, op, isOp, .inl rfl⟩, rfl⟩

theorem makeEntries_wellFormed (timed : Timed history) :
    WellFormed (makeEntries sort history) where
  balanced :=
    { once := ((sorts.perm _).map Entry.mark).nodup_iff.mpr nodup_operationEntries
      returns := fun x called => by
        obtain ⟨i, op, isOp, rfl⟩ := (call_mem_makeEntries sorts).mp called
        have less : (op.callAt i).less (op.returnAt i) = true := by
          have inTime := timed op (List.mem_of_getElem? isOp)
          simp only [Entry.less, Operation.callAt, Operation.returnAt]
          split
          · exact decide_eq_true (by omega)
          · rfl
        exact (sorts.sublist (mem_operationEntries.mpr ⟨i, op, isOp, .inl rfl⟩)
          (mem_operationEntries.mpr ⟨i, op, isOp, .inr rfl⟩) less).map Entry.mark
      called := fun x returned => by
        obtain ⟨e, inside, isMark⟩ := List.mem_map.mp returned
        obtain ⟨i, op, isOp, rfl | rfl⟩ := (mem_makeEntries sorts).mp inside <;> cases isMark
        exact (call_mem_makeEntries sorts).mpr ⟨i, op, isOp, rfl⟩ }
  numbered := fun x => by
    have count : (makeEntries sort history).length / 2 = history.length := by
      rw [makeEntries, (sorts.perm _).length_eq, length_operationEntries]
      omega
    rw [call_mem_makeEntries sorts, count]
    constructor
    · rintro ⟨i, op, isOp, rfl⟩
      have below := (List.getElem?_eq_some_iff.mp isOp).1
      omega
    · rintro ⟨isIndex, below⟩
      have inside : x.toNat < history.length := by omega
      exact ⟨x.toNat, history[x.toNat], List.getElem?_eq_getElem inside, by omega⟩

theorem eq_callAt {e : Entry V} {i : Nat} {op : Operation V} (inside : e ∈ makeEntries sort history)
    (isMark : e.mark = .call (i : Int)) (isOp : history[i]? = some op) : e = op.callAt i := by
  obtain ⟨i', op', isOp', rfl | rfl⟩ := (mem_makeEntries sorts).mp inside
  · have same : i' = i := by simpa [Entry.mark, Operation.callAt] using isMark
    subst same
    cases isOp.symm.trans isOp'
    rfl
  · cases isMark

theorem eq_returnAt {e : Entry V} {i : Nat} {op : Operation V}
    (inside : e ∈ makeEntries sort history) (isMark : e.mark = .ret (i : Int))
    (isOp : history[i]? = some op) : e = op.returnAt i := by
  obtain ⟨i', op', isOp', rfl | rfl⟩ := (mem_makeEntries sorts).mp inside
  · cases isMark
  · have same : i' = i := by simpa [Entry.mark, Operation.returnAt] using isMark
    subst same
    cases isOp.symm.trans isOp'
    rfl

/-- An operation precedes another if its return has the smaller time. -/
theorem makeEntries_precedes {i j : Nat} {a b : Operation V} (isA : history[i]? = some a)
    (isB : history[j]? = some b) :
    Marks.Precedes ((makeEntries sort history).map Entry.mark) (i : Int) (j : Int) ↔
      a.ret < b.call := by
  constructor
  · intro precedes
    obtain ⟨pair, sublist, isPair⟩ := List.sublist_map_iff.mp precedes
    obtain ⟨first, rest, rfl, isFirst, isRest⟩ := List.map_eq_cons_iff.mp isPair.symm
    obtain ⟨second, others, rfl, isSecond, isOthers⟩ := List.map_eq_cons_iff.mp isRest
    cases List.map_eq_nil_iff.mp isOthers
    have sorted := List.pairwise_iff_forall_sublist.mp (sorts.sorted _) sublist
    have ofFirst : first = a.returnAt i :=
      eq_returnAt sorts (sublist.subset (List.mem_cons_self ..)) isFirst isA
    have ofSecond : second = b.callAt j :=
      eq_callAt sorts (sublist.subset (List.mem_cons_of_mem _ (List.mem_cons_self ..))) isSecond isB
    subst ofFirst ofSecond
    simp only [Entry.less, Operation.callAt, Operation.returnAt] at sorted
    split at sorted
    · have notLess := of_decide_eq_false sorted
      omega
    · cases sorted
  · intro before
    have less : (a.returnAt i).less (b.callAt j) = true := by
      have differ : (a.returnAt i).time ≠ (b.callAt j).time := before.ne
      rw [Entry.less, if_pos differ]
      exact decide_eq_true before
    exact (sorts.sublist (mem_operationEntries.mpr ⟨i, a, isA, .inr rfl⟩)
      (mem_operationEntries.mpr ⟨j, b, isB, .inl rfl⟩) less).map Entry.mark

theorem opValues_makeEntries (timed : Timed history) {i : Nat} {op : Operation V}
    (isOp : history[i]? = some op) :
    opValues (makeEntries sort history) i = some (op.input, op.output) :=
  (makeEntries_wellFormed sorts timed).opValues_eq
    ((mem_makeEntries sorts).mpr ⟨i, op, isOp, .inl rfl⟩) rfl
    ((mem_makeEntries sorts).mpr ⟨i, op, isOp, .inr rfl⟩) rfl

end

theorem accept_makeEntries (model : FullModel V S) (sorts : Sorts sort) (timed : Timed history)
    {i : Nat} {op : Operation V} (isOp : history[i]? = some op) (s : S) :
    accept model (makeEntries sort history) s i = op.accept model s := by
  simp [accept, opValues_makeEntries sorts timed isOp, Operation.accept]

/-! ## Orders of numbers and orders of operations -/

/-- A permutation of values is made by a permutation of what they are the values of. -/
theorem exists_perm_map {α β : Type} {f : α → β} {l l' : List β} (perm : l.Perm l') :
    ∀ m : List α, m.map f = l → ∃ m', m.Perm m' ∧ m'.map f = l' := by
  induction perm with
  | nil =>
      intro m isMap
      exact ⟨m, .refl _, isMap⟩
  | cons b _ ih =>
      intro m isMap
      obtain ⟨a, rest, rfl, rfl, isRest⟩ := List.map_eq_cons_iff.mp isMap
      obtain ⟨rest', perm, isRest'⟩ := ih rest isRest
      exact ⟨a :: rest', perm.cons a, by rw [List.map_cons, isRest']⟩
  | swap b c _ =>
      intro m isMap
      obtain ⟨a, rest, rfl, rfl, isRest⟩ := List.map_eq_cons_iff.mp isMap
      obtain ⟨a', rest', rfl, rfl, isRest'⟩ := List.map_eq_cons_iff.mp isRest
      exact ⟨a' :: a :: rest', .swap .., by rw [List.map_cons, List.map_cons, isRest']⟩
  | trans _ _ first second =>
      intro m isMap
      obtain ⟨m', perm, isMap'⟩ := first m isMap
      obtain ⟨m'', perm', isMap''⟩ := second m' isMap'
      exact ⟨m'', perm.trans perm', isMap''⟩

theorem map_range_getElem? (history : List (Operation V)) :
    (List.range history.length).map (history[·]?) = history.map some := by
  refine List.ext_getElem (by simp) fun i first second => ?_
  simp

/-- The numbers in an order, and the operations in the same order. -/
def SameOrder (history : List (Operation V)) (ids : List Nat) (order : List (Operation V)) :
    Prop :=
  List.Forall₂ (fun i op => history[i]? = some op) ids order

theorem sameOrder_iff {ids : List Nat} {order : List (Operation V)} :
    SameOrder history ids order ↔ ids.map (history[·]?) = order.map some := by
  rw [SameOrder, ← List.forall₂_eq_eq_eq, List.forall₂_map_left_iff, List.forall₂_map_right_iff]

namespace SameOrder

variable {ids : List Nat} {order : List (Operation V)}

/-- The model accepts the one order as it accepts the other. -/
theorem foldlM_eq (same : SameOrder history ids order) (model : FullModel V S)
    (sorts : Sorts sort) (timed : Timed history) (s : S) :
    (ids.map ((↑) : Nat → Int)).foldlM (accept model (makeEntries sort history)) s =
      order.foldlM (Operation.accept model) s := by
  induction same generalizing s with
  | nil => rfl
  | cons isOp _ ih =>
      rw [List.map_cons, List.foldlM_cons, List.foldlM_cons,
        accept_makeEntries model sorts timed isOp]
      congr 1
      funext s'
      exact ih s'

theorem pairwise_iff (same : SameOrder history ids order) (sorts : Sorts sort) :
    (ids.map ((↑) : Nat → Int)).Pairwise
        (fun x y => ¬Marks.Precedes ((makeEntries sort history).map Entry.mark) y x) ↔
      order.Pairwise fun a b => ¬b.ret < a.call := by
  rw [List.pairwise_map]
  induction same with
  | nil => simp
  | @cons i a ids order isOp others ih =>
      rw [List.pairwise_cons, List.pairwise_cons, ih]
      refine and_congr ?_ Iff.rfl
      clear ih
      induction others with
      | nil => simp
      | cons isOp' _ ih =>
          rw [List.forall_mem_cons, List.forall_mem_cons, ih, makeEntries_precedes sorts isOp' isOp]

/-- All numbers stand in the order. -/
theorem called_iff (sorts : Sorts sort) (all : ids.Perm (.range history.length)) (x : Int) :
    .call x ∈ (makeEntries sort history).map Entry.mark ↔ x ∈ ids.map ((↑) : Nat → Int) := by
  rw [call_mem_makeEntries sorts, List.mem_map]
  constructor
  · rintro ⟨i, op, isOp, rfl⟩
    exact ⟨i, all.mem_iff.mpr (List.mem_range.mpr (List.getElem?_eq_some_iff.mp isOp).1), rfl⟩
  · rintro ⟨i, isId, rfl⟩
    have below := List.mem_range.mp (all.mem_iff.mp isId)
    exact ⟨i, history[i], List.getElem?_eq_getElem below, rfl⟩

theorem linearization_iff {model : FullModel V S} (same : SameOrder history ids order)
    (all : ids.Perm (.range history.length)) (perm : order.Perm history) (sorts : Sorts sort)
    (timed : Timed history) :
    PartialLinearization model (makeEntries sort history) (ids.map (↑)) ↔
      Linearization model history order := by
  have once : (ids.map ((↑) : Nat → Int)).Nodup :=
    (all.nodup_iff.mpr List.nodup_range).map fun i j => Int.ofNat.inj
  rw [PartialLinearization, ordering_iff (makeEntries_wellFormed sorts timed).balanced once
    (called_iff sorts all), same.pairwise_iff sorts, same.foldlM_eq model sorts timed]
  exact ⟨fun ⟨realTime, legal⟩ => ⟨perm, realTime, legal⟩,
    fun linearization => ⟨linearization.realTime, linearization.legal⟩⟩

end SameOrder

/-- The entries are linearizable if and only if the operations are. -/
theorem linearizable_makeEntries_iff {model : FullModel V S} (sorts : Sorts sort)
    (timed : Timed history) : Linearizable model (makeEntries sort history) ↔
      ∃ order, Linearization model history order := by
  constructor
  · rintro ⟨numbers, isPartial, all⟩
    have isNat (x : Int) (inside : x ∈ numbers) : 0 ≤ x ∧ x < history.length := by
      obtain ⟨i, op, isOp, rfl⟩ := (call_mem_makeEntries sorts).mp (isPartial.1.called x inside)
      have below := (List.getElem?_eq_some_iff.mp isOp).1
      omega
    have isIds : (numbers.map Int.toNat).map ((↑) : Nat → Int) = numbers := by
      rw [List.map_map]
      refine (List.map_congr_left fun x inside => ?_).trans (List.map_id _)
      exact Int.toNat_of_nonneg (isNat x inside).1
    have allIds : (numbers.map Int.toNat).Perm (.range history.length) := by
      have once := isPartial.1.once
      rw [← isIds] at once
      refine (List.perm_ext_iff_of_nodup once.of_map List.nodup_range).mpr fun i => ?_
      rw [List.mem_range, List.mem_map]
      constructor
      · rintro ⟨x, inside, rfl⟩
        have := isNat x inside
        omega
      · intro below
        refine ⟨i, all i ((call_mem_makeEntries sorts).mpr ?_), rfl⟩
        exact ⟨i, history[i], List.getElem?_eq_getElem below, rfl⟩
    have perm := (allIds.map (history[·]?)).symm
    rw [map_range_getElem?] at perm
    obtain ⟨order, isOrder, same⟩ := exists_perm_map perm history rfl
    refine ⟨order, ((sameOrder_iff.mpr same.symm).linearization_iff allIds isOrder.symm sorts
      timed).mp ?_⟩
    rwa [isIds]
  · rintro ⟨order, linearization⟩
    have perm := (linearization.perm.map some).symm
    rw [← map_range_getElem?] at perm
    obtain ⟨ids, isIds, same⟩ := exists_perm_map perm _ rfl
    refine ⟨ids.map (↑), ?_, fun x => (SameOrder.called_iff sorts isIds.symm x).mp⟩
    exact ((sameOrder_iff.mpr same).linearization_iff isIds.symm linearization.perm sorts
      timed).mpr linearization

/-- `Step` does not panic on the operations of the history, and states that `Equal` takes for equal
accept the same of them. -/
structure FullModel.Suits (model : FullModel V S) (history : List (Operation V)) : Prop where
  total : ∀ op ∈ history, ∀ s, (model.step s op.input op.output).isSome
  congruent : ∃ r : S → S → Prop, (∀ s t, model.equal s t = true → r s t) ∧
    ∀ op ∈ history, ∀ s t s', r s t → op.accept model s = some s' →
      ∃ t', op.accept model t = some t' ∧ r s' t'

theorem exists_of_opValues (sorts : Sorts sort) {x : Int} {values : V × V}
    (isValues : opValues (makeEntries sort history) x = some values) :
    ∃ (i : Nat) (op : Operation V), history[i]? = some op ∧ x = i := by
  obtain ⟨called, isCalled, -⟩ := Option.bind_eq_some_iff.mp isValues
  have callMark : called.mark = .call x := by simpa using List.find?_some isCalled
  refine (call_mem_makeEntries sorts).mp ?_
  rw [← callMark]
  exact List.mem_map_of_mem (List.mem_of_find?_eq_some isCalled)

theorem FullModel.Suits.fits {model : FullModel V S} (suits : model.Suits history)
    (sorts : Sorts sort) (timed : Timed history) : model.Fits (makeEntries sort history) where
  total := fun x input output values s => by
    obtain ⟨i, op, isOp, rfl⟩ := exists_of_opValues sorts values
    cases (opValues_makeEntries sorts timed isOp).symm.trans values
    exact suits.total op (List.mem_of_getElem? isOp) s
  congruent := by
    obtain ⟨r, contains, simulates⟩ := suits.congruent
    refine ⟨r, contains, fun s t x s' related accepted => ?_⟩
    obtain ⟨values, isValues, -⟩ := Option.bind_eq_some_iff.mp accepted
    obtain ⟨i, op, isOp, rfl⟩ := exists_of_opValues sorts isValues
    rw [accept_makeEntries model sorts timed isOp] at accepted ⊢
    exact simulates op (List.mem_of_getElem? isOp) s t s' related accepted

end

end GoLab.Porcupine
