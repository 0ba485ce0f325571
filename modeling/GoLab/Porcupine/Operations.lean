import GoLab.Lib.Locality
import GoLab.Porcupine.ParallelRuns

/-!
# `CheckOperations`

The checker looks at the operations on every key by themselves, with a model of the value of
one key.  What it answers is right for the store as a whole.
-/

namespace GoLab.Porcupine

variable {V S : Type} {sort : List (Entry V) → List (Entry V)}

/-! ## What `checkParallel` returns -/

section

variable [Inhabited V] {x : Checking V S} {history : List (List (Entry V))}

/-- The answer of `checkParallel` is right whenever it returns. -/
theorem CheckRun.result {labels : List Act} {c : Check V S} (run : CheckRun x history labels c)
    (valid : ∀ h ∈ history, WellFormed h ∧ x.model.Fits h) :
    c.panicked = false ∧ ∀ result info, c.main = .returned result info →
      (result = .ok → ∀ h ∈ history, Linearizable x.model h) ∧
      (result = .illegal → ∃ h ∈ history, ¬Linearizable x.model h) ∧
      (result = .unknown → x.timeout = true) := by
  obtain ⟨bound, bounded⟩ := exists_bound valid
  obtain ⟨order, received, pots, holds, -⟩ := bounded labels c run
  refine ⟨holds.running, fun result info isMain => ?_⟩
  obtain ⟨⟨ok, timedOut, rfl, refuted, confirmed, expired⟩, -⟩ := isMain ▸ holds.phase
  cases ok with
  | false => exact ⟨by simp [Check.result], fun _ => refuted rfl, by simp [Check.result]⟩
  | true =>
      cases timedOut with
      | false =>
          exact ⟨fun _ => confirmed rfl rfl, by simp [Check.result], by simp [Check.result]⟩
      | true => exact ⟨by simp [Check.result], by simp [Check.result], fun _ => expired rfl⟩

/-- Without a timeout there are two answers. -/
theorem CheckRun.ok_iff {labels : List Act} {c : Check V S} (run : CheckRun x history labels c)
    (valid : ∀ h ∈ history, WellFormed h ∧ x.model.Fits h) (noTimeout : x.timeout = false)
    {result : CheckResult} {info : Option PartialLinearizations}
    (isMain : c.main = .returned result info) :
    result = .ok ↔ ∀ h ∈ history, Linearizable x.model h := by
  obtain ⟨-, answers⟩ := run.result valid
  obtain ⟨confirmed, refuted, expired⟩ := answers result info isMain
  cases result with
  | ok => exact iff_of_true rfl (confirmed rfl)
  | illegal =>
      obtain ⟨h, inside, not⟩ := refuted rfl
      exact iff_of_false (by simp) fun all => not (all h inside)
  | unknown =>
      have timeout := expired rfl
      rw [noTimeout] at timeout
      cases timeout

end

theorem parts_valid {model : FullModel V S} {parts : List (List (Operation V))} (sorts : Sorts sort)
    (each : ∀ part ∈ parts, Timed part ∧ model.Suits part) :
    ∀ h ∈ parts.map fun part => makeEntries sort part, WellFormed h ∧ model.Fits h := by
  intro h inside
  obtain ⟨part, isPart, rfl⟩ := List.mem_map.mp inside
  obtain ⟨timed, suits⟩ := each part isPart
  exact ⟨makeEntries_wellFormed sorts timed, suits.fits sorts timed⟩

/-! ## The key/value store -/

namespace KvModel

/-- The interfaces of the operations hold inputs and outputs of the store. -/
def Typed (history : List KvOperation) : Prop :=
  ∀ v ∈ history, (∃ inp, v.input = .input inp) ∧ ∃ out, v.output = .output out

/-- An operation on the store, with the answer that it had.  A key without a value has the
empty string. -/
def storeStep (store : Str → Str) (v : KvOperation) : Option (Str → Str) := do
  let inp ← v.input.asInput
  let out ← v.output.asOutput
  let old := store inp.key
  if inp.op = 0 then
    if out.value = old then some store else none
  else if inp.op = 1 then
    some (Function.update store inp.key inp.value)
  else if inp.op = 2 then
    some (Function.update store inp.key (old ++ inp.value))
  else if out.value = old then
    some (Function.update store inp.key (old ++ inp.value))
  else
    none

/-- The operations can be carried out on the store in an order that keeps to their times. -/
def StoreLinearizable (history : List KvOperation) : Prop :=
  ∃ order : List KvOperation, order.Perm history ∧ (order.Pairwise fun a b => ¬b.ret < a.call) ∧
    (order.foldlM storeStep fun _ => []).isSome

/-- The key of an operation. -/
def keyOf (v : KvOperation) : Str :=
  (v.input.asInput.map KvInput.key).getD []

variable {history : List KvOperation}

theorem onKey_eq (typed : Typed history) {v : KvOperation} (inside : v ∈ history) (k : Str) :
    onKey k v = decide (keyOf v = k) := by
  obtain ⟨⟨inp, isInput⟩, -⟩ := typed v inside
  simp [onKey, keyOf, isInput, KvValue.asInput]

/-- The store has a value for each key, and an operation is on one of them. -/
theorem storeStep_eq {v : KvOperation} (typed : (∃ inp, v.input = .input inp) ∧
    ∃ out, v.output = .output out) (store : Str → Str) :
    storeStep store v = stepOne keyOf (Operation.accept (fillDefault kvModel)) store v := by
  obtain ⟨⟨inp, isInput⟩, out, isOutput⟩ := typed
  have isStep : (fillDefault kvModel).step = step := rfl
  simp only [storeStep, stepOne, Operation.accept, isStep, step, keyOf, isInput, isOutput,
    KvValue.asInput, KvValue.asOutput, Option.bind_eq_bind, Option.bind_some, Option.map_some,
    Option.getD_some]
  split
  case isTrue => by_cases same : out.value = store inp.key <;> simp [same]
  case isFalse =>
    split
    case isTrue => simp
    case isFalse =>
      split
      case isTrue => simp
      case isFalse => by_cases same : out.value = store inp.key <;> simp [same]

theorem foldlM_storeStep (typed : Typed history) (store : Str → Str) :
    (history.foldlM storeStep store).isSome ↔ ∀ k, ((history.filter (onKey k)).foldlM
      (Operation.accept (fillDefault kvModel)) (store k)).isSome := by
  have sameFold : history.foldlM storeStep store =
      history.foldlM (stepOne keyOf (Operation.accept (fillDefault kvModel))) store := by
    induction history generalizing store with
    | nil => rfl
    | cons v history ih =>
        rw [List.foldlM_cons, List.foldlM_cons, storeStep_eq (typed v (List.mem_cons_self ..))]
        congr 1
        funext store'
        exact ih (fun w later => typed w (List.mem_cons_of_mem _ later)) store'
  rw [sameFold, foldlM_stepOne]
  refine forall_congr' fun k => ?_
  rw [List.filter_congr fun v inside => (onKey_eq typed inside k).symm]

/-- The store as a whole can be looked at key by key. -/
theorem storeLinearizable_iff (typed : Typed history) (timed : Timed history) :
    StoreLinearizable history ↔
      ∀ k, ∃ order, Linearization (fillDefault kvModel) (history.filter (onKey k)) order := by
  constructor
  · rintro ⟨order, perm, realTime, legal⟩ k
    have typed' : Typed order := fun v inside => typed v (perm.mem_iff.mp inside)
    exact ⟨order.filter (onKey k), perm.filter _, realTime.filter _,
      (foldlM_storeStep typed' _).mp legal k⟩
  · intro each
    choose orders linearization using each
    have perm (k : Str) : (orders k).Perm (history.filter (keyOf · = k)) := by
      rw [← List.filter_congr fun v inside => onKey_eq typed inside k]
      exact (linearization k).perm
    obtain ⟨order, permOrder, filters, realTime⟩ :=
      exists_merge keyOf timed perm fun k => (linearization k).realTime
    have typed' : Typed order := fun v inside => typed v (permOrder.mem_iff.mp inside)
    refine ⟨order, permOrder, realTime, (foldlM_storeStep typed' _).mpr fun k => ?_⟩
    rw [List.filter_congr fun v inside => onKey_eq typed' inside k, filters]
    exact (linearization k).legal

theorem Typed.suits (typed : Typed history) : (fillDefault kvModel).Suits history where
  total := fun v inside s => by
    obtain ⟨⟨inp, isInput⟩, out, isOutput⟩ := typed v inside
    rw [isInput, isOutput]
    exact step_isSome s inp out
  congruent := by
    refine ⟨Eq, fun s t equal => ?_, ?_⟩
    · simpa [fillDefault, kvModel, shallowEqual] using equal
    · rintro v - s t s' rfl accepted
      exact ⟨s', accepted, rfl⟩

/-- The parts of a history, and what they say of the store. -/
theorem parts_spec {sort : List (Entry KvValue) → List (Entry KvValue)} (sorts : Sorts sort)
    (typed : Typed history) (timed : Timed history) :
    ∃ parts, operationParts sort kvModel history = some parts ∧
      (∀ h ∈ parts, WellFormed h ∧ (fillDefault kvModel).Fits h) ∧
      (parts = [] ↔ history = []) ∧
      ((∀ h ∈ parts, Linearizable (fillDefault kvModel) h) ↔ StoreLinearizable history) := by
  obtain ⟨keys, -, isKey, isPartition⟩ := partition_spec fun v inside => (typed v inside).1
  have timedPart (k : Str) : Timed (history.filter (onKey k)) :=
    fun v inside => timed v (List.mem_of_mem_filter inside)
  refine ⟨(keys.map fun k => history.filter (onKey k)).map fun part => makeEntries sort part,
    ?_, ?_, ?_, ?_⟩
  · have same : (fillDefault kvModel).partition history = partition history := rfl
    simp [operationParts, same, isPartition]
  · refine parts_valid sorts fun part inside => ?_
    obtain ⟨k, -, rfl⟩ := List.mem_map.mp inside
    exact ⟨timedPart k,
      (show Typed _ from fun v inside => typed v (List.mem_of_mem_filter inside)).suits⟩
  · rw [List.map_eq_nil_iff, List.map_eq_nil_iff, List.eq_nil_iff_forall_not_mem,
      List.eq_nil_iff_forall_not_mem]
    constructor
    · intro noKey v inside
      obtain ⟨⟨inp, isInput⟩, -⟩ := typed v inside
      refine noKey inp.key ((isKey _).mpr ⟨v, inside, ?_⟩)
      simp [onKey, isInput, KvValue.asInput]
    · intro noOperation k inside
      obtain ⟨v, isV, -⟩ := (isKey k).mp inside
      exact noOperation v isV
  · rw [storeLinearizable_iff typed timed]
    simp only [List.forall_mem_map, linearizable_makeEntries_iff sorts (timedPart _)]
    refine ⟨fun each k => ?_, fun each k _ => each k⟩
    by_cases inside : k ∈ keys
    · exact each k inside
    · have none : history.filter (onKey k) = [] := by
        rw [List.filter_eq_nil_iff]
        exact fun v isV isOn => inside ((isKey k).mpr ⟨v, isV, isOn⟩)
      rw [none]
      exact ⟨[], .nil, .nil, rfl⟩

end KvModel

open KvModel

/-- A `get` that is called and returns while a `put` is under way. -/
def getAndPut : List KvOperation :=
  [⟨0, .input ⟨1, [120], [97]⟩, 0, .output ⟨[]⟩, 3⟩, ⟨1, .input ⟨0, [120], []⟩, 1, .output ⟨[97]⟩, 2⟩]

theorem getAndPut_typed : Typed getAndPut := by
  simp [Typed, getAndPut]

theorem getAndPut_timed : Timed getAndPut := by
  simp [Timed, getAndPut]

/-! ## `CheckOperations` -/

/-- With a model that has no `Partition`, `CheckOperations` returns `true` if and only if the
operations can be carried out in an order that keeps to their times. -/
theorem checkOperations_noPartition [Inhabited V] [DecidableEq S] {model : Model V S}
    (noPartition : model.partition = none) {history : List (Operation V)} (sorts : Sorts sort)
    (timed : Timed history) (suits : (fillDefault model).Suits history) :
    ∃ parts bound, operationParts sort model history = some parts ∧
      ∀ labels c, CheckRun ⟨fillDefault model, false, false⟩ parts labels c →
        c.panicked = false ∧ labels.length ≤ bound ∧
        ((∃ result info, c.main = .returned result info) ∨
          ∃ act c', Check.step ⟨fillDefault model, false, false⟩ act c = some c') ∧
        ∀ result info, c.main = .returned result info →
          (result = .ok ↔ ∃ order, Linearization (fillDefault model) history order) := by
  have isParts : operationParts sort model history = some [makeEntries sort history] := by
    simp [operationParts, fillDefault, noPartition, Porcupine.noPartition]
  have each : ∀ part ∈ [history], Timed part ∧ (fillDefault model).Suits part := by
    simpa using ⟨timed, suits⟩
  have valid := parts_valid sorts each
  obtain ⟨bound, bounded⟩ := exists_bound (x := ⟨fillDefault model, false, false⟩) valid
  refine ⟨_, bound, isParts, fun labels c run => ?_⟩
  obtain ⟨order, received, pots, holds, atMost⟩ := bounded labels c run
  refine ⟨holds.running, by omega, holds.exists_step (by simp), fun result info isMain => ?_⟩
  rw [run.ok_iff valid rfl isMain, ← linearizable_makeEntries_iff sorts timed]
  simp

theorem checkOperations_getAndPut_noPartition :
    ∃ parts bound, operationParts
      (fun entries => entries.insertionSort fun a b => b.less a = false)
      { kvModel with partition := none } getAndPut = some parts ∧
      ∀ labels c, CheckRun ⟨fillDefault { kvModel with partition := none }, false, false⟩ parts
        labels c → c.panicked = false ∧ labels.length ≤ bound ∧
        ((∃ result info, c.main = .returned result info) ∨
          ∃ act c', Check.step ⟨fillDefault { kvModel with partition := none }, false, false⟩ act c =
            some c') ∧
        ∀ result info, c.main = .returned result info →
          (result = .ok ↔ ∃ order,
            Linearization (fillDefault { kvModel with partition := none }) getAndPut order) :=
  checkOperations_noPartition rfl sorts_insertionSort getAndPut_timed
    ⟨getAndPut_typed.suits.total, getAndPut_typed.suits.congruent⟩

section

variable {kvSort : List (Entry KvValue) → List (Entry KvValue)} {history : List KvOperation}

/-- `CheckOperations` with `KvModel` returns `true` if and only if the operations can be carried
out on the store in an order that keeps to their times. -/
theorem checkOperations_kv (sorts : Sorts kvSort) (typed : Typed history) (timed : Timed history)
    (notEmpty : history ≠ []) :
    ∃ parts bound, operationParts kvSort kvModel history = some parts ∧
      ∀ labels c, CheckRun ⟨fillDefault kvModel, false, false⟩ parts labels c →
        c.panicked = false ∧ labels.length ≤ bound ∧
        ((∃ result info, c.main = .returned result info) ∨
          ∃ act c', Check.step ⟨fillDefault kvModel, false, false⟩ act c = some c') ∧
        ∀ result info, c.main = .returned result info →
          (result = .ok ↔ StoreLinearizable history) := by
  obtain ⟨parts, isParts, valid, isEmpty, linearizable⟩ := parts_spec sorts typed timed
  obtain ⟨bound, bounded⟩ := exists_bound (x := ⟨fillDefault kvModel, false, false⟩) valid
  refine ⟨parts, bound, isParts, fun labels c run => ?_⟩
  obtain ⟨order, received, pots, holds, atMost⟩ := bounded labels c run
  refine ⟨holds.running, by omega, holds.exists_step (fun none => notEmpty (isEmpty.mp none)),
    fun result info isMain => ?_⟩
  rw [run.ok_iff valid rfl isMain]
  exact linearizable

theorem checkOperations_getAndPut :
    ∃ parts bound, operationParts
      (fun entries => entries.insertionSort fun a b => b.less a = false) kvModel getAndPut =
        some parts ∧
      ∀ labels c, CheckRun ⟨fillDefault kvModel, false, false⟩ parts labels c →
        c.panicked = false ∧ labels.length ≤ bound ∧
        ((∃ result info, c.main = .returned result info) ∨
          ∃ act c', Check.step ⟨fillDefault kvModel, false, false⟩ act c = some c') ∧
        ∀ result info, c.main = .returned result info →
          (result = .ok ↔ StoreLinearizable getAndPut) :=
  checkOperations_kv sorts_insertionSort getAndPut_typed getAndPut_timed (by simp [getAndPut])

/-- Without a timeout, `CheckOperations` with `KvModel` returns if and only if there is an
operation: without operations there are no parts, and it waits for an answer for ever. -/
theorem checkOperations_kv_returns_iff (sorts : Sorts kvSort) (typed : Typed history)
    (timed : Timed history) (verbose : Bool) :
    ∃ parts, operationParts kvSort kvModel history = some parts ∧
      ((∃ labels c result info, CheckRun ⟨fillDefault kvModel, verbose, false⟩ parts labels c ∧
        c.main = .returned result info) ↔ history ≠ []) := by
  obtain ⟨parts, isParts, valid, isEmpty, -⟩ := parts_spec sorts typed timed
  refine ⟨parts, isParts, ?_, fun notEmpty => ?_⟩
  · rintro ⟨labels, c, result, info, run, isMain⟩ empty
    cases isEmpty.mpr empty
    rw [run.of_nil rfl] at isMain
    cases isMain
  · exact exists_returned valid fun none => notEmpty (isEmpty.mp none)

theorem checkOperations_getAndPut_returns :
    ∃ parts, operationParts
      (fun entries => entries.insertionSort fun a b => b.less a = false) kvModel getAndPut =
        some parts ∧
      ((∃ labels c result info, CheckRun ⟨fillDefault kvModel, true, false⟩ parts labels c ∧
        c.main = .returned result info) ↔ getAndPut ≠ []) :=
  checkOperations_kv_returns_iff sorts_insertionSort getAndPut_typed getAndPut_timed true

end

end GoLab.Porcupine
