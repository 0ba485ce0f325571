import Mathlib.Data.List.Sort
import GoLab.Porcupine.Checker

/-!
# The model of a key/value store (`models/kv.go`)

The value of one key is modelled.  A history is partitioned by key, so that the checker looks
at the operations of every key by themselves.
-/

namespace GoLab.Porcupine

/-- A string is a sequence of bytes. -/
abbrev Str := List UInt8

structure KvInput where
  op : UInt8
  key : Str
  value : Str
  deriving DecidableEq, Repr

structure KvOutput where
  value : Str
  deriving DecidableEq, Repr

/-- What the interfaces `Input` and `Output` of an operation hold. -/
inductive KvValue where
  | nil
  | input (inp : KvInput)
  | output (out : KvOutput)
  deriving DecidableEq, Repr

instance : Inhabited KvValue :=
  ⟨.nil⟩

namespace KvValue

/-- `v.(KvInput)` -/
def asInput : KvValue → Option KvInput
  | .input inp => some inp
  | _ => none

/-- `v.(KvOutput)` -/
def asOutput : KvValue → Option KvOutput
  | .output out => some out
  | _ => none

end KvValue

namespace KvModel

abbrev KvOperation := Operation KvValue

/-- The map in `Partition`. -/
abbrev ByKey := List (Str × List KvOperation)

/-- `m[key] = append(m[key], v)` -/
def ByKey.add (m : ByKey) (key : Str) (v : KvOperation) : ByKey :=
  match m with
  | [] => [(key, [v])]
  | (k, vs) :: m => if k = key then (k, vs ++ [v]) :: m else (k, vs) :: ByKey.add m key v

def partition (history : List KvOperation) : Option (List (List KvOperation)) := do
  let m ← history.foldlM
    (fun (m : ByKey) v => do
      let inp ← v.input.asInput
      return m.add inp.key v) []
  let keys := (m.map Prod.fst).insertionSort (· ≤ ·)
  return keys.map fun k => (m.lookup k).getD []

def step (st : Str) (input output : KvValue) : Option (Bool × Str) := do
  let inp ← input.asInput
  let out ← output.asOutput
  if inp.op = 0 then
    return (out.value = st, st)
  else if inp.op = 1 then
    return (true, inp.value)
  else if inp.op = 2 then
    return (true, st ++ inp.value)
  else
    return (out.value = st, st ++ inp.value)

end KvModel

def kvModel : Model KvValue Str where
  partition := some KvModel.partition
  partitionEvent := none
  init := []
  step := KvModel.step
  equal := none

namespace KvModel

/-- `Step` does not panic on an input and an output. -/
theorem step_isSome (st : Str) (inp : KvInput) (out : KvOutput) :
    (step st (.input inp) (.output out)).isSome := by
  simp only [step, KvValue.asInput, KvValue.asOutput, Option.bind_eq_bind, Option.bind_some]
  repeat' split
  all_goals rfl

/-- The operation is on this key. -/
def onKey (k : Str) (v : KvOperation) : Bool :=
  v.input.asInput.any (·.key = k)

theorem lookup_add (m : ByKey) (key : Str) (v : KvOperation) (k : Str) :
    ((m.add key v).lookup k).getD [] =
      if key = k then (m.lookup k).getD [] ++ [v] else (m.lookup k).getD [] := by
  induction m with
  | nil =>
      by_cases same : k = key
      · subst same
        simp [ByKey.add]
      · have other : (k == key) = false := by simpa using same
        simp [ByKey.add, List.lookup_cons, other, Ne.symm same]
  | cons entry m ih =>
      obtain ⟨first, vs⟩ := entry
      rw [ByKey.add]
      split
      case isTrue same =>
        subst same
        by_cases isK : k = first
        · subst isK
          simp
        · have other : (k == first) = false := by simpa using isK
          simp [List.lookup_cons, other, Ne.symm isK]
      case isFalse differs =>
        by_cases isK : k = first
        · subst isK
          simp [Ne.symm differs]
        · have other : (k == first) = false := by simpa using isK
          simpa [List.lookup_cons, other] using ih

theorem keys_add (m : ByKey) (key : Str) (v : KvOperation) :
    (m.add key v).map Prod.fst =
      if key ∈ m.map Prod.fst then m.map Prod.fst else m.map Prod.fst ++ [key] := by
  induction m with
  | nil => rfl
  | cons entry m ih =>
      obtain ⟨first, vs⟩ := entry
      rw [ByKey.add]
      split
      case isTrue same => simp [same]
      case isFalse differs =>
        rw [List.map_cons, ih]
        split <;> simp_all [eq_comm]

/-- What the map has after the loop. -/
theorem byKey_spec {history : List KvOperation}
    (typed : ∀ v ∈ history, ∃ inp, v.input = .input inp) :
    ∃ m : ByKey, history.foldlM
        (fun (m : ByKey) v => do
          let inp ← v.input.asInput
          return m.add inp.key v) [] = some m ∧
      (m.map Prod.fst).Nodup ∧
      (∀ k, k ∈ m.map Prod.fst ↔ ∃ v ∈ history, onKey k v = true) ∧
      ∀ k, (m.lookup k).getD [] = history.filter (onKey k) := by
  induction history using List.reverseRecOn with
  | nil => exact ⟨[], rfl, by simp, by simp, by simp⟩
  | append_singleton history v ih =>
      obtain ⟨m, loop, once, keys, lookup⟩ :=
        ih fun v inside => typed v (List.mem_append_left _ inside)
      obtain ⟨inp, isInput⟩ := typed v (by simp)
      have isKey (k : Str) : onKey k v = true ↔ inp.key = k := by
        simp [onKey, isInput, KvValue.asInput]
      refine ⟨m.add inp.key v, ?_, ?_, fun k => ?_, fun k => ?_⟩
      · rw [List.foldlM_append, loop]
        simp [isInput, KvValue.asInput]
      · rw [keys_add]
        split
        case isTrue => exact once
        case isFalse isNew => exact List.nodup_append_comm.mp (List.nodup_cons.mpr ⟨isNew, once⟩)
      · have iff : k ∈ (m.add inp.key v).map Prod.fst ↔ k ∈ m.map Prod.fst ∨ inp.key = k := by
          rw [keys_add]
          split
          case isTrue inside => exact (or_iff_left_of_imp fun same => same ▸ inside).symm
          case isFalse => simp [eq_comm]
        rw [iff, keys k, ← isKey k]
        simp only [List.mem_append, List.mem_singleton, or_and_right, exists_or, exists_eq_left]
      · rw [lookup_add, lookup k, List.filter_append]
        by_cases same : inp.key = k
        · simp [same, (isKey k).mpr same]
        · have other : onKey k v = false := by
            rw [← Bool.not_eq_true]
            exact fun is => same ((isKey k).mp is)
          simp [same, other]

/-- `Partition` gives the operations on each key, in the order of the history. -/
theorem partition_spec {history : List KvOperation}
    (typed : ∀ v ∈ history, ∃ inp, v.input = .input inp) :
    ∃ keys : List Str, keys.Nodup ∧ (∀ k, k ∈ keys ↔ ∃ v ∈ history, onKey k v = true) ∧
      partition history = some (keys.map fun k => history.filter (onKey k)) := by
  obtain ⟨m, loop, once, keys, lookup⟩ := byKey_spec typed
  have perm := List.perm_insertionSort (· ≤ ·) (m.map Prod.fst)
  refine ⟨(m.map Prod.fst).insertionSort (· ≤ ·), perm.nodup_iff.mpr once, fun k => ?_, ?_⟩
  · rw [perm.mem_iff, keys]
  · rw [partition, loop]
    simp [lookup]

end KvModel

end GoLab.Porcupine
