import Mathlib.Logic.Basic
import GoLab.KVSrv.Server

/-!
# The store of the replicated key/value server (`kvraft/applier.go`)

The values of a `sync.Map` are untyped.  An entry is modelled with its dynamic type, and the
failed type assertion of a reader is `none`.
-/

namespace GoLab.KVRaft

open KVSrv (Str Data)

/-- An entry of the map: a plain string, or a pointer to a `Value`. -/
inductive Entry where
  | string (text : Str)
  | value (text : Str)
  deriving DecidableEq, Repr

/-- The type assertion `val.(*Value)`. -/
def Entry.asValue : Entry → Option Str
  | string _ => none
  | value text => some text

/-- The embedded `sync.Map`. -/
abbrev Store := Str → Option Entry

namespace Store

/-- `Store` of a `sync.Map`. -/
def store (kv : Store) (key : Str) (entry : Entry) : Store :=
  fun other => if other = key then some entry else kv other

def get (kv : Store) (key : Str) : Option Str :=
  match kv key with
  | none => some []
  | some val => val.asValue

def put (kv : Store) (key value : Str) : Store :=
  kv.store key (.string value)

/-- `append`: the value before, for the reply.  `LoadOrStore` stores the string itself. -/
def append (kv : Store) (key value : Str) : Option (Store × Str) :=
  match kv key with
  | none => some (kv.store key (.string value), [])
  | some actual => do
    let old ← actual.asValue
    return (kv.store key (.value (old ++ value)), old)

end Store

/-- A call the apply loop makes. -/
inductive Call where
  | get (key : Str)
  | put (key value : Str)
  | append (key value : Str)
  deriving DecidableEq, Repr

namespace Call

def key : Call → Str
  | get key => key
  | put key _ => key
  | append key _ => key

/-- The call looks at the entry of its key. -/
def reads : Call → Bool
  | get _ => true
  | put _ _ => false
  | append _ _ => true

/-- The call leaves an entry for its key. -/
def writes : Call → Bool
  | get _ => false
  | put _ _ => true
  | append _ _ => true

/-- Carry out the call, with its answer; `put` has none. -/
def perform : Call → Store → Option (Store × Str)
  | get key, kv => (kv.get key).map fun value => (kv, value)
  | put key value, kv => some (kv.put key value, [])
  | append key value, kv => kv.append key value

/-- What the call does on a map of strings. -/
def reference : Call → Data → Data × Str
  | get key, data => (data, (data key).getD [])
  | put key value, data => (data.store key value, [])
  | append key value, data =>
      let old := (data key).getD []
      (data.store key (old ++ value), old)

/-- The later call does not read what the earlier one wrote. -/
def Apart (earlier later : Call) : Prop :=
  earlier.writes = true → later.reads = true → earlier.key ≠ later.key

instance (earlier later : Call) : Decidable (Apart earlier later) :=
  inferInstanceAs (Decidable (_ → _))

end Call

/-- Carry out calls one after another and collect the answers. -/
def performAll : List Call → Store → Option (List Str)
  | [], _ => some []
  | call :: rest, kv => do
    let (kv, answer) ← call.perform kv
    let answers ← performAll rest kv
    return answer :: answers

/-- The answers of a map of strings. -/
def referenceAll : List Call → Data → List Str
  | [], _ => []
  | call :: rest, data =>
      (call.reference data).2 :: referenceAll rest (call.reference data).1

/-- The contents of the store as the writers leave it: no entry is a `Value`. -/
def strings (data : Data) : Store :=
  fun key => (data key).map .string

@[simp]
theorem strings_store (data : Data) (key value : Str) :
    (strings data).store key (.string value) = strings (data.store key value) := by
  funext other
  unfold strings Store.store Data.store
  by_cases here : other = key <;> simp [here]

namespace Call

/-- A call that finds an entry to read fails; every other call does what it does on a map of
strings. -/
theorem perform_strings (call : Call) (data : Data) :
    call.perform (strings data) =
      if call.reads = true ∧ (data call.key).isSome then none
      else some (strings (call.reference data).1, (call.reference data).2) := by
  cases call with
  | put key value => simp [perform, reference, reads, Store.put]
  | get key =>
      cases found : data key <;>
        simp [perform, reference, reads, Call.key, Store.get, strings, Entry.asValue, found]
  | append key value =>
      cases found : data key with
      | none =>
          have missing : strings data key = none := by simp [strings, found]
          simp [perform, reference, reads, Call.key, Store.append, found, missing]
      | some old =>
          have present : strings data key = some (.string old) := by simp [strings, found]
          simp [perform, reads, Call.key, Store.append, Entry.asValue, found, present]

theorem reference_isSome (call : Call) (data : Data) (key : Str) :
    ((call.reference data).1 key).isSome = true ↔
      (data key).isSome = true ∨ call.writes = true ∧ call.key = key := by
  cases call with
  | get key' => simp [reference, writes]
  | put key' value | append key' value =>
      by_cases here : key = key'
      · simp [reference, writes, Call.key, Data.store, here]
      · simp [reference, writes, Call.key, Data.store, here, Ne.symm here]

end Call

/-- On a store of strings the answers are those of the map if no call reads an entry that is
there or is written by an earlier call. -/
theorem performAll_strings (calls : List Call) (data : Data) :
    performAll calls (strings data) = some (referenceAll calls data) ↔
      (∀ call ∈ calls, call.reads = true → (data call.key).isSome = false) ∧
        calls.Pairwise Call.Apart := by
  induction calls generalizing data with
  | nil => simp [performAll, referenceAll]
  | cons call rest ih =>
      unfold performAll referenceAll
      rw [call.perform_strings, List.pairwise_cons, List.forall_mem_cons]
      split
      case isTrue fails => simp [fails.1, fails.2]
      case isFalse works =>
        have answered : performAll rest (strings (call.reference data).1) =
            some (referenceAll rest (call.reference data).1) ↔
              (∀ later ∈ rest, later.reads = true → (data later.key).isSome = false) ∧
              (∀ later ∈ rest, call.Apart later) ∧ rest.Pairwise Call.Apart := by
          rw [ih, ← and_assoc, ← forall₂_and]
          refine and_congr_left' (forall₂_congr fun later _ => ?_)
          have stored := call.reference_isSome data later.key
          unfold Call.Apart
          grind
        have fresh : call.reads = true → (data call.key).isSome = false := by
          intro reads
          simpa using fun present => works ⟨reads, present⟩
        simp only [Option.bind_eq_bind, Option.bind_some, Option.pure_def]
        rw [Option.bind_eq_some_iff]
        constructor
        · rintro ⟨answers, result, same⟩
          cases same
          obtain ⟨absent, apart, rest⟩ := answered.mp result
          exact ⟨⟨fresh, absent⟩, apart, rest⟩
        · rintro ⟨⟨-, absent⟩, apart, restApart⟩
          exact ⟨_, answered.mpr ⟨absent, apart, restApart⟩, rfl⟩

/-- The calls on a new store answer as those on a map of strings if and only if none of them
is a `get` or an `append` of a key that an earlier `put` or `append` has written. -/
theorem answers_iff_apart (calls : List Call) :
    performAll calls (fun _ => none) = some (referenceAll calls fun _ => none) ↔
      calls.Pairwise Call.Apart := by
  have empty : strings (fun _ => none) = fun _ => none := rfl
  have start := performAll_strings calls fun _ => none
  rw [empty] at start
  simpa using start

/-- The value just put cannot be read. -/
theorem put_then_get_fails :
    performAll [.put [107] [118], .get [107]] (fun _ => none) = none ∧
      referenceAll [.put [107] [118], .get [107]] (fun _ => none) = [[], [118]] := by
  decide

end GoLab.KVRaft
