import GoLab.Lib.Grouping
import GoLab.MapReduce.Coordinator

/-!
# What a worker does with files (`mr/worker.go`, `main/mrsequential.go`)

The file `mr-<w>-<r>` of the directory is named by its two numbers, and holds the records
that were encoded into it one after the other.  `json` gives the record that is decoded for
an encoded one, and `sort` stands for `sort.Sort(ByKey(..))`.  The number `R` of reduce
tasks is at least 1.
-/

namespace GoLab.MapReduce

structure KeyValue where
  key : Str
  value : Str
  deriving DecidableEq, Repr

abbrev MapFunc := Str → Str → List KeyValue
abbrev ReduceFunc := Str → List Str → Str

/-- `h.Write(..)` and `h.Sum32()` of `fnv.New32a()`. -/
def fnv32a (bytes : Str) : UInt32 :=
  bytes.foldl (fun hash byte => (hash ^^^ byte.toUInt32) * 16777619) 2166136261

def ihash (key : Str) : Nat :=
  (fnv32a key &&& 0x7fffffff).toNat

/-- The number of the reduce task for a key. -/
def reduceIDOf (r : UInt16) (key : Str) : UInt16 :=
  UInt16.ofNat (ihash key % r.toNat)

/-- The loop of `doMapWork` that distributes the records. -/
def reduceList (r : UInt16) (kva : List KeyValue) : List (List KeyValue) :=
  kva.foldl (fun lists kv => lists.modify (reduceIDOf r kv.key).toNat (· ++ [kv]))
    (List.replicate r.toNat [])

/-! ## The intermediate files -/

/-- The records of the files `mr-<w>-<r>` that exist. -/
abbrev Dir := WorkerID → Nat → Option (List KeyValue)

namespace Dir

def empty : Dir :=
  fun _ _ => none

def set (dir : Dir) (id : WorkerID) (rid : Nat) (records : List KeyValue) : Dir :=
  fun id' rid' => if id' = id ∧ rid' = rid then some records else dir id' rid'

/-- `createOrRemoveOld`. -/
def create (dir : Dir) (id : WorkerID) (rid : Nat) : Dir :=
  dir.set id rid []

end Dir

/-- What `doMapWork` does with its intermediate files. -/
inductive FileOp where
  | openFile (rid : Nat)
  | encode (rid : Nat) (kv : KeyValue)
  deriving DecidableEq, Repr

/-- The loop of `doMapWork` over the reduce tasks. -/
def mapOps (r : UInt16) (kva : List KeyValue) : List FileOp :=
  (List.range r.toNat).flatMap fun rid =>
    .openFile rid :: ((reduceList r kva)[rid]?.getD []).map (.encode rid)

/-- A file is opened for appending, which does not create it, or a record is appended.
`none` is a panic. -/
def Dir.exec (dir : Dir) (id : WorkerID) : FileOp → Option Dir
  | .openFile rid => (dir id rid).map fun _ => dir
  | .encode rid kv => (dir id rid).map fun records => dir.set id rid (records ++ [kv])

/-- `doMapWork` on the records of a file. -/
def doMapWork (dir : Dir) (id : WorkerID) (r : UInt16) (kva : List KeyValue) : Option Dir :=
  (mapOps r kva).foldlM (fun dir op => dir.exec id op) dir

/-- The records that `doReduceTask` collects when the directory lists these files. -/
def collect (json : KeyValue → KeyValue) (dir : Dir) (rid : Nat) (listing : List WorkerID) :
    List KeyValue :=
  listing.flatMap fun id => ((dir id rid).getD []).map json

/-! ## The loop over the sorted records -/

/-- The inner loop: the first index from `j` on with another key. -/
def groupEnd (intermediate : List KeyValue) (key : Str) : Nat → Nat → Nat
  | 0, j => j
  | fuel + 1, j =>
      match intermediate[j]? with
      | some kv => if key = kv.key then groupEnd intermediate key fuel (j + 1) else j
      | none => j

/-- The outer loop from `i` on: each key with its values. -/
def groupsFrom (intermediate : List KeyValue) : Nat → Nat → List (Str × List Str)
  | 0, _ => []
  | fuel + 1, i =>
      match intermediate[i]? with
      | some kv =>
          let j := groupEnd intermediate kv.key intermediate.length (i + 1)
          let values := ((intermediate.drop i).take (j - i)).map KeyValue.value
          (kv.key, values) :: groupsFrom intermediate fuel j
      | none => []

/-- The keys and what `reducef` makes of their values, in the order of the output. -/
def reduceAll (reducef : ReduceFunc) (intermediate : List KeyValue) : List (Str × Str) :=
  (groupsFrom intermediate intermediate.length 0).map fun (key, values) =>
    (key, reducef key values)

/-- The line `"%v %v\n"` for a key. -/
def outputLine (output : Str × Str) : Str :=
  output.1 ++ [32] ++ output.2 ++ [10]

/-- What `doReduceTask` writes to `mr-out-<rid>`. -/
def doReduceTask (sort : List KeyValue → List KeyValue) (json : KeyValue → KeyValue)
    (reducef : ReduceFunc) (dir : Dir) (rid : Nat) (listing : List WorkerID) : List (Str × Str) :=
  reduceAll reducef (sort (collect json dir rid listing))

/-- What `mrsequential` writes to `mr-out-0`. -/
def mrsequential (sort : List KeyValue → List KeyValue) (mapf : MapFunc) (reducef : ReduceFunc)
    (content : Str → Str) (files : List Str) : List (Str × Str) :=
  reduceAll reducef (sort (files.flatMap fun file => mapf file (content file)))

/-! ## What the loops compute -/

/-- The records for a reduce task. -/
def part (r : UInt16) (rid : Nat) (kva : List KeyValue) : List KeyValue :=
  kva.filter fun kv => (reduceIDOf r kv.key).toNat = rid

/-- The file a step of `doMapWork` is about. -/
def FileOp.rid : FileOp → Nat
  | .openFile rid => rid
  | .encode rid _ => rid

/-- The record that is appended to the file for `rid`. -/
def FileOp.record (rid : Nat) : FileOp → Option KeyValue
  | .openFile _ => none
  | .encode rid' kv => if rid' = rid then some kv else none

section

variable {r : UInt16} {kva : List KeyValue} {rid : Nat} {key : Str}

theorem reduceIDOf_toNat (positive : 0 < r.toNat) :
    (reduceIDOf r key).toNat = ihash key % r.toNat := by
  have small := r.toNat_lt
  have below := Nat.mod_lt (ihash key) positive
  rw [reduceIDOf, UInt16.toNat_ofNat']
  omega

theorem foldl_modify {place : KeyValue → Nat} {lists : List (List KeyValue)}
    {records : List KeyValue} (before : lists[rid]? = some records) :
    (kva.foldl (fun lists kv => lists.modify (place kv) (· ++ [kv])) lists)[rid]? =
      some (records ++ kva.filter (place · = rid)) := by
  induction kva generalizing lists records with
  | nil => simpa using before
  | cons kv kva ih =>
      rw [List.foldl_cons, List.filter_cons]
      by_cases same : place kv = rid
      · have after : (lists.modify (place kv) (· ++ [kv]))[rid]? = some (records ++ [kv]) := by
          simp [same, before]
        rw [ih after]
        simp [same]
      · have after : (lists.modify (place kv) (· ++ [kv]))[rid]? = some records := by
          simp [same, before]
        rw [ih after]
        simp [same]

theorem getElem?_reduceList (inside : rid < r.toNat) :
    (reduceList r kva)[rid]? = some (part r rid kva) := by
  have start : (List.replicate r.toNat ([] : List KeyValue))[rid]? = some [] := by
    simp [inside]
  exact foldl_modify start

theorem flatMap_range_single {count : Nat} {records : List KeyValue} (inside : rid < count) :
    ((List.range count).flatMap fun i => if i = rid then records else []) = records := by
  induction count with
  | zero => cases inside
  | succ count ih =>
      rw [List.range_succ, List.flatMap_append, List.flatMap_singleton]
      by_cases last : count = rid
      · have before : ((List.range count).flatMap fun i => if i = rid then records else []) = [] :=
          List.flatMap_eq_nil_iff.mpr fun i isBefore =>
            if_neg (by have := List.mem_range.mp isBefore; omega)
        rw [before, if_pos last, List.nil_append]
      · rw [ih (by omega), if_neg last, List.append_nil]

/-- Every record is appended to the file of its reduce task, in the order of `kva`. -/
theorem filterMap_record_mapOps (inside : rid < r.toNat) :
    (mapOps r kva).filterMap (FileOp.record rid) = part r rid kva := by
  have each (rid' : Nat) (isTask : rid' ∈ List.range r.toNat) :
      ((FileOp.openFile rid' ::
        ((reduceList r kva)[rid']?.getD []).map (FileOp.encode rid')).filterMap
        (FileOp.record rid)) = if rid' = rid then part r rid kva else [] := by
    rw [getElem?_reduceList (List.mem_range.mp isTask), Option.getD_some]
    by_cases same : rid' = rid
    · subst same
      have all : FileOp.record rid' ∘ FileOp.encode rid' = some := by
        funext kv
        exact if_pos rfl
      rw [List.filterMap_cons_none rfl, List.filterMap_map, all, List.filterMap_some, if_pos rfl]
    · have none : FileOp.record rid ∘ FileOp.encode rid' = fun _ => none := by
        funext kv
        exact if_neg same
      rw [List.filterMap_cons_none rfl, List.filterMap_map, none, List.filterMap_none, if_neg same]
  rw [mapOps, List.filterMap_flatMap, List.flatMap_congr each, flatMap_range_single inside]

theorem rid_mapOps {kva : List KeyValue} {op : FileOp} (inside : op ∈ mapOps r kva) :
    op.rid < r.toNat := by
  obtain ⟨rid, isTask, isOp⟩ := List.mem_flatMap.mp inside
  rcases List.mem_cons.mp isOp with rfl | isRecord
  · exact List.mem_range.mp isTask
  · obtain ⟨kv, -, rfl⟩ := List.mem_map.mp isRecord
    exact List.mem_range.mp isTask

/-- One step on a file that exists. -/
theorem Dir.exec_of_exists {dir : Dir} {id : WorkerID} {op : FileOp}
    (exist : dir id op.rid ≠ none) :
    ∃ dir', dir.exec id op = some dir' ∧ (∀ other, other ≠ id → dir' other = dir other) ∧
      ∀ rid, dir' id rid = (dir id rid).map (· ++ (op.record rid).toList) := by
  cases op with
  | openFile rid =>
      obtain ⟨records, found⟩ := Option.ne_none_iff_exists'.mp exist
      replace found : dir id rid = some records := found
      refine ⟨dir, by simp [Dir.exec, found], fun _ _ => rfl, fun rid' => ?_⟩
      simp [FileOp.record]
  | encode rid kv =>
      obtain ⟨records, found⟩ := Option.ne_none_iff_exists'.mp exist
      replace found : dir id rid = some records := found
      refine ⟨dir.set id rid (records ++ [kv]), by simp [Dir.exec, found], fun other differs => ?_,
        fun rid' => ?_⟩
      · funext rid'
        simp [Dir.set, differs]
      · by_cases same : rid' = rid
        · subst same
          simp [Dir.set, FileOp.record, found]
        · simp [Dir.set, FileOp.record, same, Ne.symm same]

end

/-- The groups of the loop are the runs of equal keys. -/
theorem groupEnd_spec (intermediate : List KeyValue) (key : Str) (fuel j : Nat)
    (enough : intermediate.length ≤ fuel + j) :
    ∃ group, intermediate.drop j = group ++ intermediate.drop (groupEnd intermediate key fuel j) ∧
      groupEnd intermediate key fuel j = j + group.length ∧
      (∀ kv ∈ group, kv.key = key) ∧
      ∀ kv ∈ (intermediate.drop (groupEnd intermediate key fuel j)).head?, kv.key ≠ key := by
  induction fuel generalizing j with
  | zero =>
      have past : intermediate.drop j = [] := List.drop_eq_nil_iff.mpr (by omega)
      exact ⟨[], rfl, rfl, nofun, by simp [groupEnd, past]⟩
  | succ fuel ih =>
      cases found : intermediate[j]? with
      | none =>
          have past : intermediate.drop j = [] :=
            List.drop_eq_nil_iff.mpr (List.getElem?_eq_none_iff.mp found)
          simp only [groupEnd, found]
          exact ⟨[], rfl, rfl, nofun, by simp [past]⟩
      | some kv =>
          have whole : intermediate.drop j = kv :: intermediate.drop (j + 1) := by
            obtain ⟨inside, isKv⟩ := List.getElem?_eq_some_iff.mp found
            rw [List.drop_eq_getElem_cons inside, isKv]
          simp only [groupEnd, found]
          by_cases same : key = kv.key
          · rw [if_pos same]
            obtain ⟨group, rest, ends, keys, stops⟩ := ih (j + 1) (by omega)
            refine ⟨kv :: group, ?_, ?_, ?_, stops⟩
            · rw [whole, rest, List.cons_append]
            · rw [ends, List.length_cons]
              omega
            · intro other inside
              rcases List.mem_cons.mp inside with rfl | later
              · exact same.symm
              · exact keys other later
          · rw [if_neg same]
            refine ⟨[], rfl, rfl, nofun, ?_⟩
            rw [whole]
            rintro other ⟨⟩
            exact Ne.symm same

theorem groupsFrom_grouped (intermediate : List KeyValue) (fuel i : Nat)
    (enough : intermediate.length ≤ fuel + i) :
    ∃ groups, Grouped KeyValue.key (intermediate.drop i) groups ∧
      groupsFrom intermediate fuel i =
        groups.map fun group => (group.1, group.2.map KeyValue.value) := by
  induction fuel generalizing i with
  | zero =>
      have past : intermediate.drop i = [] := List.drop_eq_nil_iff.mpr (by omega)
      exact ⟨[], past ▸ .nil, rfl⟩
  | succ fuel ih =>
      cases found : intermediate[i]? with
      | none =>
          have past : intermediate.drop i = [] :=
            List.drop_eq_nil_iff.mpr (List.getElem?_eq_none_iff.mp found)
          exact ⟨[], past ▸ .nil, by simp only [groupsFrom, found, List.map_nil]⟩
      | some kv =>
          obtain ⟨inside, isKv⟩ := List.getElem?_eq_some_iff.mp found
          have whole : intermediate.drop i = kv :: intermediate.drop (i + 1) := by
            rw [List.drop_eq_getElem_cons inside, isKv]
          obtain ⟨group, rest, ends, keys, stops⟩ :=
            groupEnd_spec intermediate kv.key intermediate.length (i + 1) (by omega)
          simp only [groupsFrom, found]
          generalize groupEnd intermediate kv.key intermediate.length (i + 1) = j at *
          obtain ⟨groups, others, isGroups⟩ := ih j (by omega)
          refine ⟨(kv.key, kv :: group) :: groups, ?_, ?_⟩
          · rw [whole, rest, ← List.cons_append]
            refine .cons (fun other inside => ?_) stops others
            rcases List.mem_cons.mp inside with rfl | later
            · rfl
            · exact keys other later
          · have taken : (intermediate.drop i).take (j - i) = kv :: group := by
              have size : j - i = (kv :: group).length := by
                rw [List.length_cons]
                omega
              rw [whole, rest, ← List.cons_append, size, List.take_left]
            simp only [taken, isGroups, List.map_cons]

end GoLab.MapReduce
