import GoLab.MapReduce.Worker

/-!
# The distributed job computes what the sequential one does

Workers make their intermediate files, each input file is mapped by one of them, and each
reduce task collects the records of its number from all workers.  The lines of all output
files are those of `mrsequential`.
-/

namespace GoLab.MapReduce

/-- The files `mr-<w>-<r>` that the workers make when they start. -/
def registerAll (r : UInt16) (workers : List WorkerID) : Dir :=
  workers.foldl (fun dir id => (List.range r.toNat).foldl (fun dir rid => dir.create id rid) dir)
    .empty

/-- The map tasks in the order in which the workers carry them out. -/
def mapAll (mapf : MapFunc) (content : Str → Str) (r : UInt16) (workers : List WorkerID)
    (assigned : List (WorkerID × Str)) : Option Dir :=
  assigned.foldlM (fun dir task => doMapWork dir task.1 r (mapf task.2 (content task.2)))
    (registerAll r workers)

/-- The directory lists the files of a reduce task, in any order. -/
structure Lists (dir : Dir) (rid : Nat) (listing : List WorkerID) : Prop where
  once : listing.Nodup
  all : ∀ id, id ∈ listing ↔ dir id rid ≠ none

/-- What is assumed of `sort.Sort(ByKey(..))`. -/
structure Sorts (sort : List KeyValue → List KeyValue) : Prop where
  perm : ∀ records, (sort records).Perm records
  sorted : ∀ records, (sort records).Pairwise fun a b => ¬ b.key < a.key

section

variable {dir : Dir} {r : UInt16} {rid : Nat} {id : WorkerID} {workers : List WorkerID}

/-! ## The map tasks -/

theorem Dir.foldl_create (rids : List Nat) :
    rids.foldl (fun dir rid => dir.create id rid) dir =
      fun id' rid => if id' = id ∧ rid ∈ rids then some [] else dir id' rid := by
  induction rids generalizing dir with
  | nil => simp
  | cons first rest ih =>
      rw [List.foldl_cons, ih]
      funext id' rid
      simp only [Dir.create, Dir.set, List.mem_cons]
      by_cases isID : id' = id <;> by_cases isRest : rid ∈ rest <;> simp [isID, isRest]

theorem registerAll_eq : registerAll r workers id rid =
    if id ∈ workers ∧ rid < r.toNat then some [] else none := by
  have general (dir : Dir) : (workers.foldl (fun dir id =>
      (List.range r.toNat).foldl (fun dir rid => dir.create id rid) dir) dir) id rid =
        if id ∈ workers ∧ rid < r.toNat then some [] else dir id rid := by
    induction workers generalizing dir with
    | nil => simp
    | cons first rest ih =>
        rw [List.foldl_cons, ih, Dir.foldl_create]
        by_cases isFirst : id = first <;> by_cases inside : rid < r.toNat <;> simp [isFirst, inside]
  exact general .empty

/-- The steps of a task append its records to the files of its worker. -/
theorem Dir.exec_all (ops : List FileOp) (exist : ∀ op ∈ ops, dir id op.rid ≠ none) :
    ∃ dir', ops.foldlM (fun dir op => dir.exec id op) dir = some dir' ∧
      (∀ other, other ≠ id → dir' other = dir other) ∧
      ∀ rid, dir' id rid = (dir id rid).map (· ++ ops.filterMap (FileOp.record rid)) := by
  induction ops generalizing dir with
  | nil => exact ⟨dir, rfl, fun _ _ => rfl, fun rid => by simp⟩
  | cons op ops ih =>
      obtain ⟨next, executed, others, own⟩ := Dir.exec_of_exists (exist op (List.mem_cons_self ..))
      have stillExist (op' : FileOp) (inside : op' ∈ ops) : next id op'.rid ≠ none := by
        rw [own]
        simpa using exist op' (List.mem_cons_of_mem _ inside)
      obtain ⟨dir', rest, restOthers, restOwn⟩ := ih stillExist
      refine ⟨dir', ?_, fun other differs => ?_, fun rid => ?_⟩
      · rw [List.foldlM_cons, executed]
        exact rest
      · rw [restOthers other differs, others other differs]
      · rw [restOwn, own, Option.map_map]
        refine congrArg (Option.map · (dir id rid)) (funext fun records => ?_)
        cases record : op.record rid with
        | none => simp [record]
        | some kv => simp [record]

theorem doMapWork_of_exists (kva : List KeyValue)
    (exist : ∀ rid < r.toNat, dir id rid ≠ none) :
    ∃ dir', doMapWork dir id r kva = some dir' ∧ (∀ other, other ≠ id → dir' other = dir other) ∧
      ∀ rid < r.toNat, dir' id rid = (dir id rid).map (· ++ part r rid kva) := by
  obtain ⟨dir', result, others, own⟩ := Dir.exec_all (mapOps r kva)
    fun op inside => exist op.rid (rid_mapOps inside)
  refine ⟨dir', result, others, fun rid inside => ?_⟩
  rw [own, filterMap_record_mapOps inside]

variable {mapf : MapFunc} {content : Str → Str} {assigned : List (WorkerID × Str)}

/-- What one worker has written of the tasks that were assigned. -/
def written (mapf : MapFunc) (content : Str → Str) (r : UInt16) (id : WorkerID) (rid : Nat)
    (assigned : List (WorkerID × Str)) : List KeyValue :=
  (assigned.filter (·.1 = id)).flatMap fun task => part r rid (mapf task.2 (content task.2))

theorem foldlM_doMapWork (mapf : MapFunc) (content : Str → Str)
    (exist : ∀ task ∈ assigned, ∀ rid < r.toNat, dir task.1 rid ≠ none) :
    ∃ dir', assigned.foldlM
        (fun dir task => doMapWork dir task.1 r (mapf task.2 (content task.2))) dir = some dir' ∧
      ∀ id, ∀ rid < r.toNat,
        dir' id rid = (dir id rid).map (· ++ written mapf content r id rid assigned) := by
  induction assigned generalizing dir with
  | nil => exact ⟨dir, rfl, fun id rid _ => by simp [written]⟩
  | cons task rest ih =>
      obtain ⟨next, executed, others, own⟩ := doMapWork_of_exists (mapf task.2 (content task.2))
        (exist task (List.mem_cons_self ..))
      have step (id : WorkerID) (rid : Nat) (inside : rid < r.toNat) : next id rid =
          (dir id rid).map (· ++ written mapf content r id rid [task]) := by
        by_cases same : task.1 = id
        · subst same
          simp [own rid inside, written]
        · simp [others id (Ne.symm same), written, same]
      have stillExist (task' : WorkerID × Str) (isRest : task' ∈ rest) (rid : Nat)
          (inside : rid < r.toNat) : next task'.1 rid ≠ none := by
        rw [step _ _ inside]
        simpa using exist task' (List.mem_cons_of_mem _ isRest) rid inside
      obtain ⟨dir', result, restOwn⟩ := ih stillExist
      refine ⟨dir', ?_, fun id rid inside => ?_⟩
      · rw [List.foldlM_cons, executed]
        exact result
      · rw [restOwn id rid inside, step id rid inside, Option.map_map]
        refine congrArg (Option.map · (dir id rid)) (funext fun records => ?_)
        simp only [Function.comp_apply, List.append_assoc, written, ← List.flatMap_append,
          ← List.filter_append, List.singleton_append]

/-- The files after all map tasks. -/
theorem mapAll_eq (mapf : MapFunc) (content : Str → Str) (r : UInt16)
    (registered : ∀ task ∈ assigned, task.1 ∈ workers) :
    ∃ dir, mapAll mapf content r workers assigned = some dir ∧ ∀ id, ∀ rid < r.toNat,
      dir id rid = if id ∈ workers then some (written mapf content r id rid assigned)
        else none := by
  have exist (task : WorkerID × Str) (inside : task ∈ assigned) (rid : Nat)
      (isTask : rid < r.toNat) : registerAll r workers task.1 rid ≠ none := by
    rw [registerAll_eq, if_pos ⟨registered task inside, isTask⟩]
    exact nofun
  obtain ⟨dir, result, files⟩ := foldlM_doMapWork mapf content exist
  refine ⟨dir, result, fun id rid inside => ?_⟩
  rw [files id rid inside, registerAll_eq]
  by_cases known : id ∈ workers <;> simp [known, inside]

/-! ## The reduce tasks -/

variable {files : List Str} {json : KeyValue → KeyValue} {listing : List WorkerID}

/-- All records the input files are mapped to. -/
def emitted (mapf : MapFunc) (content : Str → Str) (files : List Str) : List KeyValue :=
  files.flatMap fun file => mapf file (content file)

/-- What the workers have written for a reduce task, each file once. -/
theorem flatMap_written_perm (each : (assigned.map Prod.snd).Perm files) (once : listing.Nodup)
    (listed : ∀ task ∈ assigned, task.1 ∈ listing) :
    (listing.flatMap fun id => written mapf content r id rid assigned).Perm
      (part r rid (emitted mapf content files)) := by
  unfold written
  rw [← List.flatMap_assoc]
  refine ((flatMap_filter_perm once listed).flatMap_right _).trans ?_
  have byFile := each.flatMap_right fun file => part r rid (mapf file (content file))
  rw [List.flatMap_map] at byFile
  refine byFile.trans (List.Perm.of_eq ?_)
  rw [part, emitted, List.filter_flatMap]
  rfl

theorem map_json_of_faithful {records : List KeyValue}
    (faithful : ∀ kv ∈ emitted mapf content files, json kv = kv)
    (inside : ∀ kv ∈ records, kv ∈ emitted mapf content files) : records.map json = records :=
  (List.map_congr_left fun kv isRecord => faithful kv (inside kv isRecord)).trans (List.map_id _)

/-- A reduce task collects the records of its number, each once. -/
theorem collect_perm (each : (assigned.map Prod.snd).Perm files)
    (registered : ∀ task ∈ assigned, task.1 ∈ workers)
    (faithful : ∀ kv ∈ emitted mapf content files, json kv = kv)
    (isDir : ∀ id, dir id rid = if id ∈ workers then
      some (written mapf content r id rid assigned) else none)
    (lists : Lists dir rid listing) :
    (collect json dir rid listing).Perm (part r rid (emitted mapf content files)) := by
  have isListed (id : WorkerID) : id ∈ listing ↔ id ∈ workers := by
    rw [lists.all, isDir]
    by_cases known : id ∈ workers <;> simp [known]
  have all : (listing.flatMap fun id => written mapf content r id rid assigned).Perm
      (part r rid (emitted mapf content files)) :=
    flatMap_written_perm each lists.once fun task inside =>
      (isListed _).mpr (registered task inside)
  have collected : collect json dir rid listing =
      (listing.flatMap fun id => written mapf content r id rid assigned).map json := by
    rw [collect, List.map_flatMap]
    refine List.flatMap_congr fun id isID => ?_
    rw [isDir, if_pos ((isListed id).mp isID), Option.getD_some]
  rw [collected, map_json_of_faithful faithful fun kv inside => ?_]
  · exact all
  · exact (List.mem_filter.mp (all.subset inside)).1

variable {sort : List KeyValue → List KeyValue} {reducef : ReduceFunc} {records : List KeyValue}

/-- A key with what `reducef` makes of the values of its records. -/
def reduced (reducef : ReduceFunc) (key : Str) (records : List KeyValue) : Str × Str :=
  (key, reducef key (records.map KeyValue.value))

/-- The loop over the sorted records carries out `reducef` once for each key. -/
theorem reduceAll_sort (sorts : Sorts sort)
    (unordered : ∀ key values other, values.Perm other → reducef key values = reducef key other)
    {all : List KeyValue} (perm : records.Perm all) :
    (reduceAll reducef (sort records)).Perm (collate KeyValue.key (reduced reducef) all) ∧
      ((reduceAll reducef (sort records)).map Prod.fst).Nodup ∧
      ∀ key, key ∈ (reduceAll reducef (sort records)).map Prod.fst ↔
        key ∈ all.map KeyValue.key := by
  have antisymm (x y : Str) (notAfter : ¬ y < x) (notBefore : ¬ x < y) : x = y :=
    List.le_antisymm notAfter notBefore
  have sortedPerm := (sorts.perm records).trans perm
  obtain ⟨groups, grouped, isGroups⟩ :=
    groupsFrom_grouped (sort records) (sort records).length 0 (by omega)
  rw [List.drop_zero] at grouped
  have outputs : reduceAll reducef (sort records) =
      groups.map fun group => reduced reducef group.1 group.2 := by
    rw [reduceAll, isGroups, List.map_map]
    rfl
  have keys : (reduceAll reducef (sort records)).map Prod.fst = groups.map Prod.fst := by
    rw [outputs, List.map_map]
    rfl
  rw [keys, outputs]
  refine ⟨grouped.perm_collate antisymm (fun key items other same => ?_) (sorts.sorted records)
    sortedPerm, (grouped.of_sorted antisymm (sorts.sorted records)).1, fun key => ?_⟩
  · exact congrArg (Prod.mk key) (unordered key _ _ (same.map KeyValue.value))
  · rw [grouped.mem_keys]
    exact (sortedPerm.map KeyValue.key).mem_iff

end

/-- A sort by key. -/
def sortByKey (records : List KeyValue) : List KeyValue :=
  records.mergeSort fun a b => decide (a.key ≤ b.key)

theorem sorts_sortByKey : Sorts sortByKey where
  perm := fun records => List.mergeSort_perm ..
  sorted := fun records => by
    have sorted : (sortByKey records).Pairwise fun a b => decide (a.key ≤ b.key) = true :=
      List.pairwise_mergeSort
        (fun a b c ab bc => by simpa using List.le_trans (by simpa using ab) (by simpa using bc))
        (fun a b => by simpa using List.le_total a.key b.key) records
    exact sorted.imp fun le => by simpa using le

/-- Every letter is a word, and a word is counted in strokes. -/
def letters : MapFunc :=
  fun _ text => text.map fun letter => ⟨[letter], [49]⟩

def strokes : ReduceFunc :=
  fun _ values => List.replicate values.length 124

end GoLab.MapReduce
