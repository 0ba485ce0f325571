import GoLab.MapReduce.Coordinator

/-!
# No task is lost and none is there twice

Every task that has been released is in the queue, held by one registered worker, or
accepted as finished.  The counters of the stages count the tasks that are not accepted.
-/

namespace GoLab.MapReduce

open Custody (InOnePlace Conserves unfinished)

/-! ## The tasks of a job -/

/-- The place of a task among those of its kind. -/
def Task.number : Task → Nat
  | .map number _ => number
  | .reduce reduceID => reduceID.toNat

section

variable {files : List Str} {nReduce : UInt16} {number : Nat} {file : Str} {reduceID : ReduceID}

theorem map_number_mapTasks : (mapTasks files).map Task.number = List.range files.length := by
  have numbers : Task.number ∘ (fun entry : Str × Nat => Task.map entry.2 entry.1) = Prod.snd := rfl
  rw [mapTasks, List.map_map, numbers, List.zipIdx_map_snd, List.range_eq_range']

theorem map_number_reduceTasks :
    (reduceTasks nReduce).map Task.number = List.range nReduce.toNat := by
  have small := nReduce.toNat_lt
  rw [reduceTasks, List.map_map]
  refine List.ext_getElem (by simp) fun i inside _ => ?_
  rw [List.length_map, List.length_range] at inside
  simp only [List.getElem_map, List.getElem_range, Function.comp_apply, Task.number,
    UInt16.toNat_ofNat']
  omega

theorem nodup_of_map_number {tasks : List Task} {count : Nat}
    (numbers : tasks.map Task.number = List.range count) : tasks.Nodup := by
  have nodup : (tasks.map Task.number).Nodup := numbers ▸ List.nodup_range
  exact List.Pairwise.of_map Task.number (fun _ _ differ same => differ (congrArg _ same)) nodup

theorem number_lt_of_mem_reduceTasks {task : Task}
    (inside : task ∈ reduceTasks nReduce) :
    task.number < nReduce.toNat := by
  have isNumber : task.number ∈ (reduceTasks nReduce).map Task.number := List.mem_map_of_mem inside
  rw [map_number_reduceTasks] at isNumber
  exact List.mem_range.mp isNumber

theorem reduce_notMem_mapTasks : Task.reduce reduceID ∉ mapTasks files := by
  simp [mapTasks]

theorem map_notMem_reduceTasks : Task.map number file ∉ reduceTasks nReduce := by
  simp [reduceTasks]

theorem length_mapTasks : (mapTasks files).length = files.length := by
  simp [mapTasks]

theorem length_reduceTasks : (reduceTasks nReduce).length = nReduce.toNat := by
  simp [reduceTasks]

end

/-! ## Conservation -/

/-- The tasks that have been released. -/
def released (files : List Str) (c : Coordinator) : List Task :=
  match c.workingStage with
  | .mapping | .mapWaiting => mapTasks files
  | .reducing | .reduceWaiting | .done => mapTasks files ++ reduceTasks c.nReduce

/-- The released map tasks. -/
theorem mem_mapTasks_of_released {files : List Str} {c : Coordinator} {number : Nat} {file : Str}
    (inside : .map number file ∈ released files c) : .map number file ∈ mapTasks files := by
  unfold released at inside
  split at inside
  case h_1 | h_2 => exact inside
  all_goals exact (List.mem_append.mp inside).resolve_right map_notMem_reduceTasks

/-- The released reduce tasks. -/
theorem mem_reduceTasks_of_released {files : List Str} {c : Coordinator} {reduceID : ReduceID}
    (inside : .reduce reduceID ∈ released files c) : .reduce reduceID ∈ reduceTasks c.nReduce := by
  unfold released at inside
  split at inside
  case h_1 | h_2 => exact (reduce_notMem_mapTasks inside).elim
  all_goals exact (List.mem_append.mp inside).resolve_left reduce_notMem_mapTasks

/-- The tasks in `kept` have been released and are in one place each, there are no others,
and the counters and the stage go with the accepted ones. -/
structure Counted (files : List Str) (nReduce : Nat) (kept : List Task) (job : Job) : Prop where
  nReduce : job.c.nReduce = UInt16.ofNat nReduce
  conserves : Conserves job.custody kept
  isReleased : ∀ task ∈ kept, task ∈ released files job.c
  mappingCount : job.c.unfinishedMappingCount.toNat =
    unfinished (mapTasks files) job.custody.done
  reducingCount : job.c.unfinishedReducingCount.toNat =
    unfinished (reduceTasks job.c.nReduce) job.custody.done
  mapping : job.c.workingStage = .mapping ∨
    (job.c.workingStage = .reducing ∨ job.c.workingStage = .done) ∧
      ∀ task ∈ mapTasks files, task ∈ job.custody.done
  done : job.c.workingStage = .done →
    ∀ task ∈ reduceTasks job.c.nReduce, task ∈ job.custody.done

/-- No released task has been lost. -/
def Conserved (files : List Str) (nReduce : Nat) (job : Job) : Prop :=
  Counted files nReduce (released files job.c) job

section

variable {files : List Str} {nReduce : Nat} {job job' : Job} {c c' : Coordinator} {task : Task}
  {id : WorkerID} {label : Label} {reply : Option RpcReply} {worker : Option CWorker}

theorem taskOf_setWorker (job : Job) (id : WorkerID) (worker : Option CWorker) :
    (job.c.setWorker id worker).taskOf = job.custody.update id (worker.bind CWorker.task) := by
  funext other
  simp only [Coordinator.taskOf, Coordinator.setWorker, Custody.update]
  split
  case isTrue => rfl
  case isFalse => rfl

/-- Where the tasks are when the record of a worker and the queue have changed. -/
theorem custody_setWorker (job : Job) (id : WorkerID) (worker : Option CWorker)
    (tasks : List Task) :
    ({ job with c := { job.c.setWorker id worker with tasks } } : Job).custody =
      ⟨tasks, job.custody.update id (worker.bind CWorker.task), job.custody.done⟩ :=
  congrArg (Custody.mk tasks · job.custody.done) (taskOf_setWorker job id worker)

theorem held_custody (job : Job) {worker : CWorker} (known : job.c.workers id = some worker) :
    job.custody.held id = worker.task := by
  simp [Job.custody, Coordinator.taskOf, known]

/-- What `FinishTask` does not touch under the lock of the stage. -/
theorem Accepts.frame (accepts : Accepts c task c') : c'.workers = c.workers ∧
    c'.workerIDAcc = c.workerIDAcc ∧ c'.nReduce = c.nReduce := by
  cases accepts with
  | map | lastMap | reduce | lastReduce => exact ⟨rfl, rfl, rfl⟩

/-! ## The numbers of the workers -/

/-- What a step does to the workers that are registered and to the calls of
`RegisterWorker` under way. -/
inductive Registers (job job' : Job) : Label → Prop where
  | register (registering : job'.registering = job.registering ++ [job.c.newWorkerID])
      (acc : job'.c.workerIDAcc = job.c.workerIDAcc + 1)
      (workers : job'.c.workers = job.c.workers) : Registers job job' .register
  | add {id : WorkerID} (inside : id ∈ job.registering)
      (registering : job'.registering = job.registering.erase id)
      (acc : job'.c.workerIDAcc = job.c.workerIDAcc)
      (workers : ∀ other, other ≠ id → job'.c.workers other = job.c.workers other) :
      Registers job job' (.add id)
  | other {label : Label} (registering : job'.registering = job.registering)
      (acc : job'.c.workerIDAcc = job.c.workerIDAcc)
      (known : ∀ id, job'.c.workers id ≠ none → job.c.workers id ≠ none) :
      Registers job job' label

/-- The record of a worker is changed or deleted. -/
theorem Registers.setWorker (known : job.c.workers id ≠ none)
    (others : ∀ other, other ≠ id → job'.c.workers other = job.c.workers other)
    (registering : job'.registering = job.registering)
    (acc : job'.c.workerIDAcc = job.c.workerIDAcc) : Registers job job' label := by
  refine .other registering acc fun other isKnown => ?_
  by_cases same : other = id
  · exact same ▸ known
  · exact others other same ▸ isKnown

theorem Moves.registers (moved : Moves job label job' reply) : Registers job job' label := by
  cases moved with
  | register => exact .register rfl rfl rfl
  | add inside => exact .add inside rfl rfl fun _ differs => if_neg differs
  | noMoreTask | ask | takeInvalid | takePanic | takeNoop | finishInvalid | finishPanic
  | heartBeat | expireNobody => exact .other rfl rfl fun _ known => known
  | take _ idle _ => exact .setWorker (by simp [idle]) (fun _ differs => if_neg differs) rfl rfl
  | finish busy accepts =>
      obtain ⟨workers, acc, -⟩ := accepts.frame
      exact .setWorker (by simp [busy])
        (fun other differs => (if_neg differs).trans (congrFun workers other)) rfl acc
  | expireIdle known | expireBusy known =>
      exact .setWorker (by simp [known]) (fun _ differs => if_neg differs) rfl rfl

/-- The numbers that are being registered are those of no registered worker, each its own. -/
structure Distinct (job : Job) : Prop where
  unknown : ∀ id ∈ job.registering, job.c.workers id = none
  once : job.registering.Nodup

/-- The number of a worker that registers is new. -/
def freshID (job : Job) : Label → Prop
  | .register => job.c.newWorkerID ∉ job.registering ∧ job.c.workers job.c.newWorkerID = none
  | _ => True

theorem Distinct.step (distinct : Distinct job) (fresh : freshID job label)
    (registers : Registers job job' label) : Distinct job' := by
  cases registers with
  | register registering _ workers =>
      obtain ⟨notPending, unknown⟩ := fresh
      refine ⟨fun id inside => ?_, ?_⟩
      · rw [workers]
        rw [registering, List.mem_append, List.mem_singleton] at inside
        rcases inside with pending | rfl
        · exact distinct.unknown id pending
        · exact unknown
      · rw [registering, List.nodup_append]
        refine ⟨distinct.once, by simp, fun id pending other isNew same => ?_⟩
        rw [same, List.mem_singleton.mp isNew] at pending
        exact notPending pending
  | add inside registering _ workers =>
      refine ⟨fun other pending => ?_, registering ▸ distinct.once.erase _⟩
      rw [registering] at pending
      obtain ⟨differs, pending⟩ := distinct.once.mem_erase_iff.mp pending
      rw [workers other differs]
      exact distinct.unknown other pending
  | other registering _ known =>
      refine ⟨fun id pending => ?_, registering ▸ distinct.once⟩
      refine Decidable.byContradiction fun isKnown => known id isKnown ?_
      exact distinct.unknown id (registering ▸ pending)

/-- The registered workers have their numbers from the counter, each its own. -/
structure Numbered (job : Job) : Prop where
  few : job.c.workerIDAcc.toNat < 2 ^ 16
  added : ∀ id, job.c.workers id ≠ none →
    id.toNat ≤ job.c.workerIDAcc.toNat ∧ id ∉ job.registering
  pending : ∀ id ∈ job.registering, id.toNat ≤ job.c.workerIDAcc.toNat
  once : job.registering.Nodup

namespace Numbered

theorem init : Numbered (Job.init files nReduce) where
  few := Nat.zero_lt_succ _
  added := fun _ known => (known rfl).elim
  pending := nofun
  once := List.nodup_nil

theorem newWorkerID_toNat (few : job.c.workerIDAcc.toNat + 1 < 2 ^ 16) :
    job.c.newWorkerID.toNat = job.c.workerIDAcc.toNat + 1 ∧
      (job.c.workerIDAcc + 1).toNat = job.c.workerIDAcc.toNat + 1 := by
  have one : (1 : UInt32).toNat = 1 := rfl
  simp only [Coordinator.newWorkerID, UInt32.toNat_toUInt16, UInt32.toNat_add, one]
  omega

theorem distinct (numbered : Numbered job) : Distinct job where
  unknown := fun id pending =>
    Decidable.byContradiction fun known => (numbered.added id known).2 pending
  once := numbered.once

/-- The counter gives numbers that have not been given before. -/
theorem freshID (numbered : Numbered job) (few : fewWorkers job label) : freshID job label := by
  cases label with
  | register =>
      obtain ⟨newID, -⟩ := newWorkerID_toNat few
      refine ⟨fun pending => ?_, Decidable.byContradiction fun known => ?_⟩
      · have atMost := numbered.pending _ pending
        omega
      · have atMost := (numbered.added _ known).1
        omega
  | add | ask | take | finish | heartBeat | expire => trivial

theorem moves (numbered : Numbered job) (allowed : fewWorkers job label)
    (moved : Moves job label job' reply) : Numbered job' := by
  have distinct := numbered.distinct.step (numbered.freshID allowed) moved.registers
  have notPending (id : WorkerID) (known : job'.c.workers id ≠ none) : id ∉ job'.registering :=
    fun pending => known (distinct.unknown id pending)
  cases moved.registers with
  | register registering acc workers =>
      obtain ⟨newID, newAcc⟩ := newWorkerID_toNat allowed
      rw [← acc] at newAcc
      refine ⟨newAcc ▸ allowed, fun id known => ⟨?_, notPending id known⟩, fun id inside => ?_,
        distinct.once⟩
      · have atMost := (numbered.added id (workers ▸ known)).1
        omega
      · rw [registering, List.mem_append, List.mem_singleton] at inside
        rcases inside with pending | rfl
        · have atMost := numbered.pending id pending
          omega
        · omega
  | @add id inside registering acc workers =>
      refine ⟨acc ▸ numbered.few, fun other known => ⟨?_, notPending other known⟩,
        fun other pending => ?_, distinct.once⟩
      · rw [acc]
        by_cases same : other = id
        · exact same ▸ numbered.pending id inside
        · exact (numbered.added other (workers other same ▸ known)).1
      · rw [registering] at pending
        exact acc ▸ numbered.pending other (List.mem_of_mem_erase pending)
  | other registering acc known =>
      refine ⟨acc ▸ numbered.few, fun id isKnown => ⟨?_, notPending id isKnown⟩,
        fun id pending => ?_, distinct.once⟩
      · exact acc ▸ (numbered.added id (known id isKnown)).1
      · exact acc ▸ numbered.pending id (registering ▸ pending)

end Numbered

/-! ## The tasks -/

/-- The step does not replace the record of a worker that has a task. -/
def keepsTasks (job : Job) : Label → Prop
  | .add id => job.c.taskOf id = none
  | _ => True

instance (job : Job) : (label : Label) → Decidable (keepsTasks job label)
  | .add _ => inferInstanceAs (Decidable (_ = none))
  | .register | .ask _ | .take _ | .finish _ | .heartBeat _ | .expire _ => .isTrue trivial

theorem Distinct.keepsTasks (distinct : Distinct job) (moved : Moves job label job' reply) :
    keepsTasks job label := by
  cases moved with
  | @add id inside => simp [MapReduce.keepsTasks, Coordinator.taskOf, distinct.unknown id inside]
  | register | noMoreTask | ask | takeInvalid | takePanic | takeNoop | take | finishInvalid
  | finishPanic | finish | heartBeat | expireNobody | expireIdle | expireBusy => trivial

namespace Counted

variable {kept : List Task}

theorem init (few : files.length < 2 ^ 16) :
    Counted files nReduce (mapTasks files) (Job.init files nReduce) where
  nReduce := rfl
  conserves := by
    have start : Conserves (⟨[], fun _ => none, []⟩ : Custody Task WorkerID) [] :=
      Custody.conserves_nil
    exact start.release (fun _ _ => List.not_mem_nil) (nodup_of_map_number map_number_mapTasks)
  isReleased := fun _ inside => inside
  mappingCount := by
    refine Eq.trans ?_ (Custody.unfinished_nil.trans length_mapTasks).symm
    exact (UInt16.toNat_ofNat' ..).trans (Nat.mod_eq_of_lt few)
  reducingCount := (Custody.unfinished_nil.trans length_reduceTasks).symm
  mapping := .inl rfl
  done := nofun

/-- Tasks move between the queue and the workers, or one is lost. -/
theorem moved (counted : Counted files nReduce kept job) {kept' : List Task}
    (conserves : Conserves job'.custody kept') (subset : ∀ task ∈ kept', task ∈ kept)
    (accepted : job'.accepted = job.accepted)
    (stage : job'.c.workingStage = job.c.workingStage) (reduces : job'.c.nReduce = job.c.nReduce)
    (maps : job'.c.unfinishedMappingCount = job.c.unfinishedMappingCount)
    (left : job'.c.unfinishedReducingCount = job.c.unfinishedReducingCount) :
    Counted files nReduce kept' job' := by
  have done : job'.custody.done = job.custody.done := congrArg (List.map Prod.snd) accepted
  refine ⟨reduces.trans counted.nReduce, conserves, ?_, ?_, ?_, ?_, ?_⟩
  · rw [released, stage, reduces]
    exact fun task inside => counted.isReleased task (subset task inside)
  · rw [done, maps]
    exact counted.mappingCount
  · rw [done, left, reduces]
    exact counted.reducingCount
  · rw [done, stage]
    exact counted.mapping
  · rw [done, stage, reduces]
    exact counted.done

theorem pred_toNat {count : UInt16} {left : Nat} (isCount : left + 1 = count.toNat) :
    (count - 1).toNat = left := by
  have one : (1 : UInt16).toNat = 1 := rfl
  rw [UInt16.toNat_sub_of_le _ _ (by rw [UInt16.le_iff_toNat_le]; omega)]
  omega

section

variable (counted : Counted files nReduce kept job)
include counted

theorem isMapping (stage : job.c.workingStage = .mapping ∨ job.c.workingStage = .mapWaiting) :
    job.c.workingStage = .mapping := by
  rcases counted.mapping with isMapping | ⟨later | later, -⟩
  · exact isMapping
  · rcases stage with stage | stage <;> cases stage.symm.trans later
  · rcases stage with stage | stage <;> cases stage.symm.trans later

theorem isReducing (stage : job.c.workingStage = .reducing ∨ job.c.workingStage = .reduceWaiting) :
    job.c.workingStage = .reducing ∧ ∀ task ∈ mapTasks files, task ∈ job.custody.done := by
  rcases counted.mapping with isMapping | ⟨later | later, mapped⟩
  · rcases stage with stage | stage <;> cases stage.symm.trans isMapping
  · exact ⟨later, mapped⟩
  · rcases stage with stage | stage <;> cases stage.symm.trans later

/-- The counters when a map task is done. -/
theorem counts_map {number : Nat} {file : Str} (known : .map number file ∈ kept)
    (notDone : .map number file ∉ job.custody.done) :
    (job.c.unfinishedMappingCount - 1).toNat =
        unfinished (mapTasks files) (job.custody.done ++ [.map number file]) ∧
      job.c.unfinishedReducingCount.toNat =
        unfinished (reduceTasks job.c.nReduce) (job.custody.done ++ [.map number file]) := by
  have inside := mem_mapTasks_of_released (counted.isReleased _ known)
  have fewer := Custody.unfinished_done (nodup_of_map_number map_number_mapTasks) inside notDone
  refine ⟨pred_toNat (fewer.trans counted.mappingCount.symm), ?_⟩
  rw [Custody.unfinished_other map_notMem_reduceTasks]
  exact counted.reducingCount

/-- The counters when a reduce task is done. -/
theorem counts_reduce {reduceID : ReduceID} (known : .reduce reduceID ∈ kept)
    (notDone : .reduce reduceID ∉ job.custody.done) :
    (job.c.unfinishedReducingCount - 1).toNat =
        unfinished (reduceTasks job.c.nReduce) (job.custody.done ++ [.reduce reduceID]) ∧
      job.c.unfinishedMappingCount.toNat =
        unfinished (mapTasks files) (job.custody.done ++ [.reduce reduceID]) := by
  have inside := mem_reduceTasks_of_released (counted.isReleased _ known)
  have fewer := Custody.unfinished_done (nodup_of_map_number map_number_reduceTasks) inside notDone
  refine ⟨pred_toNat (fewer.trans counted.reducingCount.symm), ?_⟩
  rw [Custody.unfinished_other reduce_notMem_mapTasks]
  exact counted.mappingCount

end

/-- Where the tasks are after `FinishTask`. -/
theorem custody_finish (id : WorkerID) (accepts : Accepts job.c task c) :
    ({ job with
      c := c.setWorker id (some ⟨none⟩)
      accepted := job.accepted ++ [(id, task)] } : Job).custody =
      ⟨c.tasks, job.custody.update id none, job.custody.done ++ [task]⟩ := by
  have held : (c.setWorker id (some ⟨none⟩)).taskOf = job.custody.update id none := by
    refine Eq.trans ?_ (taskOf_setWorker job id (some ⟨none⟩))
    unfold Coordinator.taskOf Coordinator.setWorker
    rw [accepts.frame.1]
  simp only [Job.custody, List.map_append, List.map_cons, List.map_nil, Custody.mk.injEq, and_true]
  exact ⟨rfl, held⟩

/-- A task is accepted as finished; with the last map task the reduce tasks are released. -/
theorem finish (counted : Counted files nReduce kept job)
    (busy : job.c.workers id = some ⟨some task⟩) (accepts : Accepts job.c task c) :
    ∃ kept', Counted files nReduce kept' { job with
        c := c.setWorker id (some ⟨none⟩)
        accepted := job.accepted ++ [(id, task)] } ∧
      (kept = released files job.c → kept' = released files c) := by
  have holds := held_custody job busy
  have known := counted.conserves.known task (.held holds)
  obtain ⟨-, -, notDone⟩ := (counted.conserves.placed task known).of_held holds
  have finished := counted.conserves.finish holds
  have custody := custody_finish id accepts
  have isReleased := counted.isReleased
  have grows {tasks : List Task} (done : ∀ task ∈ tasks, task ∈ job.custody.done) (other : Task)
      (inside : other ∈ tasks) : other ∈ job.custody.done ++ [task] :=
    List.mem_append_left _ (done other inside)
  cases accepts with
  | map stage left =>
      have isMapping := counted.isMapping stage
      obtain ⟨maps, reduces⟩ := counted.counts_map known notDone
      exact ⟨kept, ⟨counted.nReduce, custody ▸ finished, isReleased, custody ▸ maps,
        custody ▸ reduces, .inl isMapping, fun done => nomatch isMapping.symm.trans done⟩,
        fun all => all⟩
  | lastMap stage last =>
      have isMapping := counted.isMapping stage
      obtain ⟨maps, reduces⟩ := counted.counts_map known notDone
      rw [released, isMapping] at isReleased
      refine ⟨kept ++ reduceTasks job.c.nReduce, ⟨counted.nReduce, custody ▸ ?_,
        fun task inside => ?_, custody ▸ maps, custody ▸ reduces,
        .inr ⟨.inl rfl, custody ▸ fun task inside => ?_⟩, nofun⟩, fun all => ?_⟩
      · refine finished.release (fun task isReduce isKept => ?_)
          (nodup_of_map_number map_number_reduceTasks)
        have isMap := isReleased task isKept
        cases task with
        | map => exact map_notMem_reduceTasks isReduce
        | reduce => exact reduce_notMem_mapTasks isMap
      · rcases List.mem_append.mp inside with isKept | isReduce
        · exact List.mem_append_left _ (isReleased task isKept)
        · exact List.mem_append_right _ isReduce
      · exact Custody.done_of_unfinished (maps.symm.trans (congrArg UInt16.toNat last)) inside
      · rw [all, released, isMapping]
        rfl
  | reduce stage left =>
      obtain ⟨isReducing, mapped⟩ := counted.isReducing stage
      obtain ⟨reduces, maps⟩ := counted.counts_reduce known notDone
      exact ⟨kept, ⟨counted.nReduce, custody ▸ finished, isReleased, custody ▸ maps,
        custody ▸ reduces, .inr ⟨.inl isReducing, custody ▸ grows mapped⟩,
        fun done => nomatch isReducing.symm.trans done⟩, fun all => all⟩
  | lastReduce stage last =>
      obtain ⟨isReducing, mapped⟩ := counted.isReducing stage
      obtain ⟨reduces, maps⟩ := counted.counts_reduce known notDone
      rw [released, isReducing] at isReleased
      refine ⟨kept, ⟨counted.nReduce, custody ▸ finished, isReleased, custody ▸ maps,
        custody ▸ reduces, .inr ⟨.inr rfl, custody ▸ grows mapped⟩,
        fun _ => custody ▸ fun task inside => ?_⟩, fun all => ?_⟩
      · exact Custody.done_of_unfinished (reduces.symm.trans (congrArg UInt16.toNat last)) inside
      · rw [all, released, isReducing]
        rfl

/-- A step keeps the tasks counted; if it replaces no record with a task, what it keeps of
the released tasks are all of them. -/
theorem moves (counted : Counted files nReduce kept job) (moved : Moves job label job' reply) :
    ∃ kept', Counted files nReduce kept' job' ∧ (keepsTasks job label →
      kept = released files job.c → kept' = released files job'.c) := by
  have conserves := counted.conserves
  have subset : ∀ task ∈ kept, task ∈ kept := fun _ inside => inside
  cases moved with
  | @add id inside =>
      have custody := custody_setWorker job id (some ⟨none⟩) job.c.tasks
      rw [show (some ⟨none⟩ : Option CWorker).bind CWorker.task = none from rfl] at custody
      cases held : job.custody.held id with
      | none =>
          rw [Custody.update_none held] at custody
          exact ⟨kept, counted.moved (custody ▸ conserves) subset rfl rfl rfl rfl rfl,
            fun _ all => all⟩
      | some task =>
          refine ⟨_, counted.moved (custody ▸ conserves.drop held)
            (fun _ inside => (List.mem_filter.mp inside).1) rfl rfl rfl rfl rfl, ?_⟩
          exact fun keeps => nomatch keeps.symm.trans held
  | register | noMoreTask | ask | takeInvalid | takePanic | takeNoop | finishInvalid | finishPanic
  | heartBeat | expireNobody =>
      exact ⟨kept, counted.moved conserves subset rfl rfl rfl rfl rfl, fun _ all => all⟩
  | @take id task rest inside idle first =>
      have custody := custody_setWorker job id (some ⟨some task⟩) rest
      have taken := conserves.take first (held_custody job idle)
      exact ⟨kept, counted.moved (custody ▸ taken) subset rfl rfl rfl rfl rfl, fun _ all => all⟩
  | finish busy accepts =>
      obtain ⟨kept', counted, all⟩ := counted.finish busy accepts
      exact ⟨kept', counted, fun _ => all⟩
  | @expireIdle id idle =>
      have custody := custody_setWorker job id none job.c.tasks
      rw [Option.bind_none, Custody.update_none (held_custody job idle)] at custody
      exact ⟨kept, counted.moved (custody ▸ conserves) subset rfl rfl rfl rfl rfl,
        fun _ all => all⟩
  | @expireBusy id task busy =>
      have custody := custody_setWorker job id none (job.c.tasks ++ [task])
      have back := conserves.giveBack (held_custody job busy)
      exact ⟨kept, counted.moved (custody ▸ back) subset rfl rfl rfl rfl rfl, fun _ all => all⟩

end Counted

namespace Conserved

theorem init (few : files.length < 2 ^ 16) : Conserved files nReduce (Job.init files nReduce) :=
  Counted.init few

theorem moves (conserved : Conserved files nReduce job) (keeps : keepsTasks job label)
    (moved : Moves job label job' reply) : Conserved files nReduce job' := by
  obtain ⟨kept, counted, all⟩ := Counted.moves conserved moved
  cases all keeps rfl
  exact counted

/-- A map task that a worker has is not accepted. -/
theorem not_mapped (conserved : Conserved files nReduce job) {number : Nat} {file : Str}
    (holds : job.c.taskOf id = some (.map number file)) :
    .map number file ∈ mapTasks files ∧ .map number file ∉ job.custody.done := by
  have known := conserved.conserves.known _ (.held holds)
  exact ⟨mem_mapTasks_of_released known, ((conserved.conserves.placed _ known).of_held holds).2.2⟩

/-- When there is a reduce task, all map tasks are accepted. -/
theorem mapped_of_reduce (conserved : Conserved files nReduce job) {reduceID : ReduceID}
    (place : job.custody.Exists (.reduce reduceID)) :
    (∀ task ∈ mapTasks files, task ∈ job.custody.done) ∧
      .reduce reduceID ∈ reduceTasks job.c.nReduce := by
  have known := conserved.conserves.known _ place
  rcases conserved.mapping with isMapping | ⟨later, mapped⟩
  · rw [released, isMapping] at known
    exact (reduce_notMem_mapTasks known).elim
  · exact ⟨mapped, mem_reduceTasks_of_released known⟩

end Conserved

theorem Job.step_moves (taken : Job.step label job = some job') :
    ∃ reply, Moves job label job' reply := by
  unfold Job.step at taken
  split at taken
  case isTrue => cases taken
  case isFalse =>
    obtain ⟨⟨next, reply⟩, executed, rfl⟩ := Option.map_eq_some_iff.mp taken
    exact ⟨reply, Job.exec_moves executed⟩

/-- What was accepted stays so. -/
theorem Moves.accepted (moved : Moves job label job' reply) : job.accepted <+: job'.accepted := by
  cases moved with
  | finish => exact List.prefix_append ..
  | register | add | noMoreTask | ask | takeInvalid | takePanic | takeNoop | take | finishInvalid
  | finishPanic | heartBeat | expireNobody | expireIdle | expireBusy => exact List.prefix_rfl

/-- The reduce tasks of a job with the numbers below `nReduce`. -/
def allReduces (nReduce : Nat) : List Task :=
  (List.range nReduce).map fun r => .reduce (UInt16.ofNat r)

theorem reduceTasks_ofNat (small : nReduce < 2 ^ 16) :
    reduceTasks (UInt16.ofNat nReduce) = allReduces nReduce := by
  rw [reduceTasks, UInt16.toNat_ofNat', Nat.mod_eq_of_lt small, allReduces]

/-- What holds of the tasks of a job. -/
structure TasksConserved (files : List Str) (nReduce : Nat) (job : Job) : Prop where
  maps : ∀ task ∈ mapTasks files, InOnePlace job.custody task
  reduces : (∀ task ∈ allReduces nReduce, InOnePlace job.custody task) ∨
    job.c.workingStage = .mapping ∧ ∀ reduceID, ¬ job.custody.Exists (.reduce reduceID)
  only : ∀ task, job.custody.Exists task → task ∈ mapTasks files ∨ task ∈ allReduces nReduce
  mappingCount : job.c.unfinishedMappingCount.toNat =
    unfinished (mapTasks files) job.custody.done
  reducingCount : job.c.unfinishedReducingCount.toNat =
    unfinished (allReduces nReduce) job.custody.done
  mapsFirst : ∀ reduceID, job.custody.Exists (.reduce reduceID) →
    ∀ task ∈ mapTasks files, task ∈ job.custody.done
  done : job.c.workingStage = .done → ∀ task ∈ allReduces nReduce, task ∈ job.custody.done

theorem Conserved.tasksConserved (conserved : Conserved files nReduce job)
    (small : nReduce < 2 ^ 16) : TasksConserved files nReduce job := by
  have conserves := conserved.conserves
  have isAll : reduceTasks job.c.nReduce = allReduces nReduce := by
    rw [conserved.nReduce, reduceTasks_ofNat small]
  have reduceCount := isAll ▸ conserved.reducingCount
  have done := isAll ▸ conserved.done
  rcases conserved.mapping with isMapping | ⟨later, mapped⟩
  · have all : released files job.c = mapTasks files := by rw [released, isMapping]
    rw [all] at conserves
    have noReduce (reduceID : ReduceID) : ¬ job.custody.Exists (.reduce reduceID) :=
      fun place => reduce_notMem_mapTasks (conserves.known _ place)
    exact ⟨conserves.placed, .inr ⟨isMapping, noReduce⟩,
      fun task place => .inl (conserves.known task place), conserved.mappingCount,
      reduceCount, fun reduceID place => (noReduce reduceID place).elim, done⟩
  · have all : released files job.c = mapTasks files ++ allReduces nReduce := by
      rcases later with stage | stage <;> rw [released, stage, isAll]
    rw [all] at conserves
    exact ⟨fun task inside => conserves.placed task (List.mem_append_left _ inside),
      .inl fun task inside => conserves.placed task (List.mem_append_right _ inside),
      fun task place => List.mem_append.mp (conserves.known task place), conserved.mappingCount,
      reduceCount, fun _ _ => mapped, done⟩

variable {labels earlier : List Label} {start : Job}

/-- No task is lost while the numbers of the workers are their own. -/
theorem Conserved.numbered_moves (conserved : Conserved files nReduce job)
    (numbered : Numbered job) (moved : Moves job label job' reply) :
    Conserved files nReduce job' :=
  conserved.moves (numbered.distinct.keepsTasks moved) moved

theorem Job.conserved (few : files.length < 2 ^ 16)
    (run : Run Job.step fewWorkers (Job.init files nReduce) labels job) :
    Numbered job ∧ Conserved files nReduce job :=
  run.invariant (fun _ job => Numbered job ∧ Conserved files nReduce job) ⟨.init, .init few⟩
    fun _ _ _ _ _ ⟨numbered, conserved⟩ allowed taken => by
      obtain ⟨reply, moved⟩ := Job.step_moves taken
      exact ⟨numbered.moves allowed moved, conserved.numbered_moves numbered moved⟩

theorem Job.accepted_prefix (run : Run Job.step fewWorkers start labels job) :
    start.accepted <+: job.accepted :=
  run.invariant (fun _ job => start.accepted <+: job.accepted) List.prefix_rfl
    fun _ _ _ _ _ sofar _ taken => by
      obtain ⟨reply, moved⟩ := Job.step_moves taken
      exact sofar.trans moved.accepted

/-- In every state of a job the tasks are in one place each, the counters count those that
are not accepted, and a task that was accepted at some moment is never queued or held
again. -/
theorem tasks_conserved (few : files.length < 2 ^ 16) (small : nReduce < 2 ^ 16)
    (before : Run Job.step fewWorkers (Job.init files nReduce) earlier start)
    (run : Run Job.step fewWorkers start labels job) :
    TasksConserved files nReduce job ∧
      ∀ task ∈ start.custody.done, task ∈ job.custody.done ∧ task ∉ job.c.tasks ∧
        ∀ id, job.c.taskOf id ≠ some task := by
  obtain ⟨-, conserved⟩ := Job.conserved few (before.append run)
  refine ⟨conserved.tasksConserved small, fun task inside => ?_⟩
  have done : task ∈ job.custody.done :=
    ((Job.accepted_prefix run).map Prod.snd).subset inside
  have place := conserved.conserves.placed task (conserved.conserves.known task (.done done))
  exact ⟨done, place.of_done done⟩

end

/-- A worker maps a file and begins to reduce. -/
def mapped : List Label :=
  [.register, .add 1, .ask 1, .take 1, .finish 1]

/-- The reducing worker expires, and another one does its task. -/
def takenOver : List Label :=
  [.ask 1, .take 1, .register, .add 2, .ask 2, .expire 1, .take 2, .finish 2]

theorem tasks_conserved_takenOver :
    ∃ start job, Run Job.step fewWorkers (Job.init [[97]] 1) mapped start ∧
      Run Job.step fewWorkers start takenOver job ∧ job.c.workingStage = .done ∧
      TasksConserved [[97]] 1 job ∧
      ∀ task ∈ start.custody.done, task ∈ job.custody.done ∧ task ∉ job.c.tasks ∧
        ∀ id, job.c.taskOf id ≠ some task := by
  obtain ⟨start, before, onward⟩ :
      ∃ start, Run Job.step fewWorkers (Job.init [[97]] 1) mapped start ∧
        ∃ job ∈ runSteps Job.step fewWorkers takenOver start, job.c.workingStage = .done :=
    Run.exists_of_runSteps (by decide +kernel)
  obtain ⟨job, run, done⟩ := Run.exists_of_runSteps onward
  exact ⟨start, job, before, run, done, tasks_conserved (by decide) (by decide) before run⟩

end GoLab.MapReduce
