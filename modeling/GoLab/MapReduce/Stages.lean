import GoLab.MapReduce.Conservation

/-!
# When the stages change

The sizes of a job are kept in 16 bits.  As long as they fit, a counter is the number of tasks
still to be accepted, the reduce tasks are released with the last map task, and the job is
done with the last reduce task.  This does not depend on the numbers of the workers: when a
number is given out twice a task may be lost, but none is counted twice.
-/

namespace GoLab.MapReduce

open Custody (unfinished)

def Task.isMap : Task → Bool
  | .map .. => true
  | .reduce _ => false

/-- How often `FinishTask` has accepted a map task. -/
def Job.mapsAccepted (job : Job) : Nat :=
  job.custody.done.countP Task.isMap

/-- How often `FinishTask` has accepted a reduce task. -/
def Job.reducesAccepted (job : Job) : Nat :=
  job.custody.done.countP fun task => !task.isMap

/-- What a step of `FinishTask` has put into the queue. -/
def Label.putInto (before after : List Task) : Label → List Task
  | .finish _ => after.drop before.length
  | _ => []

/-- A job with the tasks that `FinishTask` has put into the queue. -/
structure Watched where
  job : Job
  released : List Task

namespace Watched

def init (files : List Str) (nReduce : Nat) : Watched where
  job := .init files nReduce
  released := []

def step (label : Label) (w : Watched) : Option Watched :=
  (Job.step label w.job).map fun job =>
    ⟨job, w.released ++ label.putInto w.job.c.tasks job.c.tasks⟩

end Watched

/-- The counters and the accepted tasks make up the job, the reduce tasks are released when
all map tasks are accepted, and the job is done when all reduce tasks are. -/
structure StageCounts (files : List Str) (nReduce : Nat) (w : Watched) : Prop where
  mapping : w.job.c.unfinishedMappingCount.toNat + w.job.mapsAccepted = files.length
  reducing : w.job.c.unfinishedReducingCount.toNat + w.job.reducesAccepted = nReduce
  released : w.released = if w.job.mapsAccepted = files.length then allReduces nReduce else []
  done : w.job.c.workingStage = .done ↔ w.job.reducesAccepted = nReduce

section

variable {files : List Str} {nReduce : Nat} {kept : List Task} {job job' : Job} {label : Label}
  {reply : Option RpcReply} {labels : List Label} {w w' : Watched}

/-! ## The counters -/

theorem Counted.mapsAccepted (counted : Counted files nReduce kept job) :
    job.c.unfinishedMappingCount.toNat + job.mapsAccepted = files.length := by
  have all := Custody.unfinished_add_done (nodup_of_map_number (@map_number_mapTasks files))
    counted.conserves.nodup_done
  rw [length_mapTasks] at all
  rw [counted.mappingCount, ← all, Job.mapsAccepted]
  congr 1
  refine List.countP_congr fun task inside => ?_
  have known := counted.isReleased task (counted.conserves.known task (.done inside))
  rw [decide_eq_true_eq]
  cases task with
  | map number file => exact ⟨fun _ => mem_mapTasks_of_released known, fun _ => rfl⟩
  | reduce reduceID => exact ⟨nofun, fun isMap => (reduce_notMem_mapTasks isMap).elim⟩

theorem Counted.reducesAccepted (counted : Counted files nReduce kept job) :
    job.c.unfinishedReducingCount.toNat + job.reducesAccepted = job.c.nReduce.toNat := by
  have all := Custody.unfinished_add_done
    (nodup_of_map_number (@map_number_reduceTasks job.c.nReduce)) counted.conserves.nodup_done
  rw [length_reduceTasks] at all
  rw [counted.reducingCount, ← all, Job.reducesAccepted]
  congr 1
  refine List.countP_congr fun task inside => ?_
  have known := counted.isReleased task (counted.conserves.known task (.done inside))
  rw [decide_eq_true_eq]
  cases task with
  | map number file => exact ⟨nofun, fun isReduce => (map_notMem_reduceTasks isReduce).elim⟩
  | reduce reduceID => exact ⟨fun _ => mem_reduceTasks_of_released known, fun _ => rfl⟩

/-- A stage has tasks left until it ends. -/
structure Ongoing (job : Job) : Prop where
  mapping : job.c.workingStage = .mapping → job.c.unfinishedMappingCount ≠ 0
  reducing : job.c.workingStage ≠ .done → job.c.unfinishedReducingCount ≠ 0

theorem ofNat_ne_zero {size : Nat} (positive : size ≠ 0) (small : size < 2 ^ 16) :
    UInt16.ofNat size ≠ 0 := by
  intro isZero
  have size := congrArg UInt16.toNat isZero
  rw [UInt16.toNat_ofNat', Nat.mod_eq_of_lt small] at size
  exact positive size

theorem toNat_ne_zero {count : UInt16} (left : count ≠ 0) : count.toNat ≠ 0 :=
  fun none => left (UInt16.toNat_inj.mp none)

theorem Ongoing.init (nonempty : files ≠ []) (few : files.length < 2 ^ 16)
    (positive : nReduce ≠ 0) (small : nReduce < 2 ^ 16) : Ongoing (Job.init files nReduce) where
  mapping := fun _ => ofNat_ne_zero (mt List.length_eq_zero_iff.mp nonempty) few
  reducing := fun _ => ofNat_ne_zero positive small

/-- The counters and the stage have not changed. -/
theorem Ongoing.same (ongoing : Ongoing job)
    (stage : job'.c.workingStage = job.c.workingStage)
    (maps : job'.c.unfinishedMappingCount = job.c.unfinishedMappingCount)
    (left : job'.c.unfinishedReducingCount = job.c.unfinishedReducingCount) : Ongoing job' where
  mapping := by
    rw [stage, maps]
    exact ongoing.mapping
  reducing := by
    rw [stage, left]
    exact ongoing.reducing

theorem Ongoing.moves (ongoing : Ongoing job) (counted : Counted files nReduce kept job)
    (moved : Moves job label job' reply) : Ongoing job' := by
  cases moved with
  | register | add | noMoreTask | ask | takeInvalid | takePanic | takeNoop | take | finishInvalid
  | finishPanic | heartBeat | expireNobody | expireIdle | expireBusy =>
      exact ongoing.same rfl rfl rfl
  | finish busy accepts =>
      cases accepts with
      | map stage left => exact ⟨fun _ => left, ongoing.reducing⟩
      | lastMap stage last =>
          have isMapping := counted.isMapping stage
          refine ⟨?_, fun _ => ongoing.reducing (by simp [isMapping])⟩
          exact fun isReducing => nomatch isReducing
      | reduce stage left =>
          obtain ⟨isReducing, -⟩ := counted.isReducing stage
          refine ⟨?_, fun _ => left⟩
          exact fun isMapping => nomatch isMapping.symm.trans isReducing
      | lastReduce stage last =>
          refine ⟨?_, fun notDone => (notDone rfl).elim⟩
          exact fun isMapping => nomatch isMapping

/-- The stage of mapping lasts until all map tasks are accepted. -/
theorem Counted.mapping_iff (counted : Counted files nReduce kept job) (ongoing : Ongoing job) :
    job.c.workingStage = .mapping ↔ job.mapsAccepted ≠ files.length := by
  have count := counted.mapsAccepted
  constructor
  · intro isMapping
    have left := toNat_ne_zero (ongoing.mapping isMapping)
    omega
  · intro notAll
    rcases counted.mapping with isMapping | ⟨-, mapped⟩
    · exact isMapping
    · have none := counted.mappingCount.trans (Custody.unfinished_of_done mapped)
      omega

/-- A job is done when all reduce tasks are accepted. -/
theorem Counted.done_iff (counted : Counted files nReduce kept job) (ongoing : Ongoing job) :
    job.c.workingStage = .done ↔ job.reducesAccepted = job.c.nReduce.toNat := by
  have count := counted.reducesAccepted
  constructor
  · intro isDone
    have none := counted.reducingCount.trans
      (Custody.unfinished_of_done (counted.done isDone))
    omega
  · intro all
    refine Decidable.byContradiction fun notDone => ?_
    have left := toNat_ne_zero (ongoing.reducing notDone)
    omega

/-! ## What is released -/

theorem Watched.step_moves (taken : Watched.step label w = some w') :
    ∃ reply, Moves w.job label w'.job reply ∧
      w'.released = w.released ++ label.putInto w.job.c.tasks w'.job.c.tasks := by
  obtain ⟨job, stepped, rfl⟩ := Option.map_eq_some_iff.mp taken
  obtain ⟨reply, moved⟩ := Job.step_moves stepped
  exact ⟨reply, moved, rfl⟩

/-- The tasks `FinishTask` has released by now. -/
def Job.releases (job : Job) : List Task :=
  if job.c.workingStage = .mapping then [] else reduceTasks job.c.nReduce

/-- `FinishTask` puts the reduce tasks into the queue with the last map task, and nothing
else. -/
theorem Moves.releases (counted : Counted files nReduce kept job)
    (moved : Moves job label job' reply) :
    job'.releases = job.releases ++ label.putInto job.c.tasks job'.c.tasks := by
  cases moved with
  | register | add | noMoreTask | ask | takeInvalid | takePanic | takeNoop | take | heartBeat
  | expireNobody | expireIdle | expireBusy => exact (List.append_nil _).symm
  | finishInvalid | finishPanic => simp [Label.putInto, Job.releases]
  | finish busy accepts =>
      cases accepts with
      | map | reduce => simp [Label.putInto, Job.releases, Coordinator.setWorker]
      | lastMap stage last =>
          have isMapping := counted.isMapping stage
          simp [Label.putInto, Job.releases, Coordinator.setWorker, isMapping]
      | lastReduce stage last =>
          obtain ⟨isReducing, -⟩ := counted.isReducing stage
          simp [Label.putInto, Job.releases, Coordinator.setWorker, isReducing]

/-! ## Whole runs -/

theorem Watched.counted (nonempty : files ≠ []) (few : files.length < 2 ^ 16)
    (positive : nReduce ≠ 0) (small : nReduce < 2 ^ 16)
    (run : Run Watched.step (fun _ _ => True) (.init files nReduce) labels w) :
    (∃ kept, Counted files nReduce kept w.job) ∧ Ongoing w.job ∧ w.released = w.job.releases := by
  refine run.invariant (fun _ w => (∃ kept, Counted files nReduce kept w.job) ∧ Ongoing w.job ∧
    w.released = w.job.releases) ?_ ?_
  · exact ⟨⟨_, .init few⟩, .init nonempty few positive small, rfl⟩
  · rintro labels w label w' _ ⟨⟨kept, counted⟩, ongoing, released⟩ - taken
    obtain ⟨reply, moved, more⟩ := Watched.step_moves taken
    obtain ⟨kept', counted', -⟩ := counted.moves moved
    refine ⟨⟨kept', counted'⟩, ongoing.moves counted moved, ?_⟩
    rw [more, released, moved.releases counted]

theorem Watched.stageCounts (nonempty : files ≠ []) (few : files.length < 2 ^ 16)
    (positive : nReduce ≠ 0) (small : nReduce < 2 ^ 16)
    (run : Run Watched.step (fun _ _ => True) (.init files nReduce) labels w) :
    StageCounts files nReduce w := by
  obtain ⟨⟨kept, counted⟩, ongoing, released⟩ :=
    Watched.counted nonempty few positive small run
  have size : w.job.c.nReduce.toNat = nReduce := by
    rw [counted.nReduce, UInt16.toNat_ofNat', Nat.mod_eq_of_lt small]
  refine ⟨counted.mapsAccepted, size ▸ counted.reducesAccepted, ?_, size ▸ counted.done_iff ongoing⟩
  rw [released, Job.releases, counted.nReduce, reduceTasks_ofNat small]
  by_cases isMapping : w.job.c.workingStage = .mapping
  · rw [if_pos isMapping, if_neg ((counted.mapping_iff ongoing).mp isMapping)]
  · rw [if_neg isMapping, if_pos]
    exact Decidable.byContradiction fun notAll =>
      isMapping ((counted.mapping_iff ongoing).mpr notAll)

/-- The counts are right in every run if and only if there are files and the sizes fit into
16 bits. -/
theorem stage_counts_iff (positive : 1 ≤ nReduce) :
    (∀ labels w, Run Watched.step (fun _ _ => True) (.init files nReduce) labels w →
      StageCounts files nReduce w) ↔
      files ≠ [] ∧ files.length < 2 ^ 16 ∧ nReduce < 2 ^ 16 := by
  constructor
  · intro always
    obtain ⟨mapping, reducing, released, -⟩ := always [] _ .start
    refine ⟨?_, ?_, ?_⟩
    · -- With no files all map tasks are accepted from the start, but nothing is released.
      rintro rfl
      have all : [] = allReduces nReduce := released
      have none := congrArg List.length all
      rw [allReduces, List.length_map, List.length_range, List.length_nil] at none
      omega
    · rw [← mapping]
      exact UInt16.toNat_lt _
    · rw [← reducing]
      exact UInt16.toNat_lt _
  · rintro ⟨nonempty, few, small⟩ labels w run
    exact Watched.stageCounts nonempty few (by omega) small run

end

/-- Every stage of a job with one file and two reduce tasks. -/
theorem stage_counts_iff_oneFile :
    ∃ w, Run Watched.step (fun _ _ => True) (.init [[97]] 2)
        (mapped ++ [.ask 1, .take 1, .finish 1, .ask 1, .take 1, .finish 1]) w ∧
      w.job.c.workingStage = .done ∧ StageCounts [[97]] 2 w := by
  obtain ⟨w, run, done⟩ := @Run.exists_of_runSteps _ _ Watched.step (fun _ _ => True)
    (.init [[97]] 2) _ (fun w => w.job.c.workingStage = .done)
    (mapped ++ [.ask 1, .take 1, .finish 1, .ask 1, .take 1, .finish 1]) (by decide +kernel)
  exact ⟨w, run, done, (stage_counts_iff (by decide)).mpr (by decide) _ w run⟩

/-- A job with 65537 reduce tasks is done after one of them. -/
theorem done_after_one_of_many :
    ∃ w, Run Watched.step (fun _ _ => True) (.init [[97]] 65537)
        (mapped ++ [.ask 1, .take 1, .finish 1]) w ∧
      w.job.c.workingStage = .done ∧ w.job.reducesAccepted = 1 ∧ w.released = [.reduce 0] :=
  Run.exists_of_runSteps (by decide +kernel)

/-! ## There is work until the job is done -/

section

variable {files : List Str} {nReduce : Nat} {job : Job} {labels : List Label}

/-- Some task is queued or held by a registered worker. -/
def Coordinator.HasWork (c : Coordinator) : Prop :=
  c.tasks ≠ [] ∨ ∃ id, c.taskOf id ≠ none

theorem Conserved.hasWork (conserved : Conserved files nReduce job) {task : Task}
    (isReleased : task ∈ released files job.c) (notDone : task ∉ job.custody.done) :
    job.c.HasWork := by
  rcases (conserved.conserves.placed task isReleased).of_not_done notDone with queued | ⟨id, holds⟩
  · exact .inl (List.ne_nil_of_mem queued)
  · exact .inr ⟨id, Option.ne_none_iff_exists'.mpr ⟨task, holds⟩⟩

theorem Conserved.no_work (conserved : Conserved files nReduce job)
    (all : ∀ task ∈ released files job.c, task ∈ job.custody.done) : ¬job.c.HasWork := by
  have conserves := conserved.conserves
  rintro (queued | ⟨id, busy⟩)
  · obtain ⟨task, inside⟩ := List.exists_mem_of_ne_nil _ queued
    have known := conserves.known task (.queued inside)
    exact ((conserves.placed task known).of_done (all task known)).1 inside
  · obtain ⟨task, holds⟩ := Option.ne_none_iff_exists'.mp busy
    have known := conserves.known task (.held holds)
    exact ((conserves.placed task known).of_done (all task known)).2 id holds

theorem Job.conserved_of_keeps (few : files.length < 2 ^ 16)
    (run : Run Job.step keepsTasks (Job.init files nReduce) labels job) :
    Conserved files nReduce job := by
  refine run.invariant (fun _ job => Conserved files nReduce job) (.init few) ?_
  intro labels job label job' _ conserved keeps taken
  obtain ⟨reply, moved⟩ := Job.step_moves taken
  exact conserved.moves keeps moved

theorem Job.ongoing (nonempty : files ≠ []) (few : files.length < 2 ^ 16)
    (positive : nReduce ≠ 0) (small : nReduce < 2 ^ 16)
    (run : Run Job.step keepsTasks (Job.init files nReduce) labels job) : Ongoing job := by
  refine run.invariant (fun _ job => Ongoing job) (.init nonempty few positive small) ?_
  intro labels job label job' before ongoing _ taken
  obtain ⟨reply, moved⟩ := Job.step_moves taken
  exact ongoing.moves (Job.conserved_of_keeps few before) moved

/-- A job that is not done has work, if it has files and reduce tasks and no record with a
task was replaced. -/
theorem never_stuck (nonempty : files ≠ []) (few : files.length < 2 ^ 16)
    (positive : nReduce ≠ 0) (small : nReduce < 2 ^ 16)
    (run : Run Job.step keepsTasks (Job.init files nReduce) labels job)
    (notDone : job.c.workingStage ≠ .done) : job.c.HasWork := by
  have conserved := Job.conserved_of_keeps few run
  have ongoing := Job.ongoing nonempty few positive small run
  rcases conserved.mapping with isMapping | ⟨later, -⟩
  · have left : unfinished (mapTasks files) job.custody.done ≠ 0 := by
      rw [← conserved.mappingCount]
      exact toNat_ne_zero (ongoing.mapping isMapping)
    obtain ⟨task, inside, todo⟩ := Custody.exists_of_unfinished left
    refine conserved.hasWork ?_ todo
    rw [released, isMapping]
    exact inside
  · have isReducing := later.resolve_right notDone
    have left : unfinished (reduceTasks job.c.nReduce) job.custody.done ≠ 0 := by
      rw [← conserved.reducingCount]
      exact toNat_ne_zero (ongoing.reducing notDone)
    obtain ⟨task, inside, todo⟩ := Custody.exists_of_unfinished left
    refine conserved.hasWork ?_ todo
    rw [released, isReducing]
    exact List.mem_append_right _ inside

end

/-- The reducing worker has expired: its task is in the queue. -/
theorem never_stuck_expired :
    ∃ job, Run Job.step keepsTasks (Job.init [[97]] 1) (mapped ++ [.ask 1, .take 1, .expire 1])
        job ∧ job.c.workingStage = .reducing ∧ job.c.HasWork := by
  obtain ⟨job, run, reducing⟩ := @Run.exists_of_runSteps _ _ Job.step keepsTasks
    (Job.init [[97]] 1) _ (fun job => job.c.workingStage = .reducing)
    (mapped ++ [.ask 1, .take 1, .expire 1]) (by decide +kernel)
  exact ⟨job, run, reducing, never_stuck (by decide) (by decide) (by decide) (by decide) run
    (by rw [reducing]; decide)⟩

/-- A job without files, and one without reduce tasks after its last map task, have no work
and are never done. -/
theorem stuck_without_tasks :
    (Job.init [] 1).c.workingStage ≠ .done ∧ ¬(Job.init [] 1).c.HasWork ∧
    ∃ job, Run Job.step keepsTasks (Job.init [[97]] 0) mapped job ∧
      job.c.workingStage ≠ .done ∧ ¬job.c.HasWork := by
  refine ⟨by decide, (Conserved.init (by decide)).no_work (by decide), ?_⟩
  obtain ⟨job, run, stage, all⟩ := @Run.exists_of_runSteps _ _ Job.step keepsTasks
    (Job.init [[97]] 0) _ (fun job => job.c.workingStage ≠ .done ∧
      ∀ task ∈ released [[97]] job.c, task ∈ job.custody.done) mapped (by decide +kernel)
  exact ⟨job, run, stage, (Job.conserved_of_keeps (by decide) run).no_work all⟩

end GoLab.MapReduce
