import Mathlib.Algebra.Group.Nat.Defs
import GoLab.Lib.Custody
import GoLab.Lib.Run

/-!
# The coordinator (`mr/coordinator.go`, `cworker.go`, `task.go`)

A handler runs as one step for each section under its locks: `RegisterWorker` takes a
number and then adds the worker, `GetTask` looks at the stage and then works on the record
of the worker, the others are one section.  What the locks guard is not touched by others
in between, so the locks themselves are left out, as are the timers: a worker may expire
at any moment.  `none` as the result of a handler is a panic, which ends the process.

`accepted` is the history of the tasks that were accepted as finished, and by which worker.
-/

namespace GoLab.MapReduce

/-- A Go `string`. -/
abbrev Str := List UInt8

abbrev WorkerID := UInt16
abbrev ReduceID := UInt16

inductive StageEnum where
  | mapping
  | mapWaiting
  | reducing
  | reduceWaiting
  | done
  deriving DecidableEq, Repr

/-- A `MapTask` or a `ReduceTask`.  The number tells apart map tasks of equal files. -/
inductive Task where
  | map (number : Nat) (file : Str)
  | reduce (reduceID : ReduceID)
  deriving DecidableEq, Repr

structure CWorker where
  task : Option Task
  deriving DecidableEq, Repr

inductive RpcReply where
  | workerInfo (workerID : WorkerID) (r : UInt16)
  | mapTask (file : Str)
  | reduceTask (reduceID : ReduceID)
  | noMoreTask
  | noopTask
  | ok
  | invalidWorker
  deriving DecidableEq, Repr

structure Coordinator where
  unfinishedMappingCount : UInt16
  workingStage : StageEnum
  /-- the queue of the `TaskContainer` -/
  tasks : List Task
  nReduce : UInt16
  unfinishedReducingCount : UInt16
  workerIDAcc : UInt32
  workers : WorkerID → Option CWorker

/-- The tasks of `releaseMapTasks`. -/
def mapTasks (files : List Str) : List Task :=
  files.zipIdx.map fun (file, number) => .map number file

/-- The tasks of `releaseReduceTasks`. -/
def reduceTasks (nReduce : UInt16) : List Task :=
  (List.range nReduce.toNat).map fun i => .reduce (UInt16.ofNat i)

def taskToRpc : Task → RpcReply
  | .map _ file => .mapTask file
  | .reduce reduceID => .reduceTask reduceID

namespace Coordinator

/-- `MakeCoordinator`. -/
def make (files : List Str) (nReduce : Nat) : Coordinator where
  unfinishedMappingCount := UInt16.ofNat files.length
  workingStage := .mapping
  tasks := mapTasks files
  nReduce := UInt16.ofNat nReduce
  unfinishedReducingCount := UInt16.ofNat nReduce
  workerIDAcc := 0
  workers := fun _ => none

def setWorker (c : Coordinator) (id : WorkerID) (worker : Option CWorker) : Coordinator :=
  { c with workers := fun other => if other = id then worker else c.workers other }

/-- The number of the next worker: `WorkerID(c.workerIDAcc.Add(1))`. -/
def newWorkerID (c : Coordinator) : WorkerID :=
  (c.workerIDAcc + 1).toUInt16

/-- `RegisterWorker` up to `addWorker`. -/
def countWorker (c : Coordinator) : Coordinator :=
  { c with workerIDAcc := c.workerIDAcc + 1 }

/-- `addWorker`. -/
def addWorker (c : Coordinator) (id : WorkerID) : Coordinator :=
  c.setWorker id (some ⟨none⟩)

/-- `removeWorker`, with `release` of the worker. -/
def removeWorker (c : Coordinator) (id : WorkerID) : Coordinator :=
  match c.workers id with
  | none => c
  | some ⟨none⟩ => c.setWorker id none
  | some ⟨some task⟩ => { c.setWorker id none with tasks := c.tasks ++ [task] }

/-- `GetTask` from `getLockedWorker` on. -/
def getTask (c : Coordinator) (id : WorkerID) : Option (Coordinator × RpcReply) :=
  match c.workers id with
  | none => some (c, .invalidWorker)
  | some ⟨some _⟩ => none
  | some ⟨none⟩ =>
      match c.tasks with
      | [] => some (c, .noopTask)
      | task :: rest =>
          some ({ c.setWorker id (some ⟨some task⟩) with tasks := rest }, taskToRpc task)

/-- The section of `FinishTask` under the lock of the stage. -/
def acceptTask (c : Coordinator) : Task → Option Coordinator
  | .map .. =>
      if c.workingStage = .mapping ∨ c.workingStage = .mapWaiting then
        let c := { c with unfinishedMappingCount := c.unfinishedMappingCount - 1 }
        if c.unfinishedMappingCount = 0 then
          some { c with tasks := c.tasks ++ reduceTasks c.nReduce, workingStage := .reducing }
        else
          some c
      else
        none
  | .reduce _ =>
      if c.workingStage = .reducing ∨ c.workingStage = .reduceWaiting then
        let c := { c with unfinishedReducingCount := c.unfinishedReducingCount - 1 }
        if c.unfinishedReducingCount = 0 then some { c with workingStage := .done } else some c
      else
        none

/-- `FinishTask`. -/
def finishTask (c : Coordinator) (id : WorkerID) : Option (Coordinator × RpcReply) :=
  match c.workers id with
  | none => some (c, .invalidWorker)
  | some ⟨none⟩ => none
  | some ⟨some task⟩ => (c.acceptTask task).map fun c => (c.setWorker id (some ⟨none⟩), .ok)

/-- `HeartBeat`; the timer it sets is left out. -/
def heartBeat (c : Coordinator) (id : WorkerID) : RpcReply :=
  if (c.workers id).isSome then .ok else .invalidWorker

/-- The task a registered worker has. -/
def taskOf (c : Coordinator) (id : WorkerID) : Option Task :=
  (c.workers id).bind CWorker.task

end Coordinator

/-- The coordinator with the handlers that are in the middle of a call. -/
structure Job where
  c : Coordinator
  panicked : Bool
  registering : List WorkerID
  asking : List WorkerID
  accepted : List (WorkerID × Task)

/-- `register` and `add` are the halves of `RegisterWorker`, `ask` and `take` those of
`GetTask`. -/
inductive Label where
  | register
  | add (id : WorkerID)
  | ask (id : WorkerID)
  | take (id : WorkerID)
  | finish (id : WorkerID)
  | heartBeat (id : WorkerID)
  | expire (id : WorkerID)
  deriving DecidableEq, Repr

namespace Job

def init (files : List Str) (nReduce : Nat) : Job where
  c := .make files nReduce
  panicked := false
  registering := []
  asking := []
  accepted := []

/-- One step, with the reply when it is the last one of a handler. -/
def exec (job : Job) : Label → Option (Job × Option RpcReply)
  | .register =>
      some ({ job with
        c := job.c.countWorker
        registering := job.registering ++ [job.c.newWorkerID] }, none)
  | .add id =>
      if id ∈ job.registering then
        some ({ job with c := job.c.addWorker id, registering := job.registering.erase id },
          some (.workerInfo id job.c.nReduce))
      else
        none
  | .ask id =>
      if job.c.workingStage = .done then
        some (job, some .noMoreTask)
      else
        some ({ job with asking := job.asking ++ [id] }, none)
  | .take id =>
      if id ∈ job.asking then
        let job := { job with asking := job.asking.erase id }
        match job.c.getTask id with
        | none => some ({ job with panicked := true }, none)
        | some (c, reply) => some ({ job with c }, some reply)
      else
        none
  | .finish id =>
      match job.c.finishTask id with
      | none => some ({ job with panicked := true }, none)
      | some (c, reply) =>
          some ({ job with
            c
            accepted := job.accepted ++ (job.c.taskOf id).toList.map (id, ·) }, some reply)
  | .heartBeat id => some (job, some (job.c.heartBeat id))
  | .expire id => some ({ job with c := job.c.removeWorker id }, none)

/-- One step; nothing happens after a panic. -/
def step (label : Label) (job : Job) : Option Job :=
  if job.panicked then none else (job.exec label).map Prod.fst

/-- Where the tasks are. -/
def custody (job : Job) : Custody Task WorkerID where
  queue := job.c.tasks
  held := job.c.taskOf
  done := job.accepted.map Prod.snd

end Job

/-- Fewer than `2 ^ 16` workers register. -/
def fewWorkers (job : Job) : Label → Prop
  | .register => job.c.workerIDAcc.toNat + 1 < 2 ^ 16
  | _ => True

instance (job : Job) : (label : Label) → Decidable (fewWorkers job label)
  | .register => inferInstanceAs (Decidable (_ < _))
  | .add _ | .ask _ | .take _ | .finish _ | .heartBeat _ | .expire _ => .isTrue trivial

/-! ## What a step does -/

/-- The section of `FinishTask` under the lock of the stage. -/
inductive Accepts (c : Coordinator) : Task → Coordinator → Prop where
  | map {number : Nat} {file : Str}
      (stage : c.workingStage = .mapping ∨ c.workingStage = .mapWaiting)
      (left : c.unfinishedMappingCount - 1 ≠ 0) :
      Accepts c (.map number file)
        { c with unfinishedMappingCount := c.unfinishedMappingCount - 1 }
  | lastMap {number : Nat} {file : Str}
      (stage : c.workingStage = .mapping ∨ c.workingStage = .mapWaiting)
      (last : c.unfinishedMappingCount - 1 = 0) :
      Accepts c (.map number file)
        { c with
          unfinishedMappingCount := c.unfinishedMappingCount - 1
          tasks := c.tasks ++ reduceTasks c.nReduce
          workingStage := .reducing }
  | reduce {reduceID : ReduceID}
      (stage : c.workingStage = .reducing ∨ c.workingStage = .reduceWaiting)
      (left : c.unfinishedReducingCount - 1 ≠ 0) :
      Accepts c (.reduce reduceID)
        { c with unfinishedReducingCount := c.unfinishedReducingCount - 1 }
  | lastReduce {reduceID : ReduceID}
      (stage : c.workingStage = .reducing ∨ c.workingStage = .reduceWaiting)
      (last : c.unfinishedReducingCount - 1 = 0) :
      Accepts c (.reduce reduceID)
        { c with
          unfinishedReducingCount := c.unfinishedReducingCount - 1
          workingStage := .done }

/-- The steps of a coordinator. -/
inductive Moves (job : Job) : Label → Job → Option RpcReply → Prop where
  | register : Moves job .register
      { job with
        c := job.c.countWorker
        registering := job.registering ++ [job.c.newWorkerID] } none
  | add {id : WorkerID} (inside : id ∈ job.registering) : Moves job (.add id)
      { job with c := job.c.addWorker id, registering := job.registering.erase id }
      (some (.workerInfo id job.c.nReduce))
  | noMoreTask {id : WorkerID} (done : job.c.workingStage = .done) :
      Moves job (.ask id) job (some .noMoreTask)
  | ask {id : WorkerID} (notDone : job.c.workingStage ≠ .done) :
      Moves job (.ask id) { job with asking := job.asking ++ [id] } none
  | takeInvalid {id : WorkerID} (inside : id ∈ job.asking) (unknown : job.c.workers id = none) :
      Moves job (.take id) { job with asking := job.asking.erase id } (some .invalidWorker)
  | takePanic {id : WorkerID} {task : Task} (inside : id ∈ job.asking)
      (busy : job.c.workers id = some ⟨some task⟩) :
      Moves job (.take id) { job with asking := job.asking.erase id, panicked := true } none
  | takeNoop {id : WorkerID} (inside : id ∈ job.asking) (idle : job.c.workers id = some ⟨none⟩)
      (empty : job.c.tasks = []) :
      Moves job (.take id) { job with asking := job.asking.erase id } (some .noopTask)
  | take {id : WorkerID} {task : Task} {rest : List Task} (inside : id ∈ job.asking)
      (idle : job.c.workers id = some ⟨none⟩) (first : job.c.tasks = task :: rest) :
      Moves job (.take id)
        { job with
          asking := job.asking.erase id
          c := { job.c.setWorker id (some ⟨some task⟩) with tasks := rest } }
        (some (taskToRpc task))
  | finishInvalid {id : WorkerID} (unknown : job.c.workers id = none) :
      Moves job (.finish id) job (some .invalidWorker)
  | finishPanic {id : WorkerID} : Moves job (.finish id) { job with panicked := true } none
  | finish {id : WorkerID} {task : Task} {c : Coordinator}
      (busy : job.c.workers id = some ⟨some task⟩) (accepts : Accepts job.c task c) :
      Moves job (.finish id)
        { job with
          c := c.setWorker id (some ⟨none⟩)
          accepted := job.accepted ++ [(id, task)] } (some .ok)
  | heartBeat {id : WorkerID} : Moves job (.heartBeat id) job (some (job.c.heartBeat id))
  | expireNobody {id : WorkerID} (unknown : job.c.workers id = none) :
      Moves job (.expire id) job none
  | expireIdle {id : WorkerID} (idle : job.c.workers id = some ⟨none⟩) :
      Moves job (.expire id) { job with c := job.c.setWorker id none } none
  | expireBusy {id : WorkerID} {task : Task} (busy : job.c.workers id = some ⟨some task⟩) :
      Moves job (.expire id)
        { job with c := { job.c.setWorker id none with tasks := job.c.tasks ++ [task] } } none

section

variable {job job' : Job} {c c' : Coordinator} {task : Task} {id : WorkerID} {label : Label}
  {reply : Option RpcReply}

theorem Coordinator.acceptTask_accepts (result : c.acceptTask task = some c') :
    Accepts c task c' := by
  cases task with
  | map number file =>
      simp only [acceptTask] at result
      split at result
      case isTrue stage =>
        split at result
        case isTrue last =>
          cases result
          exact .lastMap stage last
        case isFalse left =>
          cases result
          exact .map stage left
      case isFalse => cases result
  | reduce reduceID =>
      simp only [acceptTask] at result
      split at result
      case isTrue stage =>
        split at result
        case isTrue last =>
          cases result
          exact .lastReduce stage last
        case isFalse left =>
          cases result
          exact .reduce stage left
      case isFalse => cases result

theorem Job.take_moves (result : job.exec (.take id) = some (job', reply)) :
    Moves job (.take id) job' reply := by
  simp only [Job.exec] at result
  split at result
  case isFalse => cases result
  case isTrue inside =>
    unfold Coordinator.getTask at result
    rcases known : job.c.workers id with - | ⟨- | task⟩
    · simp only [known] at result
      cases result
      exact .takeInvalid inside known
    · rcases queue : job.c.tasks with - | ⟨task, rest⟩
      · simp only [known, queue] at result
        cases result
        exact .takeNoop inside known queue
      · simp only [known, queue] at result
        cases result
        exact .take inside known queue
    · simp only [known] at result
      cases result
      exact .takePanic inside known

theorem Job.finish_moves (result : job.exec (.finish id) = some (job', reply)) :
    Moves job (.finish id) job' reply := by
  simp only [Job.exec] at result
  unfold Coordinator.finishTask at result
  rcases known : job.c.workers id with - | ⟨- | task⟩
  · simp only [known, Coordinator.taskOf, Option.bind_none, Option.toList_none, List.map_nil,
      List.append_nil] at result
    cases result
    exact .finishInvalid known
  · simp only [known] at result
    cases result
    exact .finishPanic
  · cases accepted : job.c.acceptTask task with
    | none =>
        simp only [known, accepted, Option.map_none] at result
        cases result
        exact .finishPanic
    | some c =>
        simp only [known, accepted, Option.map_some, Coordinator.taskOf, Option.bind_some,
          Option.toList_some, List.map_cons, List.map_nil] at result
        cases result
        exact .finish known (Coordinator.acceptTask_accepts accepted)

theorem Job.exec_moves (result : job.exec label = some (job', reply)) :
    Moves job label job' reply := by
  cases label with
  | register =>
      cases result
      exact .register
  | add id =>
      simp only [Job.exec] at result
      split at result
      case isTrue inside =>
        cases result
        exact .add inside
      case isFalse => cases result
  | ask id =>
      simp only [Job.exec] at result
      split at result
      case isTrue done =>
        cases result
        exact .noMoreTask done
      case isFalse notDone =>
        cases result
        exact .ask notDone
  | take id => exact Job.take_moves result
  | finish id => exact Job.finish_moves result
  | heartBeat id =>
      cases result
      exact .heartBeat
  | expire id =>
      simp only [Job.exec, Coordinator.removeWorker] at result
      rcases known : job.c.workers id with - | ⟨- | task⟩
      · simp only [known] at result
        cases result
        exact .expireNobody known
      · simp only [known] at result
        cases result
        exact .expireIdle known
      · simp only [known] at result
        cases result
        exact .expireBusy known

end

end GoLab.MapReduce
