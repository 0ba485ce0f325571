import GoLab.MapReduce.Worker

/-!
# Workers, their coordinator and the directory (`mr/worker.go`)

Any number of worker processes call the coordinator and use the intermediate files in one
directory, which has no such files at the start.  A step is a section of a call under the
locks of the coordinator, a file that is made or opened, a record that is written or read,
or the listing of the directory.  A process may die at any moment, and a worker may expire
at any moment; a heartbeat only sets a timer and is left out.

`collected` is the history of the reduce tasks, with the records each has collected.
-/

namespace GoLab.MapReduce

/-- What the processes run, and what is outside: the input files, and the record that is
decoded for an encoded one. -/
structure Program where
  mapf : MapFunc
  content : Str → Option Str
  json : KeyValue → KeyValue

structure WorkerInfo where
  workerID : WorkerID
  r : UInt16
  deriving DecidableEq, Repr

/-- What a process is about to do. -/
inductive Pc where
  /-- `start`: `RegisterWorker` -/
  | start
  /-- in `RegisterWorker`, with its number -/
  | registering (id : WorkerID)
  /-- the intermediate file `next` is made -/
  | creating (next : Nat)
  /-- `GetTask` -/
  | ready
  /-- in `GetTask`, after the look at the stage -/
  | asking
  /-- `doMapWork`: the input file is read -/
  | opening (number : Nat) (file : Str)
  /-- `doMapWork`: what has been done with the intermediate files and what is left -/
  | mapping (number : Nat) (file : Str) (past todo : List FileOp)
  /-- `doReduceTask`: the directory is listed -/
  | listing (rid : Nat)
  /-- `doReduceTask`: the files to read, the next record of the first, and what was read -/
  | collecting (rid : Nat) (files : List WorkerID) (pos : Nat) (got : List KeyValue)
  /-- the output is written -/
  | reduced (rid : Nat)
  | exited
  deriving DecidableEq, Repr

structure Process where
  workerInfo : WorkerInfo
  pc : Pc
  alive : Bool
  deriving DecidableEq, Repr

/-- `names` are the workers of which there are intermediate files. -/
structure System where
  job : Job
  procs : List Process
  dir : Dir
  names : List WorkerID
  collected : List (Nat × List KeyValue)

/-- A process takes its next step, the directory is listed in some order, a worker expires,
or a process dies. -/
inductive Action where
  | advance (p : Nat)
  | list (p : Nat) (files : List WorkerID)
  | expire (id : WorkerID)
  | crash (p : Nat)
  deriving DecidableEq, Repr

namespace System

def init (files : List Str) (nReduce processes : Nat) : System where
  job := .init files nReduce
  procs := List.replicate processes ⟨⟨0, 0⟩, .start, true⟩
  dir := .empty
  names := []
  collected := []

def setProc (s : System) (p : Nat) (proc : Process) : System :=
  { s with procs := s.procs.set p proc }

/-- A section of a call of the coordinator. -/
def call (s : System) (label : Label) : Option (System × Option RpcReply) :=
  if s.job.panicked then
    none
  else
    (s.job.exec label).map fun (job, reply) => ({ s with job }, reply)

/-- The number of the map task a worker has. -/
def taskNumber (s : System) (id : WorkerID) : Nat :=
  match s.job.c.taskOf id with
  | some (.map number _) => number
  | _ => 0

/-- What a process does with the reply to `GetTask`. -/
def received (s : System) (p : Nat) (proc : Process) : Option RpcReply → System
  | some .invalidWorker => s.setProc p { proc with pc := .start }
  | some (.mapTask file) =>
      s.setProc p { proc with pc := .opening (s.taskNumber proc.workerInfo.workerID) file }
  | some (.reduceTask reduceID) => s.setProc p { proc with pc := .listing reduceID.toNat }
  | some .noMoreTask => s.setProc p { proc with pc := .exited }
  | some _ => s.setProc p { proc with pc := .ready }
  | none => s

/-- The next step of a process. -/
def act (prog : Program) (s : System) (p : Nat) (proc : Process) : Option System :=
  let id := proc.workerInfo.workerID
  match proc.pc with
  | .start =>
      (s.call .register).map fun (s', _) =>
        s'.setProc p { proc with pc := .registering s.job.c.newWorkerID }
  | .registering newID =>
      (s.call (.add newID)).bind fun (s', reply) =>
        match reply with
        | some (.workerInfo workerID r) =>
            some (s'.setProc p { proc with workerInfo := ⟨workerID, r⟩, pc := .creating 0 })
        | _ => none
  | .creating next =>
      if next < proc.workerInfo.r.toNat then
        let s := { s with
          dir := s.dir.create id next
          names := if id ∈ s.names then s.names else s.names ++ [id] }
        some (s.setProc p { proc with pc := .creating (next + 1) })
      else
        some (s.setProc p { proc with pc := .ready })
  | .ready =>
      (s.call (.ask id)).map fun (s', reply) =>
        match reply with
        | none => s'.setProc p { proc with pc := .asking }
        | some reply => s'.received p proc (some reply)
  | .asking => (s.call (.take id)).map fun (s', reply) => s'.received p proc reply
  | .opening number file =>
      match prog.content file with
      | none => some (s.setProc p { proc with alive := false })
      | some text =>
          some (s.setProc p { proc with
            pc := .mapping number file [] (mapOps proc.workerInfo.r (prog.mapf file text)) })
  | .mapping number file past (op :: todo) =>
      match s.dir.exec id op with
      | none => some (s.setProc p { proc with alive := false })
      | some dir =>
          let s := { s with dir }
          some (s.setProc p { proc with pc := .mapping number file (past ++ [op]) todo })
  | .mapping _ _ _ [] | .reduced _ =>
      (s.call (.finish id)).map fun (s', reply) =>
        match reply with
        | none => s'
        | some _ => s'.setProc p { proc with pc := .ready }
  | .collecting rid [] _ got =>
      let s := { s with collected := s.collected ++ [(rid, got)] }
      some (s.setProc p { proc with pc := .reduced rid })
  | .collecting rid (file :: files) pos got =>
      match s.dir file rid with
      | none => some (s.setProc p { proc with alive := false })
      | some records =>
          match records[pos]? with
          | some kv => some (s.setProc p { proc with
              pc := .collecting rid (file :: files) (pos + 1) (got ++ [prog.json kv]) })
          | none => some (s.setProc p { proc with pc := .collecting rid files 0 got })
  | .listing _ | .exited => none

/-- The files of a reduce task in the directory. -/
def entries (s : System) (rid : Nat) : List WorkerID :=
  s.names.filter fun id => (s.dir id rid).isSome

def step (prog : Program) (action : Action) (s : System) : Option System :=
  match action with
  | .advance p => (s.procs[p]?).bind fun proc => if proc.alive then s.act prog p proc else none
  | .list p files => (s.procs[p]?).bind fun proc =>
      match proc.alive, proc.pc with
      | true, .listing rid =>
          if files.isPerm (s.entries rid) then
            some (s.setProc p { proc with pc := .collecting rid files 0 [] })
          else
            none
      | _, _ => none
  | .expire id => (s.call (.expire id)).map Prod.fst
  | .crash p => (s.procs[p]?).map fun proc => s.setProc p { proc with alive := false }

end System

end GoLab.MapReduce
