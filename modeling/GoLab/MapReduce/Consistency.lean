import GoLab.MapReduce.Conservation
import GoLab.MapReduce.Dataflow
import GoLab.MapReduce.System

/-!
# The intermediate files and the accepted tasks

The intermediate files of a worker hold the records of the map tasks that were accepted
from it and what it has written of its present one.  A step of a process touches only what
belongs to its own number, so that what the other processes rely on is left as it is.
-/

namespace GoLab.MapReduce

/-- The contents of the input files. -/
def Program.text (prog : Program) (file : Str) : Str :=
  (prog.content file).getD []

/-- The map tasks that were accepted: the worker and the file. -/
def Job.maps (job : Job) : List (WorkerID × Str) :=
  job.accepted.filterMap fun (id, task) =>
    match task with
    | .map _ file => some (id, file)
    | .reduce _ => none

/-- The input file of a map task. -/
def Task.file? : Task → Option Str
  | .map _ file => some file
  | .reduce _ => none

/-- The number a process has, from its registration to the next one. -/
def Process.claims (proc : Process) : Option WorkerID :=
  match proc.pc with
  | .start => none
  | .registering id => some id
  | _ => some proc.workerInfo.workerID

/-- Nothing is written by the step. -/
def FileOp.isOpen : FileOp → Bool
  | .openFile _ => true
  | .encode .. => false

/-! ## What a process relies on -/

section

variable (prog : Program) (files : List Str) (r : UInt16) (s : System)

/-- The records of the accepted map tasks of a worker for a reduce task. -/
def acceptedRecords (id : WorkerID) (rid : Nat) : List KeyValue :=
  written prog.mapf prog.text r id rid s.job.maps

/-- The files of a worker, which has carried out `past` of its present task. -/
def FilesAre (id : WorkerID) (past : List FileOp) : Prop :=
  ∀ rid < r.toNat, s.dir id rid =
    some (acceptedRecords prog r s id rid ++ past.filterMap (FileOp.record rid))

/-- A worker that is registered has the task. -/
def Holds (id : WorkerID) (task : Task) : Prop :=
  s.job.c.workers id ≠ none → s.job.c.taskOf id = some task

def AllMapped : Prop :=
  ∀ task ∈ mapTasks files, task ∈ s.job.custody.done

/-- What has been read of the files `before` and of the first of `rest` up to `pos`. -/
structure Reads (rid : Nat) (rest : List WorkerID) (pos : Nat) (got : List KeyValue)
    (before : List WorkerID) : Prop where
  once : (before ++ rest).Nodup
  all : ∀ task ∈ s.job.maps, task.1 ∈ before ++ rest
  isGot : got = (before.flatMap (acceptedRecords prog r s · rid) ++
    (rest.head?.elim [] (acceptedRecords prog r s · rid)).take pos).map prog.json

/-- A process together with the files of its worker and the record at the coordinator. -/
inductive ProcOk : Process → Prop where
  | start {info : WorkerInfo} {alive : Bool} : ProcOk ⟨info, .start, alive⟩
  | registering {info : WorkerInfo} {alive : Bool} {id : WorkerID}
      (pending : id ∈ s.job.registering) (empty : ∀ rid, s.dir id rid = none)
      (new : s.job.maps.filter (·.1 = id) = []) : ProcOk ⟨info, .registering id, alive⟩
  | creating {id : WorkerID} {alive : Bool} {next : Nat} (free : s.job.c.taskOf id = none)
      (made : ∀ rid, s.dir id rid = if rid < next then some [] else none)
      (new : s.job.maps.filter (·.1 = id) = []) (atMost : next ≤ r.toNat) :
      ProcOk ⟨⟨id, r⟩, .creating next, alive⟩
  | ready {id : WorkerID} {alive : Bool} (free : s.job.c.taskOf id = none)
      (own : FilesAre prog r s id []) : ProcOk ⟨⟨id, r⟩, .ready, alive⟩
  | asking {id : WorkerID} {alive : Bool} (free : s.job.c.taskOf id = none)
      (own : FilesAre prog r s id []) : ProcOk ⟨⟨id, r⟩, .asking, alive⟩
  | exited {id : WorkerID} {alive : Bool} (free : s.job.c.taskOf id = none)
      (own : FilesAre prog r s id []) : ProcOk ⟨⟨id, r⟩, .exited, alive⟩
  | opening {id : WorkerID} {alive : Bool} {number : Nat} {file : Str}
      (holds : Holds s id (.map number file)) (own : FilesAre prog r s id []) :
      ProcOk ⟨⟨id, r⟩, .opening number file, alive⟩
  | mapping {id : WorkerID} {alive : Bool} {number : Nat} {file : Str} {past todo : List FileOp}
      (holds : Holds s id (.map number file))
      (whole : past ++ todo = mapOps r (prog.mapf file (prog.text file)))
      (silent : s.job.c.workers id = none → past.all FileOp.isOpen = true)
      (own : FilesAre prog r s id past) :
      ProcOk ⟨⟨id, r⟩, .mapping number file past todo, alive⟩
  | listing {id : WorkerID} {alive : Bool} {rid : Nat} {reduceID : ReduceID}
      (holds : Holds s id (.reduce reduceID)) (own : FilesAre prog r s id [])
      (mapped : AllMapped files s) (inside : rid < r.toNat) :
      ProcOk ⟨⟨id, r⟩, .listing rid, alive⟩
  | collecting {id : WorkerID} {alive : Bool} {rid pos : Nat} {rest : List WorkerID}
      {got : List KeyValue} {reduceID : ReduceID} (before : List WorkerID)
      (holds : Holds s id (.reduce reduceID))
      (own : FilesAre prog r s id []) (mapped : AllMapped files s) (inside : rid < r.toNat)
      (reads : Reads prog r s rid rest pos got before) :
      ProcOk ⟨⟨id, r⟩, .collecting rid rest pos got, alive⟩
  | reduced {id : WorkerID} {alive : Bool} {rid : Nat} {reduceID : ReduceID}
      (holds : Holds s id (.reduce reduceID)) (own : FilesAre prog r s id []) :
      ProcOk ⟨⟨id, r⟩, .reduced rid, alive⟩

/-- A number that no process has: that of a former worker, or none yet. -/
inductive Abandoned (id : WorkerID) : Prop where
  | former (own : FilesAre prog r s id [])
  | unused (empty : ∀ rid, s.dir id rid = none) (new : s.job.maps.filter (·.1 = id) = [])

/-- What the steps of others leave as it is for a worker. -/
structure Undisturbed (s' : System) (id : WorkerID) : Prop where
  registering : id ∈ s.job.registering → id ∈ s'.job.registering
  workers : s'.job.c.workers id = s.job.c.workers id
  dir : s'.dir id = s.dir id
  maps : s'.job.maps.filter (·.1 = id) = s.job.maps.filter (·.1 = id)

end

section

variable {prog : Program} {files : List Str} {r : UInt16} {s s' : System} {proc proc' : Process}
  {id : WorkerID} {rid : Nat}

theorem acceptedRecords_eq_nil (new : s.job.maps.filter (·.1 = id) = []) :
    acceptedRecords prog r s id rid = [] := by
  rw [acceptedRecords, written, new, List.flatMap_nil]

namespace Undisturbed

theorem acceptedRecords (same : Undisturbed s s' id) :
    acceptedRecords prog r s' id rid = acceptedRecords prog r s id rid := by
  rw [MapReduce.acceptedRecords, written, same.maps]
  rfl

theorem filesAre (same : Undisturbed s s' id) {past : List FileOp}
    (own : FilesAre prog r s id past) : FilesAre prog r s' id past := by
  intro rid inside
  rw [same.dir, same.acceptedRecords]
  exact own rid inside

theorem taskOf (same : Undisturbed s s' id) : s'.job.c.taskOf id = s.job.c.taskOf id := by
  rw [Coordinator.taskOf, same.workers]
  rfl

theorem holds (same : Undisturbed s s' id) {task : Task} (holds : Holds s id task) :
    Holds s' id task := by
  unfold Holds
  rw [same.workers, same.taskOf]
  exact holds

theorem abandoned (same : Undisturbed s s' id) (abandoned : Abandoned prog r s id) :
    Abandoned prog r s' id := by
  cases abandoned with
  | former own => exact .former (same.filesAre own)
  | unused empty new => exact .unused (fun rid => same.dir ▸ empty rid) (same.maps ▸ new)

end Undisturbed

theorem Reads.of_maps (maps : s'.job.maps = s.job.maps) {rest before : List WorkerID} {pos : Nat}
    {got : List KeyValue} (reads : Reads prog r s rid rest pos got before) :
    Reads prog r s' rid rest pos got before where
  once := reads.once
  all := maps ▸ reads.all
  isGot := by
    unfold acceptedRecords
    rw [maps]
    exact reads.isGot

/-- What a process relies on is not touched by the steps of others. -/
theorem ProcOk.frame (ok : ProcOk prog files r s proc)
    (same : ∀ id, proc.claims = some id → Undisturbed s s' id)
    (mapped : AllMapped files s → AllMapped files s' ∧ s'.job.maps = s.job.maps) :
    ProcOk prog files r s' proc := by
  cases ok with
  | start => exact .start
  | @registering _ _ id pending empty new =>
      have same := same id rfl
      exact .registering (same.registering pending) (fun rid => same.dir ▸ empty rid)
        (same.maps ▸ new)
  | @creating id _ _ free made new atMost =>
      have same := same id rfl
      exact .creating (same.taskOf.trans free) (fun rid => same.dir ▸ made rid) (same.maps ▸ new)
        atMost
  | @ready id _ free own =>
      have same := same id rfl
      exact .ready (same.taskOf.trans free) (same.filesAre own)
  | @asking id _ free own =>
      have same := same id rfl
      exact .asking (same.taskOf.trans free) (same.filesAre own)
  | @exited id _ free own =>
      have same := same id rfl
      exact .exited (same.taskOf.trans free) (same.filesAre own)
  | @opening id _ _ _ holds own =>
      have same := same id rfl
      exact .opening (same.holds holds) (same.filesAre own)
  | @mapping id _ _ _ _ _ holds whole silent own =>
      have same := same id rfl
      exact .mapping (same.holds holds) whole (same.workers ▸ silent) (same.filesAre own)
  | @listing id _ _ _ holds own isMapped inside =>
      have same := same id rfl
      exact .listing (same.holds holds) (same.filesAre own) (mapped isMapped).1 inside
  | @collecting id _ _ _ _ _ _ before holds own isMapped inside reads =>
      have same := same id rfl
      exact .collecting before (same.holds holds) (same.filesAre own) (mapped isMapped).1 inside
        (reads.of_maps (mapped isMapped).2)
  | @reduced id _ _ _ holds own =>
      have same := same id rfl
      exact .reduced (same.holds holds) (same.filesAre own)

end

/-! ## The whole system -/

/-- The processes have numbers of their own, which the counter has given out. -/
structure Claims (s : System) : Prop where
  apart : ∀ (p q : Nat) (proc proc' : Process) (id : WorkerID), s.procs[p]? = some proc →
    s.procs[q]? = some proc' → proc.claims = some id → proc'.claims = some id → p = q
  bounded : ∀ proc ∈ s.procs, ∀ id, proc.claims = some id →
    id.toNat ≤ s.job.c.workerIDAcc.toNat

/-- The processes have numbers of their own, the files of the others are those of former
workers, and the reduce tasks have collected the right records. -/
structure Consistent (prog : Program) (files : List Str) (nReduce : Nat) (s : System) : Prop where
  numbered : Numbered s.job
  conserved : Conserved files nReduce s.job
  procs : ∀ (p : Nat) (proc : Process), s.procs[p]? = some proc →
    ProcOk prog files (UInt16.ofNat nReduce) s proc
  claims : Claims s
  others : ∀ id, (∀ proc ∈ s.procs, proc.claims ≠ some id) →
    Abandoned prog (UInt16.ofNat nReduce) s id
  fresh : ∀ id, s.job.c.workerIDAcc.toNat < id.toNat →
    (∀ rid, s.dir id rid = none) ∧ s.job.maps.filter (·.1 = id) = []
  namesOnce : s.names.Nodup
  named : ∀ id rid, s.dir id rid ≠ none → id ∈ s.names
  collected : ∀ rid got, (rid, got) ∈ s.collected →
    got.Perm ((part (UInt16.ofNat nReduce) rid (emitted prog.mapf prog.text files)).map prog.json)

section

variable {prog : Program} {files : List Str} {nReduce : Nat} {s s' : System}
  {proc proc' : Process} {p : Nat} {id : WorkerID} {label : Label} {reply : Option RpcReply}
  {job' : Job}

/-- The worker a call is about. -/
def Label.worker : Label → Option WorkerID
  | .register => none
  | .add id | .ask id | .take id | .finish id | .heartBeat id | .expire id => some id

/-- A call leaves other workers as they are. -/
theorem Moves.undisturbed {job : Job} (moved : Moves job label job' reply)
    (differs : label.worker ≠ some id) :
    (id ∈ job.registering → id ∈ job'.registering) ∧ job'.c.workers id = job.c.workers id ∧
      job'.maps.filter (·.1 = id) = job.maps.filter (·.1 = id) := by
  have other {id' : WorkerID} (isWorker : label.worker = some id') : id ≠ id' :=
    fun same => differs (same ▸ isWorker)
  cases moved with
  | register => exact ⟨fun pending => List.mem_append_left _ pending, rfl, rfl⟩
  | add =>
      refine ⟨fun pending => ?_, if_neg (other rfl), rfl⟩
      exact (List.mem_erase_of_ne (other rfl)).mpr pending
  | noMoreTask | ask | takeInvalid | takePanic | takeNoop | finishInvalid | finishPanic
  | heartBeat | expireNobody => exact ⟨fun pending => pending, rfl, rfl⟩
  | take | expireIdle | expireBusy =>
      exact ⟨fun pending => pending, if_neg (other rfl), rfl⟩
  | @finish id' task c busy accepts =>
      refine ⟨fun pending => pending, ?_, ?_⟩
      · exact (if_neg (other rfl)).trans (congrFun accepts.frame.1 id)
      · have notHere : id' ≠ id := (other rfl).symm
        cases task with
        | map number file => simp [Job.maps, List.filterMap_append, notHere]
        | reduce => simp [Job.maps, List.filterMap_append]

/-- When all map tasks are accepted, no other is. -/
theorem Moves.mapped {job : Job} (conserved : Conserved files nReduce job)
    (moved : Moves job label job' reply)
    (mapped : ∀ task ∈ mapTasks files, task ∈ job.custody.done) :
    (∀ task ∈ mapTasks files, task ∈ job'.custody.done) ∧ job'.maps = job.maps := by
  refine ⟨fun task inside => (moved.accepted.map Prod.snd).subset (mapped task inside), ?_⟩
  cases moved with
  | @finish _ task _ busy _ =>
      cases task with
      | map number file =>
          obtain ⟨isMap, notDone⟩ := conserved.not_mapped (held_custody job busy)
          exact (notDone (mapped _ isMap)).elim
      | reduce => simp [Job.maps, List.filterMap_append]
  | register | add | noMoreTask | ask | takeInvalid | takePanic | takeNoop | take | finishInvalid
  | finishPanic | heartBeat | expireNobody | expireIdle | expireBusy => rfl

/-- The map tasks are accepted once each. -/
theorem Conserved.maps_perm {job : Job} (conserved : Conserved files nReduce job)
    (mapped : ∀ task ∈ mapTasks files, task ∈ job.custody.done) :
    (job.maps.map Prod.snd).Perm files := by
  have isDone : job.maps.map Prod.snd = job.custody.done.filterMap Task.file? := by
    rw [Job.maps, List.map_filterMap, Job.custody, List.filterMap_map]
    refine List.filterMap_congr fun entry _ => ?_
    obtain ⟨id, task⟩ := entry
    cases task with
    | map | reduce => rfl
  have isFiles : (mapTasks files).filterMap Task.file? = files := by
    rw [mapTasks, List.filterMap_map]
    exact (congrFun List.filterMap_eq_map _).trans (List.zipIdx_map_fst ..)
  have maps : (job.custody.done.filter fun task => task.file?.isSome).Perm (mapTasks files) := by
    rw [List.perm_ext_iff_of_nodup (conserved.conserves.nodup_done.filter _)
      (nodup_of_map_number map_number_mapTasks)]
    intro task
    rw [List.mem_filter]
    cases task with
    | map number file =>
        refine ⟨fun inside => ?_, fun inside => ⟨mapped _ inside, rfl⟩⟩
        exact mem_mapTasks_of_released (conserved.conserves.known _ (.done inside.1))
    | reduce reduceID =>
        exact ⟨fun inside => Bool.noConfusion inside.2,
          fun inside => (reduce_notMem_mapTasks inside).elim⟩
  have onlyMaps := maps.filterMap Task.file?
  rw [List.filterMap_filter, isFiles] at onlyMaps
  rw [isDone]
  refine (List.Perm.of_eq (List.filterMap_congr fun task _ => ?_)).trans onlyMaps
  cases task with
  | map | reduce => rfl

/-- The counter of the workers does not fall. -/
theorem Moves.acc {job : Job} (moved : Moves job label job' reply) (few : fewWorkers job label) :
    job.c.workerIDAcc.toNat ≤ job'.c.workerIDAcc.toNat := by
  cases moved.registers with
  | register _ acc _ =>
      have count := (Numbered.newWorkerID_toNat few).2
      rw [acc]
      omega
  | add _ _ acc _ | other _ acc _ => exact Nat.le_of_eq (congrArg UInt32.toNat acc.symm)

/-- The processes after one of them has changed. -/
theorem getElem?_set_cases {procs : List Process} {q : Nat}
    (here : (procs.set p proc')[q]? = some proc) :
    q = p ∧ proc = proc' ∨ q ≠ p ∧ procs[q]? = some proc := by
  rw [List.getElem?_set] at here
  split at here
  case isTrue isP =>
    split at here
    case isTrue =>
      cases here
      exact .inl ⟨isP.symm, rfl⟩
    case isFalse => cases here
  case isFalse differs => exact .inr ⟨Ne.symm differs, here⟩

/-- A process keeps its number, gives it up, or takes a new one: the others have other
numbers. -/
theorem Claims.others (claims : Claims s) (found : s.procs[p]? = some proc)
    (grown : ∀ id, proc'.claims = some id →
      proc.claims = some id ∨ s.job.c.workerIDAcc.toNat < id.toNat)
    {q : Nat} {other : Process} (differs : q ≠ p) (here : s.procs[q]? = some other)
    (isClaim : other.claims = some id) : proc.claims ≠ some id ∧ proc'.claims ≠ some id := by
  have notBefore : proc.claims ≠ some id := fun again =>
    differs (claims.apart q p other proc id here found isClaim again)
  refine ⟨notBefore, fun again => ?_⟩
  rcases grown id again with before | new
  · exact notBefore before
  · have old := claims.bounded other (List.mem_of_getElem? here) id isClaim
    omega

theorem Claims.moved (claims : Claims s) (found : s.procs[p]? = some proc)
    (procs : s'.procs = s.procs.set p proc')
    (acc : s.job.c.workerIDAcc.toNat ≤ s'.job.c.workerIDAcc.toNat)
    (grown : ∀ id, proc'.claims = some id → proc.claims = some id ∨
      s.job.c.workerIDAcc.toNat < id.toNat ∧ id.toNat ≤ s'.job.c.workerIDAcc.toNat) :
    Claims s' := by
  have others {q : Nat} {other : Process} {id : WorkerID} (differs : q ≠ p)
      (here : s.procs[q]? = some other) (isClaim : other.claims = some id) :=
    (claims.others found (fun id again => (grown id again).imp_right And.left) differs here
      isClaim).2
  constructor
  · intro q q' other other' id here here' isClaim isClaim'
    rw [procs] at here here'
    rcases getElem?_set_cases here with ⟨rfl, rfl⟩ | ⟨differs, old⟩ <;>
      rcases getElem?_set_cases here' with ⟨rfl, rfl⟩ | ⟨differs', old'⟩
    · rfl
    · exact (others differs' old' isClaim' isClaim).elim
    · exact (others differs old isClaim isClaim').elim
    · exact claims.apart q q' other other' id old old' isClaim isClaim'
  · intro other isOther id isClaim
    obtain ⟨q, here⟩ := List.mem_iff_getElem?.mp isOther
    rw [procs] at here
    rcases getElem?_set_cases here with ⟨rfl, rfl⟩ | ⟨-, here⟩
    · rcases grown id isClaim with before | ⟨-, new⟩
      · exact Nat.le_trans (claims.bounded proc (List.mem_of_getElem? found) id before) acc
      · exact new
    · exact Nat.le_trans (claims.bounded other (List.mem_of_getElem? here) id isClaim) acc

namespace Consistent

/-- A process takes a step that does not touch the files and the records of others. -/
theorem moved (consistent : Consistent prog files nReduce s) (found : s.procs[p]? = some proc)
    (procs : s'.procs = s.procs.set p proc') (numbered : Numbered s'.job)
    (conserved : Conserved files nReduce s'.job)
    (acc : s.job.c.workerIDAcc.toNat ≤ s'.job.c.workerIDAcc.toNat)
    (same : ∀ id, proc.claims ≠ some id → Undisturbed s s' id)
    (mapped : AllMapped files s → AllMapped files s' ∧ s'.job.maps = s.job.maps)
    (ok : ProcOk prog files (UInt16.ofNat nReduce) s' proc')
    (claims : ∀ id, proc'.claims = some id → proc.claims = some id ∨
      s.job.c.workerIDAcc.toNat < id.toNat ∧ id.toNat ≤ s'.job.c.workerIDAcc.toNat)
    (left : ∀ id, proc.claims = some id → proc'.claims ≠ some id →
      Abandoned prog (UInt16.ofNat nReduce) s' id)
    (namesOnce : s'.names.Nodup) (named : ∀ id rid, s'.dir id rid ≠ none → id ∈ s'.names)
    (collected : ∀ rid got, (rid, got) ∈ s'.collected → got.Perm
      ((part (UInt16.ofNat nReduce) rid (emitted prog.mapf prog.text files)).map prog.json)) :
    Consistent prog files nReduce s' := by
  have inside := (List.getElem?_eq_some_iff.mp found).1
  refine ⟨numbered, conserved, ?_, consistent.claims.moved found procs acc claims, ?_, ?_,
    namesOnce, named, collected⟩
  · intro q other here
    rw [procs] at here
    rcases getElem?_set_cases here with ⟨rfl, rfl⟩ | ⟨differs, here⟩
    · exact ok
    · refine (consistent.procs q other here).frame (fun id isClaim => same id ?_) mapped
      exact (consistent.claims.others found
        (fun id again => (claims id again).imp_right And.left) differs here isClaim).1
  · intro id nobody
    have notNow : proc'.claims ≠ some id := nobody proc' (procs ▸ List.mem_set inside _)
    by_cases before : proc.claims = some id
    · exact left id before notNow
    · refine (same id before).abandoned (consistent.others id fun other isOther => ?_)
      obtain ⟨q, here⟩ := List.mem_iff_getElem?.mp isOther
      by_cases isP : q = p
      · subst isP
        cases here.symm.trans found
        exact before
      · refine nobody other (List.mem_iff_getElem?.mpr ⟨q, ?_⟩)
        rw [procs, List.getElem?_set_ne (Ne.symm isP)]
        exact here
  · intro id isNew
    have notBefore : proc.claims ≠ some id := fun isClaim => by
      have old := consistent.claims.bounded proc (List.mem_of_getElem? found) id isClaim
      omega
    obtain ⟨empty, new⟩ := consistent.fresh id (by omega)
    have same := same id notBefore
    exact ⟨fun rid => same.dir ▸ empty rid, same.maps ▸ new⟩

section

variable (consistent : Consistent prog files nReduce s) (found : s.procs[p]? = some proc)
include consistent found

/-- A process goes on by itself. -/
theorem internal (claims : proc'.claims = proc.claims)
    (ok : ProcOk prog files (UInt16.ofNat nReduce) s proc') :
    Consistent prog files nReduce (s.setProc p proc') :=
  consistent.moved found rfl consistent.numbered consistent.conserved (Nat.le_refl _)
    (fun _ _ => ⟨fun pending => pending, rfl, rfl, rfl⟩) (fun mapped => ⟨mapped, rfl⟩)
    (ok.frame (fun _ _ => ⟨fun pending => pending, rfl, rfl, rfl⟩) fun mapped => ⟨mapped, rfl⟩)
    (fun _ isClaim => .inl (claims ▸ isClaim))
    (fun _ before notNow => (notNow (claims ▸ before)).elim) consistent.namesOnce consistent.named
    consistent.collected

/-- A process calls the coordinator. -/
theorem called (moved : Moves s.job label job' reply) (few : fewWorkers s.job label)
    (own : ∀ id, label.worker = some id → proc.claims = some id)
    (ok : ProcOk prog files (UInt16.ofNat nReduce) { s with job := job' } proc')
    (claims : ∀ id, proc'.claims = some id → proc.claims = some id ∨
      s.job.c.workerIDAcc.toNat < id.toNat ∧ id.toNat ≤ job'.c.workerIDAcc.toNat)
    (left : ∀ id, proc.claims = some id → proc'.claims ≠ some id →
      Abandoned prog (UInt16.ofNat nReduce) { s with job := job' } id) :
    Consistent prog files nReduce (({ s with job := job' } : System).setProc p proc') := by
  have same (id : WorkerID) (notOwn : proc.claims ≠ some id) :
      Undisturbed s (({ s with job := job' } : System).setProc p proc') id := by
    obtain ⟨registering, workers, maps⟩ := moved.undisturbed fun isWorker =>
      notOwn (own id isWorker)
    exact ⟨registering, workers, rfl, maps⟩
  have unchanged (id : WorkerID) : Undisturbed { s with job := job' }
      (({ s with job := job' } : System).setProc p proc') id :=
    ⟨fun pending => pending, rfl, rfl, rfl⟩
  exact consistent.moved found rfl (consistent.numbered.moves few moved)
    (consistent.conserved.numbered_moves consistent.numbered moved) (moved.acc few) same
    (moved.mapped consistent.conserved)
    (ok.frame (fun id _ => unchanged id) fun mapped => ⟨mapped, rfl⟩) claims
    (fun id before notNow => (unchanged id).abandoned (left id before notNow))
    consistent.namesOnce consistent.named consistent.collected

/-- A process calls the coordinator and keeps its number. -/
theorem answered (moved : Moves s.job label job' reply) (few : fewWorkers s.job label)
    (isOwn : proc.claims = some id) (worker : label.worker = some id)
    (claims : proc'.claims = some id)
    (ok : ProcOk prog files (UInt16.ofNat nReduce) { s with job := job' } proc') :
    Consistent prog files nReduce (({ s with job := job' } : System).setProc p proc') :=
  consistent.called found moved few (fun _ isWorker => isOwn.trans (worker.symm.trans isWorker)) ok
    (fun _ isClaim => .inl (isOwn.trans (claims.symm.trans isClaim)))
    (fun _ before notNow => (notNow (claims.trans (isOwn.symm.trans before))).elim)

/-- A process changes the files of its number. -/
theorem wrote {dir : Dir} {names : List WorkerID} (isOwn : proc.claims = some id)
    (claims : proc'.claims = some id) (others : ∀ other, other ≠ id → dir other = s.dir other)
    (ok : ProcOk prog files (UInt16.ofNat nReduce) { s with dir, names } proc')
    (namesOnce : names.Nodup) (named : ∀ id rid, dir id rid ≠ none → id ∈ names) :
    Consistent prog files nReduce (({ s with dir, names } : System).setProc p proc') := by
  refine consistent.moved found rfl consistent.numbered consistent.conserved (Nat.le_refl _)
    (fun other notOwn => ?_) (fun mapped => ⟨mapped, rfl⟩)
    (ok.frame (fun _ _ => ⟨fun pending => pending, rfl, rfl, rfl⟩) fun mapped => ⟨mapped, rfl⟩)
    (fun other isClaim => .inl ?_) (fun other before notNow => ?_) namesOnce named
    consistent.collected
  · have differs : other ≠ id := fun same => notOwn (same ▸ isOwn)
    exact ⟨fun pending => pending, rfl, others other differs, rfl⟩
  · exact isOwn.trans (claims.symm.trans isClaim)
  · exact (notNow (claims.trans (isOwn.symm.trans before))).elim

end

end Consistent

end

end GoLab.MapReduce
