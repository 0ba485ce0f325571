import GoLab.MapReduce.Consistency

/-!
# Every record of the map tasks is collected once

As long as no worker is removed once it has begun to write the records of its map task,
and none writes after it was removed, the reduce tasks find exactly the records of the
accepted tasks.
-/

namespace GoLab.MapReduce

/-! ## Conditions -/

/-- The process has written no record of its map task. -/
def Process.silent (proc : Process) : Bool :=
  match proc.pc with
  | .mapping _ _ past _ => past.all FileOp.isOpen
  | _ => true

/-- The next step of the process writes a record. -/
def Process.writes (proc : Process) : Bool :=
  match proc.pc with
  | .mapping _ _ _ (op :: _) => !op.isOpen
  | _ => false

/-- Fewer than `2 ^ 16` workers register. -/
def fewProcesses (s : System) : Action → Prop
  | .advance p => ∀ proc ∈ s.procs[p]?, proc.pc = .start → s.job.c.workerIDAcc.toNat + 1 < 2 ^ 16
  | _ => True

/-- No worker is removed that has begun to write the records of its map task, and none
writes that has been removed. -/
def wholeOrNothing (s : System) : Action → Prop
  | .expire id => ∀ proc ∈ s.procs, proc.claims = some id → proc.silent = true
  | .advance p => ∀ proc ∈ s.procs[p]?, proc.writes = true →
      s.job.c.workers proc.workerInfo.workerID ≠ none
  | _ => True

/-- The conditions under which no record is lost or counted twice. -/
def writtenOnce (s : System) (action : Action) : Prop :=
  fewProcesses s action ∧ wholeOrNothing s action

instance (s : System) : (action : Action) → Decidable (fewProcesses s action)
  | .advance p =>
      match found : s.procs[p]? with
      | none => .isTrue (by simp [fewProcesses, found])
      | some proc => decidable_of_iff
          (proc.pc = .start → s.job.c.workerIDAcc.toNat + 1 < 2 ^ 16)
          (by simp [fewProcesses, found])
  | .list .. | .expire _ | .crash _ => .isTrue trivial

instance (s : System) : (action : Action) → Decidable (wholeOrNothing s action)
  | .advance p =>
      match found : s.procs[p]? with
      | none => .isTrue (by simp [wholeOrNothing, found])
      | some proc => decidable_of_iff
          (proc.writes = true → s.job.c.workers proc.workerInfo.workerID ≠ none)
          (by simp [wholeOrNothing, found])
  | .expire id => inferInstanceAs (Decidable (∀ proc ∈ s.procs, _ → _))
  | .list .. | .crash _ => .isTrue trivial

instance (s : System) (action : Action) : Decidable (writtenOnce s action) :=
  inferInstanceAs (Decidable (_ ∧ _))

/-! ## The steps of a process -/

section

variable {prog : Program} {files : List Str} {nReduce : Nat} {s s' : System} {proc : Process}
  {p : Nat} {id : WorkerID} {label : Label} {reply : Option RpcReply} {alive : Bool}

theorem System.call_exec (result : s.call label = some (s', reply)) :
    ∃ job', s.job.exec label = some (job', reply) ∧ s' = { s with job := job' } := by
  unfold System.call at result
  split at result
  case isTrue => cases result
  case isFalse =>
    obtain ⟨⟨job', reply'⟩, executed, same⟩ := Option.map_eq_some_iff.mp result
    cases same
    exact ⟨job', executed, rfl⟩

theorem System.call_eq_some (result : s.call label = some (s', reply)) :
    ∃ job', Moves s.job label job' reply ∧ s' = { s with job := job' } := by
  obtain ⟨job', executed, same⟩ := System.call_exec result
  exact ⟨job', Job.exec_moves executed, same⟩

theorem System.setProc_self (found : s.procs[p]? = some proc) : s.setProc p proc = s := by
  obtain ⟨inside, isProc⟩ := List.getElem?_eq_some_iff.mp found
  rw [System.setProc, ← isProc, List.set_getElem_self]

/-- Whether a process lives does not matter for the files. -/
theorem ProcOk.setAlive {r : UInt16} (ok : ProcOk prog files r s proc) (alive : Bool) :
    ProcOk prog files r s { proc with alive } := by
  cases ok with
  | start => exact .start
  | registering pending empty new => exact .registering pending empty new
  | creating free made new atMost => exact .creating free made new atMost
  | ready free own => exact .ready free own
  | asking free own => exact .asking free own
  | exited free own => exact .exited free own
  | opening holds own => exact .opening holds own
  | mapping holds whole silent own => exact .mapping holds whole silent own
  | listing holds own mapped inside => exact .listing holds own mapped inside
  | collecting before holds own mapped inside reads =>
      exact .collecting before holds own mapped inside reads
  | reduced holds own => exact .reduced holds own

/-- The steps of a task that have only opened files have written nothing. -/
theorem filterMap_record_eq_nil {past : List FileOp} (silent : past.all FileOp.isOpen = true)
    (rid : Nat) : past.filterMap (FileOp.record rid) = [] := by
  refine List.filterMap_eq_nil_iff.mpr fun op inside => ?_
  have isOpen := List.all_eq_true.mp silent op inside
  cases op with
  | openFile => rfl
  | encode => cases isOpen

namespace Consistent

variable {info : WorkerInfo}

section

variable (consistent : Consistent prog files nReduce s)
include consistent

theorem act_start (found : s.procs[p]? = some ⟨info, .start, alive⟩)
    (few : s.job.c.workerIDAcc.toNat + 1 < 2 ^ 16)
    (taken : s.act prog p ⟨info, .start, alive⟩ = some s') :
    Consistent prog files nReduce s' := by
  obtain ⟨⟨next, reply⟩, called, rfl⟩ := Option.map_eq_some_iff.mp taken
  obtain ⟨job', moved, rfl⟩ := System.call_eq_some called
  obtain ⟨newID, newAcc⟩ := Numbered.newWorkerID_toNat few
  obtain ⟨empty, new⟩ := consistent.fresh s.job.c.newWorkerID (by omega)
  cases moved
  refine consistent.called found .register few nofun ?_ ?_ nofun
  · exact .registering (List.mem_append_right _ (List.mem_singleton_self _)) empty new
  · rintro id ⟨⟩
    exact .inr ⟨by omega, Nat.le_of_eq (newID.trans newAcc.symm)⟩

theorem act_registering {newID : WorkerID}
    (found : s.procs[p]? = some ⟨info, .registering newID, alive⟩)
    (taken : s.act prog p ⟨info, .registering newID, alive⟩ = some s') :
    Consistent prog files nReduce s' := by
  obtain ⟨⟨next, reply⟩, called, result⟩ := Option.bind_eq_some_iff.mp taken
  obtain ⟨job', moved, rfl⟩ := System.call_eq_some called
  cases moved with
  | add inside =>
      cases result
      have isR : s.job.c.nReduce = UInt16.ofNat nReduce := consistent.conserved.nReduce
      cases consistent.procs p _ found with
      | registering pending empty new =>
          refine consistent.answered found (.add inside) trivial rfl rfl rfl ?_
          rw [isR]
          refine .creating ?_ (fun rid => empty rid) new (Nat.zero_le _)
          simp [Coordinator.taskOf, Coordinator.addWorker, Coordinator.setWorker]

theorem act_creating {next : Nat} (found : s.procs[p]? = some ⟨info, .creating next, alive⟩)
    (taken : s.act prog p ⟨info, .creating next, alive⟩ = some s') :
    Consistent prog files nReduce s' := by
  simp only [System.act] at taken
  cases consistent.procs p _ found with
  | @creating id _ _ free made new atMost =>
      split at taken
      case isFalse last =>
        cases taken
        refine consistent.internal found rfl (.ready free fun rid inside => ?_)
        dsimp only at last
        rw [made, if_pos (by omega), acceptedRecords_eq_nil new]
        rfl
      case isTrue more =>
        cases taken
        dsimp only at more
        have isNamed : id ∈ (if id ∈ s.names then s.names else s.names ++ [id]) := by
          split
          case isTrue inside => exact inside
          case isFalse => exact List.mem_append_right _ (List.mem_singleton_self _)
        have kept (other : WorkerID) (inside : other ∈ s.names) :
            other ∈ (if id ∈ s.names then s.names else s.names ++ [id]) := by
          split
          case isTrue => exact inside
          case isFalse => exact List.mem_append_left _ inside
        refine consistent.wrote found rfl rfl (fun other differs => ?_)
          (.creating free (fun rid => ?_) new more) ?_ (fun other rid present => ?_)
        · funext rid
          simp [Dir.create, Dir.set, differs]
        · simp only [Dir.create, Dir.set, true_and, made]
          by_cases isNext : rid = next
          · simp [isNext]
          · rw [if_neg isNext]
            refine if_congr ?_ rfl rfl
            omega
        · split
          case isTrue => exact consistent.namesOnce
          case isFalse absent =>
            rw [List.nodup_append]
            refine ⟨consistent.namesOnce, by simp, fun other inside last isLast same => ?_⟩
            exact absent (List.mem_singleton.mp isLast ▸ same ▸ inside)
        · by_cases isID : other = id
          · exact isID ▸ isNamed
          · refine kept other (consistent.named other rid ?_)
            simpa [Dir.create, Dir.set, isID] using present

theorem act_ready (found : s.procs[p]? = some ⟨info, .ready, alive⟩)
    (taken : s.act prog p ⟨info, .ready, alive⟩ = some s') :
    Consistent prog files nReduce s' := by
  obtain ⟨⟨next, reply⟩, called, rfl⟩ := Option.map_eq_some_iff.mp taken
  obtain ⟨job', moved, rfl⟩ := System.call_eq_some called
  cases consistent.procs p _ found with
  | ready free own =>
      cases moved with
      | noMoreTask done =>
          exact consistent.answered found (.noMoreTask done) trivial rfl rfl rfl (.exited free own)
      | ask notDone =>
          exact consistent.answered found (.ask notDone) trivial rfl rfl rfl (.asking free own)

theorem act_asking (found : s.procs[p]? = some ⟨info, .asking, alive⟩)
    (taken : s.act prog p ⟨info, .asking, alive⟩ = some s') :
    Consistent prog files nReduce s' := by
  obtain ⟨⟨next, reply⟩, called, rfl⟩ := Option.map_eq_some_iff.mp taken
  obtain ⟨job', moved, rfl⟩ := System.call_eq_some called
  cases consistent.procs p _ found with
  | @asking id _ free own =>
      cases moved with
      | takeInvalid inside unknown =>
          refine consistent.called found (.takeInvalid inside unknown) trivial (fun _ same => same)
            .start nofun (fun other isOther _ => ?_)
          cases isOther
          exact .former own
      | takePanic inside busy =>
          simp [Coordinator.taskOf, busy] at free
      | takeNoop inside idle empty =>
          exact consistent.answered found (.takeNoop inside idle empty) trivial rfl rfl rfl
            (.ready free own)
      | @take _ task rest inside idle first =>
          have moved : Moves s.job _ _ _ := .take inside idle first
          have conserved := consistent.conserved.numbered_moves consistent.numbered moved
          have now : ({ s.job.c.setWorker id (some ⟨some task⟩) with tasks := rest } :
              Coordinator).taskOf id = some task := by
            simp [Coordinator.taskOf, Coordinator.setWorker]
          cases task with
          | map number file =>
              refine consistent.answered found moved trivial rfl rfl rfl ?_
              simp only [System.taskNumber, now]
              exact .opening (fun _ => now) own
          | reduce reduceID =>
              obtain ⟨mapped, isTask⟩ := conserved.mapped_of_reduce (.held now)
              have below := number_lt_of_mem_reduceTasks isTask
              exact consistent.answered found moved trivial rfl rfl rfl
                (.listing (fun _ => now) own mapped (consistent.conserved.nReduce ▸ below))

theorem act_opening {number : Nat} {file : Str}
    (found : s.procs[p]? = some ⟨info, .opening number file, alive⟩)
    (taken : s.act prog p ⟨info, .opening number file, alive⟩ = some s') :
    Consistent prog files nReduce s' := by
  have ok := consistent.procs p _ found
  simp only [System.act] at taken
  split at taken
  case h_1 =>
    cases taken
    exact consistent.internal found rfl (ok.setAlive false)
  case h_2 text readable =>
    cases taken
    cases ok with
    | opening holds own =>
        have isText : prog.text file = text := by rw [Program.text, readable, Option.getD_some]
        exact consistent.internal found rfl (.mapping holds (isText ▸ rfl) (fun _ => rfl) own)

theorem act_mapping {number : Nat} {file : Str} {past todo : List FileOp} {op : FileOp}
    (found : s.procs[p]? = some ⟨info, .mapping number file past (op :: todo), alive⟩)
    (registered : op.isOpen = false → s.job.c.workers info.workerID ≠ none)
    (taken : s.act prog p ⟨info, .mapping number file past (op :: todo), alive⟩ = some s') :
    Consistent prog files nReduce s' := by
  cases consistent.procs p _ found with
  | @mapping id _ _ _ _ _ holds whole silent own =>
      have inside : op.rid < (UInt16.ofNat nReduce).toNat :=
        rid_mapOps (whole ▸ List.mem_append_right _ (List.mem_cons_self ..))
      have exist : s.dir id op.rid ≠ none := by
        rw [own op.rid inside]
        exact nofun
      obtain ⟨dir, executed, others, ownFiles⟩ := Dir.exec_of_exists exist
      simp only [System.act, executed] at taken
      cases taken
      refine consistent.wrote found rfl rfl others
        (.mapping holds ?_ (fun unknown => ?_) fun rid inside => ?_) consistent.namesOnce
        fun other rid present => ?_
      · rw [List.append_assoc]
        exact whole
      · have isOpen : op.isOpen = true := by
          cases known : op.isOpen with
          | true => rfl
          | false => exact (registered known unknown).elim
        rw [List.all_append, silent unknown]
        simp [isOpen]
      · dsimp only
        rw [ownFiles, own rid inside, Option.map_some, List.filterMap_append, List.append_assoc]
        cases record : op.record rid with
        | none => simp [acceptedRecords, record]
        | some kv => simp [acceptedRecords, record]
      · refine consistent.named other rid fun absent => present ?_
        by_cases isID : other = id
        · subst isID
          rw [ownFiles, absent, Option.map_none]
        · rw [others other isID]
          exact absent

/-- `FinishTask`, when the process goes on with `GetTask`. -/
theorem finish (found : s.procs[p]? = some proc) (isOwn : proc.claims = some id)
    (after : ∀ job' reply, Moves s.job (.finish id) job' (some reply) →
      ProcOk prog files (UInt16.ofNat nReduce) { s with job := job' } { proc with pc := .ready })
    (claims : ({ proc with pc := .ready } : Process).claims = some id)
    (taken : ((s.call (.finish id)).map fun (s', reply) =>
      match reply with
      | none => s'
      | some _ => s'.setProc p { proc with pc := .ready }) = some s') :
    Consistent prog files nReduce s' := by
  obtain ⟨⟨next, reply⟩, called, rfl⟩ := Option.map_eq_some_iff.mp taken
  obtain ⟨job', moved, rfl⟩ := System.call_eq_some called
  cases reply with
  | none =>
      cases moved
      have ok : ProcOk prog files (UInt16.ofNat nReduce)
          { s with job := { s.job with panicked := true } } proc :=
        (consistent.procs p proc found).frame
          (fun _ _ => ⟨fun pending => pending, rfl, rfl, rfl⟩) fun mapped => ⟨mapped, rfl⟩
      have alone : ({ s with job := { s.job with panicked := true } } : System).setProc p proc =
        { s with job := { s.job with panicked := true } } := System.setProc_self found
      exact alone ▸ consistent.answered found .finishPanic trivial isOwn rfl isOwn ok
  | some reply => exact consistent.answered found moved trivial isOwn rfl claims (after _ _ moved)

theorem act_mapped {number : Nat} {file : Str} {past : List FileOp}
    (found : s.procs[p]? = some ⟨info, .mapping number file past [], alive⟩)
    (taken : s.act prog p ⟨info, .mapping number file past [], alive⟩ = some s') :
    Consistent prog files nReduce s' := by
  cases consistent.procs p _ found with
  | @mapping id _ _ _ _ _ holds whole silent own =>
      rw [List.append_nil] at whole
      refine consistent.finish found rfl (fun job' reply moved => ?_) rfl taken
      cases moved with
      | finishInvalid unknown =>
          refine .ready (by simp [Coordinator.taskOf, unknown]) fun rid inside => ?_
          rw [own rid inside, filterMap_record_eq_nil (silent unknown)]
          rfl
      | @finish _ task c busy accepts =>
          have isTask := holds (by simp [busy])
          rw [show s.job.c.taskOf id = some task by simp [Coordinator.taskOf, busy]] at isTask
          cases isTask
          refine .ready (by simp [Coordinator.taskOf, Coordinator.setWorker]) fun rid inside => ?_
          dsimp only
          rw [own rid inside, whole, filterMap_record_mapOps inside]
          simp [acceptedRecords, written, Job.maps, List.filterMap_append]

theorem act_reduced {rid : Nat} (found : s.procs[p]? = some ⟨info, .reduced rid, alive⟩)
    (taken : s.act prog p ⟨info, .reduced rid, alive⟩ = some s') :
    Consistent prog files nReduce s' := by
  cases consistent.procs p _ found with
  | @reduced id _ _ reduceID holds own =>
      refine consistent.finish found rfl (fun job' reply moved => ?_) rfl taken
      cases moved with
      | finishInvalid unknown => exact .ready (by simp [Coordinator.taskOf, unknown]) own
      | @finish _ task c busy accepts =>
          have isTask := holds (by simp [busy])
          rw [show s.job.c.taskOf id = some task by simp [Coordinator.taskOf, busy]] at isTask
          cases isTask
          refine .ready (by simp [Coordinator.taskOf, Coordinator.setWorker]) fun rid inside => ?_
          dsimp only
          rw [own rid inside]
          simp [acceptedRecords, written, Job.maps, List.filterMap_append]

/-- The files when all map tasks are accepted: nobody is in the middle of writing. -/
theorem dir_of_mapped (mapped : AllMapped files s) {rid : Nat}
    (inside : rid < (UInt16.ofNat nReduce).toNat) (id : WorkerID) :
    s.dir id rid = some (acceptedRecords prog (UInt16.ofNat nReduce) s id rid) ∨
      s.job.maps.filter (·.1 = id) = [] ∧ (s.dir id rid = none ∨ s.dir id rid = some []) := by
  have plain (own : FilesAre prog (UInt16.ofNat nReduce) s id []) :
      s.dir id rid = some (acceptedRecords prog (UInt16.ofNat nReduce) s id rid) := by
    rw [own rid inside, List.filterMap_nil, List.append_nil]
  by_cases claimed : ∃ proc ∈ s.procs, proc.claims = some id
  · obtain ⟨proc, isProc, isClaim⟩ := claimed
    obtain ⟨p, found⟩ := List.mem_iff_getElem?.mp isProc
    cases consistent.procs p proc found with
    | start => cases isClaim
    | registering _ empty new =>
        cases isClaim
        exact .inr ⟨new, .inl (empty rid)⟩
    | @creating _ _ next _ made new _ =>
        cases isClaim
        refine .inr ⟨new, ?_⟩
        rw [made]
        split
        case isTrue => exact .inr rfl
        case isFalse => exact .inl rfl
    | ready _ own | asking _ own | exited _ own | opening _ own | listing _ own
    | collecting _ _ own | reduced _ own =>
        cases isClaim
        exact .inl (plain own)
    | @mapping worker _ _ _ _ _ holds whole silent own =>
        cases isClaim
        refine .inl (plain fun rid inside => ?_)
        have gone : s.job.c.workers worker = none := Decidable.byContradiction fun known => by
          obtain ⟨isMap, notDone⟩ := consistent.conserved.not_mapped (holds known)
          exact notDone (mapped _ isMap)
        rw [own rid inside, filterMap_record_eq_nil (silent gone)]
        rfl
  · have nobody : ∀ proc ∈ s.procs, proc.claims ≠ some id :=
      fun proc isProc isClaim => claimed ⟨proc, isProc, isClaim⟩
    cases consistent.others id nobody with
    | former own => exact .inl (plain own)
    | unused empty new => exact .inr ⟨new, .inl (empty rid)⟩

/-- A file that exists has the accepted records of its worker. -/
theorem records_of_mapped (mapped : AllMapped files s) {rid : Nat}
    (inside : rid < (UInt16.ofNat nReduce).toNat) {records : List KeyValue}
    (present : s.dir id rid = some records) :
    records = acceptedRecords prog (UInt16.ofNat nReduce) s id rid := by
  rcases consistent.dir_of_mapped mapped inside id with isDir | ⟨new, none | empty⟩
  · exact Option.some.inj (present.symm.trans isDir)
  · cases present.symm.trans none
  · rw [acceptedRecords_eq_nil new]
    exact Option.some.inj (present.symm.trans empty)

/-- A listing has the files of all accepted map tasks. -/
theorem act_list {rid : Nat} {listed : List WorkerID}
    (found : s.procs[p]? = some ⟨info, .listing rid, alive⟩)
    (isPerm : listed.isPerm (s.entries rid) = true) :
    Consistent prog files nReduce
      (s.setProc p ⟨info, .collecting rid listed 0 [], alive⟩) := by
  have perm : listed.Perm (s.entries rid) := List.isPerm_iff.mp isPerm
  cases consistent.procs p _ found with
  | listing holds own mapped inside =>
      refine consistent.internal found rfl (.collecting [] holds own mapped inside ⟨?_, ?_, rfl⟩)
      · exact perm.nodup_iff.mpr (consistent.namesOnce.filter _)
      · intro task isTask
        rw [List.nil_append, perm.mem_iff, System.entries, List.mem_filter]
        have present : (s.dir task.1 rid).isSome = true := by
          rcases consistent.dir_of_mapped mapped inside task.1 with isDir | ⟨none, -⟩
          · rw [isDir]
            rfl
          · have isHere : task ∈ s.job.maps.filter (·.1 = task.1) :=
              List.mem_filter.mpr ⟨isTask, by simp⟩
            rw [none] at isHere
            cases isHere
        exact ⟨consistent.named task.1 rid (Option.isSome_iff_ne_none.mp present), present⟩

theorem act_read {rid pos : Nat} {file : WorkerID} {rest : List WorkerID} {got : List KeyValue}
    (found : s.procs[p]? = some ⟨info, .collecting rid (file :: rest) pos got, alive⟩)
    (taken : s.act prog p ⟨info, .collecting rid (file :: rest) pos got, alive⟩ = some s') :
    Consistent prog files nReduce s' := by
  have ok := consistent.procs p _ found
  simp only [System.act] at taken
  split at taken
  case h_1 =>
    cases taken
    exact consistent.internal found rfl (ok.setAlive false)
  case h_2 records present =>
    cases ok with
    | collecting before holds own mapped inside reads =>
        obtain rfl := consistent.records_of_mapped mapped inside present
        split at taken
        case h_1 kv isNext =>
          cases taken
          refine consistent.internal found rfl
            (.collecting before holds own mapped inside ⟨reads.once, reads.all, ?_⟩)
          rw [reads.isGot]
          simp [List.take_add_one, isNext]
        case h_2 past =>
          cases taken
          refine consistent.internal found rfl
            (.collecting (before ++ [file]) holds own mapped inside ⟨?_, ?_, ?_⟩)
          · simpa using reads.once
          · simpa using reads.all
          · rw [reads.isGot]
            simp only [List.head?_cons, Option.elim_some, List.take_zero, List.append_nil]
            rw [List.take_of_length_le (List.getElem?_eq_none_iff.mp past), List.flatMap_append,
              List.flatMap_singleton]

theorem act_collected {rid pos : Nat} {got : List KeyValue}
    (found : s.procs[p]? = some ⟨info, .collecting rid [] pos got, alive⟩)
    (taken : s.act prog p ⟨info, .collecting rid [] pos got, alive⟩ = some s') :
    Consistent prog files nReduce s' := by
  cases taken
  cases consistent.procs p _ found with
  | collecting before holds own mapped inside reads =>
      have all : (before.flatMap (acceptedRecords prog (UInt16.ofNat nReduce) s · rid)).Perm
          (part (UInt16.ofNat nReduce) rid (emitted prog.mapf prog.text files)) :=
        flatMap_written_perm (consistent.conserved.maps_perm mapped) (by simpa using reads.once)
          (by simpa using reads.all)
      have isGot : got.Perm ((part (UInt16.ofNat nReduce) rid
          (emitted prog.mapf prog.text files)).map prog.json) := by
        rw [reads.isGot]
        simpa using all.map prog.json
      refine consistent.moved found rfl consistent.numbered consistent.conserved (Nat.le_refl _)
        (fun _ _ => ⟨fun pending => pending, rfl, rfl, rfl⟩) (fun mapped => ⟨mapped, rfl⟩)
        (.reduced holds own) (fun _ isClaim => .inl isClaim)
        (fun _ before notNow => (notNow before).elim) consistent.namesOnce consistent.named
        fun rid' got' inside' => ?_
      rcases List.mem_append.mp inside' with earlier | isNew
      · exact consistent.collected rid' got' earlier
      · cases List.mem_singleton.mp isNew
        exact isGot

end

end Consistent

/-- What `removeWorker` leaves behind. -/
theorem Moves.expired {job job' : Job} (moved : Moves job (.expire id) job' reply) :
    job'.c.workers id = none ∧ job'.maps = job.maps ∧ job'.registering = job.registering ∧
      job'.c.workerIDAcc = job.c.workerIDAcc := by
  cases moved with
  | expireNobody unknown => exact ⟨unknown, rfl, rfl, rfl⟩
  | expireIdle | expireBusy => exact ⟨if_pos rfl, rfl, rfl, rfl⟩

/-- The process of a removed worker, which has written nothing of its map task. -/
theorem ProcOk.expired {r : UInt16} {job' : Job} (ok : ProcOk prog files r s proc)
    (isClaim : proc.claims = some id) (silent : proc.silent = true)
    (gone : job'.c.workers id = none) (maps : job'.maps = s.job.maps)
    (registering : job'.registering = s.job.registering)
    (mapped : AllMapped files s → AllMapped files { s with job := job' }) :
    ProcOk prog files r { s with job := job' } proc := by
  have free : job'.c.taskOf id = none := by simp [Coordinator.taskOf, gone]
  have vacuous (task : Task) : Holds { s with job := job' } id task :=
    fun known => (known gone).elim
  have files {past : List FileOp} (own : FilesAre prog r s id past) :
      FilesAre prog r { s with job := job' } id past := by
    intro rid inside
    rw [acceptedRecords, maps]
    exact own rid inside
  cases ok with
  | start => exact .start
  | registering pending empty new => exact .registering (registering ▸ pending) empty (maps ▸ new)
  | creating _ made new atMost =>
      cases isClaim
      exact .creating free made (maps ▸ new) atMost
  | ready _ own =>
      cases isClaim
      exact .ready free (files own)
  | asking _ own =>
      cases isClaim
      exact .asking free (files own)
  | exited _ own =>
      cases isClaim
      exact .exited free (files own)
  | opening _ own =>
      cases isClaim
      exact .opening (vacuous _) (files own)
  | mapping _ whole _ own =>
      cases isClaim
      exact .mapping (vacuous _) whole (fun _ => silent) (files own)
  | @listing _ _ _ reduceID _ own isMapped inside =>
      cases isClaim
      exact .listing (vacuous (.reduce reduceID)) (files own) (mapped isMapped) inside
  | @collecting _ _ _ _ _ _ reduceID before _ own isMapped inside reads =>
      cases isClaim
      exact .collecting before (vacuous (.reduce reduceID)) (files own) (mapped isMapped) inside
        (reads.of_maps maps)
  | @reduced _ _ _ reduceID _ own =>
      cases isClaim
      exact .reduced (vacuous (.reduce reduceID)) (files own)

namespace Consistent

/-- A worker is removed. -/
theorem expire (consistent : Consistent prog files nReduce s) {job' : Job}
    (silent : ∀ proc ∈ s.procs, proc.claims = some id → proc.silent = true)
    (moved : Moves s.job (.expire id) job' reply) :
    Consistent prog files nReduce { s with job := job' } := by
  obtain ⟨gone, maps, registering, acc⟩ := moved.expired
  have mapped := moved.mapped consistent.conserved
  have anyNumber : fewWorkers s.job (.expire id) := trivial
  refine ⟨consistent.numbered.moves anyNumber moved,
    consistent.conserved.numbered_moves consistent.numbered moved, fun p proc found => ?_,
    ⟨consistent.claims.apart, acc ▸ consistent.claims.bounded⟩, fun other nobody => ?_,
    fun other isNew => ?_, consistent.namesOnce, consistent.named, consistent.collected⟩
  · have ok := consistent.procs p proc found
    by_cases isClaim : proc.claims = some id
    · exact ok.expired isClaim (silent proc (List.mem_of_getElem? found) isClaim) gone maps
        registering fun isMapped => (mapped isMapped).1
    · refine ok.frame (fun other isOther => ?_) mapped
      have differs : Label.worker (.expire id) ≠ some other := fun same =>
        isClaim (isOther.trans same.symm)
      obtain ⟨pending, workers, sameMaps⟩ := moved.undisturbed differs
      exact ⟨pending, workers, rfl, sameMaps⟩
  · cases consistent.others other nobody with
    | former own =>
        refine .former fun rid inside => ?_
        rw [acceptedRecords, maps]
        exact own rid inside
    | unused empty new => exact .unused empty (maps ▸ new)
  · rw [acc] at isNew
    obtain ⟨empty, new⟩ := consistent.fresh other isNew
    exact ⟨empty, maps ▸ new⟩

theorem act (consistent : Consistent prog files nReduce s) (found : s.procs[p]? = some proc)
    (few : proc.pc = .start → s.job.c.workerIDAcc.toNat + 1 < 2 ^ 16)
    (registered : proc.writes = true → s.job.c.workers proc.workerInfo.workerID ≠ none)
    (taken : s.act prog p proc = some s') : Consistent prog files nReduce s' := by
  obtain ⟨info, pc, alive⟩ := proc
  cases pc with
  | start => exact consistent.act_start found (few rfl) taken
  | registering newID => exact consistent.act_registering found taken
  | creating next => exact consistent.act_creating found taken
  | ready => exact consistent.act_ready found taken
  | asking => exact consistent.act_asking found taken
  | opening number file => exact consistent.act_opening found taken
  | mapping number file past todo =>
      cases todo with
      | nil => exact consistent.act_mapped found taken
      | cons op todo =>
          refine consistent.act_mapping found (fun writes => registered ?_) taken
          simp [Process.writes, writes]
  | listing rid => cases taken
  | collecting rid rest pos got =>
      cases rest with
      | nil => exact consistent.act_collected found taken
      | cons file rest => exact consistent.act_read found taken
  | reduced rid => exact consistent.act_reduced found taken
  | exited => cases taken

theorem step (consistent : Consistent prog files nReduce s) {action : Action}
    (allowed : writtenOnce s action) (taken : System.step prog action s = some s') :
    Consistent prog files nReduce s' := by
  obtain ⟨few, whole⟩ := allowed
  cases action with
  | advance p =>
      obtain ⟨proc, found, acted⟩ := Option.bind_eq_some_iff.mp taken
      split at acted
      case isTrue => exact consistent.act found (few proc found) (whole proc found) acted
      case isFalse => cases acted
  | list p listed =>
      obtain ⟨⟨info, pc, alive⟩, found, acted⟩ := Option.bind_eq_some_iff.mp taken
      split at acted
      case h_1 rid isAlive isPc =>
        cases isPc
        split at acted
        case isTrue isPerm =>
          cases acted
          exact consistent.act_list found isPerm
        case isFalse => cases acted
      case h_2 => cases acted
  | expire id =>
      obtain ⟨⟨next, reply⟩, called, rfl⟩ := Option.map_eq_some_iff.mp taken
      obtain ⟨job', moved, rfl⟩ := System.call_eq_some called
      exact consistent.expire whole moved
  | crash p =>
      obtain ⟨proc, found, rfl⟩ := Option.map_eq_some_iff.mp taken
      exact consistent.internal found rfl ((consistent.procs p proc found).setAlive false)

theorem init (few : files.length < 2 ^ 16) (processes : Nat) :
    Consistent prog files nReduce (System.init files nReduce processes) := by
  have starting (proc : Process) (isProc : proc ∈ (System.init files nReduce processes).procs) :
      proc = ⟨⟨0, 0⟩, .start, true⟩ := (List.mem_replicate.mp isProc).2
  refine ⟨.init, .init few, fun p proc found => ?_,
    ⟨fun p q proc proc' id found _ isClaim => ?_, fun proc isProc id isClaim => ?_⟩,
    fun id _ => .unused (fun _ => rfl) rfl, fun id _ => ⟨fun _ => rfl, rfl⟩, List.nodup_nil,
    fun _ _ present => (present rfl).elim, nofun⟩
  · rw [starting proc (List.mem_of_getElem? found)]
    exact .start
  · rw [starting proc (List.mem_of_getElem? found)] at isClaim
    cases isClaim
  · rw [starting proc isProc] at isClaim
    cases isClaim

end Consistent

theorem System.consistent {labels : List Action} {processes : Nat} (few : files.length < 2 ^ 16)
    (run : Run (System.step prog) writtenOnce (System.init files nReduce processes) labels s) :
    Consistent prog files nReduce s :=
  run.invariant (fun _ s => Consistent prog files nReduce s) (.init few processes)
    fun _ _ _ _ _ consistent allowed taken => consistent.step allowed taken

/-- A reduce task collects the records of the input files whose key belongs to it, each
once. -/
theorem records_collected_once {labels : List Action} {processes : Nat}
    (few : files.length < 2 ^ 16) (positive : 0 < nReduce) (small : nReduce < 2 ^ 16)
    (faithful : ∀ kv ∈ emitted prog.mapf prog.text files, prog.json kv = kv)
    (run : Run (System.step prog) writtenOnce (System.init files nReduce processes) labels s) :
    ∀ rid got, (rid, got) ∈ s.collected →
      got.Perm ((emitted prog.mapf prog.text files).filter fun kv =>
        ihash kv.key % nReduce = rid) := by
  intro rid got inside
  have isReduce : (UInt16.ofNat nReduce).toNat = nReduce := by
    rw [UInt16.toNat_ofNat']
    exact Nat.mod_eq_of_lt small
  have isPart : part (UInt16.ofNat nReduce) rid (emitted prog.mapf prog.text files) =
      (emitted prog.mapf prog.text files).filter fun kv => ihash kv.key % nReduce = rid := by
    unfold part
    refine List.filter_congr fun kv _ => ?_
    rw [reduceIDOf_toNat (isReduce.symm ▸ positive), isReduce]
  have perm := (System.consistent few run).collected rid got inside
  rw [isPart, map_json_of_faithful faithful fun kv inPart => (List.mem_filter.mp inPart).1] at perm
  exact perm

end

/-- A worker counts the letters of a file and reduces them. -/
def counted : List Action :=
  List.replicate 12 (.advance 0) ++ [.list 0 [1]] ++ List.replicate 3 (.advance 0)

theorem records_collected_once_counted :
    ∃ s, Run (System.step ⟨letters, some, id⟩) writtenOnce (System.init [[97]] 1 1) counted s ∧
      s.collected = [(0, [⟨[97], [49]⟩])] ∧
      ∀ rid got, (rid, got) ∈ s.collected →
        got.Perm ((emitted letters id [[97]]).filter fun kv => ihash kv.key % 1 = rid) := by
  obtain ⟨s, run, collected⟩ :
      ∃ s, Run (System.step ⟨letters, some, id⟩) writtenOnce (System.init [[97]] 1 1) counted s ∧
        s.collected = [(0, [⟨[97], [49]⟩])] :=
    Run.exists_of_runSteps (by decide +kernel)
  exact ⟨s, run, collected, records_collected_once (by decide) (by decide) (by decide)
    (fun _ _ => rfl) run⟩

/-- A worker is removed after it has written its records and before `FinishTask`, and
another one maps the file again. -/
def countedAgain : List Action :=
  List.replicate 9 (.advance 0) ++ [.expire 1] ++ List.replicate 12 (.advance 1) ++
    [.list 1 [1, 2]] ++ List.replicate 5 (.advance 1)

theorem record_collected_twice :
    ∃ s, Run (System.step ⟨letters, some, id⟩) fewProcesses (System.init [[97]] 1 2)
        countedAgain s ∧
      ∃ got, (0, got) ∈ s.collected ∧
        ¬ got.Perm ((emitted letters id [[97]]).filter fun kv => ihash kv.key % 1 = 0) := by
  obtain ⟨s, run, collected⟩ :
      ∃ s, Run (System.step ⟨letters, some, id⟩) fewProcesses (System.init [[97]] 1 2)
          countedAgain s ∧ s.collected = [(0, [⟨[97], [49]⟩, ⟨[97], [49]⟩])] :=
    Run.exists_of_runSteps (by decide +kernel)
  refine ⟨s, run, [⟨[97], [49]⟩, ⟨[97], [49]⟩], by rw [collected]; exact List.mem_singleton_self _,
    fun perm => ?_⟩
  have twice := perm.length_eq
  revert twice
  decide +kernel

end GoLab.MapReduce
