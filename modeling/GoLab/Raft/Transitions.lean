import GoLab.Raft.EventIsolation

/-!
# Transitions and the roles they were made for

The `transFunc` of a `TransEvent` asserts the type of the role it is given.  What
`process` asks for fits the role that processes, and stays so: the token of the change of
role keeps `rf.role` in place until the processor has handled the `TransEvent`.  A
replicator's `transRole(followerFromLeader)` fits only if the role it happens to stop is a
leader.

`Transitions` adds to the event loop a record of the role instances for which a
`TransEvent` was queued.
-/

namespace GoLab.Raft.EventLoop

/-! ## Transitions that fit -/

namespace Loop

/-- The type of a role instance. -/
def roleOf (s : Loop) (role : Nat) : Option RoleEnum :=
  s.roles[role]?.map Instance.role

/-- The type of the present role. -/
def present (s : Loop) : Option RoleEnum :=
  s.roleOf s.role

/-- A `transFunc` takes the present role. -/
def Fits (s : Loop) (transFunc : TransFunc) : Prop :=
  s.present = some (source transFunc)

end Loop

/-- The `transFunc` the processor is about to queue or to apply. -/
def Pc.transFunc? : Pc → Option TransFunc
  | .trans transFunc | .stop _ transFunc => transFunc
  | _ => none

/-- Whoever has the token has a transition that fits the present role. -/
structure Fitting (s : Loop) : Prop where
  running : s.pc ≠ .panicked
  processor : ∀ transFunc, s.pc.transFunc? = some transFunc → s.Fits transFunc
  queued : ∀ transFunc, .trans (some transFunc) ∈ s.evCh → s.Fits transFunc
  replicator : ∀ role pc, .stop role pc ∈ s.threads → pc.ends = 1 → s.Fits .followerFromLeader

/-- A replicator that stops the present role stops a leader. -/
def deposesLeader (s : Loop) (label : Label) : Prop :=
  s.deposes label = true → s.present = some .leader

instance (s : Loop) (label : Label) : Decidable (deposesLeader s label) :=
  inferInstanceAs (Decidable (_ → _))

section

variable {s s' : Loop}

theorem source_of_mem_choices {role : RoleEnum} {ev : Event} {transFunc : TransFunc}
    (possible : some transFunc ∈ choices role ev) : source transFunc = role := by
  unfold choices at possible
  split at possible <;> simp at possible <;> subst possible <;> rfl

theorem Loop.roleOf_modify {change : Instance → Instance} {role role' : Nat}
    (sameRole : ∀ inst, (change inst).role = inst.role) :
    ({ s with roles := s.roles.modify role change } : Loop).roleOf role' = s.roleOf role' := by
  simp only [Loop.roleOf, List.getElem?_modify]
  cases s.roles[role']? with
  | none => rfl
  | some inst => by_cases here : role = role' <;> simp [here, sameRole]

section

variable {role : Nat} {pc : StopPc} {next : Option StopPc} (stops : Stops s role pc s' next)
include stops

theorem Stops.roleOf_eq (role' : Nat) : s'.roleOf role' = s.roleOf role' := by
  cases stops with
  | won => exact Loop.roleOf_modify fun _ => rfl
  | lost | announced | acquired => rfl

theorem Stops.present_eq : s'.present = s.present := by
  have sameRole : s'.role = s.role := by cases stops <;> rfl
  rw [Loop.present, Loop.present, sameRole, stops.roleOf_eq]

theorem Stops.evCh_eq : s'.evCh = s.evCh := by
  cases stops <;> rfl

end

/-- A processor without a transition. -/
theorem Pc.carriesNothing {pc : Pc} {p : TransFunc → Prop} (quiet : pc.transFunc? = none) :
    ∀ transFunc, pc.transFunc? = some transFunc → p transFunc := by
  intro transFunc carried
  cases quiet.symm.trans carried

namespace Fitting

/-- A step that leaves the present role in place. -/
theorem same (present : s'.present = s.present) (running : s'.pc ≠ .panicked)
    (processor : ∀ transFunc, s'.pc.transFunc? = some transFunc → s.Fits transFunc)
    (queued : ∀ transFunc, .trans (some transFunc) ∈ s'.evCh → s.Fits transFunc)
    (replicator : ∀ role pc, .stop role pc ∈ s'.threads → pc.ends = 1 →
      s.Fits .followerFromLeader) : Fitting s' where
  running := running
  processor := fun transFunc carried => present.trans (processor transFunc carried)
  queued := fun transFunc inside => present.trans (queued transFunc inside)
  replicator := fun role pc inside ends => present.trans (replicator role pc inside ends)

/-- A step of the processor that leaves the channel and the goroutines as they are. -/
theorem goOn (fitting : Fitting s) (present : s'.present = s.present)
    (evCh : s'.evCh = s.evCh) (threads : s'.threads = s.threads) (running : s'.pc ≠ .panicked)
    (processor : ∀ transFunc, s'.pc.transFunc? = some transFunc → s.Fits transFunc) :
    Fitting s' :=
  same present running processor (evCh ▸ fitting.queued) (threads ▸ fitting.replicator)

end Fitting

theorem Processes.fitting {choice : Option TransFunc} {inst : Instance}
    (processes : Processes s inst s') (present : s.roles[s.role]? = some inst)
    (result : s.processor choice = some s') (tokens : Tokens s) (fitting : Fitting s) :
    Fitting s' := by
  have isPresent : s.present = some inst.role := by
    simp [Loop.present, Loop.roleOf, present]
  cases processes with
  | receivedTrans stands next =>
      refine .same rfl (by simp) ?_ ?_ fitting.replicator
      · rintro transFunc ⟨⟩
        exact fitting.queued transFunc (next ▸ List.mem_cons_self)
      · intro transFunc inside
        exact fitting.queued transFunc (next ▸ List.mem_cons_of_mem _ inside)
  | receivedKill stands next | received stands next =>
      refine .same rfl (by simp) (Pc.carriesNothing rfl) ?_ fitting.replicator
      exact fun transFunc inside => fitting.queued transFunc (next ▸ List.mem_cons_of_mem _ inside)
  | changed stands =>
      -- The processor has the token, so nobody else has a transition.
      have ends := tokens.ends
      rw [stands] at ends
      simp only [Pc.ends] at ends
      have noEvent : s.evCh.countP Event.isTrans = 0 := by omega
      refine ⟨by simp, Pc.carriesNothing rfl, fun transFunc inside => ?_,
        fun role pc inside taken => ?_⟩
      · exact absurd rfl (List.countP_eq_zero.mp noEvent (.trans (some transFunc)) inside)
      · have weight := weight_le_total Thread.ends inside
        simp only [Thread.ends, taken] at weight
        omega
  | @panicked transFunc stands =>
      have fits : some inst.role = some (source transFunc) :=
        isPresent.symm.trans (fitting.processor transFunc (by rw [stands]; rfl))
      simp [Loop.processor, present, stands, Loop.trans, Option.some.inj fits] at result
  | @handed ev pc stands =>
      obtain ⟨possible, onward⟩ := Loop.processor_process present stands result
      dsimp only at onward
      subst onward
      refine fitting.goOn rfl rfl rfl ?_ ?_
      · cases choice <;> simp
      · cases choice with
        | none => exact Pc.carriesNothing rfl
        | some asked =>
            rintro transFunc ⟨⟩
            rw [Loop.Fits, isPresent, source_of_mem_choices possible]
  | @pushed transFunc stands =>
      refine .same rfl (by simp) (Pc.carriesNothing rfl) (fun other inside => ?_)
        fitting.replicator
      rcases List.mem_append.mp inside with earlier | new
      · exact fitting.queued other earlier
      · cases List.mem_singleton.mp new
        exact fitting.processor transFunc (by rw [stands]; rfl)
  | stopped stands stops =>
      refine fitting.goOn stops.present_eq stops.evCh_eq stops.threads_eq (by simp) ?_
      exact fun other carried => fitting.processor other (by rw [stands]; exact carried)
  | unlocked _ _ onward | wasStopped _ _ onward =>
      rcases onward with rfl | rfl <;>
        exact fitting.goOn rfl rfl rfl (by simp) (Pc.carriesNothing rfl)
  | activated _ _ onward =>
      rcases onward with rfl | rfl <;>
        exact fitting.goOn (Loop.roleOf_modify fun _ => rfl) rfl rfl (by simp)
          (Pc.carriesNothing rfl)
  | startedReplication | startedElection | stored | ticked =>
      exact fitting.goOn (Loop.roleOf_modify fun _ => rfl) rfl rfl (by simp)
        (Pc.carriesNothing rfl)
  | kept | wasActive | tookSnapshot | checked | discarded | killed =>
      exact fitting.goOn rfl rfl rfl (by simp) (Pc.carriesNothing rfl)

/-- A step of a goroutine that takes no token. -/
theorem Fitting.set (fitting : Fitting s) {i : Nat} {thread : Thread}
    (present : s'.present = s.present) (pc : s'.pc = s.pc)
    (queued : ∀ transFunc, .trans (some transFunc) ∈ s'.evCh → s.Fits transFunc)
    (stopping : thread.ends = 1 → s.Fits .followerFromLeader) :
    Fitting { s' with threads := s.threads.set i thread } := by
  refine .same present (pc ▸ fitting.running) (pc ▸ fitting.processor) queued ?_
  intro role pc inside ends
  rcases List.mem_or_eq_of_mem_set inside with earlier | rfl
  · exact fitting.replicator role pc earlier ends
  · exact stopping ends

theorem Threads.fitting {i : Nat} {thread thread' : Thread} (threads : Threads s thread s' thread')
    (found : s.threads[i]? = some thread) (tokens : Tokens s)
    (holds : deposesLeader s (.thread i)) (fitting : Fitting s) :
    Fitting { s' with threads := s.threads.set i thread' } := by
  have inside := List.mem_of_getElem? found
  cases threads with
  | @stopped role pc pc' _ stops =>
      refine fitting.set stops.present_eq stops.pc_eq (stops.evCh_eq ▸ fitting.queued) fun _ => ?_
      cases stops with
      | won active => exact holds (by simp [Loop.deposes, found, active])
      | announced | acquired => exact fitting.replicator role _ inside rfl
  | @deposed role =>
      refine fitting.set rfl rfl (fun other inChannel => ?_) (by simp)
      rcases List.mem_append.mp inChannel with earlier | new
      · exact fitting.queued other earlier
      · cases List.mem_singleton.mp new
        exact fitting.replicator role .done inside rfl
  | put =>
      refine fitting.set rfl rfl (fun other inChannel => fitting.queued other ?_) (by simp)
      simpa using inChannel
  | @pushed ev =>
      refine fitting.set rfl rfl (fun other inChannel => ?_) (by simp)
      rcases List.mem_append.mp inChannel with earlier | new
      · exact fitting.queued other earlier
      · cases List.mem_singleton.mp new
        cases tokens.calls _ _ inside
  | _ => exact fitting.set rfl rfl fitting.queued (by simp)

theorem Fitting.step {label : Label} (fitting : Fitting s) (tokens : Tokens s)
    (holds : deposesLeader s label) (taken : Loop.step label s = some s') : Fitting s' := by
  cases Loop.step_moves taken with
  | processor =>
      obtain ⟨inst, present, result⟩ := Loop.step_processor taken
      exact (Loop.processor_processes present result).fitting present result tokens fitting
  | thread found threads => exact threads.fitting found tokens holds fitting
  | spawned entry =>
      refine .same rfl fitting.running fitting.processor fitting.queued ?_
      intro role pc inside ends
      rcases List.mem_append.mp inside with earlier | new
      · exact fitting.replicator role pc earlier ends
      · rcases entry with ⟨_, _, rfl⟩ | rfl | ⟨_, _, rfl⟩ <;> cases List.mem_singleton.mp new
  | @put _ ev lockFree =>
      refine .same rfl fitting.running fitting.processor (fun other inChannel => ?_)
        fitting.replicator
      rcases List.mem_append.mp inChannel with earlier | new
      · exact fitting.queued other earlier
      · cases List.mem_singleton.mp new
        cases lockFree

theorem fitting_init : Fitting .init where
  running := nofun
  processor := nofun
  queued := by simp [Loop.init]
  replicator := nofun

end

/-! ## One `TransEvent` for each role that was stopped -/

/-- The role instance whose `TransEvent` a step queues. -/
def Loop.queues (s : Loop) : Label → Option Nat
  | .processor _ =>
      match s.pc with
      | .stop .done (some _) => some s.role
      | _ => none
  | .thread i =>
      match s.threads[i]? with
      | some (.stop role .done) => some role
      | _ => none
  | _ => none

/-- The event loop and the role instances for which a `TransEvent` was queued. -/
structure Transitions where
  loop : Loop
  queued : List Nat
  deriving DecidableEq, Repr

namespace Transitions

def init : Transitions := ⟨.init, []⟩

def step (label : Label) (s : Transitions) : Option Transitions :=
  (Loop.step label s.loop).map fun loop => ⟨loop, (s.loop.queues label).toList ++ s.queued⟩

end Transitions

/-- The processor has stopped a role instance, the present one, and has not queued its
`TransEvent`; for a `KillEvent` it never does. -/
def Pc.stopping (present role : Nat) : Pc → Nat
  | .stop pc _ => if present = role then pc.ends else 0
  | .dead true => if present = role then 1 else 0
  | _ => 0

/-- A replicator has stopped a role instance and has not queued its `TransEvent`. -/
def Thread.stopping (role : Nat) : Thread → Nat
  | .stop stopped pc => if stopped = role then pc.ends else 0
  | _ => 0

/-- The goroutines that have stopped a role instance and have not queued its
`TransEvent`. -/
def Loop.stopping (s : Loop) (role : Nat) : Nat :=
  s.pc.stopping s.role role + total (Thread.stopping role) s.threads

/-- A step puts what was stopped, and what was queued, on the account of the goroutine
that does it. -/
def Balanced (s s' : Loop) (queued : Option Nat) : Prop :=
  ∀ role, queued.toList.count role + s'.stopping role + s.obs.count (.stopped role) =
    s.stopping role + s'.obs.count (.stopped role)

section

variable {s s' : Loop}

/-- The processor has nothing to do with a stop. -/
theorem Balanced.quiet {queued : Option Nat} (new : List Obs) (none : queued = none)
    (before : ∀ role, s.pc.stopping s.role role = 0)
    (after : ∀ role, s'.pc.stopping s'.role role = 0) (threads : s'.threads = s.threads)
    (obs : s'.obs = new ++ s.obs) (unrelated : ∀ role, .stopped role ∉ new) :
    Balanced s s' queued := by
  intro role
  subst none
  rw [obs, List.count_append, List.count_eq_zero.mpr (unrelated role)]
  simp [Loop.stopping, before, after, threads]

theorem Stops.balanced {role : Nat} {pc pc' : StopPc} {next : Pc} {threads : List Thread}
    (stops : Stops s role pc s' (some pc'))
    (account : ∀ role', next.stopping s.role role' +
        total (Thread.stopping role') threads + (if role = role' then pc.ends else 0) =
      s.stopping role' + if role = role' then pc'.ends else 0) :
    Balanced s { s' with pc := next, threads } none := by
  intro role'
  have balance := account role'
  cases stops with
  | won =>
      simp only [Loop.stopping, Loop.setActive, Option.toList_none, List.count_nil,
        List.count_cons, beq_iff_eq, Obs.stopped.injEq, StopPc.ends, ite_self] at balance ⊢
      omega
  | announced | acquired =>
      simp only [Loop.stopping, Option.toList_none, List.count_nil, StopPc.ends] at balance ⊢
      omega

theorem Processes.balanced {choice : Option TransFunc} {inst : Instance}
    (processes : Processes s inst s') : Balanced s s' (s.queues (.processor choice)) := by
  cases processes with
  | stopped stands stops =>
      have notDone : s.queues (.processor choice) = none := by
        cases stops <;> simp [Loop.queues, stands]
      rw [notDone]
      refine stops.balanced fun role => ?_
      rw [stops.threads_eq]
      simp only [Loop.stopping, stands, Pc.stopping]
      omega
  | pushed stands =>
      intro role
      simp only [Loop.queues, Loop.stopping, stands, Pc.stopping, StopPc.ends, Option.toList_some,
        List.count_singleton, beq_iff_eq]
      omega
  | killed stands =>
      intro role
      simp [Loop.queues, Loop.stopping, stands, Pc.stopping]
  | activated stands _ onward =>
      rcases onward with rfl | rfl <;>
        exact .quiet [_] (by simp [Loop.queues, stands]) (by simp [Pc.stopping, stands])
          (fun _ => rfl) rfl rfl (by simp)
  | stored stands =>
      exact .quiet [_] (by simp [Loop.queues, stands]) (by simp [Pc.stopping, stands])
        (fun _ => rfl) rfl rfl (by simp)
  | @discarded ev stands =>
      exact .quiet (Loop.discarding ev) (by simp [Loop.queues, stands])
        (by simp [Pc.stopping, stands]) (fun _ => rfl) rfl rfl
        (by cases ev <;> simp [Loop.discarding])
  | @handed ev _ stands onward =>
      rcases onward with rfl | ⟨_, rfl⟩ <;>
        exact .quiet (Loop.handing s.role ev) (by simp [Loop.queues, stands])
          (by simp [Pc.stopping, stands]) (by simp [Pc.stopping]) rfl rfl
          (by cases ev <;> simp [Loop.handing])
  | unlocked stands _ onward | wasStopped stands _ onward =>
      rcases onward with rfl | rfl <;>
        exact .quiet [] (by simp [Loop.queues, stands]) (by simp [Pc.stopping, stands])
          (fun _ => rfl) rfl rfl (by simp)
  | receivedTrans stands | receivedKill stands | received stands | kept stands | changed stands
  | panicked stands | wasActive stands | startedReplication stands | startedElection stands
  | ticked stands | tookSnapshot stands | checked stands =>
      exact .quiet [] (by simp [Loop.queues, stands]) (by simp [Pc.stopping, stands])
        (by simp [Pc.stopping]) rfl rfl (by simp)

/-- A step of a goroutine that does not stop a role. -/
theorem Balanced.set {i : Nat} {thread thread' : Thread} {queued : Option Nat}
    (found : s.threads[i]? = some thread) (pc : s'.pc = s.pc) (role : s'.role = s.role)
    (obs : ∀ role, s'.obs.count (.stopped role) = s.obs.count (.stopped role))
    (account : ∀ role, queued.toList.count role + thread'.stopping role = thread.stopping role) :
    Balanced s { s' with threads := s.threads.set i thread' } queued := by
  intro role'
  have balance := account role'
  have changed := total_set (Thread.stopping role') thread' found
  simp only [Loop.stopping, pc, role, obs]
  omega

theorem Threads.balanced {i : Nat} {thread thread' : Thread}
    (threads : Threads s thread s' thread') (found : s.threads[i]? = some thread) :
    Balanced s { s' with threads := s.threads.set i thread' } (s.queues (.thread i)) := by
  cases threads with
  | @stopped role pc pc' _ stops =>
      have notDone : s.queues (.thread i) = none := by
        cases stops <;> simp [Loop.queues, found]
      rw [notDone]
      refine stops.balanced fun role' => ?_
      have changed := total_set (Thread.stopping role') (.stop role pc') found
      simp only [Thread.stopping] at changed
      simp only [Loop.stopping, stops.pc_eq]
      omega
  | deposed =>
      refine .set found rfl rfl (fun _ => rfl) fun role => ?_
      simp [Loop.queues, found, Thread.stopping, List.count_singleton]
  | put =>
      refine .set found rfl rfl (fun _ => by simp) fun role => ?_
      simp [Loop.queues, found, Thread.stopping]
  | _ =>
      refine .set found rfl rfl (fun _ => rfl) fun role => ?_
      simp [Loop.queues, found, Thread.stopping]

theorem Loop.balanced {label : Label} (taken : Loop.step label s = some s') :
    Balanced s s' (s.queues label) := by
  cases label with
  | processor choice =>
      obtain ⟨inst, present, result⟩ := Loop.step_processor taken
      exact (Loop.processor_processes present result).balanced
  | thread i =>
      obtain ⟨thread, moved, thread', found, result, rfl⟩ := Loop.step_thread taken
      exact (Loop.thread_threads result).balanced found
  | tryPutEv ev role | transRole role | call ev =>
      simp only [Loop.step] at taken
      split at taken
      case isTrue => cases taken
      case isFalse =>
        split at taken <;> cases taken
        intro role'
        simp [Loop.queues, Loop.stopping, Loop.spawn, total_append, Thread.stopping]
  | put ev =>
      simp only [Loop.step] at taken
      split at taken
      case isTrue => cases taken
      case isFalse =>
        split at taken
        case isTrue =>
          obtain ⟨-, rfl⟩ := Loop.push_eq_some.mp taken
          intro role'
          simp [Loop.queues, Loop.stopping]
        case isFalse => cases taken

/-- A role instance is stopped once. -/
theorem Effect.stopped_once (effect : Effect s s') (orderly : Orderly s)
    (once : ∀ role, s.obs.count (.stopped role) ≤ 1) (role : Nat) :
    s'.obs.count (.stopped role) ≤ 1 := by
  have before := once role
  cases effect with
  | idle _ _ _ _ obs | took _ _ _ _ _ _ _ obs | changed _ _ _ _ _ _ obs
  | appended _ _ _ _ _ _ obs => rwa [obs]
  | activated _ _ _ _ _ _ _ obs | put _ _ _ _ _ obs => simpa [obs] using before
  | resolved _ _ _ _ _ _ _ way obs => rcases way with ⟨-, rfl⟩ | rfl <;> simpa [obs] using before
  | stopped _ active _ _ _ obs =>
      by_cases same : s.role = role
      · subst same
        have never : .stopped s.role ∉ s.obs := fun stopped => by
          rcases orderly.stopped _ stopped with less | ⟨-, isOver⟩
          · omega
          · exact absurd (isOver.inactive.symm.trans active) nofun
        simp [obs, List.count_eq_zero.mpr never]
      · simpa [obs, List.count_cons, same] using before

end

/-! ## Every run -/

section

variable {allowed : Transitions → Label → Prop} {labels : List Label} {s : Transitions}

theorem Transitions.run_loop (run : Run Transitions.step allowed .init labels s) :
    Run Loop.step (fun _ _ => True) .init labels s.loop := by
  induction run with
  | start => exact .start
  | next _ _ taken ih =>
      obtain ⟨loop, moved, rfl⟩ := Option.map_eq_some_iff.mp taken
      exact ih.next trivial moved

/-- Each role instance that was stopped is on its way into the channel or queued, once. -/
theorem Transitions.counted (run : Run Transitions.step allowed .init labels s) (role : Nat) :
    s.queued.count role + s.loop.stopping role = s.loop.obs.count (.stopped role) ∧
      s.loop.obs.count (.stopped role) ≤ 1 := by
  refine run.invariant (fun _ s => ∀ role,
    s.queued.count role + s.loop.stopping role = s.loop.obs.count (.stopped role) ∧
      s.loop.obs.count (.stopped role) ≤ 1) (fun role => ?_) ?_ role
  · constructor
    · simp [init, Loop.init, Loop.stopping, Pc.stopping, total]
    · exact Nat.zero_le 1
  · intro labels s label s' before counted _ taken role
    obtain ⟨tokens, -, orderly⟩ := Loop.invariant (run_loop before)
    obtain ⟨loop, moved, rfl⟩ := Option.map_eq_some_iff.mp taken
    have effect := (Loop.step_moves moved).effect tokens
    have balance := Loop.balanced moved role
    have account := (counted role).1
    refine ⟨?_, effect.stopped_once orderly (fun role => (counted role).2) role⟩
    show ((s.loop.queues label).toList ++ s.queued).count role + loop.stopping role =
      loop.obs.count (.stopped role)
    rw [List.count_append]
    omega

/-- If replicators stop leaders only, then the processor never panics: every transition it
applies takes the role it is applied to.  And each role instance is stopped at most once,
with one `TransEvent` queued for it by the goroutine that has stopped it. -/
theorem transitions_fit
    (run : Run Transitions.step (fun s label => deposesLeader s.loop label) .init labels s) :
    s.loop.pc ≠ .panicked ∧
      (∀ transFunc, s.loop.pc = .trans (some transFunc) → s.loop.Fits transFunc) ∧
      ∀ role, s.queued.count role + s.loop.stopping role = s.loop.obs.count (.stopped role) ∧
        s.loop.obs.count (.stopped role) ≤ 1 := by
  have fitting : Fitting s.loop := by
    refine run.invariant (fun _ s => Fitting s.loop) fitting_init ?_
    intro labels s label s' before fitting holds taken
    obtain ⟨loop, moved, rfl⟩ := Option.map_eq_some_iff.mp taken
    exact fitting.step (Loop.invariant (Transitions.run_loop before)).1 holds moved
  refine ⟨fitting.running, fun transFunc stands => ?_, Transitions.counted run⟩
  exact fitting.processor transFunc (by rw [stands]; rfl)

end

/-- A replicator stops the leader, which becomes a follower. -/
def leaderDeposed : List Label :=
  becomesLeader ++ [.transRole 2] ++ List.replicate 5 (.thread 2) ++
  processorSteps (List.replicate 5 none)

theorem transitions_fit_leaderDeposed : ∃ s : Transitions,
    Run Transitions.step (fun s label => deposesLeader s.loop label) .init leaderDeposed s ∧
      s.loop.role = 3 ∧ s.queued = [2, 1, 0] ∧ s.loop.pc ≠ .panicked := by
  obtain ⟨s, run, role, queued⟩ : ∃ s : Transitions,
      Run Transitions.step (fun s label => deposesLeader s.loop label) .init leaderDeposed s ∧
        s.loop.role = 3 ∧ s.queued = [2, 1, 0] :=
    Run.exists_of_runSteps (by decide +kernel)
  exact ⟨s, run, role, queued, (transitions_fit run).1⟩

/-- A replicator of the leader is about to call `transRole` when the leader handles a
`RequestVote` of a later term and steps down.  The replicator then stops the follower. -/
def followerDeposed : List Label :=
  becomesLeader ++ [.transRole 2, .call (.external .requestVote)] ++
  List.replicate 3 (.thread 3) ++ changing .followerFromLeader ++
  List.replicate 5 (.thread 2) ++ processorSteps [none, none]

/-- The processor gives a follower to `followerFromLeader`. -/
theorem transition_of_follower_panics : ∃ s,
    Run Loop.step (fun _ _ => True) Loop.init followerDeposed s ∧ s.pc = .panicked :=
  Run.exists_of_runSteps (by decide +kernel)

end GoLab.Raft.EventLoop
