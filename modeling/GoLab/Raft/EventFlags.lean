import GoLab.Raft.Transitions

/-!
# The flag of a leader and its history

What the replicators of a leader can rely on: once it has been activated, a leader that is
not active has been stopped for good, and a `StaleLeaderEvent` that is in the channel leads
to `transRole`.  The lock is refused to an active leader only while `activate` holds it.
-/

namespace GoLab.Raft.EventLoop

/-! ## The flags and the history -/

/-- A role instance that is active was activated, and one that was activated and is not
active has been stopped.  The lock is taken only from a role that is not active, and
`activate` does what the role asks for. -/
structure Flagged (s : Loop) : Prop where
  noted : ∀ role, s.isActive role = true → .activated role ∈ s.obs
  ended : ∀ role, .activated role ∈ s.obs → s.isActive role = false → .stopped role ∈ s.obs
  announced : s.chLock.writer = .announced → s.isActive s.role = false
  electing : s.pc = .startElection → s.present = some .candidate
  storing : s.pc = .store → s.present = some .leader

section

variable {s s' : Loop}

theorem Moves.obs_suffix {label : Label} (moves : Moves s label s') : s.obs <:+ s'.obs := by
  cases moves with
  | processor _ processes =>
      cases processes with
      | stopped _ stops =>
          cases stops with
          | won => exact List.suffix_cons ..
          | announced | acquired => exact List.suffix_rfl
      | activated | stored => exact List.suffix_cons ..
      | discarded | handed => exact List.suffix_append ..
      | _ => exact List.suffix_rfl
  | thread _ threads =>
      cases threads with
      | stopped stops =>
          cases stops with
          | won => exact List.suffix_cons ..
          | announced | acquired => exact List.suffix_rfl
      | put => exact List.suffix_cons ..
      | _ => exact List.suffix_rfl
  | spawned | put => exact List.suffix_rfl

/-- Which roles the steps of `activate` belong to. -/
theorem Loop.processor_activate {choice : Option TransFunc} {inst : Instance}
    (present : s.roles[s.role]? = some inst) (stands : s.pc = .activate)
    (result : s.processor choice = some s') : s' = s.activate inst.role := by
  simp only [Loop.processor, present, stands, Option.bind_eq_bind, Option.bind_some] at result
  cases result
  rfl

theorem Loop.activate_pc {role : RoleEnum} :
    ((s.activate role).pc = .startElection → role = .candidate) ∧
      ((s.activate role).pc = .store → role = .leader) := by
  unfold Loop.activate
  split
  case h_1 => split <;> simp
  case h_2 => split <;> simp
  case h_3 => simp

/-- The holder of the token finds the present role stopped. -/
theorem Tokens.inactive_of_ends (tokens : Tokens s) (ends : 1 ≤ s.pc.ends) :
    s.isActive s.role = false := by
  have one := tokens.ends
  cases active : s.isActive s.role with
  | false => rfl
  | true =>
      rw [active, Bool.toNat_true] at one
      omega

theorem Tokens.inactive_of_thread (tokens : Tokens s) {thread : Thread}
    (inside : thread ∈ s.threads) (ends : 1 ≤ thread.ends) : s.isActive s.role = false := by
  have one := tokens.ends
  have weight := weight_le_total Thread.ends inside
  cases active : s.isActive s.role with
  | false => rfl
  | true =>
      rw [active, Bool.toNat_true] at one
      omega

namespace Flagged

/-- A step that sets or takes no flag. -/
theorem same (flagged : Flagged s) (active : ∀ role, s'.isActive role = s.isActive role)
    (new : List Obs) (obs : s'.obs = new ++ s.obs) (other : ∀ role, .activated role ∉ new)
    (announced : s'.chLock.writer = .announced → s'.isActive s'.role = false)
    (electing : s'.pc = .startElection → s'.present = some .candidate)
    (storing : s'.pc = .store → s'.present = some .leader) : Flagged s' where
  noted := fun role isActive => by
    rw [active] at isActive
    rw [obs]
    exact List.mem_append_right _ (flagged.noted role isActive)
  ended := fun role activated inactive => by
    rw [active] at inactive
    rw [obs] at activated ⊢
    rcases List.mem_append.mp activated with isNew | earlier
    · exact (other role isNew).elim
    · exact List.mem_append_right _ (flagged.ended role earlier inactive)
  announced := announced
  electing := electing
  storing := storing

theorem stops (flagged : Flagged s) (tokens : Tokens s) {role : Nat} {pc pc' : StopPc}
    (stops : Stops s role pc s' (some pc')) (inactive : pc.ends = 1 → s.isActive s.role = false)
    {next : Pc} {threads : List Thread}
    (electing : next = .startElection → s.present = some .candidate)
    (storing : next = .store → s.present = some .leader) :
    Flagged { s' with pc := next, threads } := by
  have present := tokens.present
  have samePresent : ({ s' with pc := next, threads } : Loop).present = s.present :=
    stops.present_eq
  cases stops with
  | won active =>
      have same := tokens.eq_of_active active
      subst same
      have after (role : Nat) : ({ s.setActive s.role false with
          obs := .stopped s.role :: s.obs, pc := next, threads } : Loop).isActive role =
          if role = s.role then false else s.isActive role :=
        Loop.isActive_setActive (by omega)
      refine ⟨fun role isActive => ?_, fun role activated inactive => ?_,
        fun _ => (after s.role).trans (if_pos rfl),
        fun stands => samePresent.trans (electing stands),
        fun stands => samePresent.trans (storing stands)⟩
      · rw [after] at isActive
        split at isActive
        case isTrue => cases isActive
        case isFalse => exact List.mem_cons_of_mem _ (flagged.noted role isActive)
      · by_cases isPresent : role = s.role
        · subst isPresent
          exact List.mem_cons_self
        · rw [after, if_neg isPresent] at inactive
          have earlier := (List.mem_cons.mp activated).resolve_left nofun
          exact List.mem_cons_of_mem _ (flagged.ended role earlier inactive)
  | announced =>
      exact flagged.same (fun _ => rfl) [] rfl nofun (fun _ => inactive rfl) electing storing
  | acquired result =>
      obtain ⟨-, held, -⟩ := RWLock.acquire_eq_some result
      exact flagged.same (fun _ => rfl) [] rfl nofun
        (fun announced => absurd (held.symm.trans announced) nofun) electing storing

/-- The present role becomes active, with the lock taken. -/
theorem activated (flagged : Flagged s) (tokens : Tokens s) (locks : s.pc.locks = 1) {pc : Pc}
    (electing : pc = .startElection → s.present = some .candidate)
    (storing : pc = .store → s.present = some .leader) :
    Flagged { s.setActive s.role true with pc, obs := .activated s.role :: s.obs } := by
  have present := tokens.present
  have lock := tokens.locks
  have after (role : Nat) : ({ s.setActive s.role true with
      pc, obs := .activated s.role :: s.obs } : Loop).isActive role =
      if role = s.role then true else s.isActive role :=
    Loop.isActive_setActive (by omega)
  have samePresent : ({ s.setActive s.role true with
      pc, obs := .activated s.role :: s.obs } : Loop).present = s.present :=
    Loop.roleOf_modify fun _ => rfl
  refine ⟨fun role isActive => ?_, fun role activated inactive => ?_, fun announced => ?_,
    fun stands => samePresent.trans (electing stands),
    fun stands => samePresent.trans (storing stands)⟩
  · rw [after] at isActive
    split at isActive
    case isTrue isPresent => exact isPresent ▸ List.mem_cons_self
    case isFalse => exact List.mem_cons_of_mem _ (flagged.noted role isActive)
  · rw [after] at inactive
    split at inactive
    case isTrue => cases inactive
    case isFalse differs =>
      rcases List.mem_cons.mp activated with new | earlier
      · cases new
        exact (differs rfl).elim
      · exact List.mem_cons_of_mem _ (flagged.ended role earlier inactive)
  · have notHeld : holding s.chLock = 0 := by
      have announced : s.chLock.writer = .announced := announced
      simp [holding, announced]
    omega

end Flagged

theorem Processes.flagged {choice : Option TransFunc} {inst : Instance}
    (processes : Processes s inst s') (isPresent : s.roles[s.role]? = some inst)
    (result : s.processor choice = some s') (tokens : Tokens s) (flagged : Flagged s) :
    Flagged s' := by
  have present : s.present = some inst.role := by simp [Loop.present, Loop.roleOf, isPresent]
  cases processes with
  | activated stands _ onward =>
      have entered := @Loop.activate_pc s inst.role
      rw [← Loop.processor_activate isPresent stands result] at entered
      refine flagged.activated tokens (by simp [stands]) (fun electing => ?_) (fun storing => ?_)
      · rw [present, entered.1 electing]
      · rw [present, entered.2 storing]
  | stored stands => exact flagged.activated tokens (by simp [stands]) (by simp) (by simp)
  | startedReplication stands =>
      have entered := (@Loop.activate_pc s inst.role).2
      rw [← Loop.processor_activate isPresent stands result] at entered
      refine flagged.same (fun _ => Loop.isActive_setStarted) [] rfl (by simp)
        (fun announced => Loop.isActive_setStarted.trans (flagged.announced announced)) (by simp)
        fun storing => ?_
      have samePresent : (s.setStarted s.role).present = s.present :=
        Loop.roleOf_modify fun _ => rfl
      exact samePresent.trans (present.trans (congrArg some (entered storing)))
  | startedElection | ticked =>
      exact flagged.same (fun _ => Loop.isActive_setStarted) [] rfl (by simp)
        (fun announced => Loop.isActive_setStarted.trans (flagged.announced announced)) (by simp)
        (by simp)
  | unlocked _ unlocks onward =>
      obtain ⟨-, free, -⟩ := RWLock.unlock_eq_some unlocks
      rcases onward with rfl | rfl <;>
        exact flagged.same (fun _ => rfl) [] rfl (by simp)
          (fun announced => absurd (free.symm.trans announced) (by simp)) (by simp) (by simp)
  | @changed transFunc stands =>
      -- The new instance is not active, and nor was an instance of its number before.
      have after (role : Nat) : ({ s with
          roles := s.roles ++ [⟨target transFunc, false, false⟩]
          role := s.roles.length
          pc := .activate } : Loop).isActive role = s.isActive role := by
        simp only [Loop.isActive, List.getElem?_append]
        split
        case isTrue => rfl
        case isFalse outside =>
          rw [List.getElem?_eq_none (Nat.not_lt.mp outside)]
          cases role - s.roles.length <;> rfl
      refine flagged.same after [] rfl (by simp) (fun _ => ?_) (by simp) (by simp)
      rw [after]
      exact tokens.past _ (by have := tokens.present; dsimp only; omega)
  | stopped stands stops =>
      refine flagged.stops tokens stops (fun ends => ?_) (by simp) (by simp)
      refine tokens.inactive_of_ends ?_
      rw [stands]
      exact Nat.le_of_eq ends.symm
  | wasStopped _ _ onward =>
      rcases onward with rfl | rfl <;>
        exact flagged.same (fun _ => rfl) [] rfl (by simp) flagged.announced (by simp) (by simp)
  | @handed ev _ _ onward =>
      rcases onward with rfl | ⟨_, rfl⟩ <;>
        exact flagged.same (fun _ => rfl) (Loop.handing s.role ev) rfl
          (by cases ev <;> simp [Loop.handing]) flagged.announced (by simp) (by simp)
  | @discarded ev =>
      exact flagged.same (fun _ => rfl) (Loop.discarding ev) rfl
        (by cases ev <;> simp [Loop.discarding]) flagged.announced (by simp) (by simp)
  | _ => exact flagged.same (fun _ => rfl) [] rfl (by simp) flagged.announced (by simp) (by simp)

theorem Threads.flagged {i : Nat} {thread thread' : Thread} (threads : Threads s thread s' thread')
    (found : s.threads[i]? = some thread) (tokens : Tokens s) (flagged : Flagged s) :
    Flagged { s' with threads := s.threads.set i thread' } := by
  cases threads with
  | stopped stops =>
      refine flagged.stops tokens stops (fun ends => ?_) ?_ ?_
      · exact tokens.inactive_of_thread (List.mem_of_getElem? found) (Nat.le_of_eq ends.symm)
      · exact stops.pc_eq ▸ flagged.electing
      · exact stops.pc_eq ▸ flagged.storing
  | rLocked result | called result =>
      obtain ⟨-, free, -⟩ := RWLock.rLock_eq_some result
      exact flagged.same (fun _ => rfl) [] rfl nofun
        (fun announced => absurd (free.symm.trans announced) nofun) flagged.electing flagged.storing
  | put =>
      exact flagged.same (fun _ => rfl) [_] rfl (by simp) flagged.announced flagged.electing
        flagged.storing
  | _ =>
      exact flagged.same (fun _ => rfl) [] rfl nofun flagged.announced flagged.electing
        flagged.storing

theorem Flagged.step {label : Label} (flagged : Flagged s) (tokens : Tokens s)
    (taken : Loop.step label s = some s') : Flagged s' := by
  cases Loop.step_moves taken with
  | processor =>
      obtain ⟨inst, present, result⟩ := Loop.step_processor taken
      exact (Loop.processor_processes present result).flagged present result tokens flagged
  | thread found threads => exact threads.flagged found tokens flagged
  | spawned | put =>
      exact flagged.same (fun _ => rfl) [] rfl nofun flagged.announced flagged.electing
        flagged.storing

theorem flagged_init : Flagged .init where
  noted := fun role active => by cases role <;> simp [Loop.isActive, Loop.init] at active
  ended := nofun
  announced := nofun
  electing := nofun
  storing := nofun

end

/-! ## A leader on its way out -/

def Label.isProcessor : Label → Bool
  | .processor _ => true
  | _ => false

/-- A `StaleLeaderEvent` of a leader is pending, or the processor is in `transRole` for it. -/
inductive Loop.Leaving (s : Loop) (ld : Nat) : Prop where
  | stale {ev : Pushed} (event : ev.event = .staleLeader) (owner : ev.owner = ld)
      (pending : s.Pending ev)
  | transition {pc : StopPc} {transFunc : TransFunc} (present : s.role = ld)
      (stands : s.pc = .stop pc (some transFunc))

section

variable {s s' : Loop} {ld : Nat}

variable {label : Label}

/-- Steps that are not the processor's leave the processor where it is and the events in the
channel. -/
theorem Loop.step_beside (beside : label.isProcessor = false) (taken : Loop.step label s = some s')
     :
    s'.pc = s.pc ∧ s'.role = s.role ∧ s.evCh <+: s'.evCh := by
  cases Loop.step_moves taken with
  | processor => cases beside
  | thread _ threads =>
      cases threads with
      | put | pushed | deposed => exact ⟨rfl, rfl, List.prefix_append ..⟩
      | stopped stops =>
          refine ⟨stops.pc_eq, ?_, ?_⟩
          · cases stops <;> rfl
          · exact stops.evCh_eq ▸ List.prefix_rfl
      | _ => exact ⟨rfl, rfl, List.prefix_rfl⟩
  | spawned => exact ⟨rfl, rfl, List.prefix_rfl⟩
  | put => exact ⟨rfl, rfl, List.prefix_append ..⟩

theorem Loop.Leaving.beside (leaving : s.Leaving ld) (beside : label.isProcessor = false)
    (taken : Loop.step label s = some s') :
    s'.Leaving ld := by
  obtain ⟨pc, role, grows⟩ := Loop.step_beside beside taken
  cases leaving with
  | stale event owner pending =>
      refine .stale event owner ?_
      rcases pending with queued | held
      · exact .inl (grows.subset queued)
      · exact .inr (by rw [pc]; exact held)
  | transition present stands => exact .transition (role.trans present) (pc.trans stands)

variable {inst : Instance}

/-- An event of the channel stays there or is taken. -/
theorem Processes.queued {ev : Pushed} (processes : Processes s inst s')
    (queued : .internal ev ∈ s.evCh) : s'.Pending ev := by
  cases processes with
  | receivedTrans _ next | receivedKill _ next =>
      rw [next] at queued
      exact .inl ((List.mem_cons.mp queued).resolve_left nofun)
  | received _ next =>
      rw [next] at queued
      rcases List.mem_cons.mp queued with rfl | later
      · exact .inr rfl
      · exact .inl later
  | pushed => exact .inl (List.mem_append_left _ queued)
  | stopped _ stops => exact .inl (stops.evCh_eq ▸ queued)
  | _ => exact .inl queued

/-- The leader handles its `StaleLeaderEvent` with `transRole`. -/
theorem Processes.held {choice : Option TransFunc} {ev : Pushed} (processes : Processes s inst s')
    (isPresent : s.roles[s.role]? = some inst) (result : s.processor choice = some s')
    (isLeader : inst.role = .leader) (event : ev.event = .staleLeader) (held : s.pc.hand = some ev)
     :
    s'.pc.hand = some ev ∨ inst.active = false ∨
      s'.role = s.role ∧ s'.pc = .stop .cas (some .followerFromLeader) := by
  cases processes with
  | checked stands =>
      rw [stands] at held
      exact .inl held
  | discarded _ stopped => exact .inr (.inl stopped)
  | @handed taken _ stands =>
      obtain ⟨possible, onward⟩ := Loop.processor_process isPresent stands result
      have isTaken : taken = .internal ev := by
        rw [stands] at held
        cases taken <;> simp_all
      obtain ⟨kind, owner, number⟩ := ev
      cases event
      rw [isTaken, isLeader] at possible
      cases List.mem_singleton.mp possible
      exact .inr (.inr ⟨rfl, onward⟩)
  | receivedTrans stands | receivedKill stands | received stands | kept stands | changed stands
  | panicked stands | activated stands | wasActive stands | startedReplication stands
  | stored stands | startedElection stands | unlocked stands | ticked stands
  | tookSnapshot stands | pushed stands | killed stands | stopped stands | wasStopped stands =>
      rw [stands] at held
      cases held

/-- A leader on its way out stays so until it is stopped. -/
theorem Processes.leaving {choice : Option TransFunc} (processes : Processes s inst s')
    (isPresent : s.roles[s.role]? = some inst) (result : s.processor choice = some s')
    (tokens : Tokens s) (owned : Owned s) (isLeader : s.roleOf ld = some .leader)
    (leaving : s.Leaving ld) :
    s'.Leaving ld ∨ s.isActive ld = false := by
  cases leaving with
  | stale event owner pending =>
      rcases pending with queued | held
      · exact .inl (.stale event owner (processes.queued queued))
      · have present : ld = s.role := owner.symm.trans (owned.hand _ held)
        subst present
        have leads : inst.role = .leader := by
          simpa [Loop.roleOf, isPresent] using isLeader
        rcases processes.held isPresent result leads event held with still | stopped | handled
        · exact .inl (.stale event owner (.inr still))
        · exact .inr (by simp [Loop.isActive, isPresent, stopped])
        · exact .inl (.transition handled.1 handled.2)
  | transition present stands =>
      subst present
      cases processes with
      | stopped also stops =>
          cases stands.symm.trans also
          refine .inl (.transition ?_ rfl)
          cases stops <;> rfl
      | pushed also => exact .inr (tokens.inactive_of_ends (by simp [also]))
      | wasStopped _ stopped => exact .inr stopped
      | receivedTrans also | receivedKill also | received also | kept also | changed also
      | panicked also | activated also | wasActive also | startedReplication also | stored also
      | startedElection also | unlocked also | ticked also | tookSnapshot also | checked also
      | discarded also | handed also | killed also =>
          exact absurd (stands.symm.trans also) (by simp)

/-- A leader that was stopped or is on its way out. -/
def Loop.Resolved (s : Loop) (ld : Nat) : Prop :=
  .stopped ld ∈ s.obs ∨ s.Leaving ld

theorem Loop.Resolved.step (resolved : s.Resolved ld) (tokens : Tokens s) (owned : Owned s)
    (flagged : Flagged s) (isLeader : s.roleOf ld = some .leader)
    (activated : .activated ld ∈ s.obs) (taken : Loop.step label s = some s') :
    s'.Resolved ld := by
  have moves := Loop.step_moves taken
  rcases resolved with stopped | leaving
  · exact .inl (moves.obs_suffix.subset stopped)
  · cases beside : label.isProcessor with
    | false => exact .inr (leaving.beside beside taken)
    | true =>
        cases label with
        | processor choice =>
            obtain ⟨inst, present, result⟩ := Loop.step_processor taken
            have processes := Loop.processor_processes present result
            rcases processes.leaving present result tokens owned isLeader leaving with
              still | inactive
            · exact .inr still
            · exact .inl (moves.obs_suffix.subset (flagged.ended ld activated inactive))
        | _ => cases beside

/-- The instances there are keep their type. -/
theorem Moves.roleOf_eq (moves : Moves s label s') {role : Nat} (inside : role < s.roles.length) :
    s'.roleOf role = s.roleOf role := by
  cases moves with
  | processor _ processes =>
      cases processes with
      | changed => simp [Loop.roleOf, List.getElem?_append_left inside]
      | activated | stored | startedReplication | startedElection | ticked =>
          exact Loop.roleOf_modify fun _ => rfl
      | stopped _ stops => exact stops.roleOf_eq role
      | _ => rfl
  | thread _ threads =>
      cases threads with
      | stopped stops => exact stops.roleOf_eq role
      | _ => rfl
  | spawned | put => rfl

theorem Loop.lt_of_roleOf {role : Nat} {kind : RoleEnum} (known : s.roleOf role = some kind) :
    role < s.roles.length := by
  obtain ⟨inst, found, -⟩ := Option.map_eq_some_iff.mp known
  exact (List.getElem?_eq_some_iff.mp found).1

theorem Stops.activated_mem {role : Nat} {pc : StopPc} {next : Option StopPc}
    (stops : Stops s role pc s' next) (activated : .activated ld ∈ s'.obs) :
    .activated ld ∈ s.obs := by
  cases stops with
  | won => exact (List.mem_cons.mp activated).resolve_left nofun
  | lost | announced | acquired => exact activated

/-- A role is activated by the processor, and a leader by the second part of `activate`. -/
theorem Loop.activates (taken : Loop.step label s = some s') (activated : .activated ld ∈ s'.obs) :
    .activated ld ∈ s.obs ∨ label.isProcessor = true ∧ ld = s.role ∧
      (s.pc = .store ∨ s.present ≠ some .leader) := by
  cases Loop.step_moves taken with
  | processor =>
      obtain ⟨inst, present, result⟩ := Loop.step_processor taken
      cases Loop.processor_processes present result with
      | activated stands =>
          rcases List.mem_cons.mp activated with same | earlier
          · cases same
            refine .inr ⟨rfl, rfl, .inr fun isLeader => ?_⟩
            have leads : inst.role = .leader := by
              simpa [Loop.present, Loop.roleOf, present] using isLeader
            have obs := congrArg Loop.obs (Loop.processor_activate present stands result)
            rw [leads] at obs
            exact List.cons_ne_self _ _ obs
          · exact .inl earlier
      | stored stands =>
          rcases List.mem_cons.mp activated with same | earlier
          · cases same
            exact .inr ⟨rfl, rfl, .inl stands⟩
          · exact .inl earlier
      | stopped _ stops => exact .inl (stops.activated_mem activated)
      | @discarded ev =>
          refine .inl ((List.mem_append.mp activated).resolve_left ?_)
          cases ev <;> simp [Loop.discarding]
      | @handed ev =>
          refine .inl ((List.mem_append.mp activated).resolve_left ?_)
          cases ev <;> simp [Loop.handing]
      | _ => exact .inl activated
  | thread _ threads =>
      cases threads with
      | stopped stops => exact .inl (stops.activated_mem activated)
      | put => exact .inl ((List.mem_cons.mp activated).resolve_left (by simp))
      | _ => exact .inl activated
  | spawned | put => exact .inl activated

/-- The processor is behind `startReplication`. -/
theorem Processes.activate_of_store (processes : Processes s inst s') (stands : s'.pc = .store) :
    s.pc = .activate := by
  cases processes with
  | startedReplication before => exact before
  | activated before => exact before
  | unlocked _ _ onward | wasStopped _ _ onward => rcases onward with rfl | rfl <;> cases stands
  | handed _ onward => rcases onward with rfl | ⟨_, rfl⟩ <;> cases stands
  | _ => cases stands

/-- An attempt at `chLock` fails for an active leader only while `activate` holds the lock. -/
theorem Tokens.refused (tokens : Tokens s) (flagged : Flagged s)
    (isLeader : s.roleOf ld = some .leader) (notFree : s.chLock.writer ≠ .free) :
    s.isActive ld = false ∨ s.pc = .unlock ∧ ld = s.role := by
  cases active : s.isActive ld with
  | false => exact .inl rfl
  | true =>
      have isPresent := tokens.eq_of_active active
      subst isPresent
      have ends := tokens.ends
      have locks := tokens.locks
      have below : total Thread.locks s.threads ≤ total Thread.ends s.threads :=
        total_mono fun thread => by
          cases thread with
          | stop role pc => cases pc <;> simp
          | _ => simp
      have held : s.chLock.writer = .held := by
        cases writer : s.chLock.writer with
        | free => exact (notFree writer).elim
        | announced => exact absurd ((flagged.announced writer).symm.trans active) (by simp)
        | held => rfl
      rw [active, Bool.toNat_true] at ends
      simp only [holding, held, if_true] at locks
      have standing : s.pc.locks = 1 ∧ s.pc.ends = 0 := by omega
      refine .inr ⟨?_, rfl⟩
      cases stands : s.pc with
      | unlock => rfl
      | startElection => exact absurd ((flagged.electing stands).symm.trans isLeader) (by simp)
      | stop pc =>
          rw [stands] at standing
          cases pc <;> simp at standing
      | dead stopped =>
          rw [stands] at standing
          cases stopped <;> simp at standing
      | _ =>
          rw [stands] at standing
          simp at standing

end

end GoLab.Raft.EventLoop
