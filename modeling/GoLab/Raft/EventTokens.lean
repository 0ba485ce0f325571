import GoLab.Raft.EventLoop

/-!
# The token of a change of role

A change of role is a token: the goroutine that has taken `active` away carries it
through `chLock.Lock()` into the channel, and the processor from the `TransEvent` to the
activation of the next role.  There is one token while the present role is not active,
and none otherwise.  From the acquisition of `chLock` to its release the holder of the
lock has the token too, so that no event of a role instance is pushed behind its
`TransEvent`.

With the tokens counted, `Effect` says what a step does to the channel and the history.
-/

namespace GoLab.Raft.EventLoop

/-! ## Who has the token -/

def Event.isTrans : Event → Bool
  | .trans _ => true
  | _ => false

@[simp] theorem Event.isTrans_trans {transFunc : Option TransFunc} :
    (Event.trans transFunc).isTrans = true := rfl

@[simp] theorem Event.isTrans_internal {ev : Pushed} : (Event.internal ev).isTrans = false := rfl

@[simp] theorem Event.isTrans_kill : Event.kill.isTrans = false := rfl

@[simp] def StopPc.ends : StopPc → Nat
  | .cas => 0
  | .lock | .wait | .done => 1

@[simp] def StopPc.locks : StopPc → Nat
  | .cas | .lock | .wait => 0
  | .done => 1

/-- The processor has the token. -/
@[simp] def Pc.ends : Pc → Nat
  | .trans _ | .activate | .store | .dead true | .panicked => 1
  | .stop pc _ => pc.ends
  | _ => 0

/-- The processor has the lock. -/
@[simp] def Pc.locks : Pc → Nat
  | .trans _ | .activate | .startElection | .store | .unlock | .dead true | .panicked => 1
  | .stop pc _ => pc.locks
  | _ => 0

/-- A goroutine has the token. -/
@[simp] def Thread.ends : Thread → Nat
  | .stop _ pc => pc.ends
  | _ => 0

/-- A goroutine has the lock for writing. -/
@[simp] def Thread.locks : Thread → Nat
  | .stop _ pc => pc.locks
  | _ => 0

/-- A goroutine has the lock for reading. -/
@[simp] def Thread.reads : Thread → Nat
  | .tryPutEv _ _ .check | .tryPutEv _ _ .push | .tryPutEv _ _ .rUnlock => 1
  | .call _ .push | .call _ .rUnlock => 1
  | _ => 0

def holding (lock : RWLock) : Nat :=
  if lock.writer = .held then 1 else 0

/-- Only the present role can be active.  There is one token if it is not, and one holder
of the lock if it is held. -/
structure Tokens (s : Loop) : Prop where
  present : s.role + 1 = s.roles.length
  past : ∀ role, role ≠ s.role → s.isActive role = false
  ends : s.pc.ends + total Thread.ends s.threads + s.evCh.countP Event.isTrans +
    (s.isActive s.role).toNat = 1
  locks : s.pc.locks + total Thread.locks s.threads + s.evCh.countP Event.isTrans =
    holding s.chLock
  readers : s.chLock.readers = total Thread.reads s.threads
  calls : ∀ ev pc, .call ev pc ∈ s.threads → ev.underLock = true

namespace Loop

variable {s : Loop} {role role' : Nat} {active : Bool}

@[simp] theorem length_setActive : (s.setActive role active).roles.length = s.roles.length := by
  simp [setActive]

@[simp] theorem length_setStarted : (s.setStarted role).roles.length = s.roles.length := by
  simp [setStarted]

@[simp] theorem role_setActive : (s.setActive role active).role = s.role := rfl

@[simp] theorem role_setStarted : (s.setStarted role).role = s.role := rfl

theorem isActive_setActive (inside : role < s.roles.length) :
    (s.setActive role active).isActive role' =
      if role' = role then active else s.isActive role' := by
  simp only [isActive, setActive, List.getElem?_modify]
  split
  case isTrue same =>
    subst same
    simp [List.getElem?_eq_getElem inside]
  case isFalse differs =>
    simp [Ne.symm differs]

theorem isActive_setStarted : (s.setStarted role).isActive role' = s.isActive role' := by
  simp only [isActive, setStarted, List.getElem?_modify]
  cases s.roles[role']? with
  | none => rfl
  | some inst => by_cases same : role = role' <;> simp [same]

end Loop

section

variable {s s' : Loop} {role : Nat} {pc pc' : StopPc}

section

variable (tokens : Tokens s)
include tokens

theorem Tokens.eq_of_active (active : s.isActive role = true) :
    role = s.role := by
  refine Decidable.byContradiction fun differs => ?_
  simp [tokens.past role differs] at active

/-- What a step of `stop` changes, besides the history. -/
theorem Stops.shift (stops : Stops s role pc s' (some pc')) :
    s'.roles.length = s.roles.length ∧ s'.role = s.role ∧ s'.evCh = s.evCh ∧
      (∀ role, role ≠ s.role → s'.isActive role = false) ∧
      pc'.ends + (s'.isActive s.role).toNat = pc.ends + (s.isActive s.role).toNat ∧
      pc'.locks + holding s.chLock = pc.locks + holding s'.chLock ∧
      s'.chLock.readers = s.chLock.readers := by
  have present := tokens.present
  cases stops with
  | won active =>
      have same := tokens.eq_of_active active
      subst same
      have after (role' : Nat) : ({ s.setActive s.role false with
          obs := .stopped s.role :: s.obs } : Loop).isActive role' =
          if role' = s.role then false else s.isActive role' :=
        Loop.isActive_setActive (by omega)
      refine ⟨by simp [Loop.setActive], rfl, rfl, fun role' differs => ?_, ?_, rfl, rfl⟩
      · rw [after, if_neg differs, tokens.past role' differs]
      · rw [after, if_pos rfl, active]
        rfl
  | announced result =>
      obtain ⟨free, announced, readers⟩ := RWLock.announce_eq_some result
      exact ⟨rfl, rfl, rfl, tokens.past, rfl, by simp [holding, free, announced],
        readers⟩
  | acquired result =>
      obtain ⟨announced, held, none, noReaders⟩ := RWLock.acquire_eq_some result
      exact ⟨rfl, rfl, rfl, tokens.past, rfl, by simp [holding, announced, held],
        none.trans noReaders.symm⟩

/-- A step of `stop` takes the token, and then the lock, for the goroutine it belongs to. -/
theorem Tokens.stops (stops : Stops s role pc s' (some pc')) (next : Pc) {threads : List Thread}
    (ends : next.ends + total Thread.ends threads + pc.ends =
      s.pc.ends + total Thread.ends s.threads + pc'.ends)
    (locks : next.locks + total Thread.locks threads + pc.locks =
      s.pc.locks + total Thread.locks s.threads + pc'.locks)
    (readers : total Thread.reads threads = total Thread.reads s.threads)
    (calls : ∀ ev pc, .call ev pc ∈ threads → ev.underLock = true) :
    Tokens { s' with pc := next, threads } := by
  obtain ⟨length, sameRole, evCh, past, endsShift, locksShift, readersEq⟩ := stops.shift tokens
  have endsBefore := tokens.ends
  have locksBefore := tokens.locks
  refine ⟨?_, fun role differs => past role (sameRole ▸ differs), ?_, ?_, ?_, calls⟩
  · exact (congrArg (· + 1) sameRole).trans (tokens.present.trans length.symm)
  · show next.ends + total Thread.ends threads + s'.evCh.countP Event.isTrans +
      (s'.isActive s'.role).toNat = 1
    rw [evCh, sameRole]
    omega
  · show next.locks + total Thread.locks threads + s'.evCh.countP Event.isTrans =
      holding s'.chLock
    rw [evCh]
    omega
  · exact readersEq.trans (tokens.readers.trans readers.symm)

/-- A step of the processor that leaves the roles and the goroutines as they are. -/
theorem Tokens.goOn {evCh : List Event} {chLock : RWLock} {pc : Pc} {obs : List Obs}
    (readers : chLock.readers = s.chLock.readers)
    (ends : pc.ends + evCh.countP Event.isTrans = s.pc.ends + s.evCh.countP Event.isTrans)
    (locks : pc.locks + evCh.countP Event.isTrans + holding s.chLock =
      s.pc.locks + s.evCh.countP Event.isTrans + holding chLock) :
    Tokens { s with evCh, chLock, pc, obs } := by
  have before := tokens.ends
  have lockBefore := tokens.locks
  refine ⟨tokens.present, tokens.past, ?_, ?_, ?_, tokens.calls⟩
  · show pc.ends + total Thread.ends s.threads + evCh.countP Event.isTrans +
      (s.isActive s.role).toNat = 1
    omega
  · show pc.locks + total Thread.locks s.threads + evCh.countP Event.isTrans = holding chLock
    omega
  · exact readers.trans tokens.readers

/-- A step of the processor that changes the roles or their flags. -/
theorem Tokens.withRoles {roles : List Instance} {role : Nat} {pc : Pc} {obs : List Obs}
    (present : role + 1 = roles.length)
    (past : ∀ role', role' ≠ role → ({ s with roles, role, pc, obs } : Loop).isActive role' = false)
    (ends : pc.ends + (({ s with roles, role, pc, obs } : Loop).isActive role).toNat =
      s.pc.ends + (s.isActive s.role).toNat) (locks : pc.locks = s.pc.locks) :
    Tokens { s with roles, role, pc, obs } := by
  have before := tokens.ends
  have lockBefore := tokens.locks
  refine ⟨present, past, ?_, ?_, tokens.readers, tokens.calls⟩
  · show pc.ends + total Thread.ends s.threads + s.evCh.countP Event.isTrans + _ = 1
    dsimp only
    omega
  · show pc.locks + total Thread.locks s.threads + s.evCh.countP Event.isTrans = holding s.chLock
    omega

/-- The present role becomes active. -/
theorem Tokens.activated {pc : Pc} {obs : List Obs} (ends : s.pc.ends = 1) (locks : s.pc.locks = 1)
    (nextEnds : pc.ends = 0) (nextLocks : pc.locks = 1) :
    Tokens { s.setActive s.role true with pc, obs } := by
  have present := tokens.present
  have before := tokens.ends
  have after (role : Nat) : ({ s.setActive s.role true with pc, obs } : Loop).isActive role =
      if role = s.role then true else s.isActive role :=
    Loop.isActive_setActive (by omega)
  refine tokens.withRoles (by simpa using present) (fun role differs => ?_) ?_ (by omega)
  · exact (after role).trans ((if_neg differs).trans (tokens.past role differs))
  · show pc.ends + (({ s.setActive s.role true with pc, obs } : Loop).isActive s.role).toNat = _
    rw [after, if_pos rfl, Bool.toNat_true]
    omega

/-- The goroutines of the present role are set off. -/
theorem Tokens.started {pc : Pc} (ends : pc.ends = s.pc.ends) (locks : pc.locks = s.pc.locks) :
    Tokens { s.setStarted s.role with pc } := by
  have present := tokens.present
  have after (role : Nat) :
      ({ s.setStarted s.role with pc } : Loop).isActive role = s.isActive role :=
    Loop.isActive_setStarted
  refine tokens.withRoles (by simpa using present) (fun role differs => ?_) ?_ locks
  · exact (after role).trans (tokens.past role differs)
  · show pc.ends + (({ s.setStarted s.role with pc } : Loop).isActive s.role).toNat = _
    rw [after, ends]

end

theorem Processes.tokens {inst : Instance} (processes : Processes s inst s')
    (tokens : Tokens s) : Tokens s' := by
  have present := tokens.present
  have ends := tokens.ends
  have locks := tokens.locks
  cases processes with
  | receivedTrans stands next | receivedKill stands next =>
      refine tokens.goOn rfl ?_ ?_ <;> simp [stands, next, List.countP_cons] <;> omega
  | @received ev _ stands next other =>
      have kept : ¬ ev.isTrans = true := by
        cases ev with
        | trans transFunc => exact (other transFunc rfl).elim
        | _ => simp [Event.isTrans]
      refine tokens.goOn rfl ?_ ?_ <;>
        simp only [stands, next, List.countP_cons_of_neg kept] <;> rfl
  | kept stands | panicked stands | tookSnapshot stands | checked stands | discarded stands
  | killed stands =>
      refine tokens.goOn rfl ?_ ?_ <;> simp [stands]
  | wasActive stands active =>
      simp only [stands, active, Pc.ends, Bool.toNat_true] at ends
      omega
  | handed stands onward =>
      rcases onward with rfl | ⟨transFunc, rfl⟩ <;>
        refine tokens.goOn rfl ?_ ?_ <;> simp [stands]
  | wasStopped stands _ onward =>
      rcases onward with rfl | rfl <;> refine tokens.goOn rfl ?_ ?_ <;> simp [stands]
  | pushed stands =>
      refine tokens.goOn rfl ?_ ?_ <;> simp [stands, List.countP_append] <;> omega
  | unlocked stands result onward =>
      obtain ⟨held, free, readers⟩ := RWLock.unlock_eq_some result
      rcases onward with rfl | rfl <;>
        refine tokens.goOn readers ?_ ?_ <;> simp [stands, holding, held, free] <;> omega
  | changed stands =>
      have inactive : s.isActive s.role = false := by
        cases active : s.isActive s.role with
        | false => rfl
        | true =>
            simp only [stands, active, Pc.ends, Bool.toNat_true] at ends
            omega
      refine tokens.withRoles (by simp) (fun role differs => ?_) ?_ (by simp [stands])
      · simp only [Loop.isActive, List.getElem?_append]
        split
        case isTrue inside =>
          by_cases same : role = s.role
          · subst same
            exact inactive
          · exact tokens.past role same
        case isFalse outside =>
          rw [List.getElem?_eq_none (by simp; omega)]
          rfl
      · simp [Loop.isActive, stands, ← inactive]
  | activated stands _ onward =>
      rcases onward with rfl | rfl <;>
        exact tokens.activated (by simp [stands]) (by simp [stands]) rfl rfl
  | stored stands => exact tokens.activated (by simp [stands]) (by simp [stands]) rfl rfl
  | startedReplication stands | startedElection stands | ticked stands =>
      exact tokens.started (by simp [stands]) (by simp [stands])
  | stopped stands stops =>
      have threads := stops.threads_eq
      refine tokens.stops stops _ ?_ ?_ (by rw [threads]) (threads ▸ tokens.calls) <;>
        simp only [stands, Pc.ends, Pc.locks, threads] <;> omega

/-- A step of a goroutine that leaves the roles and the processor as they are. -/
theorem Tokens.set (tokens : Tokens s) {i : Nat} {thread thread' : Thread} {evCh : List Event}
    {chLock : RWLock} {obs : List Obs} (found : s.threads[i]? = some thread)
    (readers : chLock.readers + thread.reads = s.chLock.readers + thread'.reads)
    (ends : thread'.ends + evCh.countP Event.isTrans =
      thread.ends + s.evCh.countP Event.isTrans)
    (locks : thread'.locks + evCh.countP Event.isTrans + holding s.chLock =
      thread.locks + s.evCh.countP Event.isTrans + holding chLock)
    (calls : ∀ ev pc, thread' = .call ev pc → ev.underLock = true) :
    Tokens { s with evCh, chLock, obs, threads := s.threads.set i thread' } := by
  have endsBefore := tokens.ends
  have locksBefore := tokens.locks
  have readersBefore := tokens.readers
  have endsSet := total_set Thread.ends thread' found
  have locksSet := total_set Thread.locks thread' found
  have readsSet := total_set Thread.reads thread' found
  refine ⟨tokens.present, tokens.past, ?_, ?_, ?_, ?_⟩
  · show s.pc.ends + total Thread.ends (s.threads.set i thread') + evCh.countP Event.isTrans +
      (s.isActive s.role).toNat = 1
    omega
  · show s.pc.locks + total Thread.locks (s.threads.set i thread') + evCh.countP Event.isTrans =
      holding chLock
    omega
  · show chLock.readers = total Thread.reads (s.threads.set i thread')
    omega
  · intro ev pc membership
    rcases List.mem_or_eq_of_mem_set membership with earlier | new
    · exact tokens.calls ev pc earlier
    · exact calls ev pc new.symm

theorem Threads.tokens {i : Nat} {thread thread' : Thread} (threads : Threads s thread s' thread')
    (found : s.threads[i]? = some thread) (tokens : Tokens s) :
    Tokens { s' with threads := s.threads.set i thread' } := by
  have inside := List.mem_of_getElem? found
  have reads := weight_le_total Thread.reads inside
  have readers := tokens.readers
  cases threads with
  | rLocked result =>
      obtain ⟨wasFree, free, count⟩ := RWLock.rLock_eq_some result
      exact tokens.set found (by simp [count]) (by simp) (by simp [holding, wasFree, free]) nofun
  | called result =>
      obtain ⟨wasFree, free, count⟩ := RWLock.rLock_eq_some result
      refine tokens.set found (by simp [count]) (by simp) (by simp [holding, wasFree, free]) ?_
      rintro ev pc same
      cases same
      exact tokens.calls _ _ inside
  | refused | found | closed | readRole | wasStopped =>
      exact tokens.set found (by simp) (by simp) (by simp) nofun
  | put => exact tokens.set found (by simp) (by simp) (by simp) nofun
  | @pushed ev =>
      have underLock := tokens.calls _ _ inside
      have kept : ev.isTrans = false := by
        cases ev with
        | trans => cases underLock
        | _ => rfl
      refine tokens.set found (by simp) (by simp [kept]) (by simp [kept]) ?_
      rintro ev pc same
      cases same
      exact underLock
  | rUnlocked | returned =>
      simp only [Thread.reads] at reads
      refine tokens.set found ?_ (by simp) rfl nofun
      simp only [RWLock.rUnlock, Thread.reads]
      omega
  | deposed =>
      refine tokens.set found (by simp) ?_ ?_ nofun <;> simp [List.countP_append] <;> omega
  | @stopped role pc pc' s' stops =>
      have endsSet := total_set Thread.ends (.stop role pc') found
      have locksSet := total_set Thread.locks (.stop role pc') found
      have readsSet := total_set Thread.reads (.stop role pc') found
      simp only [Thread.ends, Thread.locks, Thread.reads] at endsSet locksSet readsSet
      refine tokens.stops stops s'.pc ?_ ?_ readsSet ?_
      · rw [stops.pc_eq]
        omega
      · rw [stops.pc_eq]
        omega
      · intro ev pc membership
        rcases List.mem_or_eq_of_mem_set membership with earlier | new
        · exact tokens.calls ev pc earlier
        · cases new

theorem Moves.tokens {label : Label} (moves : Moves s label s') (tokens : Tokens s) :
    Tokens s' := by
  cases moves with
  | processor _ processes => exact processes.tokens tokens
  | thread found threads => exact threads.tokens found tokens
  | @spawned _ thread entry =>
      have quiet : thread.ends = 0 ∧ thread.locks = 0 ∧ thread.reads = 0 := by
        rcases entry with ⟨ev, role, rfl⟩ | rfl | ⟨ev, -, rfl⟩ <;> simp
      have ends := tokens.ends
      have locks := tokens.locks
      refine ⟨tokens.present, tokens.past, ?_, ?_, ?_, ?_⟩
      · simp only [Loop.spawn, total_append, quiet]
        exact ends
      · simp only [Loop.spawn, total_append, quiet]
        exact locks
      · simp only [Loop.spawn, total_append, quiet]
        exact tokens.readers
      · intro ev pc membership
        rcases List.mem_append.mp membership with earlier | new
        · exact tokens.calls ev pc earlier
        · rcases entry with ⟨_, _, rfl⟩ | rfl | ⟨_, underLock, rfl⟩ <;>
            cases List.mem_singleton.mp new
          exact underLock
  | @put _ ev lockFree =>
      have kept : ev.isTrans = false := by
        cases ev with
        | trans => cases lockFree
        | _ => rfl
      exact tokens.goOn rfl (by simp [kept]) (by simp [kept])

theorem tokens_init : Tokens .init where
  present := rfl
  past := fun role differs => by
    cases role with
    | zero => exact (differs rfl).elim
    | succ => rfl
  ends := rfl
  locks := rfl
  readers := rfl
  calls := nofun

end

/-! ## What a step does to the channel and the history -/

/-- The event as one of `tryPutEv`. -/
@[simp] def Event.internal? : Event → Option Pushed
  | .internal ev => some ev
  | _ => none

/-- The internal event the processor has taken and not done with. -/
@[simp] def Pc.hand : Pc → Option Pushed
  | .received ev | .process ev => ev.internal?
  | _ => none

/-- The processor is between a `TransEvent` and the release of the lock. -/
@[simp] def Pc.entering : Pc → Bool
  | .trans _ | .activate | .startElection | .store | .unlock => true
  | _ => false

/-- The present role has never been active. -/
@[simp] def Pc.fresh : Pc → Bool
  | .trans none | .activate | .store => true
  | _ => false

/-- The state of the processor changes as if nothing had happened. -/
structure SamePhase (pc pc' : Pc) : Prop where
  hand : pc'.hand = pc.hand
  entering : pc'.entering = true → pc.entering = true
  fresh : pc'.fresh = true → pc.fresh = true

theorem SamePhase.rfl {pc : Pc} : SamePhase pc pc := ⟨Eq.refl _, id, id⟩

theorem Pc.locks_of_entering {pc : Pc} (entering : pc.entering = true) : pc.locks = 1 := by
  cases pc <;> first | rfl | cases entering

/-- What a step does to the channel, the role, the event in hand and the history. -/
inductive Effect (s s' : Loop) : Prop where
  | idle (role : s'.role = s.role) (active : s'.isActive s.role = s.isActive s.role)
      (evCh : s'.evCh = s.evCh) (phase : SamePhase s.pc s'.pc) (obs : s'.obs = s.obs)
  | took {ev : Event} (role : s'.role = s.role) (active : s'.isActive s.role = s.isActive s.role)
      (evCh : s.evCh = ev :: s'.evCh) (empty : s.pc.hand = none) (hand : s'.pc.hand = ev.internal?)
      (entering : s'.pc.entering = true → ev.isTrans = true)
      (fresh : s'.pc.fresh = true → ev = .trans none) (obs : s'.obs = s.obs)
  | changed (role : s'.role = s.role + 1) (evCh : s'.evCh = s.evCh) (empty : s.pc.hand = none)
      (hand : s'.pc.hand = none) (entering : s.pc.entering = true)
      (threads : s'.threads = s.threads) (obs : s'.obs = s.obs)
  | activated (role : s'.role = s.role) (evCh : s'.evCh = s.evCh) (empty : s.pc.hand = none)
      (hand : s'.pc.hand = none) (entering : s.pc.entering = true) (fresh : s.pc.fresh = true)
      (onward : s'.pc.fresh = false) (obs : s'.obs = .activated s.role :: s.obs)
  | resolved {ev : Pushed} {record : Obs} (role : s'.role = s.role)
      (active : s'.isActive s.role = s.isActive s.role) (evCh : s'.evCh = s.evCh)
      (hand : s.pc.hand = some ev) (empty : s'.pc.hand = none) (entering : s'.pc.entering = false)
      (fresh : s'.pc.fresh = false)
      (way : s.pc = .process (.internal ev) ∧ record = .handed s.role ev ∨ record = .discarded ev)
      (obs : s'.obs = record :: s.obs)
  | stopped (role : s'.role = s.role) (wasActive : s.isActive s.role = true)
      (active : s'.isActive s.role = false) (evCh : s'.evCh = s.evCh)
      (phase : SamePhase s.pc s'.pc) (obs : s'.obs = .stopped s.role :: s.obs)
  | appended {ev : Event} (role : s'.role = s.role)
      (active : s'.isActive s.role = s.isActive s.role) (evCh : s'.evCh = s.evCh ++ [ev])
      (other : ev.internal? = none) (some : ev ≠ .trans none) (phase : SamePhase s.pc s'.pc)
      (obs : s'.obs = s.obs)
  | put {ev : Pushed} (role : s'.role = s.role) (active : s'.isActive s.role = s.isActive s.role)
      (thread : .tryPutEv ev.event ev.owner .push ∈ s.threads)
      (evCh : s'.evCh = s.evCh ++ [.internal ev]) (phase : SamePhase s.pc s'.pc)
      (obs : s'.obs = .pushed ev :: s.obs)

section

variable {s s' : Loop}

/-- A step of `stop` seen from the channel. -/
theorem Stops.effect {role : Nat} {pc pc' : StopPc} {next : Pc} {threads : List Thread}
    (stops : Stops s role pc s' (some pc')) (tokens : Tokens s) (phase : SamePhase s.pc next) :
    Effect s { s' with pc := next, threads } := by
  have present := tokens.present
  cases stops with
  | won active =>
      have same := tokens.eq_of_active active
      subst same
      refine .stopped rfl active ?_ rfl phase rfl
      exact (Loop.isActive_setActive (by omega)).trans (if_pos rfl)
  | announced | acquired => exact .idle rfl rfl rfl phase rfl

theorem Processes.effect {inst : Instance} (processes : Processes s inst s') (tokens : Tokens s) :
    Effect s s' := by
  have present := tokens.present
  cases processes with
  | @receivedTrans transFunc _ stands next =>
      exact .took rfl rfl next (by simp [stands]) rfl (fun _ => rfl)
        (by cases transFunc <;> simp) rfl
  | receivedKill stands next =>
      exact .took rfl rfl next (by simp [stands]) rfl (by simp) (by simp) rfl
  | received stands next =>
      exact .took rfl rfl next (by simp [stands]) rfl (by simp) (by simp) rfl
  | changed stands =>
      exact .changed present.symm rfl (by simp [stands]) rfl (by simp [stands]) rfl rfl
  | activated stands _ onward =>
      refine .activated rfl rfl (by simp [stands]) ?_ (by simp [stands]) (by simp [stands]) ?_
        rfl <;>
        rcases onward with rfl | rfl <;> rfl
  | stored stands =>
      exact .activated rfl rfl (by simp [stands]) rfl (by simp [stands]) (by simp [stands]) rfl rfl
  | startedReplication stands | startedElection stands | ticked stands =>
      exact .idle rfl Loop.isActive_setStarted rfl ⟨by simp [stands], by simp [stands],
        by simp [stands]⟩ rfl
  | unlocked stands _ onward =>
      refine .idle rfl rfl rfl ?_ rfl
      rcases onward with rfl | rfl <;>
        exact ⟨by simp [stands], by simp, by simp⟩
  | kept stands | panicked stands | wasActive stands | tookSnapshot stands | checked stands
  | killed stands =>
      exact .idle rfl rfl rfl ⟨by simp [stands], by simp [stands], by simp [stands]⟩ rfl
  | wasStopped stands _ onward =>
      refine .idle rfl rfl rfl ?_ rfl
      rcases onward with rfl | rfl <;> exact ⟨by simp [stands], by simp, by simp⟩
  | @discarded ev stands =>
      cases ev with
      | internal ev =>
          exact .resolved rfl rfl rfl (by rw [stands]; rfl) rfl rfl rfl (.inr rfl) rfl
      | _ => exact .idle rfl rfl rfl ⟨by simp [stands], by simp, by simp⟩ rfl
  | @handed ev pc stands onward =>
      have next : pc.hand = none ∧ pc.entering = false ∧ pc.fresh = false := by
        rcases onward with rfl | ⟨_, rfl⟩ <;> simp
      cases ev with
      | internal ev =>
          exact .resolved rfl rfl rfl (by rw [stands]; rfl) next.1 next.2.1 next.2.2
            (.inl ⟨stands, rfl⟩) rfl
      | _ =>
          refine .idle rfl rfl rfl ⟨?_, ?_, ?_⟩ rfl
          · rw [stands]
            exact next.1
          · exact fun entering => absurd (next.2.1.symm.trans entering) nofun
          · exact fun fresh => absurd (next.2.2.symm.trans fresh) nofun
  | pushed stands =>
      exact .appended rfl rfl rfl rfl (by simp) ⟨by simp [stands], by simp, by simp⟩ rfl
  | stopped stands stops =>
      exact stops.effect tokens ⟨by simp [stands], by simp, by simp⟩

theorem Moves.effect {label : Label} (moves : Moves s label s') (tokens : Tokens s) :
    Effect s s' := by
  cases moves with
  | processor _ processes => exact processes.effect tokens
  | thread found threads =>
      have inside := List.mem_of_getElem? found
      cases threads with
      | put => exact .put rfl rfl inside rfl .rfl rfl
      | @pushed ev =>
          have underLock := tokens.calls _ _ inside
          refine .appended rfl rfl rfl ?_ ?_ .rfl rfl
          · cases ev with
            | internal => cases underLock
            | _ => rfl
          · rintro rfl
            cases underLock
      | deposed => exact .appended rfl rfl rfl rfl (by simp) .rfl rfl
      | stopped stops =>
          refine stops.effect tokens ?_
          rw [stops.pc_eq]
          exact .rfl
      | _ => exact .idle rfl rfl rfl .rfl rfl
  | spawned => exact .idle rfl rfl rfl .rfl rfl
  | @put _ ev lockFree =>
      refine .appended rfl rfl rfl ?_ ?_ .rfl rfl
      · cases ev with
        | internal => cases lockFree
        | _ => rfl
      · rintro rfl
        cases lockFree

end

end GoLab.Raft.EventLoop
