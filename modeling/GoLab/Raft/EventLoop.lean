import GoLab.Lib.RWLock
import GoLab.Lib.Run
import GoLab.Raft.Server

/-!
# The event channel and its lock, step by step

`Cluster.step` takes a push into `evCh` and the check before it as one step.  Here the
protocol behind it is taken apart: the `active` flag of every role instance there has
ever been, `chLock` with `Lock`, `RLock` and `TryRLock`, the channel, the processor
(`processor`, `transRole`, `activate` and `stop`), the goroutines and timers inside
`tryPutEv`, and the replicators that call `transRole` on their own.

What the handlers compute is left out, so a handler may ask for any change of role that
its code can ask for.  An internal event carries the role instance `tryPutEv` was called
for and a number of its own; the code has neither.
-/

namespace GoLab.Raft.EventLoop

/-- `RoleEnum`. -/
inductive RoleEnum where
  | follower
  | candidate
  | leader
  deriving DecidableEq, Repr

/-- A role instance; `started` when its goroutines and timers have been set off. -/
structure Instance where
  role : RoleEnum
  active : Bool
  started : Bool
  deriving DecidableEq, Repr

/-- The events that are pushed by `tryPutEv`. -/
inductive Internal where
  | heartBeatTimeout
  | electionTimeout
  | voteGrant
  | staleCandidate
  | replConfirm
  | staleLeader
  deriving DecidableEq, Repr

/-- The role whose goroutines and timers push an event. -/
def Internal.role : Internal → RoleEnum
  | .heartBeatTimeout => .follower
  | .electionTimeout | .voteGrant | .staleCandidate => .candidate
  | .replConfirm | .staleLeader => .leader

/-- An internal event in the channel. -/
structure Pushed where
  event : Internal
  owner : Nat
  number : Nat
  deriving DecidableEq, Repr

/-- The other events a role processes. -/
inductive Public where
  | getState
  | startCommand
  | appendEntries
  | requestVote
  deriving DecidableEq, Repr

inductive Event where
  | trans (transFunc : Option TransFunc)
  | snapshot
  | kill
  | external (ev : Public)
  | internal (ev : Pushed)
  deriving DecidableEq, Repr

/-- The role a `transFunc` takes; it panics on any other. -/
def source : TransFunc → RoleEnum
  | .candidateFromFollower => .follower
  | .followerFromCandidate | .leaderFromCandidate => .candidate
  | .followerFromLeader => .leader

/-- The role a `transFunc` makes. -/
def target : TransFunc → RoleEnum
  | .candidateFromFollower => .candidate
  | .followerFromCandidate | .followerFromLeader => .follower
  | .leaderFromCandidate => .leader

/-- The calls of `transRole` that `process` can make for an event. -/
def choices : RoleEnum → Event → List (Option TransFunc)
  | .follower, .internal ⟨.heartBeatTimeout, _, _⟩ => [some .candidateFromFollower]
  | .candidate, .external .appendEntries | .candidate, .external .requestVote =>
      [none, some .followerFromCandidate]
  | .candidate, .internal ⟨.voteGrant, _, _⟩ => [none, some .leaderFromCandidate]
  | .candidate, .internal ⟨.electionTimeout, _, _⟩
  | .candidate, .internal ⟨.staleCandidate, _, _⟩ => [some .followerFromCandidate]
  | .leader, .external .appendEntries | .leader, .external .requestVote =>
      [none, some .followerFromLeader]
  | .leader, .internal ⟨.staleLeader, _, _⟩ => [some .followerFromLeader]
  | _, _ => [none]

/-- Where a goroutine stands in `stop`: before the change of `active`, before and inside
`chLock.Lock()`, and behind it. -/
inductive StopPc where
  | cas
  | lock
  | wait
  | done
  deriving DecidableEq, Repr

/-- Where the processor stands.

`trans` and `received` are behind the reception of an event.  `activate` is before the
first step of `activate`; `startElection`, `store`, `unlock` and `tick` are the later
ones.  `process` is behind the check of `closed()`, and `stop` is in `rf.role.stop()`,
called by `transRole` or, without a `transFunc`, for a `KillEvent`.  `dead` tells whether
that `stop` succeeded. -/
inductive Pc where
  | receive
  | trans (transFunc : Option TransFunc)
  | activate
  | startElection
  | store
  | unlock
  | tick
  | received (ev : Event)
  | process (ev : Event)
  | stop (pc : StopPc) (transFunc : Option TransFunc)
  | dead (stopped : Bool)
  | panicked
  deriving DecidableEq, Repr

/-- Where a goroutine stands in `tryPutEv`. -/
inductive PutPc where
  | tryRLock
  | check
  | push
  | rUnlock
  | returned
  deriving DecidableEq, Repr

/-- A goroutine beside the processor: inside `tryPutEv` for a role instance, inside an RPC
handler or another call that pushes an event under `RLock`, or a replicator inside
`transRole(followerFromLeader)`, before and after it has read `rf.role`. -/
inductive Thread where
  | tryPutEv (ev : Internal) (role : Nat) (pc : PutPc)
  | call (ev : Event) (pc : PutPc)
  | transRole
  | stop (role : Nat) (pc : StopPc)
  | returned
  deriving DecidableEq, Repr

/-- What happened, for the statements about runs: an event was pushed by `tryPutEv`, handed
to `process` of a role instance or discarded, and a role instance was activated or stopped. -/
inductive Obs where
  | pushed (ev : Pushed)
  | handed (role : Nat) (ev : Pushed)
  | discarded (ev : Pushed)
  | activated (role : Nat)
  | stopped (role : Nat)
  deriving DecidableEq, Repr

/-- The instances are numbered in the order they are made in; `role` is `rf.role`.  The
history has the latest record first. -/
structure Loop where
  roles : List Instance
  role : Nat
  chLock : RWLock
  evCh : List Event
  pc : Pc
  threads : List Thread
  obs : List Obs
  deriving DecidableEq, Repr

namespace Loop

/-- What `Make` leaves behind: a follower that is not active, `chLock` taken, and a
`TransEvent` in the channel. -/
def init : Loop where
  roles := [⟨.follower, false, false⟩]
  role := 0
  chLock := .locked
  evCh := [.trans none]
  pc := .receive
  threads := []
  obs := []

/-- `!closed()`. -/
def isActive (s : Loop) (role : Nat) : Bool :=
  s.roles[role]?.any Instance.active

def setActive (s : Loop) (role : Nat) (active : Bool) : Loop :=
  { s with roles := s.roles.modify role ({ · with active }) }

/-- The goroutines and timers of a role instance are set off. -/
def setStarted (s : Loop) (role : Nat) : Loop :=
  { s with roles := s.roles.modify role ({ · with started := true }) }

/-- `rf.evCh <- ev`; `none` when the channel is full. -/
def push (s : Loop) (ev : Event) : Option Loop :=
  if s.evCh.length < evCap then some { s with evCh := s.evCh ++ [ev] } else none

/-- A step of `stop` of a role instance; no place to go on at is the result `false`. -/
def stop (s : Loop) (role : Nat) : StopPc → Option (Loop × Option StopPc)
  | .cas =>
      if s.isActive role then
        some ({ s.setActive role false with obs := .stopped role :: s.obs }, some .lock)
      else
        some (s, none)
  | .lock => s.chLock.announce.map fun chLock => ({ s with chLock }, some .wait)
  | .wait => s.chLock.acquire.map fun chLock => ({ s with chLock }, some .done)
  | .done => none

/-- A step of `activate` of the present role, up to the one that makes it active. -/
def activate (s : Loop) : RoleEnum → Loop
  | .follower =>
      if s.isActive s.role then
        { s with pc := .receive }
      else
        { s.setActive s.role true with pc := .unlock, obs := .activated s.role :: s.obs }
  | .candidate =>
      if s.isActive s.role then
        { s with pc := .receive }
      else
        { s.setActive s.role true with pc := .startElection, obs := .activated s.role :: s.obs }
  | .leader => { s.setStarted s.role with pc := .store }

/-- `rf.role = ev.transFunc(rf.role)`. -/
def trans (s : Loop) (present : RoleEnum) : Option TransFunc → Loop
  | none => { s with pc := .activate }
  | some transFunc =>
      if source transFunc = present then
        { s with
          roles := s.roles ++ [⟨target transFunc, false, false⟩]
          role := s.roles.length
          pc := .activate }
      else
        { s with pc := .panicked }

/-- What is noted when an event is handed to a role instance. -/
def handing (role : Nat) : Event → List Obs
  | .internal ev => [.handed role ev]
  | _ => []

/-- What is noted when an event is discarded. -/
def discarding : Event → List Obs
  | .internal ev => [.discarded ev]
  | _ => []

/-- The processor receives an event. -/
def receive (s : Loop) : Option Loop :=
  match s.evCh with
  | [] => none
  | .trans transFunc :: rest => some { s with evCh := rest, pc := .trans transFunc }
  | .kill :: rest => some { s with evCh := rest, pc := .stop .cas none }
  | ev :: rest => some { s with evCh := rest, pc := .received ev }

/-- One step of the processor; `choice` is the call of `transRole` that the handler of an
event makes. -/
def processor (s : Loop) (choice : Option TransFunc) : Option Loop := do
  let present ← s.roles[s.role]?
  match s.pc with
  | .receive => s.receive
  | .trans transFunc => return s.trans present.role transFunc
  | .activate => return s.activate present.role
  | .startElection => return { s.setStarted s.role with pc := .unlock }
  | .store =>
      return { s.setActive s.role true with pc := .unlock, obs := .activated s.role :: s.obs }
  | .unlock => do
      let chLock ← s.chLock.unlock
      return { s with chLock, pc := if present.role = .follower then .tick else .receive }
  | .tick => return { s.setStarted s.role with pc := .receive }
  | .received .snapshot => return { s with pc := .receive }
  | .received ev =>
      if present.active then
        return { s with pc := .process ev }
      else
        return { s with pc := .receive, obs := discarding ev ++ s.obs }
  | .process ev => do
      guard (choice ∈ choices present.role ev)
      return { s with
        pc := match choice with
          | none => .receive
          | some transFunc => .stop .cas (some transFunc)
        obs := handing s.role ev ++ s.obs }
  | .stop .done (some transFunc) =>
      (s.push (.trans (some transFunc))).map ({ · with pc := .receive })
  | .stop .done none => return { s with pc := .dead true }
  | .stop pc transFunc => do
      let (s, next) ← s.stop s.role pc
      match next, transFunc with
      | some pc, _ => return { s with pc := .stop pc transFunc }
      | none, some _ => return { s with pc := .receive }
      | none, none => return { s with pc := .dead false }
  | .dead _ | .panicked => none

/-- One step of a goroutine beside the processor. -/
def thread (s : Loop) : Thread → Option (Loop × Thread)
  | .tryPutEv ev role .tryRLock =>
      match s.chLock.rLock with
      | some chLock => some ({ s with chLock }, .tryPutEv ev role .check)
      | none => some (s, .returned)
  | .tryPutEv ev role .check =>
      if s.isActive role then some (s, .tryPutEv ev role .push)
      else some (s, .tryPutEv ev role .rUnlock)
  | .tryPutEv ev role .push =>
      let pushed : Pushed := ⟨ev, role, s.obs.length⟩
      (s.push (.internal pushed)).map fun s =>
        ({ s with obs := .pushed pushed :: s.obs }, .tryPutEv ev role .rUnlock)
  | .call ev .tryRLock => s.chLock.rLock.map fun chLock => ({ s with chLock }, .call ev .push)
  | .call ev .push => (s.push ev).map fun s => (s, .call ev .rUnlock)
  | .tryPutEv _ _ .rUnlock | .call _ .rUnlock =>
      some ({ s with chLock := s.chLock.rUnlock }, .returned)
  | .transRole => some (s, .stop s.role .cas)
  | .stop _ .done =>
      (s.push (.trans (some .followerFromLeader))).map fun s => (s, .returned)
  | .stop role pc => do
      let (s, next) ← s.stop role pc
      return (s, (next.map (.stop role)).getD .returned)
  | .call _ .check | .tryPutEv _ _ .returned | .call _ .returned | .returned => none

end Loop

/-- One step of one goroutine: of the processor, of another one that is there, or the entry
of one into `tryPutEv`, `transRole`, a call that takes `RLock`, or one that does not. -/
inductive Label where
  | processor (choice : Option TransFunc)
  | thread (i : Nat)
  | tryPutEv (ev : Internal) (role : Nat)
  | transRole (role : Nat)
  | call (ev : Event)
  | put (ev : Event)
  deriving DecidableEq, Repr

/-- The events that are pushed under `RLock` by `RequestVote`, `AppendEntries`, `Start` and
`Snapshot`. -/
def Event.underLock : Event → Bool
  | .external .requestVote | .external .appendEntries | .external .startCommand | .snapshot => true
  | _ => false

/-- The events that are pushed without a look at the lock, by `GetState` and `Kill`. -/
def Event.lockFree : Event → Bool
  | .external .getState | .kill => true
  | _ => false

namespace Loop

/-- A role instance has goroutines or timers. -/
def hasStarted (s : Loop) (role : RoleEnum) (number : Nat) : Bool :=
  s.roles[number]?.any fun inst => inst.started && inst.role == role

def spawn (s : Loop) (thread : Thread) : Loop :=
  { s with threads := s.threads ++ [thread] }

/-- One step; a panic of the processor is the end of all goroutines. -/
def step (label : Label) (s : Loop) : Option Loop :=
  if s.pc = .panicked then none
  else
    match label with
    | .processor choice => s.processor choice
    | .thread i => do
        let (s, thread) ← s.thread (← s.threads[i]?)
        return { s with threads := s.threads.set i thread }
    | .tryPutEv ev role =>
        if s.hasStarted ev.role role then some (s.spawn (.tryPutEv ev role .tryRLock)) else none
    | .transRole role =>
        if s.hasStarted .leader role then some (s.spawn .transRole) else none
    | .call ev => if ev.underLock then some (s.spawn (.call ev .tryRLock)) else none
    | .put ev => if ev.lockFree then s.push ev else none

end Loop

/-! ## What a step can do -/

/-- The steps of `stop` of a role instance. -/
inductive Stops (s : Loop) (role : Nat) : StopPc → Loop → Option StopPc → Prop where
  | won (active : s.isActive role = true) :
      Stops s role .cas { s.setActive role false with obs := .stopped role :: s.obs } (some .lock)
  | lost (stopped : s.isActive role = false) : Stops s role .cas s none
  | announced {chLock : RWLock} (result : s.chLock.announce = some chLock) :
      Stops s role .lock { s with chLock } (some .wait)
  | acquired {chLock : RWLock} (result : s.chLock.acquire = some chLock) :
      Stops s role .wait { s with chLock } (some .done)

/-- The steps of the processor, the present role being `inst`. -/
inductive Processes (s : Loop) (inst : Instance) : Loop → Prop where
  | receivedTrans {transFunc : Option TransFunc} {rest : List Event} (stands : s.pc = .receive)
      (next : s.evCh = .trans transFunc :: rest) :
      Processes s inst { s with evCh := rest, pc := .trans transFunc }
  | receivedKill {rest : List Event} (stands : s.pc = .receive) (next : s.evCh = .kill :: rest) :
      Processes s inst { s with evCh := rest, pc := .stop .cas none }
  | received {ev : Event} {rest : List Event} (stands : s.pc = .receive)
      (next : s.evCh = ev :: rest)
      (other : ∀ transFunc, ev ≠ .trans transFunc) :
      Processes s inst { s with evCh := rest, pc := .received ev }
  | kept (stands : s.pc = .trans none) : Processes s inst { s with pc := .activate }
  | changed {transFunc : TransFunc} (stands : s.pc = .trans (some transFunc))
      (fits : source transFunc = inst.role) :
      Processes s inst { s with
        roles := s.roles ++ [⟨target transFunc, false, false⟩]
        role := s.roles.length
        pc := .activate }
  | panicked {transFunc : TransFunc} (stands : s.pc = .trans (some transFunc)) :
      Processes s inst { s with pc := .panicked }
  | activated {pc : Pc} (stands : s.pc = .activate) (stopped : s.isActive s.role = false)
      (onward : pc = .unlock ∨ pc = .startElection) :
      Processes s inst
        { s.setActive s.role true with pc, obs := .activated s.role :: s.obs }
  | wasActive (stands : s.pc = .activate) (active : s.isActive s.role = true) :
      Processes s inst { s with pc := .receive }
  | startedReplication (stands : s.pc = .activate) :
      Processes s inst { s.setStarted s.role with pc := .store }
  | stored (stands : s.pc = .store) :
      Processes s inst
        { s.setActive s.role true with pc := .unlock, obs := .activated s.role :: s.obs }
  | startedElection (stands : s.pc = .startElection) :
      Processes s inst { s.setStarted s.role with pc := .unlock }
  | unlocked {chLock : RWLock} {pc : Pc} (stands : s.pc = .unlock)
      (result : s.chLock.unlock = some chLock) (onward : pc = .tick ∨ pc = .receive) :
      Processes s inst { s with chLock, pc }
  | ticked (stands : s.pc = .tick) : Processes s inst { s.setStarted s.role with pc := .receive }
  | tookSnapshot (stands : s.pc = .received .snapshot) : Processes s inst { s with pc := .receive }
  | checked {ev : Event} (stands : s.pc = .received ev) (active : inst.active = true) :
      Processes s inst { s with pc := .process ev }
  | discarded {ev : Event} (stands : s.pc = .received ev) (stopped : inst.active = false) :
      Processes s inst { s with pc := .receive, obs := Loop.discarding ev ++ s.obs }
  | handed {ev : Event} {pc : Pc} (stands : s.pc = .process ev)
      (onward : pc = .receive ∨ ∃ transFunc, pc = .stop .cas (some transFunc)) :
      Processes s inst { s with pc, obs := Loop.handing s.role ev ++ s.obs }
  | pushed {transFunc : TransFunc} (stands : s.pc = .stop .done (some transFunc))
      (room : s.evCh.length < evCap) :
      Processes s inst
        { s with evCh := s.evCh ++ [.trans (some transFunc)], pc := .receive }
  | killed (stands : s.pc = .stop .done none) : Processes s inst { s with pc := .dead true }
  | stopped {pc pc' : StopPc} {transFunc : Option TransFunc} {s' : Loop}
      (stands : s.pc = .stop pc transFunc) (stops : Stops s s.role pc s' (some pc')) :
      Processes s inst { s' with pc := .stop pc' transFunc }
  | wasStopped {transFunc : Option TransFunc} {pc : Pc} (stands : s.pc = .stop .cas transFunc)
      (stopped : s.isActive s.role = false) (onward : pc = .receive ∨ pc = .dead false) :
      Processes s inst { s with pc }

/-- The steps of a goroutine beside the processor. -/
inductive Threads (s : Loop) : Thread → Loop → Thread → Prop where
  | rLocked {ev : Internal} {role : Nat} {chLock : RWLock}
      (result : s.chLock.rLock = some chLock) :
      Threads s (.tryPutEv ev role .tryRLock) { s with chLock } (.tryPutEv ev role .check)
  | refused {ev : Internal} {role : Nat} : Threads s (.tryPutEv ev role .tryRLock) s .returned
  | found {ev : Internal} {role : Nat} (active : s.isActive role = true) :
      Threads s (.tryPutEv ev role .check) s (.tryPutEv ev role .push)
  | closed {ev : Internal} {role : Nat} (stopped : s.isActive role = false) :
      Threads s (.tryPutEv ev role .check) s (.tryPutEv ev role .rUnlock)
  | put {ev : Internal} {role : Nat} (room : s.evCh.length < evCap) :
      Threads s (.tryPutEv ev role .push)
        { s with
          evCh := s.evCh ++ [.internal ⟨ev, role, s.obs.length⟩]
          obs := .pushed ⟨ev, role, s.obs.length⟩ :: s.obs }
        (.tryPutEv ev role .rUnlock)
  | rUnlocked {ev : Internal} {role : Nat} :
      Threads s (.tryPutEv ev role .rUnlock) { s with chLock := s.chLock.rUnlock } .returned
  | called {ev : Event} {chLock : RWLock} (result : s.chLock.rLock = some chLock) :
      Threads s (.call ev .tryRLock) { s with chLock } (.call ev .push)
  | pushed {ev : Event} (room : s.evCh.length < evCap) :
      Threads s (.call ev .push) { s with evCh := s.evCh ++ [ev] } (.call ev .rUnlock)
  | returned {ev : Event} :
      Threads s (.call ev .rUnlock) { s with chLock := s.chLock.rUnlock } .returned
  | readRole : Threads s .transRole s (.stop s.role .cas)
  | stopped {role : Nat} {pc pc' : StopPc} {s' : Loop} (stops : Stops s role pc s' (some pc')) :
      Threads s (.stop role pc) s' (.stop role pc')
  | wasStopped {role : Nat} (stopped : s.isActive role = false) :
      Threads s (.stop role .cas) s .returned
  | deposed {role : Nat} (room : s.evCh.length < evCap) :
      Threads s (.stop role .done)
        { s with evCh := s.evCh ++ [.trans (some .followerFromLeader)] } .returned

theorem Stops.threads_eq {s s' : Loop} {role : Nat} {pc : StopPc} {next : Option StopPc}
    (stops : Stops s role pc s' next) : s'.threads = s.threads := by
  cases stops <;> rfl

theorem Stops.pc_eq {s s' : Loop} {role : Nat} {pc : StopPc} {next : Option StopPc}
    (stops : Stops s role pc s' next) : s'.pc = s.pc := by
  cases stops <;> rfl

theorem Threads.threads_eq {s s' : Loop} {thread thread' : Thread}
    (threads : Threads s thread s' thread') : s'.threads = s.threads := by
  cases threads with
  | stopped stops => exact stops.threads_eq
  | _ => rfl

/-- The steps of the event loop. -/
inductive Moves (s : Loop) : Label → Loop → Prop where
  | processor {choice : Option TransFunc} {inst : Instance} {s' : Loop}
      (present : s.roles[s.role]? = some inst) (processes : Processes s inst s') :
      Moves s (.processor choice) s'
  | thread {i : Nat} {thread thread' : Thread} {s' : Loop} (found : s.threads[i]? = some thread)
      (threads : Threads s thread s' thread') :
      Moves s (.thread i) { s' with threads := s.threads.set i thread' }
  | spawned {label : Label} {thread : Thread}
      (entry : (∃ ev role, thread = .tryPutEv ev role .tryRLock) ∨ thread = .transRole ∨
        ∃ ev, ev.underLock = true ∧ thread = .call ev .tryRLock) :
      Moves s label (s.spawn thread)
  | put {label : Label} {ev : Event} (lockFree : ev.lockFree = true)
      (room : s.evCh.length < evCap) : Moves s label { s with evCh := s.evCh ++ [ev] }

namespace Loop

variable {s s' : Loop}

theorem push_eq_some {ev : Event} :
    s.push ev = some s' ↔ s.evCh.length < evCap ∧ s' = { s with evCh := s.evCh ++ [ev] } := by
  unfold push
  split
  case isTrue room => simp [room, eq_comm]
  case isFalse full => simp [full]

theorem stop_stops {role : Nat} {pc : StopPc} {next : Option StopPc}
    (result : s.stop role pc = some (s', next)) : Stops s role pc s' next := by
  cases pc with
  | cas =>
      simp only [stop] at result
      split at result
      case isTrue active =>
        cases result
        exact .won active
      case isFalse stopped =>
        cases result
        exact .lost (by simpa using stopped)
  | lock =>
      simp only [stop, Option.map_eq_some_iff] at result
      obtain ⟨chLock, announced, result⟩ := result
      cases result
      exact .announced announced
  | wait =>
      simp only [stop, Option.map_eq_some_iff] at result
      obtain ⟨chLock, acquired, result⟩ := result
      cases result
      exact .acquired acquired
  | done => cases result

theorem thread_threads {thread thread' : Thread} (result : s.thread thread = some (s', thread')) :
    Threads s thread s' thread' := by
  cases thread with
  | tryPutEv ev role pc =>
      cases pc with
      | tryRLock =>
          simp only [Loop.thread] at result
          split at result
          case h_1 chLock locked =>
            cases result
            exact .rLocked locked
          case h_2 =>
            cases result
            exact .refused
      | check =>
          simp only [Loop.thread] at result
          split at result
          case isTrue active =>
            cases result
            exact .found active
          case isFalse stopped =>
            cases result
            exact .closed (by simpa using stopped)
      | push =>
          simp only [Loop.thread, Option.map_eq_some_iff, push_eq_some] at result
          obtain ⟨_, ⟨room, rfl⟩, result⟩ := result
          cases result
          exact .put room
      | rUnlock =>
          cases result
          exact .rUnlocked
      | returned => cases result
  | call ev pc =>
      cases pc with
      | tryRLock =>
          simp only [Loop.thread, Option.map_eq_some_iff] at result
          obtain ⟨chLock, locked, result⟩ := result
          cases result
          exact .called locked
      | push =>
          simp only [Loop.thread, Option.map_eq_some_iff, push_eq_some] at result
          obtain ⟨_, ⟨room, rfl⟩, result⟩ := result
          cases result
          exact .pushed room
      | rUnlock =>
          cases result
          exact .returned
      | check | returned => cases result
  | transRole =>
      cases result
      exact .readRole
  | stop role pc =>
      by_cases isDone : pc = .done
      · subst isDone
        simp only [Loop.thread, Option.map_eq_some_iff, push_eq_some] at result
        obtain ⟨_, ⟨room, rfl⟩, result⟩ := result
        cases result
        exact .deposed room
      · have result : ((s.stop role pc).bind fun (s, next) =>
            some (s, (next.map (Thread.stop role)).getD .returned)) = some (s', thread') := by
          cases pc <;> first | exact result | exact (isDone rfl).elim
        simp only [Option.bind_eq_some_iff] at result
        obtain ⟨⟨stopped, next⟩, taken, result⟩ := result
        cases result
        have stops := stop_stops taken
        cases next with
        | some pc' => exact .stopped stops
        | none =>
            cases stops with
            | lost stopped => exact .wasStopped stopped
  | returned => cases result

variable {inst : Instance}

theorem receive_processes (stands : s.pc = .receive) (result : s.receive = some s') :
    Processes s inst s' := by
  unfold receive at result
  split at result
  case h_1 => cases result
  case h_2 next =>
    cases result
    exact .receivedTrans stands next
  case h_3 next =>
    cases result
    exact .receivedKill stands next
  case h_4 notTrans _ next =>
    cases result
    exact .received stands next notTrans

theorem activate_processes {role : RoleEnum} (stands : s.pc = .activate) :
    Processes s inst (s.activate role) := by
  unfold activate
  split
  case h_1 | h_2 =>
    split
    case isTrue active => exact .wasActive stands active
    case isFalse stopped => exact .activated stands (by simpa using stopped) (by simp)
  case h_3 => exact .startedReplication stands

theorem trans_processes {transFunc : Option TransFunc} (stands : s.pc = .trans transFunc) :
    Processes s inst (s.trans inst.role transFunc) := by
  unfold trans
  split
  case h_1 => exact .kept stands
  case h_2 =>
    split
    case isTrue fits => exact .changed stands fits
    case isFalse => exact .panicked stands

variable {choice : Option TransFunc}

theorem processor_processes (present : s.roles[s.role]? = some inst)
    (result : s.processor choice = some s') :
    Processes s inst s' := by
  unfold processor at result
  simp only [present, Option.bind_eq_bind, Option.bind_some] at result
  split at result
  case h_1 stands => exact receive_processes stands result
  case h_2 stands =>
    cases result
    exact trans_processes stands
  case h_3 stands =>
    cases result
    exact activate_processes stands
  case h_4 stands =>
    cases result
    exact .startedElection stands
  case h_5 stands =>
    cases result
    exact .stored stands
  case h_6 stands =>
    obtain ⟨chLock, unlocked, result⟩ := Option.bind_eq_some_iff.mp result
    cases result
    exact .unlocked stands unlocked (by split <;> simp)
  case h_7 stands =>
    cases result
    exact .ticked stands
  case h_8 stands =>
    cases result
    exact .tookSnapshot stands
  case h_9 stands =>
    split at result
    case isTrue active =>
      cases result
      exact .checked stands active
    case isFalse stopped =>
      cases result
      exact .discarded stands (by simpa using stopped)
  case h_10 stands =>
    obtain ⟨_, -, result⟩ := Option.bind_eq_some_iff.mp result
    cases result
    exact .handed stands (by split <;> simp)
  case h_11 stands =>
    simp only [Option.map_eq_some_iff, push_eq_some] at result
    obtain ⟨_, ⟨room, rfl⟩, rfl⟩ := result
    exact .pushed stands room
  case h_12 stands =>
    cases result
    exact .killed stands
  case h_13 transFunc _ _ stands =>
    obtain ⟨⟨stopped, next⟩, taken, result⟩ := Option.bind_eq_some_iff.mp result
    have stops := stop_stops taken
    cases next with
    | some pc' =>
        cases result
        exact .stopped stands stops
    | none =>
        cases stops with
        | lost stopped =>
            cases transFunc with
            | some transFunc =>
                cases result
                exact .wasStopped stands stopped (.inl rfl)
            | none =>
                cases result
                exact .wasStopped stands stopped (.inr rfl)
  case h_14 | h_15 => cases result

/-- What `process` asks for is one of the calls its code can make. -/
theorem processor_process {ev : Event} (present : s.roles[s.role]? = some inst)
    (stands : s.pc = .process ev) (result : s.processor choice = some s') :
    choice ∈ choices inst.role ev ∧
      s'.pc = choice.elim .receive fun transFunc => .stop .cas (some transFunc) := by
  simp only [processor, present, stands, Option.bind_eq_bind, Option.bind_some,
    Option.bind_eq_some_iff] at result
  obtain ⟨_, possible, result⟩ := result
  cases result
  refine ⟨(Option.guard_eq_some' _).mp possible, ?_⟩
  cases choice <;> rfl

theorem step_processor (taken : step (.processor choice) s = some s') :
    ∃ inst, s.roles[s.role]? = some inst ∧ s.processor choice = some s' := by
  unfold step at taken
  split at taken
  case isTrue => cases taken
  case isFalse =>
    cases present : s.roles[s.role]? with
    | none => simp [processor, present] at taken
    | some inst => exact ⟨inst, rfl, taken⟩

theorem step_thread {i : Nat} (taken : step (.thread i) s = some s') :
    ∃ thread moved thread', s.threads[i]? = some thread ∧
      s.thread thread = some (moved, thread') ∧
      s' = { moved with threads := s.threads.set i thread' } := by
  unfold step at taken
  split at taken
  case isTrue => cases taken
  case isFalse =>
    simp only [Option.bind_eq_bind, Option.bind_eq_some_iff] at taken
    obtain ⟨thread, found, ⟨moved, thread'⟩, result, taken⟩ := taken
    cases taken
    rw [(thread_threads result).threads_eq]
    exact ⟨thread, moved, thread', found, result, rfl⟩

theorem step_moves {label : Label} (result : step label s = some s') : Moves s label s' := by
  cases label with
  | processor choice =>
      obtain ⟨inst, present, result⟩ := step_processor result
      exact .processor present (processor_processes present result)
  | thread i =>
      obtain ⟨thread, moved, thread', found, taken, rfl⟩ := step_thread result
      exact .thread found (thread_threads taken)
  | tryPutEv ev role | transRole role =>
      simp only [step] at result
      split at result
      case isTrue => cases result
      case isFalse =>
        split at result <;> cases result
        exact .spawned (by simp)
  | call ev =>
      simp only [step] at result
      split at result
      case isTrue => cases result
      case isFalse =>
        split at result
        case isTrue underLock =>
          cases result
          exact .spawned (.inr (.inr ⟨ev, underLock, rfl⟩))
        case isFalse => cases result
  | put ev =>
      simp only [step] at result
      split at result
      case isTrue => cases result
      case isFalse =>
        split at result
        case isTrue lockFree =>
          obtain ⟨room, rfl⟩ := push_eq_some.mp result
          exact .put lockFree room
        case isFalse => cases result

end Loop

end GoLab.Raft.EventLoop
