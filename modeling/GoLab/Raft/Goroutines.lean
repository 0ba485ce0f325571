import GoLab.Raft.EventFlags

/-!
# The replicator goroutines of a leader

`Leader.activate` starts one goroutine for each peer, then sets `ld.active`, then
releases `chLock`.  The goroutines check `ld.active` over and over and return when they
find it unset; on `ENTRY_STALE` they return as well, after `tryPutEv` of a
`StaleLeaderEvent` or after `transRole`.

`Fleet` adds them to the event loop.  What they find in the logs and in the replies is left
out, so that a step may go on in every way the code can.
-/

namespace GoLab.Raft.EventLoop

/-- Where a replicator stands.

`search` to `finish` are in `matchIndex`: before the check of `ld.active` of the outer and
the inner loop, behind the latter, before the check of the round, in `appendEntries`,
before the check that follows it, in `transRole` as the goroutine of that number, and
before the last check.  `matched` and the others are in `start`: before the checks behind
`matchIndex`, at the head of the loop and of the round, in `appendEntries`, before the check
that follows it, and in `tryPutEv` with a `ReplConfirmEvent` or a `StaleLeaderEvent`. -/
inductive ReplPc where
  | search
  | probe
  | build
  | round
  | probing
  | probed (status : EntryStatus)
  | deposing (thread : Nat)
  | finish
  | matched
  | head
  | send
  | sending
  | answered (status : EntryStatus)
  | confirming (thread : Nat)
  | leaving (thread : Nat)
  | returned
  deriving DecidableEq, Repr

/-- The next step is a check of `ld.active`. -/
def ReplPc.checks : ReplPc → Bool
  | .search | .probe | .round | .probed _ | .finish | .matched | .head | .send | .answered _ => true
  | _ => false

/-- A replicator of the role instance `ld`; `rematch` when `matchIndex` is called from the
loop of `start`. -/
structure Goroutine where
  ld : Nat
  peerId : Nat
  rematch : Bool
  pc : ReplPc
  deriving DecidableEq, Repr

namespace Goroutine

/-- `matchIndex` returns. -/
def back (repl : Goroutine) : Goroutine :=
  { repl with pc := if repl.rematch then .head else .matched }

/-- A call of `tryPutEv` or `transRole` has returned. -/
def hasReturned (s : Loop) (thread : Nat) : Bool :=
  s.threads[thread]? == some .returned

/-- A step of a replicator that does not wait for a reply.  `more` tells whether the interval
of the search is not empty, the index is in the log still, or entries were confirmed. -/
def step (s : Loop) (more : Bool) (repl : Goroutine) : Option (Loop × Goroutine) :=
  let active := s.isActive repl.ld
  match repl.pc with
  | .search => some (s, { repl with pc := if active then .probe else .finish })
  | .probe => some (s, { repl with pc := if active && more then .build else .finish })
  | .build => some (s, { repl with pc := if more then .round else .search })
  | .round => some (s, { repl with pc := if active then .probing else .probe })
  | .probed status =>
      if active then
        match status with
        | .entryMatch | .entryUnmatch => some (s, { repl with pc := .probe })
        | .entryStale =>
            (Loop.step (.transRole repl.ld) s).map
              (·, { repl with pc := .deposing s.threads.length })
        | .entryHold | .entryDefault => some (s, { repl with pc := .round })
      else
        some (s, repl.back)
  | .deposing thread => if hasReturned s thread then some (s, repl.back) else none
  | .finish => some (s, repl.back)
  | .matched => some (s, { repl with pc := if active then .head else .returned })
  | .head => some (s, { repl with pc := if active then .send else .returned })
  | .send => some (s, { repl with pc := if active then .sending else .head })
  | .answered status =>
      if active then
        match status with
        | .entryDefault | .entryHold => some (s, { repl with pc := .send })
        | .entryStale =>
            (Loop.step (.tryPutEv .staleLeader repl.ld) s).map
              (·, { repl with pc := .leaving s.threads.length })
        | .entryUnmatch => some (s, { repl with rematch := true, pc := .search })
        | .entryMatch =>
            if more then
              (Loop.step (.tryPutEv .replConfirm repl.ld) s).map
                (·, { repl with pc := .confirming s.threads.length })
            else
              some (s, { repl with pc := .head })
      else
        some (s, { repl with pc := .returned })
  | .confirming thread => if hasReturned s thread then some (s, { repl with pc := .head }) else none
  | .leaving thread =>
      if hasReturned s thread then some (s, { repl with pc := .returned }) else none
  | .probing | .sending | .returned => none

/-- `appendEntries` returns a reply. -/
def receive (status : EntryStatus) (repl : Goroutine) : Option Goroutine :=
  match repl.pc with
  | .probing => some { repl with pc := .probed status }
  | .sending => some { repl with pc := .answered status }
  | _ => none

end Goroutine

/-- The event loop and the replicators of all leaders there have been; `unstarted` are the
peers `startReplication` has not come to yet. -/
structure Fleet where
  loop : Loop
  unstarted : List Nat
  repls : List Goroutine
  deriving DecidableEq, Repr

/-- A step of the event loop, the start of a replicator, a step of a replicator, or a reply
it gets. -/
inductive Move where
  | loop (label : Label)
  | go
  | repl (number : Nat) (more : Bool)
  | reply (number : Nat) (status : EntryStatus)
  deriving DecidableEq, Repr

/-- The entries into `tryPutEv` and `transRole` that are steps of replicators. -/
def Label.ofReplicator : Label → Bool
  | .tryPutEv .replConfirm _ | .tryPutEv .staleLeader _ | .transRole _ => true
  | _ => false

namespace Fleet

def init : Fleet := ⟨.init, [], []⟩

/-- The peers a leader replicates to. -/
def others (peers me : Nat) : List Nat :=
  (List.range peers).filter (· ≠ me)

/-- One step.  The processor goes on to `ld.active.Store(true)` when all replicators have been
started. -/
def step (peers me : Nat) (move : Move) (s : Fleet) : Option Fleet :=
  match move with
  | .loop label => do
      guard (label.ofReplicator = false ∧ (label.isProcessor = true → s.unstarted = []))
      let loop ← Loop.step label s.loop
      let starts := s.loop.pc = .activate ∧ loop.pc = .store
      return { s with loop, unstarted := if starts then others peers me else s.unstarted }
  | .go =>
      match s.unstarted with
      | [] => none
      | peer :: rest =>
          some { s with
            unstarted := rest
            repls := s.repls ++ [⟨s.loop.role, peer, false, .search⟩] }
  | .repl number more => do
      guard (s.loop.pc ≠ .panicked)
      let (loop, repl) ← (← s.repls[number]?).step s.loop more
      return { s with loop, repls := s.repls.set number repl }
  | .reply number status => do
      guard (s.loop.pc ≠ .panicked)
      let repl ← (← s.repls[number]?).receive status
      return { s with repls := s.repls.set number repl }

/-- A replicator checks `ld.active` before `activate` has set it, or tries `chLock` for a
`StaleLeaderEvent` before `activate` has released it. -/
def early (s : Fleet) : Move → Bool
  | .repl number _ =>
      s.repls[number]?.any fun repl =>
        repl.pc.checks && s.loop.pc == .store && repl.ld == s.loop.role
  | .loop (.thread i) =>
      match s.loop.threads[i]? with
      | some (.tryPutEv .staleLeader ld .tryRLock) => s.loop.pc == .unlock && ld == s.loop.role
      | _ => false
  | _ => false

end Fleet

/-! ## Replicators -/

/-- The event is neither in the channel nor given up. -/
def PutPc.trying : PutPc → Bool
  | .tryRLock | .check | .push => true
  | _ => false

/-- A replicator that has returned, or is about to, belongs to a leader that was stopped or is
on its way out. -/
structure Goroutine.Ok (s : Loop) (repl : Goroutine) : Prop where
  leader : s.roleOf repl.ld = some .leader
  entered : .activated repl.ld ∈ s.obs ∨ s.pc = .store ∧ repl.ld = s.role ∧ repl.pc = .search
  leaving : ∀ i, repl.pc = .leaving i → s.Resolved repl.ld ∨
    ∃ pc, pc.trying = true ∧ s.threads[i]? = some (.tryPutEv .staleLeader repl.ld pc)
  returned : repl.pc = .returned → s.Resolved repl.ld

section

variable {s s' : Loop} {repl repl' : Goroutine}

/-- A step of the goroutine that is inside `tryPutEv` with a `StaleLeaderEvent`. -/
theorem Loop.step_trying {i ld : Nat} {pc : PutPc} (taken : Loop.step (.thread i) s = some s')
    (found : s.threads[i]? = some (.tryPutEv .staleLeader ld pc)) (trying : pc.trying = true)
    (tokens : Tokens s) (flagged : Flagged s) (isLeader : s.roleOf ld = some .leader)
    (activated : .activated ld ∈ s.obs)
    (released : pc = .tryRLock → ¬(s.pc = .unlock ∧ ld = s.role)) :
    s'.Resolved ld ∨
      ∃ pc, pc.trying = true ∧ s'.threads[i]? = some (.tryPutEv .staleLeader ld pc) := by
  have inside : i < s.threads.length := (List.getElem?_eq_some_iff.mp found).1
  obtain ⟨thread, moved, thread', isThread, result, rfl⟩ := Loop.step_thread taken
  cases found.symm.trans isThread
  have stopped (inactive : s.isActive ld = false) : .stopped ld ∈ s.obs :=
    flagged.ended ld activated inactive
  cases pc with
  | tryRLock =>
      simp only [Loop.thread] at result
      split at result
      case h_1 =>
        cases result
        exact .inr ⟨.check, rfl, by simp [inside]⟩
      case h_2 refused =>
        cases result
        have notFree : s.chLock.writer ≠ .free := fun free => by
          simp [RWLock.rLock, free] at refused
        have inactive := (tokens.refused flagged isLeader notFree).resolve_right (released rfl)
        exact .inl (.inl (stopped inactive))
  | check =>
      simp only [Loop.thread] at result
      split at result
      case isTrue =>
        cases result
        exact .inr ⟨.push, rfl, by simp [inside]⟩
      case isFalse inactive =>
        cases result
        exact .inl (.inl (stopped (by simpa using inactive)))
  | push =>
      simp only [Loop.thread, Option.map_eq_some_iff, Loop.push_eq_some] at result
      obtain ⟨_, ⟨room, rfl⟩, result⟩ := result
      cases result
      have queued : .internal ⟨.staleLeader, ld, s.obs.length⟩ ∈
          s.evCh ++ [.internal ⟨.staleLeader, ld, s.obs.length⟩] :=
        List.mem_append_right _ (List.mem_singleton.mpr rfl)
      exact .inl (.inr (.stale rfl rfl (.inl queued)))
  | rUnlock | returned => cases trying

/-- A step of another goroutine leaves a goroutine where it is. -/
theorem Loop.step_threads {label : Label} {i : Nat} {thread : Thread}
    (taken : Loop.step label s = some s') (other : label ≠ .thread i)
    (found : s.threads[i]? = some thread) : s'.threads[i]? = some thread := by
  cases Loop.step_moves taken with
  | processor _ processes =>
      cases processes with
      | stopped _ stops => exact stops.threads_eq ▸ found
      | _ => exact found
  | @thread j _ _ _ _ threads =>
      have differs : j ≠ i := fun same => other (congrArg Label.thread same)
      rwa [List.getElem?_set_ne differs]
  | spawned =>
      rw [Loop.spawn, List.getElem?_append_left (List.getElem?_eq_some_iff.mp found).1]
      exact found
  | put => exact found

/-- The loop goes on beside a replicator. -/
theorem Goroutine.Ok.beside {label : Label} (ok : repl.Ok s) (tokens : Tokens s) (owned : Owned s)
    (flagged : Flagged s) (taken : Loop.step label s = some s')
    (released : ∀ i, label = .thread i →
      s.threads[i]? = some (.tryPutEv .staleLeader repl.ld .tryRLock) →
      ¬(s.pc = .unlock ∧ repl.ld = s.role)) : repl.Ok s' := by
  have moves := Loop.step_moves taken
  have activated (elsewhere : repl.pc ≠ .search) : .activated repl.ld ∈ s.obs :=
    ok.entered.resolve_right fun early => elsewhere early.2.2
  refine ⟨?_, ?_, fun i leaves => ?_, fun isReturned => ?_⟩
  · exact (moves.roleOf_eq (Loop.lt_of_roleOf ok.leader)).trans ok.leader
  · rcases ok.entered with earlier | ⟨stands, isPresent, search⟩
    · exact .inl (moves.obs_suffix.subset earlier)
    · cases beside : label.isProcessor with
      | false =>
          obtain ⟨pc, role, -⟩ := Loop.step_beside beside taken
          exact .inr ⟨pc.trans stands, isPresent.trans role.symm, search⟩
      | true =>
          cases label with
          | processor choice =>
              obtain ⟨inst, present, result⟩ := Loop.step_processor taken
              simp only [Loop.processor, present, stands, Option.bind_eq_bind, Option.bind_some]
                at result
              cases result
              exact .inl (isPresent ▸ List.mem_cons_self)
          | _ => cases beside
  · have activated := activated (by simp [leaves])
    rcases ok.leaving i leaves with resolved | ⟨pc, trying, found⟩
    · exact .inl (resolved.step tokens owned flagged ok.leader activated taken)
    · by_cases own : label = .thread i
      · subst own
        refine Loop.step_trying taken found trying tokens flagged ok.leader activated ?_
        rintro rfl
        exact released i rfl found
      · exact .inr ⟨pc, trying, Loop.step_threads taken own found⟩
  · have activated := activated (by simp [isReturned])
    exact (ok.returned isReturned).step tokens owned flagged ok.leader activated taken

/-- The steps of a replicator: it goes on, finds that the leader is not active and returns,
enters `transRole` or `tryPutEv`, and returns from `tryPutEv` with a `StaleLeaderEvent`. -/
inductive Goroutine.Goes (s : Loop) (repl : Goroutine) : Loop → Goroutine → Prop where
  | onward {pc : ReplPc} {rematch : Bool} (stays : pc ≠ .returned)
      (keeps : ∀ i, pc ≠ .leaving i) : Goes s repl s { repl with rematch, pc }
  | closed (inactive : s.isActive repl.ld = false) : Goes s repl s { repl with pc := .returned }
  | enters {label : Label} {s' : Loop} {pc : ReplPc} (entry : label.ofReplicator = true)
      (taken : Loop.step label s = some s') (stays : pc ≠ .returned)
      (leaving : ∀ i, pc = .leaving i →
        s'.threads[i]? = some (.tryPutEv .staleLeader repl.ld .tryRLock)) :
      Goes s repl s' { repl with pc }
  | left {i : Nat} (stands : repl.pc = .leaving i) (returned : s.threads[i]? = some .returned) :
      Goes s repl s { repl with pc := .returned }

theorem Loop.step_tryPutEv {ev : Internal} {role : Nat}
    (taken : Loop.step (.tryPutEv ev role) s = some s') :
    s'.threads[s.threads.length]? = some (.tryPutEv ev role .tryRLock) := by
  simp only [Loop.step] at taken
  split at taken
  case isTrue => cases taken
  case isFalse =>
    split at taken <;> cases taken
    simp [Loop.spawn]

theorem Goroutine.back_goes : Goes s repl s repl.back := by
  refine .onward ?_ ?_ <;> split <;> simp

theorem Goroutine.step_goes {more : Bool} (result : repl.step s more = some (s', repl')) :
    Goes s repl s' repl' := by
  have go (active : Bool) {pc pc' : ReplPc} (stays : pc ≠ .returned ∧ pc' ≠ .returned)
      (keeps : ∀ i, pc ≠ .leaving i ∧ pc' ≠ .leaving i) :
      Goes s repl s { repl with pc := if active then pc else pc' } := by
    cases active with
    | true => exact .onward stays.1 fun i => (keeps i).1
    | false => exact .onward stays.2 fun i => (keeps i).2
  have check {pc : ReplPc} (stays : pc ≠ .returned) (keeps : ∀ i, pc ≠ .leaving i) :
      Goes s repl s { repl with pc := if s.isActive repl.ld then pc else .returned } := by
    cases active : s.isActive repl.ld with
    | true => exact .onward stays keeps
    | false => exact .closed active
  unfold Goroutine.step at result
  dsimp only at result
  split at result
  case h_1 | h_2 | h_3 | h_4 | h_10 =>
    cases result
    exact go _ (by simp) (by simp)
  case h_5 status _ =>
    split at result
    case isTrue =>
      split at result
      case h_1 | h_2 | h_4 | h_5 =>
        cases result
        exact .onward nofun nofun
      case h_3 =>
        obtain ⟨_, taken, same⟩ := Option.map_eq_some_iff.mp result
        cases same
        exact .enters rfl taken nofun nofun
    case isFalse =>
      cases result
      exact back_goes
  case h_6 =>
    split at result <;> cases result
    exact back_goes
  case h_7 =>
    cases result
    exact back_goes
  case h_8 | h_9 =>
    cases result
    exact check nofun nofun
  case h_11 =>
    split at result
    case isTrue =>
      split at result
      case h_1 | h_2 | h_4 =>
        cases result
        exact .onward nofun nofun
      case h_3 =>
        obtain ⟨_, taken, same⟩ := Option.map_eq_some_iff.mp result
        cases same
        refine .enters rfl taken nofun ?_
        rintro _ ⟨⟩
        exact Loop.step_tryPutEv taken
      case h_5 =>
        split at result
        case isTrue =>
          obtain ⟨_, taken, same⟩ := Option.map_eq_some_iff.mp result
          cases same
          exact .enters rfl taken nofun nofun
        case isFalse =>
          cases result
          exact .onward nofun nofun
    case isFalse inactive =>
      cases result
      exact .closed (by simpa using inactive)
  case h_12 =>
    split at result <;> cases result
    exact .onward nofun nofun
  case h_13 stands =>
    split at result
    case isTrue returned =>
      cases result
      exact .left stands (by simpa [hasReturned] using returned)
    case isFalse => cases result
  case h_14 | h_15 | h_16 => cases result

/-- A replicator goes on, its leader having been activated. -/
theorem Goroutine.Ok.goes (ok : repl.Ok s) (tokens : Tokens s) (owned : Owned s)
    (flagged : Flagged s) (activated : .activated repl.ld ∈ s.obs) (goes : Goes s repl s' repl') :
    repl'.Ok s' := by
  cases goes with
  | onward stays keeps =>
      exact ⟨ok.leader, .inl activated, fun i leaves => (keeps i leaves).elim,
        fun isReturned => (stays isReturned).elim⟩
  | closed inactive =>
      exact ⟨ok.leader, .inl activated, nofun, fun _ => .inl (flagged.ended _ activated inactive)⟩
  | @enters label _ _ entry taken stays leaving =>
      have notThread : ∀ i, label = .thread i → False := by
        rintro i rfl
        cases entry
      have after := ok.beside tokens owned flagged taken fun i own => (notThread i own).elim
      exact ⟨after.leader, .inl ((Loop.step_moves taken).obs_suffix.subset activated),
        fun i leaves => .inr ⟨.tryRLock, rfl, leaving i leaves⟩,
        fun isReturned => (stays isReturned).elim⟩
  | left stands returned =>
      refine ⟨ok.leader, .inl activated, nofun, fun _ => ?_⟩
      refine (ok.leaving _ stands).resolve_right ?_
      rintro ⟨pc, -, found⟩
      cases returned.symm.trans found

end

/-! ## Every run -/

/-- The replicators of a leader are there, and stay until the leader is on its way out. -/
structure Fleet.Manned (peers me : Nat) (s : Fleet) : Prop where
  flagged : Flagged s.loop
  repls : ∀ repl ∈ s.repls, repl.Ok s.loop
  storing : s.unstarted ≠ [] → s.loop.pc = .store
  starting : s.loop.pc = .store → ∀ peer ∈ others peers me,
    peer ∈ s.unstarted ∨ ∃ repl ∈ s.repls, repl.ld = s.loop.role ∧ repl.peerId = peer
  started : ∀ ld, s.loop.roleOf ld = some .leader → .activated ld ∈ s.loop.obs →
    ∀ peer ∈ others peers me, ∃ repl ∈ s.repls, repl.ld = ld ∧ repl.peerId = peer

/-- The steps of a fleet. -/
inductive Fleet.Sails (peers me : Nat) (s : Fleet) : Move → Fleet → Prop where
  | loop {label : Label} {loop : Loop} (ready : label.isProcessor = true → s.unstarted = [])
      (taken : Loop.step label s.loop = some loop) :
      Sails peers me s (.loop label) { s with
        loop
        unstarted := if s.loop.pc = .activate ∧ loop.pc = .store then others peers me
          else s.unstarted }
  | go {peer : Nat} {rest : List Nat} (next : s.unstarted = peer :: rest) :
      Sails peers me s .go { s with
        unstarted := rest
        repls := s.repls ++ [⟨s.loop.role, peer, false, .search⟩] }
  | repl {move : Move} {number : Nat} {repl repl' : Goroutine} {loop : Loop}
      (found : s.repls[number]? = some repl)
      (own : repl.pc = .search → ∃ more, move = .repl number more)
      (goes : Goroutine.Goes s.loop repl loop repl') :
      Sails peers me s move { s with loop, repls := s.repls.set number repl' }

section

variable {peers me : Nat} {s s' : Fleet} {allowed : Fleet → Move → Prop} {moves : List Move}

theorem Fleet.step_sails {move : Move} (taken : Fleet.step peers me move s = some s') :
    Sails peers me s move s' := by
  cases move with
  | loop label =>
      simp only [Fleet.step, Option.bind_eq_bind, Option.bind_eq_some_iff] at taken
      obtain ⟨_, ready, loop, taken, result⟩ := taken
      cases result
      exact .loop ((Option.guard_eq_some' _).mp ready).2 taken
  | go =>
      simp only [Fleet.step] at taken
      split at taken
      case h_1 => cases taken
      case h_2 next =>
        cases taken
        exact .go next
  | repl number more =>
      simp only [Fleet.step, Option.bind_eq_bind, Option.bind_eq_some_iff] at taken
      obtain ⟨_, -, repl, found, ⟨loop, repl'⟩, stepped, result⟩ := taken
      cases result
      exact .repl found (fun _ => ⟨more, rfl⟩) (Goroutine.step_goes stepped)
  | reply number status =>
      simp only [Fleet.step, Option.bind_eq_bind, Option.bind_eq_some_iff] at taken
      obtain ⟨_, -, repl, found, repl', received, result⟩ := taken
      cases result
      unfold Goroutine.receive at received
      split at received <;> cases received
      case h_1 stands =>
        exact .repl found (fun search => absurd (stands.symm.trans search) nofun)
          (.onward nofun nofun)
      case h_2 stands =>
        exact .repl found (fun search => absurd (stands.symm.trans search) nofun)
          (.onward nofun nofun)

/-- A replicator leaves the loop alone, or enters it beside the processor. -/
theorem Goroutine.Goes.loop_eq {loop loop' : Loop} {repl repl' : Goroutine}
    (goes : Goes loop repl loop' repl') : loop' = loop ∨
      ∃ label, label.ofReplicator = true ∧ Loop.step label loop = some loop' := by
  cases goes with
  | enters entry taken => exact .inr ⟨_, entry, taken⟩
  | onward | closed | left => exact .inl rfl

theorem Label.beside_of_replicator {label : Label} (entry : label.ofReplicator = true) :
    label.isProcessor = false ∧ ∀ i, label ≠ .thread i := by
  cases label with
  | processor | thread => cases entry
  | _ => exact ⟨rfl, nofun⟩

/-- The loop of a fleet makes steps of the event loop. -/
theorem Fleet.loop_run (run : Run (Fleet.step peers me) allowed .init moves s) :
    ∃ labels, Run Loop.step (fun _ _ => True) .init labels s.loop := by
  induction run with
  | start => exact ⟨[], .start⟩
  | next _ _ taken ih =>
      obtain ⟨labels, run⟩ := ih
      cases Fleet.step_sails taken with
      | loop _ moved => exact ⟨_, run.next trivial moved⟩
      | go => exact ⟨_, run⟩
      | repl _ _ goes =>
          rcases goes.loop_eq with rfl | ⟨label, -, moved⟩
          · exact ⟨_, run⟩
          · exact ⟨_, run.next trivial moved⟩

namespace Fleet.Manned

/-- Leaders that were activated before keep their replicators. -/
theorem started_earlier (manned : Manned peers me s) (tokens : Tokens s.loop)
    (orderly : Orderly s.loop) {label : Label} {loop : Loop}
    (taken : Loop.step label s.loop = some loop) {ld : Nat}
    (isLeader : loop.roleOf ld = some .leader) (activated : .activated ld ∈ s.loop.obs) :
    ∀ peer ∈ others peers me, ∃ repl ∈ s.repls, repl.ld = ld ∧ repl.peerId = peer := by
  have atMost := orderly.activated ld activated
  have present := tokens.present
  refine manned.started ld ?_ activated
  rw [← isLeader, (Loop.step_moves taken).roleOf_eq (by omega)]

/-- The event loop goes on. -/
theorem loop (manned : Manned peers me s) (tokens : Tokens s.loop) (owned : Owned s.loop)
    (orderly : Orderly s.loop) {label : Label} {loop : Loop}
    (onTime : s.early (.loop label) = false)
    (ready : label.isProcessor = true → s.unstarted = [])
    (taken : Loop.step label s.loop = some loop) :
    Manned peers me { s with
      loop
      unstarted := if s.loop.pc = .activate ∧ loop.pc = .store then others peers me
        else s.unstarted } := by
  have present := tokens.present
  have released (ld i : Nat) (isThread : label = .thread i)
      (found : s.loop.threads[i]? = some (.tryPutEv .staleLeader ld .tryRLock)) :
      ¬(s.loop.pc = .unlock ∧ ld = s.loop.role) := by
    rintro ⟨stands, isPresent⟩
    subst isThread
    simp [early, found, stands, isPresent] at onTime
  refine ⟨manned.flagged.step tokens taken, ?_, ?_, ?_, ?_⟩
  · intro repl inside
    exact (manned.repls repl inside).beside tokens owned manned.flagged taken (released repl.ld)
  · intro some
    dsimp only at some ⊢
    split at some
    case isTrue starts => exact starts.2
    case isFalse =>
      cases beside : label.isProcessor with
      | true => exact (some (ready beside)).elim
      | false => exact (Loop.step_beside beside taken).1.trans (manned.storing some)
  · intro stands peer other
    dsimp only at stands ⊢
    cases beside : label.isProcessor with
    | true =>
        cases label with
        | processor choice =>
            obtain ⟨inst, found, result⟩ := Loop.step_processor taken
            have before := (Loop.processor_processes found result).activate_of_store stands
            exact .inl (by rwa [if_pos ⟨before, stands⟩])
        | _ => cases beside
    | false =>
        obtain ⟨pc, role, -⟩ := Loop.step_beside beside taken
        have before := pc.symm.trans stands
        rw [if_neg (by simp [before]), role]
        exact manned.starting before peer other
  · intro ld isLeader activated
    rcases Loop.activates taken activated with earlier | ⟨isProcessor, isPresent, way⟩
    · exact manned.started_earlier tokens orderly taken isLeader earlier
    · intro peer other
      rcases way with stands | notLeader
      · have starting := manned.starting stands peer other
        rw [ready isProcessor] at starting
        rw [isPresent]
        exact starting.resolve_left nofun
      · refine (notLeader ?_).elim
        rw [Loop.present, ← isPresent, ← isLeader]
        exact ((Loop.step_moves taken).roleOf_eq (by omega)).symm

/-- `startReplication` starts a goroutine. -/
theorem go (manned : Manned peers me s) {peer : Nat} {rest : List Nat}
    (next : s.unstarted = peer :: rest) :
    Manned peers me { s with
      unstarted := rest
      repls := s.repls ++ [⟨s.loop.role, peer, false, .search⟩] } := by
  have stands := manned.storing (by simp [next])
  refine ⟨manned.flagged, fun repl inside => ?_, fun _ => stands, fun _ other among => ?_, ?_⟩
  · rcases List.mem_append.mp inside with earlier | new
    · exact manned.repls repl earlier
    · cases List.mem_singleton.mp new
      exact ⟨manned.flagged.storing stands, .inr ⟨stands, rfl, rfl⟩, nofun, nofun⟩
  · rcases manned.starting stands other among with waiting | ⟨repl, inside, same⟩
    · rw [next] at waiting
      rcases List.mem_cons.mp waiting with rfl | later
      · exact .inr ⟨_, List.mem_append_right _ (List.mem_singleton.mpr rfl), rfl, rfl⟩
      · exact .inl later
    · exact .inr ⟨repl, List.mem_append_left _ inside, same⟩
  · intro ld isLeader activated other among
    obtain ⟨repl, inside, same⟩ := manned.started ld isLeader activated other among
    exact ⟨repl, List.mem_append_left _ inside, same⟩

/-- A replicator goes on; the others find the loop as it was or with one goroutine more. -/
theorem repl (manned : Manned peers me s) (tokens : Tokens s.loop) (owned : Owned s.loop)
    (orderly : Orderly s.loop) {number : Nat} {repl repl' : Goroutine} {loop : Loop}
    (found : s.repls[number]? = some repl) (activated : .activated repl.ld ∈ s.loop.obs)
    (goes : Goroutine.Goes s.loop repl loop repl') :
    Manned peers me { s with loop, repls := s.repls.set number repl' } := by
  have inside := List.mem_of_getElem? found
  have ok := (manned.repls repl inside).goes tokens owned manned.flagged activated goes
  have kept {ld peer : Nat} (there : ∃ repl ∈ s.repls, repl.ld = ld ∧ repl.peerId = peer) :
      ∃ repl ∈ s.repls.set number repl', repl.ld = ld ∧ repl.peerId = peer := by
    obtain ⟨other, isThere, same⟩ := there
    obtain ⟨k, at_⟩ := List.mem_iff_getElem?.mp isThere
    by_cases own : number = k
    · subst own
      cases found.symm.trans at_
      refine ⟨repl', List.mem_set (List.getElem?_eq_some_iff.mp found).1 repl', ?_⟩
      cases goes <;> exact same
    · exact ⟨other, List.mem_of_getElem? ((List.getElem?_set_ne own).trans at_), same⟩
  rcases goes.loop_eq with rfl | ⟨label, entry, taken⟩
  · refine ⟨manned.flagged, fun other among => ?_, manned.storing, fun stands peer other => ?_,
      fun ld isLeader before peer other => kept (manned.started ld isLeader before peer other)⟩
    · rcases List.mem_or_eq_of_mem_set among with earlier | rfl
      · exact manned.repls other earlier
      · exact ok
    · exact (manned.starting stands peer other).imp_right kept
  · obtain ⟨beside, notThread⟩ := Label.beside_of_replicator entry
    obtain ⟨pc, role, -⟩ := Loop.step_beside beside taken
    refine ⟨manned.flagged.step tokens taken, fun other among => ?_,
      fun some => pc.trans (manned.storing some), fun stands peer other => ?_,
      fun ld isLeader before peer other => kept ?_⟩
    · rcases List.mem_or_eq_of_mem_set among with earlier | rfl
      · exact (manned.repls other earlier).beside tokens owned manned.flagged taken
          fun i own => (notThread i own).elim
      · exact ok
    · rw [role]
      exact (manned.starting (pc.symm.trans stands) peer other).imp_right kept
    · rcases Loop.activates taken before with earlier | ⟨isProcessor, -⟩
      · exact manned.started_earlier tokens orderly taken isLeader earlier peer other
      · exact absurd (beside.symm.trans isProcessor) nofun

theorem step {move : Move} (manned : Manned peers me s) (tokens : Tokens s.loop)
    (owned : Owned s.loop) (orderly : Orderly s.loop) (onTime : s.early move = false)
    (taken : Fleet.step peers me move s = some s') : Manned peers me s' := by
  cases Fleet.step_sails taken with
  | loop ready moved => exact manned.loop tokens owned orderly onTime ready moved
  | go next => exact manned.go next
  | repl found own goes =>
      have ok := manned.repls _ (List.mem_of_getElem? found)
      refine manned.repl tokens owned orderly found (ok.entered.resolve_right ?_) goes
      rintro ⟨stands, isPresent, search⟩
      obtain ⟨more, rfl⟩ := own search
      simp [early, found, search, ReplPc.checks, stands, isPresent] at onTime

theorem init : Manned peers me .init where
  flagged := flagged_init
  repls := nofun
  storing := fun some => (some rfl).elim
  starting := nofun
  started := nofun

end Fleet.Manned

/-- If no replicator checks `ld.active` before `activate` has set it, nor tries `chLock` for a
`StaleLeaderEvent` before `activate` has released it, then an active leader that is not on its
way out has a replicator for every peer, and none of its replicators has returned. -/
theorem active_leader_replicates
    (run : Run (Fleet.step peers me) (fun s move => s.early move = false) .init moves s) {ld : Nat}
    (isLeader : s.loop.roleOf ld = some .leader) (active : s.loop.isActive ld = true)
    (stays : ¬s.loop.Leaving ld) :
    (∀ repl ∈ s.repls, repl.ld = ld → repl.pc ≠ .returned) ∧
      ∀ peer < peers, peer ≠ me → ∃ repl ∈ s.repls, repl.ld = ld ∧ repl.peerId = peer := by
  have manned : s.Manned peers me := by
    refine run.invariant (fun _ s => s.Manned peers me) Fleet.Manned.init ?_
    intro _ s move s' before manned onTime taken
    obtain ⟨_, loopRun⟩ := Fleet.loop_run before
    obtain ⟨tokens, owned, orderly⟩ := Loop.invariant loopRun
    exact manned.step tokens owned orderly onTime taken
  obtain ⟨_, loopRun⟩ := Fleet.loop_run run
  obtain ⟨tokens, -, orderly⟩ := Loop.invariant loopRun
  refine ⟨fun repl inside own isReturned => ?_, fun peer below notMe => ?_⟩
  · subst own
    rcases (manned.repls repl inside).returned isReturned with stopped | leaving
    · have isPresent := tokens.eq_of_active active
      rcases orderly.stopped _ stopped with less | ⟨-, isOver⟩
      · omega
      · rw [isPresent, isOver.inactive] at active
        cases active
    · exact stays leaving
  · refine manned.started ld isLeader (manned.flagged.noted ld active) peer ?_
    simp [Fleet.others, below, notMe]

end

/-- With nothing in the channel and nothing in hand no leader is on its way out. -/
theorem Loop.not_leaving {s : Loop} {ld : Nat} (empty : s.evCh = []) (idle : s.pc = .receive) :
    ¬s.Leaving ld := by
  intro leaving
  cases leaving with
  | stale _ _ pending => simp [Loop.Pending, empty, idle] at pending
  | transition _ stands => exact absurd (idle.symm.trans stands) (by simp)

/-- A server of three becomes the leader and starts its replicators. -/
def startsReplication : List Move :=
  (becomesLeader.take 37).map .loop ++ [.go, .go]

/-- `ld.active` is set and `chLock` released. -/
def storesActive : List Move :=
  (processorSteps [none, none]).map .loop

/-- The replicators come to run after `activate`, and one of them sends a probe. -/
def replicatorsRun : List Move :=
  startsReplication ++ storesActive ++
  [.repl 0 true, .repl 0 true, .repl 0 true, .repl 0 true, .repl 1 true, .reply 0 .entryUnmatch]

theorem active_leader_replicates_replicatorsRun : ∃ s : Fleet,
    Run (Fleet.step 3 0) (fun s move => s.early move = false) .init replicatorsRun s ∧
      s.loop.isActive 2 = true ∧
      (∀ repl ∈ s.repls, repl.ld = 2 → repl.pc ≠ .returned) ∧
      ∀ peer < 3, peer ≠ 0 → ∃ repl ∈ s.repls, repl.ld = 2 ∧ repl.peerId = peer := by
  obtain ⟨s, run, isLeader, active, empty, idle⟩ : ∃ s : Fleet,
      Run (Fleet.step 3 0) (fun s move => s.early move = false) .init replicatorsRun s ∧
        s.loop.roleOf 2 = some .leader ∧ s.loop.isActive 2 = true ∧ s.loop.evCh = [] ∧
        s.loop.pc = .receive :=
    Run.exists_of_runSteps (by decide +kernel)
  exact ⟨s, run, active, active_leader_replicates run isLeader active (Loop.not_leaving empty idle)⟩

/-- A replicator comes to run before `ld.active` is set. -/
def replicatorEarly : List Move :=
  startsReplication ++ [.repl 0 true, .repl 0 true, .repl 0 true] ++ storesActive

/-- It has returned, and nothing else is under way for the leader, which is active. -/
theorem replicator_returned_early : ∃ s : Fleet,
    Run (Fleet.step 3 0) (fun _ _ => True) .init replicatorEarly s ∧
      s.loop.roleOf 2 = some .leader ∧ s.loop.isActive 2 = true ∧ ¬s.loop.Leaving 2 ∧
      ∃ repl ∈ s.repls, repl.ld = 2 ∧ repl.pc = .returned := by
  obtain ⟨s, run, isLeader, active, empty, idle, returned⟩ : ∃ s : Fleet,
      Run (Fleet.step 3 0) (fun _ _ => True) .init replicatorEarly s ∧
        s.loop.roleOf 2 = some .leader ∧ s.loop.isActive 2 = true ∧ s.loop.evCh = [] ∧
        s.loop.pc = .receive ∧ ∃ repl ∈ s.repls, repl.ld = 2 ∧ repl.pc = .returned :=
    Run.exists_of_runSteps (by decide +kernel)
  exact ⟨s, run, isLeader, active, Loop.not_leaving empty idle, returned⟩

end GoLab.Raft.EventLoop
