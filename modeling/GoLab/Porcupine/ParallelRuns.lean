import Mathlib.Algebra.GroupWithZero.Nat
import GoLab.Porcupine.Histories
import GoLab.Porcupine.Parallel

/-!
# The runs of `checkParallel`

The answers come in the order in which the goroutines have sent them.  As long as `kill` is
not set, every answer is right.  It is set when `checkParallel` has left its loop, and no
answer counts after that.
-/

namespace GoLab.Porcupine

variable {V S : Type}

/-- What a step can do. -/
inductive Check.Steps (x : Checking V S) (c : Check V S) : Check V S → Prop where
  | panic {i : Nat} {s : Search V S} (isJob : c.jobs[i]? = some (.searching s))
      (round : s.iterate x.model x.computeInfo c.kill = none) : Steps x c { c with panicked := true }
  | again {i : Nat} {s s' : Search V S} (isJob : c.jobs[i]? = some (.searching s))
      (round : s.iterate x.model x.computeInfo c.kill = some (.again s')) :
      Steps x c { c with jobs := c.jobs.set i (.searching s') }
  | check {i : Nat} {s : Search V S} {ok : Bool} {l : Longest}
      (isJob : c.jobs[i]? = some (.searching s))
      (round : s.iterate x.model x.computeInfo c.kill = some (.returned ok l)) :
      Steps x c { c with jobs := c.jobs.set i (.checked ok l) }
  | record {i : Nat} {ok : Bool} {l : Longest} (isJob : c.jobs[i]? = some (.checked ok l)) :
      Steps x c { c with jobs := c.jobs.set i (.recorded ok), longest := c.longest.set i l }
  | send {i : Nat} {ok : Bool} (isJob : c.jobs[i]? = some (.recorded ok)) :
      Steps x c { c with jobs := c.jobs.set i .done, results := c.results ++ [ok] }
  | refuse {count : Nat} {ok answer : Bool} {results : List Bool}
      (isMain : c.main = .receiving count ok) (isNext : c.results = answer :: results)
      (isFalse : (ok && answer) = false) (plain : x.computeInfo = false) :
      Steps x c { c with results, main := .stopping (count + 1) false false }
  | last {count : Nat} {ok answer : Bool} {results : List Bool}
      (isMain : c.main = .receiving count ok) (isNext : c.results = answer :: results)
      (goesOn : (ok && answer) = true ∨ x.computeInfo = true) (all : c.jobs.length ≤ count + 1) :
      Steps x c { c with results, main := afterLoop x (count + 1) (ok && answer) false }
  | receive {count : Nat} {ok answer : Bool} {results : List Bool}
      (isMain : c.main = .receiving count ok) (isNext : c.results = answer :: results)
      (more : count + 1 < c.jobs.length) :
      Steps x c { c with results, main := .receiving (count + 1) (ok && answer) }
  | expire {count : Nat} {ok : Bool} (isMain : c.main = .receiving count ok)
      (timeout : x.timeout = true) : Steps x c { c with main := .stopping count ok true }
  | store {count : Nat} {ok timedOut : Bool} (isMain : c.main = .stopping count ok timedOut) :
      Steps x c { c with kill := true, main := afterLoop x count ok timedOut }
  | drain {count : Nat} {ok timedOut answer : Bool} {results : List Bool}
      (isMain : c.main = .draining count ok timedOut) (isNext : c.results = answer :: results)
      (more : count < c.jobs.length) :
      Steps x c { c with results, main := .draining (count + 1) ok timedOut }
  | finish {count : Nat} {ok timedOut : Bool} (isMain : c.main = .draining count ok timedOut)
      (all : c.jobs.length ≤ count) :
      Steps x c { c with
        main := .returned (result ok timedOut) (some c.partialLinearizations) }

namespace Check

variable {x : Checking V S} {c c' : Check V S}

theorem Steps.of_work {i : Nat} (taken : c.work x i = some c') : Steps x c c' := by
  unfold work at taken
  obtain ⟨job, isJob, taken⟩ := Option.bind_eq_some_iff.mp taken
  cases job with
  | searching s =>
      dsimp only at taken
      split at taken
      case h_1 round =>
        cases taken
        exact .panic isJob round
      case h_2 round =>
        cases taken
        exact .again isJob round
      case h_3 round =>
        cases taken
        exact .check isJob round
  | checked ok l =>
      cases taken
      exact .record isJob
  | recorded ok =>
      dsimp only at taken
      split at taken
      · cases taken
        exact .send isJob
      · cases taken
  | done => cases taken

theorem Steps.of_receive (taken : c.receive x = some c') : Steps x c c' := by
  unfold Check.receive at taken
  split at taken
  case h_1 count ok answer results isMain isNext =>
    dsimp only at taken
    split at taken
    case isTrue refused =>
      cases taken
      simp only [Bool.and_eq_true, Bool.not_eq_true'] at refused
      rw [refused.1]
      exact .refuse isMain isNext refused.1 refused.2
    case isFalse goesOn =>
      have goesOn' : (ok && answer) = true ∨ x.computeInfo = true := by
        cases isOk : ok && answer <;> cases isInfo : x.computeInfo <;> simp_all
      split at taken
      case isTrue all =>
        cases taken
        exact .last isMain isNext goesOn' all
      case isFalse more =>
        cases taken
        exact .receive isMain isNext (Nat.lt_of_not_le more)
  case h_2 => cases taken

theorem Steps.of_step {act : Act} (taken : step x act c = some c') :
    c.panicked = false ∧ Steps x c c' := by
  unfold step at taken
  split at taken
  · cases taken
  case isFalse running =>
    refine ⟨Bool.eq_false_iff.mpr running, ?_⟩
    cases act with
    | work i => exact .of_work taken
    | receive => exact .of_receive taken
    | expire =>
        dsimp only [Check.expire] at taken
        split at taken
        case h_1 isMain =>
          split at taken
          case isTrue timeout =>
            cases taken
            exact .expire isMain timeout
          case isFalse => cases taken
        case h_2 => cases taken
    | store =>
        dsimp only [Check.store] at taken
        split at taken
        case h_1 isMain =>
          cases taken
          exact .store isMain
        case h_2 => cases taken
    | drain =>
        dsimp only [Check.drain] at taken
        split at taken
        case h_1 isMain =>
          split at taken
          case isTrue more =>
            split at taken
            case h_1 isNext =>
              cases taken
              exact .drain isMain isNext more
            case h_2 => cases taken
          case isFalse all =>
            cases taken
            exact .finish isMain (Nat.le_of_not_lt all)
        case h_2 => cases taken

end Check

/-! ## The invariant -/

/-- The part of the history with this number is linearizable. -/
def PartOk (x : Checking V S) (history : List (List (Entry V))) (i : Nat) : Prop :=
  ∃ h, history[i]? = some h ∧ Linearizable x.model h

/-- What holds of a goroutine; `pot` is a bound for the steps that it has left. -/
def JobOk (a : Arena V S) (kill : Bool) (pot : Nat) (slot : Longest) : Job V S → Prop
  | .searching s => ∃ rounds ok l, a.Heads ok l rounds s ∧ pot = rounds + 3
  | .checked ok l => a.Sound l ∧ (kill = false → a.Verdict ok l) ∧ pot = 2
  | .recorded ok => (kill = false → a.Verdict ok slot) ∧ pot = 1
  | .done => (kill = false → ∃ ok, a.Verdict ok slot) ∧ pot = 0

/-- The answer so far is right. -/
def Justified (x : Checking V S) (history : List (List (Entry V))) (ok timedOut : Bool) : Prop :=
  (ok = false → ∃ h ∈ history, ¬Linearizable x.model h) ∧
    (ok = true → timedOut = false → ∀ h ∈ history, Linearizable x.model h) ∧
    (timedOut = true → x.timeout = true)

/-- The sequences are partial linearizations of the parts. -/
def LegalInfo (x : Checking V S) (history : List (List (Entry V)))
    (info : PartialLinearizations) : Prop :=
  ∀ (i : Nat) (h : List (Entry V)), history[i]? = some h → ∃ seqs : List (List Int),
    info[i]? = some seqs ∧ ∀ seq ∈ seqs, PartialLinearization x.model h seq

/-- For every operation there is a longest partial linearization. -/
def CoveringInfo (x : Checking V S) (history : List (List (Entry V)))
    (info : PartialLinearizations) : Prop :=
  ∀ (i : Nat) (h : List (Entry V)), history[i]? = some h → ∃ seqs : List (List Int),
    info[i]? = some seqs ∧ ∀ order, PartialLinearization x.model h order → ∀ op ∈ order,
      ∃ seq ∈ seqs, op ∈ seq ∧ order.length ≤ seq.length

/-- Where the function is. -/
def PhaseOk (x : Checking V S) (history : List (List (Entry V))) (order : List Nat)
    (received : Nat) (kill : Bool) : Main → Prop
  | .receiving count ok => kill = false ∧ count = received ∧
      (received < history.length ∨ received = 0) ∧
      (ok = true ↔ ∀ i ∈ order.take received, PartOk x history i)
  | .stopping count ok timedOut => kill = false ∧ count = received ∧
      Justified x history ok timedOut ∧ (x.computeInfo = true → timedOut = true)
  | .draining count ok timedOut => count = received ∧ x.computeInfo = true ∧
      Justified x history ok timedOut ∧ (timedOut = false → kill = false)
  | .returned result info => (∃ ok timedOut, result = Check.result ok timedOut ∧
      Justified x history ok timedOut) ∧
      (x.computeInfo = true → ∃ found, info = some found ∧ LegalInfo x history found ∧
        (x.timeout = false → CoveringInfo x history found))

/-- A bound for the steps that the function has left. -/
def Main.pot (size : Nat) : Main → Nat
  | .receiving count _ => size - count + 4
  | .stopping count _ _ => size - count + 3
  | .draining count _ _ => size - count + 2
  | .returned _ _ => 0

section

variable {x : Checking V S} {history : List (List (Entry V))}

theorem PhaseOk.afterLoop {order : List Nat} {taken : Nat} {kill ok timedOut : Bool}
    (justified : Justified x history ok timedOut)
    (alive : x.computeInfo = true → timedOut = false → kill = false) :
    PhaseOk x history order taken kill (Check.afterLoop x taken ok timedOut) := by
  unfold Check.afterLoop
  split
  case isTrue info => exact ⟨rfl, info, justified, alive info⟩
  case isFalse noInfo => exact ⟨⟨ok, timedOut, rfl, justified⟩, fun info => absurd info noInfo⟩

theorem Main.pot_afterLoop_lt (size count : Nat) (ok timedOut : Bool) :
    (Check.afterLoop x count ok timedOut).pot size < size - count + 3 := by
  unfold Check.afterLoop
  split
  · exact Nat.lt_succ_self _
  · exact Nat.succ_pos _

end

section

variable [Inhabited V] {x : Checking V S} {history : List (List (Entry V))}

/-- The search of a part. -/
def partArena (valid : ∀ h ∈ history, WellFormed h ∧ x.model.Fits h) {i : Nat} {h : List (Entry V)}
    (isPart : history[i]? = some h) : Arena V S :=
  arena (valid h (List.mem_of_getElem? isPart)).1 (valid h (List.mem_of_getElem? isPart)).2
    x.computeInfo

/-- What holds of the goroutines and of their places in `longest`. -/
def JobsOk (valid : ∀ h ∈ history, WellFormed h ∧ x.model.Fits h) (kill : Bool)
    (jobs : List (Job V S)) (pots : List Nat) (longest : List Longest) : Prop :=
  ∀ (i : Nat) (h : List (Entry V)) (isPart : history[i]? = some h), ∃ job pot slot,
    jobs[i]? = some job ∧ pots[i]? = some pot ∧ longest[i]? = some slot ∧
    JobOk (partArena valid isPart) kill pot slot job ∧
    ∀ seq, some seq ∈ slot → PartialLinearization x.model h seq

/-- The goroutines that have sent their answers are those in `order`, and `received` of the answers
have been received. -/
structure Holds (valid : ∀ h ∈ history, WellFormed h ∧ x.model.Fits h) (order : List Nat)
    (received : Nat) (pots : List Nat) (c : Check V S) : Prop where
  running : c.panicked = false
  size : c.jobs.length = history.length
  places : c.longest.length = history.length
  jobs : JobsOk valid c.kill c.jobs pots c.longest
  once : order.Nodup
  sent : ∀ i, i ∈ order ↔ c.jobs[i]? = some .done
  queued : order.length = received + c.results.length
  answers : c.kill = false →
    List.Forall₂ (fun i answer => answer = true ↔ PartOk x history i) (order.drop received) c.results
  phase : PhaseOk x history order received c.kill c.main

theorem sum_set_lt {pots : List Nat} {i pot pot' : Nat} (isPot : pots[i]? = some pot)
    (less : pot' < pot) : (pots.set i pot').sum < pots.sum := by
  induction pots generalizing i with
  | nil => cases isPot
  | cons first pots ih =>
      cases i with
      | zero =>
          cases isPot
          simpa using less
      | succ i => simpa using ih isPot

variable {valid : ∀ h ∈ history, WellFormed h ∧ x.model.Fits h}

variable {h : List (Entry V)}

theorem partOk_iff {i : Nat} (isPart : history[i]? = some h) {ok : Bool} {l : Longest}
    (verdict : (partArena valid isPart).Verdict ok l) :
    ok = true ↔ PartOk x history i := by
  refine (verdict.complete_iff.trans (picks_nil_iff _ _ _)).trans ⟨fun holds => ⟨h, isPart, holds⟩, ?_⟩
  rintro ⟨h', isPart', holds⟩
  cases isPart.symm.trans isPart'
  exact holds

variable {order pots : List Nat} {received : Nat}

section

variable {c : Check V S} (holds : Holds valid order received pots c)
include holds

theorem Holds.subperm :
    order.Subperm (List.range history.length) := by
  refine List.subperm_of_subset holds.once fun j isJ => ?_
  rw [List.mem_range, ← holds.size]
  exact (List.getElem?_eq_some_iff.mp ((holds.sent j).mp isJ)).1

/-- All parts have answered when as many answers have come as there are parts. -/
theorem Holds.mem_order (all : history.length ≤ order.length) {i : Nat}
    (below : i < history.length) : i ∈ order := by
  have perm := holds.subperm.perm_of_length_le (by simpa using all)
  exact perm.mem_iff.mpr (List.mem_range.mpr below)

theorem Holds.length_le :
    order.length ≤ history.length := by
  simpa using holds.subperm.length_le

end

/-! ## Steps of the goroutines -/

/-- Only one goroutine has done something. -/
theorem JobsOk.update {kill : Bool} {jobs : List (Job V S)} {pots : List Nat}
    {longest : List Longest} (jobsOk : JobsOk valid kill jobs pots longest) {i pot pot' : Nat}
    {job : Job V S} {slot slot' : Longest} (isPart : history[i]? = some h)
    (inJobs : i < jobs.length) (isPot : pots[i]? = some pot) (isSlot : longest[i]? = some slot)
    (jobOk : JobOk (partArena valid isPart) kill pot' slot' job)
    (legal : ∀ seq, some seq ∈ slot' → PartialLinearization x.model h seq) :
    JobsOk valid kill (jobs.set i job) (pots.set i pot') (longest.set i slot') := by
  have inPots := (List.getElem?_eq_some_iff.mp isPot).1
  have inLongest := (List.getElem?_eq_some_iff.mp isSlot).1
  intro j h' isPart'
  by_cases same : i = j
  · subst same
    cases isPart.symm.trans isPart'
    exact ⟨job, pot', slot', List.getElem?_set_self inJobs, List.getElem?_set_self inPots,
      List.getElem?_set_self inLongest, jobOk, legal⟩
  · obtain ⟨job, pot, slot, rest⟩ := jobsOk j h' isPart'
    refine ⟨job, pot, slot, ?_⟩
    rw [List.getElem?_set_ne same, List.getElem?_set_ne same, List.getElem?_set_ne same]
    exact rest

theorem partArena_iterate {i : Nat} (isPart : history[i]? = some h) {ok : Bool} {l : Longest}
    {rounds : Nat} {s : Search V S} (heads : (partArena valid isPart).Heads ok l rounds s)
    (killed : Bool) :
    s.iterate x.model x.computeInfo killed = some (.returned ok l) ∨
    (killed = true ∧ (partArena valid isPart).Sound s.longest ∧
      s.iterate x.model x.computeInfo killed = some (.returned false s.longest)) ∨
    ∃ rounds' s', rounds = rounds' + 1 ∧ (partArena valid isPart).Heads ok l rounds' s' ∧
      s.iterate x.model x.computeInfo killed = some (.again s') :=
  heads.iterate killed

theorem legal_of_slot {i : Nat} (isPart : history[i]? = some h) {l : Longest}
    (sound : (partArena valid isPart).Sound l) {seq : List Int} (inside : some seq ∈ l) :
    PartialLinearization x.model h seq := by
  obtain ⟨k, isSeq⟩ := List.mem_iff_getElem?.mp inside
  exact (legal_of_sound _ _ _ sound isSeq).2

namespace Holds

variable {order pots : List Nat} {received : Nat} {c : Check V S}

section

variable (holds : Holds valid order received pots c)
include holds

/-- The part on which a goroutine works. -/
theorem part {i : Nat} {job : Job V S} (isJob : c.jobs[i]? = some job) :
    ∃ h, ∃ isPart : history[i]? = some h, ∃ pot slot, pots[i]? = some pot ∧
      c.longest[i]? = some slot ∧ JobOk (partArena valid isPart) c.kill pot slot job ∧
      ∀ seq, some seq ∈ slot → PartialLinearization x.model h seq := by
  have below := (List.getElem?_eq_some_iff.mp isJob).1
  rw [holds.size] at below
  have isPart := List.getElem?_eq_getElem below
  obtain ⟨job', pot, slot, isJob', isPot, isSlot, jobOk, legal⟩ := holds.jobs i _ isPart
  cases isJob.symm.trans isJob'
  exact ⟨_, isPart, pot, slot, isPot, isSlot, jobOk, legal⟩

/-- A goroutine goes on, but does not send its answer. -/
theorem work {i pot pot' : Nat} {h : List (Entry V)} {job job' : Job V S} {slot slot' : Longest}
    (isPart : history[i]? = some h) (isJob : c.jobs[i]? = some job) (isPot : pots[i]? = some pot)
    (isSlot : c.longest[i]? = some slot) (notDone : job ≠ .done) (notDone' : job' ≠ .done)
    (jobOk : JobOk (partArena valid isPart) c.kill pot' slot' job')
    (legal : ∀ seq, some seq ∈ slot' → PartialLinearization x.model h seq) :
    Holds valid order received (pots.set i pot')
      { c with jobs := c.jobs.set i job', longest := c.longest.set i slot' } where
  running := holds.running
  size := by rw [List.length_set, holds.size]
  places := by rw [List.length_set, holds.places]
  jobs := holds.jobs.update isPart (List.getElem?_eq_some_iff.mp isJob).1 isPot isSlot jobOk legal
  once := holds.once
  sent := fun j => by
    rw [holds.sent j, List.getElem?_set]
    split
    case isTrue same =>
      subst same
      rw [isJob, if_pos (List.getElem?_eq_some_iff.mp isJob).1, Option.some.injEq,
        Option.some.injEq]
      exact iff_of_false notDone notDone'
    case isFalse => rfl
  queued := holds.queued
  answers := holds.answers
  phase := holds.phase

/-- A goroutine sends its answer. -/
theorem send {i : Nat} {ok : Bool} (isJob : c.jobs[i]? = some (.recorded ok)) :
    ∃ pots', Holds valid (order ++ [i]) received pots'
      { c with jobs := c.jobs.set i .done, results := c.results ++ [ok] } ∧
      pots'.sum < pots.sum := by
  obtain ⟨h, isPart, pot, slot, isPot, isSlot, ⟨verdict, rfl⟩, legal⟩ := holds.part isJob
  have inJobs := (List.getElem?_eq_some_iff.mp isJob).1
  have early : received ≤ order.length := by
    rw [holds.queued]
    omega
  refine ⟨pots.set i 0, ?_, sum_set_lt isPot Nat.zero_lt_one⟩
  refine ⟨holds.running, ?_, holds.places, ?_, ?_, fun j => ?_, ?_, fun alive => ?_, ?_⟩
  · rw [List.length_set, holds.size]
  · have same : c.longest.set i slot = c.longest := by
      obtain ⟨below, rfl⟩ := List.getElem?_eq_some_iff.mp isSlot
      exact List.set_getElem_self below
    have jobOk : JobOk (partArena valid isPart) c.kill 0 slot .done :=
      ⟨fun alive => ⟨ok, verdict alive⟩, rfl⟩
    have updated := holds.jobs.update isPart inJobs isPot isSlot jobOk legal
    rwa [same] at updated
  · refine List.nodup_append_comm.mp (List.nodup_cons.mpr ⟨fun inside => ?_, holds.once⟩)
    have isDone := (holds.sent i).mp inside
    rw [isJob] at isDone
    cases isDone
  · rw [List.mem_append, List.mem_singleton, holds.sent j, List.getElem?_set]
    split
    case isTrue same =>
      subst same
      simp [inJobs]
    case isFalse differ => simp [Ne.symm differ]
  · rw [List.length_append, List.length_append, holds.queued, Nat.add_assoc]
    rfl
  · rw [List.drop_append_of_le_length early]
    exact List.rel_append (holds.answers alive) (.cons (partOk_iff isPart (verdict alive)) .nil)
  · have phase := holds.phase
    cases isMain : c.main with
    | receiving count answer =>
        rw [isMain] at phase
        simpa only [PhaseOk, List.take_append_of_le_length early] using phase
    | stopping => rwa [isMain] at phase
    | draining => rwa [isMain] at phase
    | returned => rwa [isMain] at phase

/-- A round of a search. -/
theorem search {i : Nat} {s : Search V S} (isJob : c.jobs[i]? = some (.searching s)) :
    ∃ job pots', Holds valid order received pots' { c with jobs := c.jobs.set i job } ∧
      pots'.sum < pots.sum ∧
      ((∃ s', s.iterate x.model x.computeInfo c.kill = some (.again s') ∧ job = .searching s') ∨
        ∃ ok l, s.iterate x.model x.computeInfo c.kill = some (.returned ok l) ∧
          job = .checked ok l) := by
  obtain ⟨h, isPart, pot, slot, isPot, isSlot, ⟨rounds, ok, l, heads, rfl⟩, legal⟩ :=
    holds.part isJob
  have same : c.longest.set i slot = c.longest := by
    obtain ⟨below, rfl⟩ := List.getElem?_eq_some_iff.mp isSlot
    exact List.set_getElem_self below
  have next {job : Job V S} {pot' : Nat} (notDone : job ≠ .done)
      (jobOk : JobOk (partArena valid isPart) c.kill pot' slot job) :
      Holds valid order received (pots.set i pot') { c with jobs := c.jobs.set i job } := by
    have worked := holds.work isPart isJob isPot isSlot (by simp) notDone jobOk legal
    rwa [same] at worked
  rcases partArena_iterate isPart heads c.kill with returns | ⟨killed, sound, returns⟩ |
      ⟨rounds', s', rfl, heads', again⟩
  · refine ⟨.checked ok l, pots.set i 2, next (by simp) ⟨?_, fun _ => heads.1, rfl⟩,
      sum_set_lt isPot (by omega), .inr ⟨ok, l, returns, rfl⟩⟩
    exact sound_of_verdict _ _ _ heads.1
  · refine ⟨.checked false s.longest, pots.set i 2, next (by simp) ⟨sound, fun alive => ?_, rfl⟩,
      sum_set_lt isPot (by omega), .inr ⟨false, s.longest, returns, rfl⟩⟩
    rw [killed] at alive
    cases alive
  · exact ⟨.searching s', pots.set i (rounds' + 3), next (by simp) ⟨rounds', ok, l, heads', rfl⟩,
      sum_set_lt isPot (by omega), .inl ⟨s', again, rfl⟩⟩

/-- A goroutine writes what it has found to its place. -/
theorem record {i : Nat} {ok : Bool} {l : Longest} (isJob : c.jobs[i]? = some (.checked ok l)) :
    ∃ pots', Holds valid order received pots'
      { c with jobs := c.jobs.set i (.recorded ok), longest := c.longest.set i l } ∧
      pots'.sum < pots.sum := by
  obtain ⟨h, isPart, pot, slot, isPot, isSlot, ⟨sound, verdict, rfl⟩, -⟩ := holds.part isJob
  exact ⟨pots.set i 1, holds.work isPart isJob isPot isSlot (by simp) (by simp) ⟨verdict, rfl⟩
    fun seq inside => legal_of_slot isPart sound inside, sum_set_lt isPot (by omega)⟩

end

/-! ## Steps of the function -/

variable {results : List Bool}

section

variable (holds : Holds valid order received pots c) {answer : Bool}
  (isNext : c.results = answer :: results)
include holds isNext

/-- The next answer is that of the part that has answered next. -/
theorem next_answer (alive : c.kill = false) :
    ∃ i rest, order.drop received = i :: rest ∧ (answer = true ↔ PartOk x history i) ∧
      List.Forall₂ (fun i answer => answer = true ↔ PartOk x history i) rest results := by
  have answers := holds.answers alive
  rw [isNext] at answers
  cases isDrop : order.drop received with
  | nil =>
      rw [isDrop] at answers
      cases answers
  | cons i rest =>
      rw [isDrop] at answers
      cases answers with
      | cons isAnswer others => exact ⟨i, rest, rfl, isAnswer, others⟩

/-- An answer is taken from the channel. -/
theorem take {main : Main} (phase : PhaseOk x history order (received + 1) c.kill main) :
    Holds valid order (received + 1) pots { c with results, main } where
  running := holds.running
  size := holds.size
  places := holds.places
  jobs := holds.jobs
  once := holds.once
  sent := holds.sent
  queued := by
    rw [holds.queued, isNext, List.length_cons]
    dsimp only
    omega
  answers := fun alive => by
    obtain ⟨i, rest, isDrop, -, others⟩ := holds.next_answer isNext alive
    rw [← List.drop_drop, isDrop]
    exact others
  phase := phase

theorem queued_of_cons :
    received + 1 ≤ order.length ∧ received < history.length := by
  have queued := holds.queued
  have atMost := holds.length_le
  rw [isNext, List.length_cons] at queued
  omega

end

section

variable (holds : Holds valid order received pots c)
include holds

/-- The answers that have been received, with one more. -/
theorem received_iff {ok answer : Bool} (isNext : c.results = answer :: results)
    (alive : c.kill = false) (soFar : ok = true ↔ ∀ i ∈ order.take received, PartOk x history i) :
    (ok && answer) = true ↔ ∀ i ∈ order.take (received + 1), PartOk x history i := by
  obtain ⟨i, rest, isDrop, isAnswer, -⟩ := holds.next_answer isNext alive
  have split : order.take (received + 1) = order.take received ++ [i] := by
    rw [List.take_add, isDrop]
    rfl
  rw [Bool.and_eq_true, soFar, isAnswer, split, List.forall_mem_append]
  simp

/-- What the answers that have been received say. -/
theorem justified {ok timedOut : Bool} {taken : Nat} (enough : taken ≤ order.length)
    (soFar : ok = true ↔ ∀ i ∈ order.take taken, PartOk x history i)
    (all : timedOut = false → ok = true → history.length ≤ taken)
    (expires : timedOut = true → x.timeout = true) : Justified x history ok timedOut := by
  refine ⟨fun isFalse => ?_, fun isTrue inTime h inside => ?_, expires⟩
  · have some : ¬∀ i ∈ order.take taken, PartOk x history i := by
      rw [← soFar, isFalse]
      simp
    push Not at some
    obtain ⟨i, isI, notOk⟩ := some
    have below := (List.getElem?_eq_some_iff.mp ((holds.sent i).mp (List.mem_of_mem_take isI))).1
    rw [holds.size] at below
    refine ⟨history[i], List.getElem_mem below, fun linearizable => notOk ?_⟩
    exact ⟨_, List.getElem?_eq_getElem below, linearizable⟩
  · obtain ⟨i, isPart⟩ := List.mem_iff_getElem?.mp inside
    have below := (List.getElem?_eq_some_iff.mp isPart).1
    have complete := all inTime isTrue
    have isI := holds.mem_order (complete.trans enough) below
    rw [← List.take_of_length_le (holds.length_le.trans complete)] at isI
    obtain ⟨h', isPart', linearizable⟩ := soFar.mp isTrue i isI
    cases isPart.symm.trans isPart'
    exact linearizable

/-- All goroutines have sent their answers, and `kill` has not been set. -/
theorem legalInfo :
    LegalInfo x history c.partialLinearizations := by
  intro i h isPart
  obtain ⟨job, pot, slot, -, -, isSlot, -, legal⟩ := holds.jobs i h isPart
  refine ⟨(slot.filterMap id).dedup, ?_, fun seq inside => legal seq ?_⟩
  · rw [Check.partialLinearizations, List.getElem?_map, isSlot]
    rfl
  · simpa using inside

theorem coveringInfo (alive : c.kill = false) (partials : x.computeInfo = true)
    (all : history.length ≤ order.length) :
    CoveringInfo x history c.partialLinearizations := by
  intro i h isPart
  obtain ⟨job, pot, slot, isJob, -, isSlot, jobOk, -⟩ := holds.jobs i h isPart
  have isDone := (holds.sent i).mp
    (holds.mem_order all (List.getElem?_eq_some_iff.mp isPart).1)
  cases isJob.symm.trans isDone
  obtain ⟨ok, verdict⟩ := jobOk.1 alive
  refine ⟨(slot.filterMap id).dedup, ?_, fun order isPartial op inside => ?_⟩
  · rw [Check.partialLinearizations, List.getElem?_map, isSlot]
    rfl
  · obtain ⟨seq, isSeq, isOp, longer⟩ := covers_of_verdict _ _ partials verdict isPartial inside
    exact ⟨seq, by simpa using List.mem_of_getElem? isSeq, isOp, longer⟩

end

end Holds

theorem JobsOk.killed {kill : Bool} {jobs : List (Job V S)} {pots : List Nat}
    {longest : List Longest} (jobsOk : JobsOk valid kill jobs pots longest) :
    JobsOk valid true jobs pots longest := by
  intro i h isPart
  obtain ⟨job, pot, slot, isJob, isPot, isSlot, jobOk, legal⟩ := jobsOk i h isPart
  refine ⟨job, pot, slot, isJob, isPot, isSlot, ?_, legal⟩
  cases job with
  | searching s => exact jobOk
  | checked ok l => exact ⟨jobOk.1, by simp, jobOk.2.2⟩
  | recorded ok => exact ⟨by simp, jobOk.2⟩
  | done => exact ⟨by simp, jobOk.2⟩

/-- What every step keeps, and the bound that it lowers. -/
theorem Holds.step {c c' : Check V S} (holds : Holds valid order received pots c)
    (steps : Check.Steps x c c') :
    ∃ order' received' pots', Holds valid order' received' pots' c' ∧
      pots'.sum + c'.main.pot history.length < pots.sum + c.main.pot history.length := by
  cases steps with
  | panic isJob round =>
      obtain ⟨job, pots', -, -, ⟨s', again, -⟩ | ⟨ok, l, returns, -⟩⟩ := holds.search isJob
      · cases round.symm.trans again
      · cases round.symm.trans returns
  | again isJob round =>
      obtain ⟨job, pots', holds', less, ⟨s', again, rfl⟩ | ⟨ok, l, returns, -⟩⟩ := holds.search isJob
      · cases round.symm.trans again
        exact ⟨order, received, pots', holds', Nat.add_lt_add_right less _⟩
      · cases round.symm.trans returns
  | check isJob round =>
      obtain ⟨job, pots', holds', less, ⟨s', again, -⟩ | ⟨ok, l, returns, rfl⟩⟩ := holds.search isJob
      · cases round.symm.trans again
      · cases round.symm.trans returns
        exact ⟨order, received, pots', holds', Nat.add_lt_add_right less _⟩
  | record isJob =>
      obtain ⟨pots', holds', less⟩ := holds.record isJob
      exact ⟨order, received, pots', holds', Nat.add_lt_add_right less _⟩
  | @send i ok isJob =>
      obtain ⟨pots', holds', less⟩ := holds.send isJob
      exact ⟨order ++ [i], received, pots', holds', Nat.add_lt_add_right less _⟩
  | @refuse count ok answer results isMain isNext isFalse plain =>
      obtain ⟨alive, rfl, -, soFar⟩ := isMain ▸ holds.phase
      have soFar' := holds.received_iff isNext alive soFar
      have queued := holds.queued_of_cons isNext
      rw [isFalse] at soFar'
      refine ⟨order, count + 1, pots, holds.take isNext ⟨alive, rfl, ?_, by simp [plain]⟩, ?_⟩
      · exact holds.justified queued.1 soFar' (by simp) (by simp)
      · simp only [isMain, Main.pot]
        omega
  | @last count ok answer results isMain isNext goesOn all =>
      obtain ⟨alive, rfl, -, soFar⟩ := isMain ▸ holds.phase
      have soFar' := holds.received_iff isNext alive soFar
      have queued := holds.queued_of_cons isNext
      refine ⟨order, count + 1, pots, holds.take isNext (.afterLoop ?_ fun _ _ => alive), ?_⟩
      · exact holds.justified queued.1 soFar' (fun _ _ => holds.size ▸ all) (by simp)
      · have less := Main.pot_afterLoop_lt (x := x) history.length (count + 1) (ok && answer) false
        have before : c.main.pot history.length = history.length - count + 4 := by rw [isMain]; rfl
        dsimp only
        omega
  | @receive count ok answer results isMain isNext more =>
      obtain ⟨alive, rfl, -, soFar⟩ := isMain ▸ holds.phase
      have soFar' := holds.received_iff isNext alive soFar
      rw [holds.size] at more
      refine ⟨order, count + 1, pots, holds.take isNext ⟨alive, rfl, .inl more, soFar'⟩, ?_⟩
      simp only [isMain, Main.pot]
      omega
  | @expire count ok isMain timeout =>
      obtain ⟨alive, rfl, -, soFar⟩ := isMain ▸ holds.phase
      refine ⟨order, count, pots, ?_, ?_⟩
      · refine { holds with phase := ⟨alive, rfl, ?_, fun _ => rfl⟩ }
        exact holds.justified (holds.queued ▸ Nat.le_add_right ..) soFar (by simp) fun _ => timeout
      · simp only [isMain, Main.pot]
        omega
  | @store count ok timedOut isMain =>
      obtain ⟨alive, rfl, justified, expired⟩ := isMain ▸ holds.phase
      refine ⟨order, count, pots, ?_, ?_⟩
      · exact ⟨holds.running, holds.size, holds.places, holds.jobs.killed, holds.once, holds.sent,
          holds.queued, by simp, .afterLoop justified fun info => by simp [expired info]⟩
      · have less := Main.pot_afterLoop_lt (x := x) history.length count ok timedOut
        have before : c.main.pot history.length = history.length - count + 3 := by rw [isMain]; rfl
        dsimp only
        omega
  | @drain count ok timedOut answer results isMain isNext more =>
      obtain ⟨rfl, info, justified, alive⟩ := isMain ▸ holds.phase
      rw [holds.size] at more
      refine ⟨order, count + 1, pots, holds.take isNext ⟨rfl, info, justified, alive⟩, ?_⟩
      simp only [isMain, Main.pot]
      omega
  | @finish count ok timedOut isMain all =>
      obtain ⟨rfl, info, justified, alive⟩ := isMain ▸ holds.phase
      rw [holds.size] at all
      refine ⟨order, count, pots, ?_, ?_⟩
      · refine { holds with phase := ⟨⟨ok, timedOut, rfl, justified⟩, fun _ => ⟨_, rfl,
          holds.legalInfo, fun noTimeout => ?_⟩⟩ }
        refine holds.coveringInfo (alive ?_) info (all.trans (holds.queued ▸ Nat.le_add_right ..))
        rw [← Bool.not_eq_true]
        intro isTimedOut
        rw [justified.2.2 isTimedOut] at noTimeout
        cases noTimeout
      · simp only [isMain, Main.pot]
        omega

/-! ## Runs -/

theorem start_holds (valid : ∀ h ∈ history, WellFormed h ∧ x.model.Fits h) :
    ∃ pots, Holds valid [] 0 pots (Check.start x history) := by
  have potOf (i : Nat) : ∃ pot, ∀ h (isPart : history[i]? = some h), ∃ rounds ok l,
      (partArena valid isPart).Heads ok l rounds (Search.start x.model h) ∧ pot = rounds + 3 := by
    by_cases below : i < history.length
    · have inside := List.getElem_mem below
      obtain ⟨rounds, ok, l, heads⟩ :=
        start_heads (valid _ inside).1 (valid _ inside).2 x.computeInfo
      refine ⟨rounds + 3, fun h isPart => ?_⟩
      cases (List.getElem?_eq_getElem below).symm.trans isPart
      exact ⟨rounds, ok, l, heads, rfl⟩
    · exact ⟨0, fun h isPart => absurd (List.getElem?_eq_some_iff.mp isPart).1 below⟩
  choose potOf isPot using potOf
  refine ⟨(List.range history.length).map potOf, ?_⟩
  refine ⟨rfl, by simp [Check.start], by simp [Check.start], fun i h isPart => ?_, by simp,
    fun i => ?_, rfl, fun _ => .nil, ⟨rfl, rfl, .inr rfl, by simp⟩⟩
  · have below := (List.getElem?_eq_some_iff.mp isPart).1
    refine ⟨.searching (Search.start x.model h), potOf i, [], ?_, ?_, ?_, isPot i h isPart, by simp⟩
    · simp [Check.start, isPart]
    · simp [below]
    · simp [Check.start, below]
  · simp [Check.start]

/-- What holds after every run, and a bound for the number of its steps. -/
theorem exists_bound (valid : ∀ h ∈ history, WellFormed h ∧ x.model.Fits h) :
    ∃ bound, ∀ labels c, CheckRun x history labels c →
      ∃ order received pots, Holds valid order received pots c ∧
        labels.length + (pots.sum + c.main.pot history.length) ≤ bound := by
  obtain ⟨pots, holds⟩ := start_holds valid
  refine ⟨pots.sum + (Check.start x history).main.pot history.length, fun labels c run => ?_⟩
  refine run.invariant (fun labels c => ∃ order received pots', Holds valid order received pots' c ∧
    labels.length + (pots'.sum + c.main.pot history.length) ≤
      pots.sum + (Check.start x history).main.pot history.length) ?_ ?_
  · exact ⟨[], 0, pots, holds, by simp⟩
  · rintro labels c act c' - ⟨order, received, pots', holds, bounded⟩ - taken
    obtain ⟨order', received', pots'', holds', less⟩ := holds.step (Check.Steps.of_step taken).2
    refine ⟨order', received', pots'', holds', ?_⟩
    rw [List.length_append, List.length_singleton]
    omega

namespace Holds

variable {order pots : List Nat} {received : Nat} {c : Check V S}

/-- A goroutine that has not sent its answer can go on. -/
theorem exists_work (holds : Holds valid order received pots c)
    (more : order.length < history.length) : ∃ act c', Check.step x act c = some c' := by
  obtain ⟨i, below, notSent⟩ : ∃ i < history.length, i ∉ order := by
    by_contra all
    push Not at all
    have inside : List.range history.length ⊆ order := fun i isI => all i (List.mem_range.mp isI)
    have atLeast := (List.subperm_of_subset List.nodup_range inside).length_le
    rw [List.length_range] at atLeast
    omega
  rw [← holds.size] at below
  have isJob := List.getElem?_eq_getElem below
  refine ⟨.work i, ?_⟩
  have running : ¬c.panicked = true := by simp [holds.running]
  simp only [Check.step, if_neg running, Check.work, isJob, Option.bind_eq_bind, Option.bind_some]
  cases job : c.jobs[i] with
  | searching s =>
      dsimp only
      split <;> exact ⟨_, rfl⟩
  | checked ok l => exact ⟨_, rfl⟩
  | recorded ok =>
      have room : c.results.length < c.jobs.length := by
        have := holds.queued
        rw [holds.size]
        omega
      exact ⟨_, if_pos room⟩
  | done =>
      rw [job] at isJob
      exact absurd ((holds.sent i).mpr isJob) notSent

/-- The function has returned, or some step is possible. -/
theorem exists_step (holds : Holds valid order received pots c) (notEmpty : history ≠ []) :
    (∃ result info, c.main = .returned result info) ∨ ∃ act c', Check.step x act c = some c' := by
  have running : ¬c.panicked = true := by simp [holds.running]
  cases isMain : c.main with
  | returned result info => exact .inl ⟨result, info, rfl⟩
  | stopping count ok timedOut =>
      refine .inr ⟨.store, ?_⟩
      simp only [Check.step, if_neg running, Check.store, isMain]
      exact ⟨_, rfl⟩
  | receiving count ok =>
      obtain ⟨-, rfl, room, -⟩ := isMain ▸ holds.phase
      have positive := List.length_pos_iff.mpr notEmpty
      cases isNext : c.results with
      | nil =>
          have queued := holds.queued
          rw [isNext] at queued
          exact .inr (holds.exists_work (by simp only [List.length_nil] at queued; omega))
      | cons answer results =>
          refine .inr ⟨.receive, ?_⟩
          simp only [Check.step, if_neg running, Check.receive, isMain, isNext]
          split
          · exact ⟨_, rfl⟩
          · split <;> exact ⟨_, rfl⟩
  | draining count ok timedOut =>
      obtain ⟨rfl, -⟩ := isMain ▸ holds.phase
      by_cases more : count < c.jobs.length
      · cases isNext : c.results with
        | nil =>
            have queued := holds.queued
            have size := holds.size
            rw [isNext] at queued
            exact .inr (holds.exists_work (by simp only [List.length_nil] at queued; omega))
        | cons answer results =>
            refine .inr ⟨.drain, ?_⟩
            simp only [Check.step, if_neg running, Check.drain, isMain, isNext, if_pos more]
            exact ⟨_, rfl⟩
      · refine .inr ⟨.drain, ?_⟩
        simp only [Check.step, if_neg running, Check.drain, isMain, if_neg more]
        exact ⟨_, rfl⟩

end Holds

/-- Some run returns: as long as it has not, it can be made longer. -/
theorem exists_returned (valid : ∀ h ∈ history, WellFormed h ∧ x.model.Fits h)
    (notEmpty : history ≠ []) : ∃ labels c result info, CheckRun x history labels c ∧
      c.main = .returned result info := by
  obtain ⟨bound, bounded⟩ := exists_bound valid
  by_contra none
  push Not at none
  have longer (n : Nat) : ∃ labels c, CheckRun x history labels c ∧ labels.length = n := by
    induction n with
    | zero => exact ⟨[], _, .start, rfl⟩
    | succ n ih =>
        obtain ⟨labels, c, run, isLength⟩ := ih
        obtain ⟨order, received, pots, holds, -⟩ := bounded labels c run
        rcases holds.exists_step notEmpty with ⟨result, info, isMain⟩ | ⟨act, c', taken⟩
        · exact absurd isMain (none labels c result info run)
        · exact ⟨labels ++ [act], c', run.next trivial taken, by simp [isLength]⟩
  obtain ⟨labels, c, run, isLength⟩ := longer (bound + 1)
  obtain ⟨order, received, pots, -, atMost⟩ := bounded labels c run
  omega

/-- Without parts and without a timeout nothing ever happens. -/
theorem CheckRun.of_nil {labels : List Act} {c : Check V S} (run : CheckRun x [] labels c)
    (noTimeout : x.timeout = false) : c = Check.start x [] := by
  refine run.invariant (fun _ c => c = Check.start x []) rfl ?_
  rintro - c act c' - rfl - taken
  cases act <;> simp [Check.step, Check.start, Check.work, Check.receive, Check.expire, Check.store,
    Check.drain, noTimeout] at taken

end

end GoLab.Porcupine
