import GoLab.Lib.Run
import GoLab.Porcupine.Checker

/-!
# `checkParallel`

A goroutine runs `checkSingle` on each part of the history.  It writes what it found to its
place in `longest` and sends its answer on the channel `results`.  The function itself
receives the answers until one of them is `false`, all have come, or the time is over.

The goroutines and the function take their steps in any order.  The timer may fire at every
moment at which the function waits.
-/

namespace GoLab.Porcupine

variable {V S : Type}

inductive CheckResult where
  | unknown
  | ok
  | illegal
  deriving DecidableEq, Repr

/-- Where a goroutine is. -/
inductive Job (V S : Type) where
  | searching (s : Search V S)
  | checked (ok : Bool) (l : Longest)
  | recorded (ok : Bool)
  | done

/-- For each part of the history, the sequences that were found. -/
abbrev PartialLinearizations := List (List (List Int))

/-- Where `checkParallel` is: in its loop, before it sets `kill`, in the loop that waits for the
goroutines that are left, or returned. -/
inductive Main where
  | receiving (count : Nat) (ok : Bool)
  | stopping (count : Nat) (ok timedOut : Bool)
  | draining (count : Nat) (ok timedOut : Bool)
  | returned (result : CheckResult) (info : Option PartialLinearizations)

structure Check (V S : Type) where
  jobs : List (Job V S)
  longest : List Longest
  results : List Bool
  kill : Bool
  main : Main
  panicked : Bool

/-- What `checkParallel` is called with, apart from the history. -/
structure Checking (V S : Type) where
  model : FullModel V S
  computeInfo : Bool
  /-- `timeout > 0` -/
  timeout : Bool

inductive Act where
  | work (i : Nat)
  | receive
  | expire
  | store
  | drain
  deriving DecidableEq, Repr

namespace Check

def start [Inhabited V] (x : Checking V S) (history : List (List (Entry V))) : Check V S where
  jobs := history.map fun subhistory => .searching (Search.start x.model subhistory)
  longest := history.map fun _ => []
  results := []
  kill := false
  main := .receiving 0 true
  panicked := false

/-- A step of a goroutine.  The channel has room for an answer of each of them. -/
def work (x : Checking V S) (i : Nat) (c : Check V S) : Option (Check V S) := do
  match ← c.jobs[i]? with
  | .searching s =>
      match s.iterate x.model x.computeInfo c.kill with
      | none => return { c with panicked := true }
      | some (.again s) => return { c with jobs := c.jobs.set i (.searching s) }
      | some (.returned ok l) => return { c with jobs := c.jobs.set i (.checked ok l) }
  | .checked ok l =>
      return { c with jobs := c.jobs.set i (.recorded ok), longest := c.longest.set i l }
  | .recorded ok =>
      if c.results.length < c.jobs.length then
        return { c with jobs := c.jobs.set i .done, results := c.results ++ [ok] }
      else
        none
  | .done => none

def result (ok timedOut : Bool) : CheckResult :=
  if !ok then .illegal else if timedOut then .unknown else .ok

/-- What comes after the loop. -/
def afterLoop (x : Checking V S) (count : Nat) (ok timedOut : Bool) : Main :=
  if x.computeInfo then .draining count ok timedOut else .returned (result ok timedOut) none

/-- The set of the sequences in each place of `longest`.  Go's set has the pointers to the
sequences for keys, this one the sequences. -/
def partialLinearizations (c : Check V S) : PartialLinearizations :=
  c.longest.map fun l => (l.filterMap id).dedup

/-- A result is received in the loop. -/
def receive (x : Checking V S) (c : Check V S) : Option (Check V S) :=
  match c.main, c.results with
  | .receiving count ok, answer :: results =>
      let count := count + 1
      let ok := ok && answer
      let c := { c with results }
      if !ok && !x.computeInfo then
        some { c with main := .stopping count ok false }
      else if c.jobs.length ≤ count then
        some { c with main := afterLoop x count ok false }
      else
        some { c with main := .receiving count ok }
  | _, _ => none

/-- The timer fires. -/
def expire (x : Checking V S) (c : Check V S) : Option (Check V S) :=
  match c.main with
  | .receiving count ok =>
      if x.timeout then some { c with main := .stopping count ok true } else none
  | _ => none

/-- `atomic.StoreInt32(&kill, 1)` and `break loop` -/
def store (x : Checking V S) (c : Check V S) : Option (Check V S) :=
  match c.main with
  | .stopping count ok timedOut =>
      some { c with kill := true, main := afterLoop x count ok timedOut }
  | _ => none

/-- An answer is waited for after the loop, or the function returns. -/
def drain (c : Check V S) : Option (Check V S) :=
  match c.main with
  | .draining count ok timedOut =>
      if count < c.jobs.length then
        match c.results with
        | _ :: results => some { c with results, main := .draining (count + 1) ok timedOut }
        | [] => none
      else
        some { c with main := .returned (result ok timedOut) (some c.partialLinearizations) }
  | _ => none

def step (x : Checking V S) (act : Act) (c : Check V S) : Option (Check V S) :=
  if c.panicked then
    none
  else
    match act with
    | .work i => c.work x i
    | .receive => c.receive x
    | .expire => c.expire x
    | .store => c.store x
    | .drain => c.drain

end Check

/-- The parts that `checkOperations` gives to `checkParallel`. -/
def operationParts [DecidableEq S] (sort : List (Entry V) → List (Entry V)) (model : Model V S)
    (history : List (Operation V)) : Option (List (List (Entry V))) := do
  let partitions ← (fillDefault model).partition history
  return partitions.map fun subhistory => makeEntries sort subhistory

/-- The parts that `checkEvents` gives to `checkParallel`. -/
def eventParts [DecidableEq S] (model : Model V S) (history : List (Event V)) :
    Option (List (List (Entry V))) := do
  let partitions ← (fillDefault model).partitionEvent history
  return partitions.map fun subhistory => convertEntries (renumber subhistory)

/-- The runs of `checkParallel`. -/
abbrev CheckRun [Inhabited V] (x : Checking V S) (history : List (List (Entry V))) :
    List Act → Check V S → Prop :=
  Run (Check.step x) (fun _ _ => True) (Check.start x history)

end GoLab.Porcupine
