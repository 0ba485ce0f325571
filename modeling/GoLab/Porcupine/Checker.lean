import GoLab.Lib.Linked
import GoLab.Lib.Marks
import GoLab.Porcupine.Bitset

/-!
# The linearizability checker (`porcupine/checker.go`, `porcupine/model.go`)

`V` is the type of the inputs and outputs, an interface in the source; its default value is
`nil`.  A `node` is a pointer here, and the heap has a function for each of its fields.  In a
function of the source that dereferences pointers or indexes slices, `none` is a panic.

The search of `checkSingle` is a loop; `iterate` is one round of it.  What `kill` is at the
start of a round is an argument of the round.
-/

namespace GoLab.Porcupine

/-! ## Histories and models -/

structure Operation (V : Type) where
  clientId : Int
  input : V
  call : Int
  output : V
  ret : Int
  deriving DecidableEq, Repr

inductive EventKind where
  | callEvent
  | returnEvent
  deriving DecidableEq, Repr

structure Event (V : Type) where
  clientId : Int
  kind : EventKind
  value : V
  id : Int
  deriving DecidableEq, Repr

/-- What a user of the checker gives; the optional fields may be `nil`. -/
structure Model (V S : Type) where
  partition : Option (List (Operation V) → Option (List (List (Operation V))))
  partitionEvent : Option (List (Event V) → Option (List (List (Event V))))
  init : S
  step : S → V → V → Option (Bool × S)
  equal : Option (S → S → Bool)

/-- A model of which the fields that the checker uses are set. -/
structure FullModel (V S : Type) where
  partition : List (Operation V) → Option (List (List (Operation V)))
  partitionEvent : List (Event V) → Option (List (List (Event V)))
  init : S
  step : S → V → V → Option (Bool × S)
  equal : S → S → Bool

variable {V S : Type}

def noPartition (history : List (Operation V)) : Option (List (List (Operation V))) :=
  some [history]

def noPartitionEvent (history : List (Event V)) : Option (List (List (Event V))) :=
  some [history]

def shallowEqual [DecidableEq S] (state1 state2 : S) : Bool :=
  state1 = state2

def fillDefault [DecidableEq S] (model : Model V S) : FullModel V S where
  partition := model.partition.getD noPartition
  partitionEvent := model.partitionEvent.getD noPartitionEvent
  init := model.init
  step := model.step
  equal := model.equal.getD shallowEqual

/-! ## Entries -/

inductive EntryKind where
  | callEntry
  | returnEntry
  deriving DecidableEq, Repr

structure Entry (V : Type) where
  kind : EntryKind
  value : V
  id : Int
  time : Int
  clientId : Int
  deriving DecidableEq, Repr

/-- `byTime.Less` -/
def Entry.less (a b : Entry V) : Bool :=
  if a.time ≠ b.time then
    a.time < b.time
  else
    a.kind = .callEntry && b.kind = .returnEntry

/-- The loop of `makeEntries`. -/
def operationEntries (history : List (Operation V)) : List (Entry V) :=
  history.zipIdx.flatMap fun (elem, id) =>
    [⟨.callEntry, elem.input, id, elem.call, elem.clientId⟩,
      ⟨.returnEntry, elem.output, id, elem.ret, elem.clientId⟩]

/-- `sort` stands for `sort.Sort(byTime(..))`. -/
def makeEntries (sort : List (Entry V) → List (Entry V)) (history : List (Operation V)) :
    List (Entry V) :=
  sort (operationEntries history)

/-- The loop of `renumber`: the new numbers so far, and the next one. -/
def renumberFrom : List (Event V) → (Int → Option Int) → Int → List (Event V)
  | [], _, _ => []
  | v :: events, m, id =>
      match m v.id with
      | some r => { v with id := r } :: renumberFrom events m id
      | none => { v with id } :: renumberFrom events (Function.update m v.id (some id)) (id + 1)

def renumber (events : List (Event V)) : List (Event V) :=
  renumberFrom events (fun _ => none) 0

def convertEntries (events : List (Event V)) : List (Entry V) :=
  events.zipIdx.map fun (elem, i) =>
    let kind := if elem.kind = .returnEvent then EntryKind.returnEntry else .callEntry
    ⟨kind, elem.value, elem.id, i, elem.clientId⟩

/-! ## Nodes -/

abbrev Ptr := Nat

/-- The nodes that have been made are those below `size`. -/
structure Heap (V : Type) extends Links Ptr where
  value : Ptr → V
  matching : Ptr → Option Ptr
  id : Ptr → Int
  size : Nat

namespace Heap

def empty [Inhabited V] : Heap V where
  next := fun _ => none
  prev := fun _ => none
  value := fun _ => default
  matching := fun _ => none
  id := fun _ => 0
  size := 0

/-- `&node{value, match, id}` -/
def alloc (heap : Heap V) (value : V) (matching : Option Ptr) (id : Int) : Heap V where
  toLinks := (heap.toLinks.setNext heap.size none).setPrev heap.size none
  value := Function.update heap.value heap.size value
  matching := Function.update heap.matching heap.size matching
  id := Function.update heap.id heap.size id
  size := heap.size + 1

def setNext (heap : Heap V) (p : Ptr) (q : Option Ptr) : Heap V :=
  { heap with toLinks := heap.toLinks.setNext p q }

def setPrev (heap : Heap V) (p : Ptr) (q : Option Ptr) : Heap V :=
  { heap with toLinks := heap.toLinks.setPrev p q }

def insertBefore (heap : Heap V) (n : Ptr) (mark : Option Ptr) : Heap V :=
  match mark with
  | none => heap
  | some mark =>
      let beforeMark := heap.prev mark
      let heap := heap.setPrev mark (some n)
      let heap := heap.setNext n (some mark)
      match beforeMark with
      | none => heap
      | some before =>
          let heap := heap.setPrev n (some before)
          heap.setNext before (some n)

/-- The loop of `length`; `fuel` is a bound for the number of nodes. -/
def length (heap : Heap V) : (fuel : Nat) → Option Ptr → Nat
  | 0, _ | _ + 1, none => 0
  | fuel + 1, some n => heap.length fuel (heap.next n) + 1

/-- The return is taken out of the list as the call is, but it may be the last node. -/
def lift (heap : Heap V) (entry : Ptr) : Option (Heap V) := do
  let before ← heap.prev entry
  let heap := heap.setNext before (heap.next entry)
  let after ← heap.next entry
  let heap := heap.setPrev after (heap.prev entry)
  let matching ← heap.matching entry
  let links ← heap.toLinks.unlink matching
  return { heap with toLinks := links }

def unlift (heap : Heap V) (entry : Ptr) : Option (Heap V) := do
  let matching ← heap.matching entry
  let links ← heap.toLinks.relink matching
  let heap := { heap with toLinks := links }
  let before ← heap.prev entry
  let heap := heap.setNext before (some entry)
  let after ← heap.next entry
  return heap.setPrev after (some entry)

end Heap

/-- What `makeLinkedEntries` has after some entries, beginning with the last. -/
structure Linking (V : Type) where
  heap : Heap V
  root : Option Ptr
  returns : Int → Option Ptr

/-- One round of the loop of `makeLinkedEntries`. -/
def Linking.add (l : Linking V) (elem : Entry V) : Linking V :=
  let entry := l.heap.size
  match elem.kind with
  | .returnEntry =>
      { heap := (l.heap.alloc elem.value none elem.id).insertBefore entry l.root
        root := some entry
        returns := Function.update l.returns elem.id (some entry) }
  | .callEntry =>
      { heap := (l.heap.alloc elem.value (l.returns elem.id) elem.id).insertBefore entry l.root
        root := some entry
        returns := l.returns }

def makeLinkedEntries [Inhabited V] (entries : List (Entry V)) : Linking V :=
  entries.foldr (fun elem l => l.add elem) ⟨.empty, none, fun _ => none⟩

/-! ## The search -/

structure CacheEntry (S : Type) where
  linearized : Bitset
  state : S
  deriving DecidableEq, Repr

abbrev Cache (S : Type) := BitVec 64 → List (CacheEntry S)

def cacheContains (model : FullModel V S) (cache : Cache S) (entry : CacheEntry S) : Bool :=
  (cache entry.linearized.hash).any fun elem =>
    entry.linearized.equals elem.linearized && model.equal entry.state elem.state

/-- `cache[hash] = append(cache[hash], entry)` -/
def Cache.add (cache : Cache S) (entry : CacheEntry S) : Cache S :=
  Function.update cache entry.linearized.hash (cache entry.linearized.hash ++ [entry])

structure CallsEntry (S : Type) where
  entry : Ptr
  state : S
  deriving DecidableEq, Repr

/-- `longest` has a sequence, or `nil`, for each operation. -/
abbrev Longest := List (Option (List Int))

/-- A number as an index; a negative one is outside every slice. -/
def index (id : Int) : Option Nat :=
  if 0 ≤ id then some id.toNat else none

/-- `seq` is entered for an operation if it is longer than what is there. -/
def Longest.enter (longest : Longest) (seq : List Int) (id : Int) : Option Longest := do
  let i ← index id
  let old ← longest[i]?
  if old.all (·.length < seq.length) then
    return longest.set i (some seq)
  else
    return longest

/-- The loop over `calls` before a call is taken back. -/
def Longest.record (longest : Longest) (seq : List Int) : Option Longest :=
  seq.foldlM (fun longest id => longest.enter seq id) longest

/-- The variables of `checkSingle`. -/
structure Search (V S : Type) where
  heap : Heap V
  headEntry : Ptr
  entry : Option Ptr
  linearized : Bitset
  cache : Cache S
  calls : List (CallsEntry S)
  longest : Longest
  state : S

/-- The loop goes on, or `checkSingle` returns. -/
inductive Progress (V S : Type) where
  | again (s : Search V S)
  | returned (ok : Bool) (longest : Longest)

namespace Search

/-- The operations of `calls`. -/
def seq (s : Search V S) : List Int :=
  s.calls.map fun v => s.heap.id v.entry

/-- `entry = entry.next` -/
def advance (s : Search V S) (entry : Ptr) : Search V S :=
  { s with entry := s.heap.next entry }

/-- The call at `entry` is taken as the next operation. -/
def push (s : Search V S) (entry : Ptr) (newLinearized : Bitset) (newState : S) :
    Option (Search V S) := do
  let heap ← s.heap.lift entry
  return { s with
    cache := s.cache.add ⟨newLinearized, newState⟩
    calls := s.calls ++ [⟨entry, s.state⟩]
    state := newState
    linearized := newLinearized
    heap
    entry := heap.next s.headEntry }

/-- The last operation is taken back. -/
def pop (s : Search V S) (computePartial : Bool) (callsTop : CallsEntry S) :
    Option (Search V S) := do
  let longest ← if computePartial then s.longest.record s.seq else some s.longest
  let i ← index (s.heap.id callsTop.entry)
  let linearized ← s.linearized.clear i
  let heap ← s.heap.unlift callsTop.entry
  return { s with
    longest
    state := callsTop.state
    linearized
    calls := s.calls.dropLast
    heap
    entry := heap.next callsTop.entry }

/-- A round at a node that has a matching return. -/
def tryCall (model : FullModel V S) (s : Search V S) (entry matching : Ptr) :
    Option (Search V S) := do
  let (ok, newState) ← model.step s.state (s.heap.value entry) (s.heap.value matching)
  if ok then
    let i ← index (s.heap.id entry)
    let newLinearized ← s.linearized.set i
    if cacheContains model s.cache ⟨newLinearized, newState⟩ then
      return s.advance entry
    else
      s.push entry newLinearized newState
  else
    return s.advance entry

/-- One round of the loop. -/
def iterate (model : FullModel V S) (computePartial killed : Bool) (s : Search V S) :
    Option (Progress V S) :=
  if s.heap.next s.headEntry = none then
    some (.returned true (List.replicate s.longest.length (some s.seq)))
  else if killed then
    some (.returned false s.longest)
  else do
    let entry ← s.entry
    match s.heap.matching entry with
    | some matching => return .again (← s.tryCall model entry matching)
    | none =>
        match s.calls.getLast? with
        | none => return .returned false s.longest
        | some callsTop => return .again (← s.pop computePartial callsTop)

/-- The variables before the loop. -/
def start [Inhabited V] (model : FullModel V S) (history : List (Entry V)) : Search V S :=
  let l := makeLinkedEntries history
  let n := l.heap.length l.heap.size l.root / 2
  { heap := (l.heap.alloc default none (-1)).insertBefore l.heap.size l.root
    headEntry := l.heap.size
    entry := l.root
    linearized := newBitset n
    cache := fun _ => []
    calls := []
    longest := List.replicate n none
    state := model.init }

end Search

/-- How a run of `checkSingle` goes. -/
inductive Outcome where
  | returned (ok : Bool) (longest : Longest)
  | panicked
  | unfinished
  deriving DecidableEq, Repr

/-- The loop from its round `k` on; `kill k` is whether it is found killed in that round. -/
def Search.loop (model : FullModel V S) (computePartial : Bool) (kill : Nat → Bool) :
    (fuel k : Nat) → Search V S → Outcome
  | 0, _, _ => .unfinished
  | fuel + 1, k, s =>
      match s.iterate model computePartial (kill k) with
      | none => .panicked
      | some (.returned ok longest) => .returned ok longest
      | some (.again s) => Search.loop model computePartial kill fuel (k + 1) s

def checkSingle [Inhabited V] (model : FullModel V S) (history : List (Entry V))
    (computePartial : Bool) (kill : Nat → Bool) (fuel : Nat) : Outcome :=
  (Search.start model history).loop model computePartial kill fuel 0

end GoLab.Porcupine
