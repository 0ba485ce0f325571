import Mathlib.Algebra.Group.Nat.Defs
import GoLab.KVSrv.Server
import GoLab.Lib.Run

/-!
# Clerks and their server (`kvsrv/client.go`)

Any number of clerks, each with one call at a time, over a network that keeps every
request: a copy of it can reach the server any number of times and at any later moment,
and one that is lost is one that never does.  A reply belongs to the call whose request
it answers.  A `Get` changes nothing on either side.

`issued`, `executed` and `returned` are the history; the code has nothing of it.
-/

namespace GoLab.KVSrv

/-- A call of `Put` or `Append`: the clerk that makes it, and how many it has made before. -/
structure Op where
  clerk : Nat
  number : Nat
  method : Method
  key : Str
  value : Str
  deriving DecidableEq, Repr

structure Request where
  op : Op
  args : PutAppendArgs
  deriving DecidableEq, Repr

/-- A clerk and the request it waits for an answer to. -/
structure Clerk where
  rpcid : UInt32
  call : Option Request
  deriving DecidableEq, Repr

/-- The `id` of the clerk that is made as number `clerk`, by `ClerkID.Add(1)`. -/
def clerkID (clerk : Nat) : UInt32 :=
  UInt32.ofNat (clerk + 1)

/-- The server, the clerks and the network.  With an executed operation stands the value its
key had before, and with a returned one the value the call returned. -/
structure System where
  kv : KVServer
  panicked : Bool
  clerks : Nat → Clerk
  sent : List Request
  replies : List (Op × PutAppendReply)
  issued : List Op
  executed : List (Op × Option Str)
  returned : List (Op × Str)

/-- A clerk makes a call, a copy of a request reaches the server, a reply reaches its clerk. -/
inductive Label where
  | call (clerk : Nat) (method : Method) (key value : Str)
  | get (clerk : Nat) (key : Str)
  | deliver (request : Nat)
  | accept (reply : Nat)
  deriving DecidableEq, Repr

/-- The operations of one clerk. -/
def byClerk (clerk : Nat) (ops : List Op) : List Op :=
  ops.filter (·.clerk == clerk)

namespace System

def init : System where
  kv := .start
  panicked := false
  clerks := fun _ => ⟨0, none⟩
  sent := []
  replies := []
  issued := []
  executed := []
  returned := []

def setClerk (s : System) (number : Nat) (clerk : Clerk) : System :=
  { s with clerks := fun other => if other = number then clerk else s.clerks other }

/-- The executed operations without the values. -/
def done (s : System) : List Op :=
  s.executed.map Prod.fst

/-- The request of the next call of a clerk, with `ck.rpcid.Add(1)`. -/
def nextRequest (s : System) (clerk : Nat) (method : Method) (key value : Str) : Request where
  op := ⟨clerk, (byClerk clerk s.issued).length, method, key, value⟩
  args := ⟨key, value, clerkID clerk, (s.clerks clerk).rpcid + 1⟩

/-- `PutAppend` up to the first `Call`. -/
def call (s : System) (clerk : Nat) (method : Method) (key value : Str) : Option System :=
  if (s.clerks clerk).call.isNone then
    let request := s.nextRequest clerk method key value
    some { s.setClerk clerk ⟨request.args.rpcID, some request⟩ with
      sent := s.sent ++ [request]
      issued := s.issued ++ [request.op] }
  else
    none

/-- A copy of a request reaches the server. -/
def deliver (s : System) (request : Request) : System :=
  match request.op.method.handle s.kv request.args with
  | none => { s with panicked := true }
  | some (kv, reply) =>
      { s with
        kv
        replies := s.replies ++ [(request.op, reply)]
        executed :=
          if (s.kv.syncInfo request.args.clientID).rpcID = request.args.rpcID then
            s.executed ++ [(request.op, s.kv.data request.args.key)]
          else
            s.executed }

/-- The rest of `PutAppend`, when the call waits for the reply. -/
def accept (s : System) (op : Op) (reply : PutAppendReply) : Option System :=
  if (s.clerks op.clerk).call.any (·.op == op) then
    some { s.setClerk op.clerk ⟨reply.rpcID, none⟩ with
      returned := s.returned ++ [(op, reply.value)] }
  else
    none

/-- One step; nothing is answered after a panic. -/
def step (label : Label) (s : System) : Option System :=
  match label with
  | .call clerk method key value => s.call clerk method key value
  | .get clerk _ => if (s.clerks clerk).call.isNone then some s else none
  | .deliver request =>
      if s.panicked then none else (s.sent[request]?).map s.deliver
  | .accept reply => (s.replies[reply]?).bind fun (op, reply) => s.accept op reply

end System

/-! ## One operation after the other -/

/-- The data after an operation. -/
def Op.apply (data : Data) (op : Op) : Data :=
  op.method.effect data op.key op.value

/-- The data after operations, from none. -/
def replay (ops : List Op) : Data :=
  ops.foldl Op.apply fun _ => none

theorem replay_append {ops : List Op} {op : Op} :
    replay (ops ++ [op]) = op.method.effect (replay ops) op.key op.value := by
  simp [replay, Op.apply]

/-- The data is the result of the operations `order`: issued ones, each once, those of a
clerk in the order it issued them, and among them all whose call has returned. -/
structure Explains (s : System) (order : List Op) : Prop where
  data : s.kv.data = replay order
  once : order.Nodup
  issued : ∀ op ∈ order, op ∈ s.issued
  inOrder : ∀ clerk, (byClerk clerk order).Sublist (byClerk clerk s.issued)
  returned : ∀ op value, (op, value) ∈ s.returned → op ∈ order

/-! ## Counters in step -/

/-- The arguments of the request for an operation. -/
def Op.args (op : Op) : PutAppendArgs :=
  ⟨op.key, op.value, clerkID op.clerk, UInt32.ofNat (op.number + 1)⟩

/-- A call waits for an answer to the operation. -/
def System.Awaits (s : System) (op : Op) : Prop :=
  ∃ request, (s.clerks op.clerk).call = some request ∧ request.op = op

/-- A clerk has issued its operations one after the other, the server has executed all of
them or all but the last, and both have counted them. -/
structure Synced (s : System) : Prop where
  alive : s.panicked = false
  numbered : ∀ clerk (k : Nat) (op : Op), (byClerk clerk s.issued)[k]? = some op → op.number = k
  bounded : ∀ clerk, (byClerk clerk s.issued).length < 2 ^ 32 - 1
  known : ∀ op ∈ s.issued, op.clerk < 2 ^ 32
  once : s.done.Nodup
  ahead : ∀ clerk, byClerk clerk s.done <+: byClerk clerk s.issued
  idle : ∀ clerk, (s.clerks clerk).call = none → byClerk clerk s.done = byClerk clerk s.issued ∧
    (s.clerks clerk).rpcid.toNat = (byClerk clerk s.issued).length
  busy : ∀ clerk request, (s.clerks clerk).call = some request → request.op.clerk = clerk ∧
    request.op.number + 1 = (byClerk clerk s.issued).length ∧
    (byClerk clerk s.issued).length ≤ (byClerk clerk s.done).length + 1
  sent : ∀ request ∈ s.sent, request.op ∈ s.issued ∧ request.args = request.op.args
  counted : ∀ clerk < 2 ^ 32,
    (s.kv.syncInfo (clerkID clerk)).rpcID.toNat = (byClerk clerk s.done).length + 1
  data : s.kv.data = replay s.done
  replies : ∀ op reply, (op, reply) ∈ s.replies → op ∈ s.done ∧
    (s.Awaits op → reply.rpcID.toNat = op.number + 1)
  returned : ∀ op value, (op, value) ∈ s.returned → op ∈ s.done

section

variable {s s' : System} {ops : List Op} {op : Op} {clerk : Nat}

theorem byClerk_append : byClerk clerk (ops ++ [op]) =
    if op.clerk = clerk then byClerk clerk ops ++ [op] else byClerk clerk ops := by
  unfold byClerk
  rw [List.filter_append]
  split
  case isTrue same => simp [same]
  case isFalse differs => simp [differs]

theorem mem_byClerk : op ∈ byClerk clerk ops ↔ op ∈ ops ∧ op.clerk = clerk := by
  simp [byClerk]

theorem clerkID_toNat : (clerkID clerk).toNat = (clerk + 1) % 2 ^ 32 := by
  simp [clerkID]

/-- The first `2 ^ 32` clerks have different identities. -/
theorem clerkID_inj {other : Nat} (inside : clerk < 2 ^ 32) (otherInside : other < 2 ^ 32)
    (same : clerkID clerk = clerkID other) : clerk = other := by
  have equal := congrArg UInt32.toNat same
  rw [clerkID_toNat, clerkID_toNat] at equal
  omega

theorem System.call_eq_some {method : Method} {key value : Str}
    (result : s.call clerk method key value = some s') : (s.clerks clerk).call = none ∧
      s' = { s.setClerk clerk ⟨(s.nextRequest clerk method key value).args.rpcID,
          some (s.nextRequest clerk method key value)⟩ with
        sent := s.sent ++ [s.nextRequest clerk method key value]
        issued := s.issued ++ [(s.nextRequest clerk method key value).op] } := by
  unfold System.call at result
  split at result
  case isTrue idle =>
    cases result
    exact ⟨Option.isNone_iff_eq_none.mp idle, rfl⟩
  case isFalse => cases result

theorem System.accept_eq_some {reply : PutAppendReply} (result : s.accept op reply = some s') :
    s.Awaits op ∧ s' = { s.setClerk op.clerk ⟨reply.rpcID, none⟩ with
      returned := s.returned ++ [(op, reply.value)] } := by
  unfold System.accept at result
  split at result
  case isTrue waits =>
    cases result
    refine ⟨?_, rfl⟩
    cases call : (s.clerks op.clerk).call with
    | none => simp [call] at waits
    | some request => exact ⟨request, call, by simpa [call] using waits⟩
  case isFalse => cases result

/-- A clerk whose call has just begun or returned does not wait for an older answer. -/
theorem System.awaits_setClerk {ck : Clerk} {issued : List Op} {sent : List Request}
    {returned : List (Op × Str)}
    (waits : ({ s.setClerk clerk ck with issued, sent, returned } : System).Awaits op) :
    op.clerk ≠ clerk ∧ s.Awaits op ∨ op.clerk = clerk ∧ ∃ request, ck.call = some request ∧
      request.op = op := by
  obtain ⟨request, waiting, isOp⟩ := waits
  by_cases same : op.clerk = clerk
  · simp only [System.setClerk, if_pos same] at waiting
    exact .inr ⟨same, request, waiting, isOp⟩
  · simp only [System.setClerk, if_neg same] at waiting
    exact .inl ⟨same, request, waiting, isOp⟩

namespace Synced

section

variable (synced : Synced s)
include synced

/-- An operation that has been issued is at its number among those of its clerk. -/
theorem issued_at (issued : op ∈ s.issued) :
    (byClerk op.clerk s.issued)[op.number]? = some op := by
  obtain ⟨k, found⟩ := List.mem_iff_getElem?.mp (mem_byClerk.mpr ⟨issued, rfl⟩)
  rw [synced.numbered op.clerk k op found]
  exact found

/-- The executed operations of a clerk are those with a smaller number than their count. -/
theorem done_iff (issued : op ∈ s.issued) :
    op ∈ s.done ↔ op.number < (byClerk op.clerk s.done).length := by
  obtain ⟨rest, whole⟩ := synced.ahead op.clerk
  have found := synced.issued_at issued
  rw [← whole] at found
  constructor
  · intro done
    obtain ⟨k, here⟩ := List.mem_iff_getElem?.mp (mem_byClerk.mpr ⟨done, rfl⟩)
    have inside := (List.getElem?_eq_some_iff.mp here).1
    have inIssued : (byClerk op.clerk s.issued)[k]? = some op := by
      rw [← whole, List.getElem?_append_left inside]
      exact here
    rw [synced.numbered op.clerk k op inIssued]
    exact inside
  · intro inside
    rw [List.getElem?_append_left inside] at found
    exact (mem_byClerk.mp (List.mem_of_getElem? found)).1

theorem issued_of_done (done : op ∈ s.done) : op ∈ s.issued := by
  have inside := (synced.ahead op.clerk).subset (mem_byClerk.mpr ⟨done, rfl⟩)
  exact (mem_byClerk.mp inside).1

/-- The next operation of a clerk has not been executed. -/
theorem not_done_of_number (isClerk : op.clerk = clerk)
    (number : op.number = (byClerk clerk s.done).length) : op ∉ s.done := by
  intro done
  have early := (synced.done_iff (synced.issued_of_done done)).mp done
  rw [isClerk] at early
  omega

/-- The order of execution explains the data. -/
theorem explains : Explains s s.done where
  data := synced.data
  once := synced.once
  issued := fun _ => synced.issued_of_done
  inOrder := fun clerk => (synced.ahead clerk).sublist
  returned := synced.returned

/-- Fewer operations than the counter has values have been issued. -/
theorem issued_lt (issued : op ∈ s.issued) : op.number + 2 < 2 ^ 32 := by
  have bounded := synced.bounded op.clerk
  have inside := (List.getElem?_eq_some_iff.mp (synced.issued_at issued)).1
  omega

/-- A clerk has issued at most one operation the server has not executed. -/
theorem issued_le (clerk : Nat) :
    (byClerk clerk s.issued).length ≤ (byClerk clerk s.done).length + 1 := by
  cases call : (s.clerks clerk).call with
  | none =>
      rw [(synced.idle clerk call).1]
      omega
  | some request => exact (synced.busy clerk request call).2.2

/-- The counters of a request and of the server for its clerk. -/
theorem counters {request : Request} (sent : request ∈ s.sent) :
    request.op ∈ s.issued ∧ request.args = request.op.args ∧
    request.args.rpcID.toNat = request.op.number + 1 ∧
    (s.kv.syncInfo request.args.clientID).rpcID.toNat =
      (byClerk request.op.clerk s.done).length + 1 ∧
    request.op.number ≤ (byClerk request.op.clerk s.done).length := by
  obtain ⟨issued, args⟩ := synced.sent request sent
  have bound := synced.issued_lt issued
  have inside := (List.getElem?_eq_some_iff.mp (synced.issued_at issued)).1
  have behind := synced.issued_le request.op.clerk
  refine ⟨issued, args, ?_, ?_, by omega⟩
  · rw [args]
    simp only [Op.args, UInt32.toNat_ofNat']
    omega
  · rw [args]
    exact synced.counted request.op.clerk (synced.known request.op issued)

end

theorem init : Synced .init where
  alive := rfl
  numbered := nofun
  bounded := fun _ => Nat.zero_lt_succ _
  known := nofun
  once := .nil
  ahead := fun _ => List.prefix_rfl
  idle := fun _ _ => ⟨rfl, rfl⟩
  busy := nofun
  sent := nofun
  counted := fun _ _ => rfl
  data := rfl
  replies := nofun
  returned := nofun

/-- A clerk makes a call. -/
theorem call (synced : Synced s) {method : Method} {key value : Str} (inside : clerk < 2 ^ 32)
    (few : (byClerk clerk s.issued).length + 1 < 2 ^ 32 - 1)
    (result : s.call clerk method key value = some s') : Synced s' := by
  obtain ⟨idle, rfl⟩ := System.call_eq_some result
  obtain ⟨allDone, rpcid⟩ := synced.idle clerk idle
  generalize isRequest : s.nextRequest clerk method key value = request
  have opClerk : request.op.clerk = clerk := by rw [← isRequest]; rfl
  have opNumber : request.op.number = (byClerk clerk s.issued).length := by rw [← isRequest]; rfl
  have isArgs : request.args = request.op.args := by
    rw [← isRequest]
    simp only [System.nextRequest, Op.args, PutAppendArgs.mk.injEq, true_and]
    apply UInt32.toNat_inj.mp
    simp [rpcid]
  have issuedBy (other : Nat) : byClerk other (s.issued ++ [request.op]) =
      if clerk = other then byClerk other s.issued ++ [request.op]
      else byClerk other s.issued := by
    rw [byClerk_append, opClerk]
  refine ⟨synced.alive, ?_, ?_, ?_, synced.once, ?_, ?_, ?_, ?_, synced.counted, synced.data, ?_,
    synced.returned⟩
  · intro other k op found
    rw [issuedBy] at found
    split at found
    case isTrue same =>
      subst same
      rw [List.getElem?_append] at found
      split at found
      case isTrue => exact synced.numbered clerk k op found
      case isFalse past =>
        have last := (List.getElem?_eq_some_iff.mp found).1
        simp only [List.length_singleton] at last
        have isFirst : k - (byClerk clerk s.issued).length = 0 := by omega
        rw [isFirst] at found
        cases found
        omega
    case isFalse => exact synced.numbered other k op found
  · intro other
    dsimp only
    rw [issuedBy]
    split
    case isTrue same =>
      subst same
      simpa using few
    case isFalse => exact synced.bounded other
  · intro op membership
    rcases List.mem_append.mp membership with earlier | new
    · exact synced.known op earlier
    · rw [List.mem_singleton.mp new, opClerk]
      exact inside
  · intro other
    dsimp only
    rw [issuedBy]
    split
    case isTrue => exact (synced.ahead other).trans (List.prefix_append ..)
    case isFalse => exact synced.ahead other
  · intro other free
    have differs : ¬ other = clerk := by
      rintro rfl
      simp [System.setClerk] at free
    simp only [System.setClerk, if_neg differs] at free ⊢
    rw [issuedBy, if_neg (Ne.symm differs)]
    exact synced.idle other free
  · intro other waited waiting
    dsimp only
    rw [issuedBy]
    by_cases same : other = clerk
    · subst same
      simp only [System.setClerk, if_pos, Option.some.injEq] at waiting
      subst waiting
      rw [if_pos rfl, List.length_append, List.length_singleton]
      refine ⟨opClerk, by rw [← opNumber], ?_⟩
      exact Nat.add_le_add_right (Nat.le_of_eq (congrArg List.length allDone.symm)) 1
    · simp only [System.setClerk, if_neg same] at waiting
      rw [if_neg (Ne.symm same)]
      exact synced.busy other waited waiting
  · intro other membership
    rcases List.mem_append.mp membership with earlier | new
    · exact ⟨List.mem_append_left _ (synced.sent other earlier).1, (synced.sent other earlier).2⟩
    · rw [List.mem_singleton.mp new]
      exact ⟨List.mem_append_right _ (List.mem_singleton_self _), isArgs⟩
  · intro op reply membership
    obtain ⟨done, answered⟩ := synced.replies op reply membership
    refine ⟨done, fun waits => ?_⟩
    rcases System.awaits_setClerk waits with ⟨-, before⟩ | ⟨-, _, isCall, rfl⟩
    · exact answered before
    · cases isCall
      exact (synced.not_done_of_number opClerk (opNumber.trans (by rw [allDone])) done).elim

/-- A reply reaches the clerk that waits for it. -/
theorem accept (synced : Synced s) {reply : PutAppendReply} (sent : (op, reply) ∈ s.replies)
    (result : s.accept op reply = some s') : Synced s' := by
  obtain ⟨waits, rfl⟩ := System.accept_eq_some result
  obtain ⟨done, answered⟩ := synced.replies op reply sent
  have counted := answered waits
  obtain ⟨request, call, rfl⟩ := waits
  obtain ⟨-, last, behind⟩ := synced.busy request.op.clerk request call
  have allDone : byClerk request.op.clerk s.done = byClerk request.op.clerk s.issued := by
    have inside := (synced.done_iff (synced.issued_of_done done)).mp done
    exact (synced.ahead request.op.clerk).eq_of_length_le (by omega)
  refine ⟨synced.alive, synced.numbered, synced.bounded, synced.known, synced.once, synced.ahead,
    ?_, ?_, synced.sent, synced.counted, synced.data, ?_, ?_⟩
  · intro clerk free
    by_cases same : clerk = request.op.clerk
    · subst same
      refine ⟨allDone, ?_⟩
      simp only [System.setClerk, if_pos]
      omega
    · simp only [System.setClerk, if_neg same] at free ⊢
      exact synced.idle clerk free
  · intro clerk other waiting
    by_cases same : clerk = request.op.clerk
    · simp [System.setClerk, if_pos same] at waiting
    · simp only [System.setClerk, if_neg same] at waiting
      exact synced.busy clerk other waiting
  · intro op reply' membership
    refine (synced.replies op reply' membership).imp id fun answered waits => ?_
    rcases System.awaits_setClerk waits with ⟨-, before⟩ | ⟨-, _, none, -⟩
    · exact answered before
    · cases none
  · intro op value membership
    rcases List.mem_append.mp membership with earlier | new
    · exact synced.returned op value earlier
    · cases List.mem_singleton.mp new
      exact done

/-- The server executes the next operation of a clerk. -/
theorem executed (synced : Synced s) {request : Request} (sent : request ∈ s.sent) {kv : KVServer}
    {reply : PutAppendReply} {before : Option Str}
    (data : kv.data = request.op.method.effect s.kv.data request.args.key request.args.value)
    (others : ∀ client, client ≠ request.args.clientID → kv.syncInfo client = s.kv.syncInfo client)
    (expected : (s.kv.syncInfo request.args.clientID).rpcID = request.args.rpcID)
    (counted : (kv.syncInfo request.args.clientID).rpcID = request.args.rpcID + 1)
    (answer : reply.rpcID = request.args.rpcID) :
    Synced { s with
      kv
      replies := s.replies ++ [(request.op, reply)]
      executed := s.executed ++ [(request.op, before)] } := by
  obtain ⟨issued, args, rpcID, counter, behind⟩ := synced.counters sent
  have bound := synced.issued_lt issued
  have number : request.op.number = (byClerk request.op.clerk s.done).length := by
    rw [← UInt32.toNat_inj] at expected
    omega
  have new := synced.not_done_of_number rfl number
  have doneEq : ({ s with
      kv
      replies := s.replies ++ [(request.op, reply)]
      executed := s.executed ++ [(request.op, before)] } : System).done =
      s.done ++ [request.op] := by
    simp [System.done]
  have ahead : byClerk request.op.clerk s.done ++ [request.op] <+:
      byClerk request.op.clerk s.issued := by
    obtain ⟨rest, whole⟩ := synced.ahead request.op.clerk
    have here := synced.issued_at issued
    rw [← whole, number, List.getElem?_append_right (Nat.le_refl _), Nat.sub_self] at here
    cases rest with
    | nil => cases here
    | cons first rest =>
        cases here
        exact ⟨rest, by rw [← whole]; simp⟩
  have full : byClerk request.op.clerk s.done ++ [request.op] =
      byClerk request.op.clerk s.issued := by
    have atMost := synced.issued_le request.op.clerk
    exact ahead.eq_of_length_le (by simpa using atMost)
  refine ⟨synced.alive, synced.numbered, synced.bounded, synced.known, ?_, ?_, ?_, ?_,
    synced.sent, ?_, ?_, ?_, ?_⟩
  · rw [doneEq, List.nodup_append]
    refine ⟨synced.once, by simp, fun op done op' last => ?_⟩
    rw [List.mem_singleton.mp last]
    exact fun same => new (same ▸ done)
  · intro clerk
    rw [doneEq, byClerk_append]
    split
    case isTrue same => exact same ▸ ahead
    case isFalse => exact synced.ahead clerk
  · intro clerk free
    rw [doneEq, byClerk_append]
    refine ⟨?_, (synced.idle clerk free).2⟩
    split
    case isTrue same => exact same ▸ full
    case isFalse => exact (synced.idle clerk free).1
  · intro clerk other waiting
    obtain ⟨isClerk, last, atMost⟩ := synced.busy clerk other waiting
    rw [doneEq, byClerk_append]
    refine ⟨isClerk, last, ?_⟩
    split
    case isTrue =>
      rw [List.length_append]
      exact Nat.le_trans atMost (by simp)
    case isFalse => exact atMost
  · intro clerk inside
    rw [doneEq, byClerk_append]
    split
    case isTrue same =>
      subst same
      have isID : clerkID request.op.clerk = request.args.clientID := by
        rw [args]
        rfl
      dsimp only
      have one : (1 : UInt32).toNat = 1 := rfl
      rw [isID, counted, UInt32.toNat_add, rpcID, one, List.length_append, List.length_singleton,
        Nat.mod_eq_of_lt bound, number]
    case isFalse differs =>
      dsimp only
      rw [others]
      · exact synced.counted clerk inside
      · rw [args]
        exact fun same => differs (clerkID_inj (synced.known _ issued) inside same.symm)
  · rw [doneEq, replay_append, ← synced.data]
    refine data.trans ?_
    rw [args]
    rfl
  · intro op' reply' membership
    rw [doneEq]
    rcases List.mem_append.mp membership with earlier | isNew
    · obtain ⟨done, answered⟩ := synced.replies op' reply' earlier
      exact ⟨List.mem_append_left _ done, answered⟩
    · cases List.mem_singleton.mp isNew
      exact ⟨by simp, fun _ => by rw [answer, rpcID]⟩
  · intro op' value membership
    rw [doneEq]
    exact List.mem_append_left _ (synced.returned op' value membership)

/-- A copy of a request reaches the server. -/
theorem deliver (synced : Synced s) {request : Request} (sent : request ∈ s.sent) :
    Synced (s.deliver request) := by
  obtain ⟨issued, args, rpcID, counter, behind⟩ := synced.counters sent
  unfold System.deliver
  split
  case h_1 panicked =>
    have ahead := UInt32.lt_iff_toNat_lt.mp (Method.handle_eq_none panicked)
    omega
  case h_2 kv reply handled =>
    cases Method.handle_handled handled with
    | repeated data same old =>
        rw [UInt32.lt_iff_toNat_lt] at old
        have notNext : (s.kv.syncInfo request.args.clientID).rpcID ≠ request.args.rpcID := by
          intro next
          rw [next] at old
          omega
        rw [if_neg notNext]
        refine ⟨synced.alive, synced.numbered, synced.bounded, synced.known, synced.once,
          synced.ahead, synced.idle, synced.busy, synced.sent, ?_, data.trans synced.data, ?_,
          synced.returned⟩
        · intro clerk inside
          dsimp only
          rw [same]
          exact synced.counted clerk inside
        · intro op' reply' membership
          rcases List.mem_append.mp membership with earlier | new
          · exact synced.replies op' reply' earlier
          · cases List.mem_singleton.mp new
            refine ⟨(synced.done_iff issued).mpr (by omega), ?_⟩
            rintro ⟨other, waiting, isOp⟩
            obtain ⟨-, last, -⟩ := synced.busy _ other waiting
            have atMost := (synced.ahead request.op.clerk).length_le
            rw [isOp] at last
            have one : (1 : UInt32).toNat = 1 := rfl
            rw [UInt32.toNat_sub_of_le _ _ (by rw [UInt32.le_iff_toNat_le]; omega)]
            omega
    | executed data others expected counted _ answer =>
        rw [if_pos expected]
        exact synced.executed sent data others expected counted answer

end Synced

/-- There are at most `2 ^ 32` clerks, and each issues fewer than `2 ^ 32 - 1` calls. -/
def fits (s : System) : Label → Prop
  | .call clerk .. => clerk < 2 ^ 32 ∧ (byClerk clerk s.issued).length + 1 < 2 ^ 32 - 1
  | _ => True

instance (s : System) : (label : Label) → Decidable (fits s label)
  | .call .. => inferInstanceAs (Decidable (_ ∧ _))
  | .get .. | .deliver _ | .accept _ => .isTrue trivial

theorem Synced.step (synced : Synced s) {label : Label} (allowed : fits s label)
    (taken : System.step label s = some s') : Synced s' := by
  cases label with
  | call clerk method key value => exact synced.call allowed.1 allowed.2 taken
  | get clerk key =>
      simp only [System.step] at taken
      split at taken <;> cases taken
      exact synced
  | deliver request =>
      simp only [System.step] at taken
      split at taken
      case isTrue => cases taken
      case isFalse =>
        obtain ⟨request, found, rfl⟩ := Option.map_eq_some_iff.mp taken
        exact synced.deliver (List.mem_of_getElem? found)
  | accept reply =>
      obtain ⟨⟨op, reply⟩, found, accepted⟩ := Option.bind_eq_some_iff.mp taken
      exact synced.accept (List.mem_of_getElem? found) accepted

theorem System.synced {labels : List Label} (run : Run System.step fits System.init labels s) :
    Synced s :=
  run.invariant (fun _ s => Synced s) .init fun _ _ _ _ _ synced allowed taken =>
    synced.step allowed taken

/-- With at most `2 ^ 32` clerks the data is at every moment the result of operations that
were issued, each executed once, in an order that respects that of each clerk, and among
them all whose call has returned; and the server does not panic. -/
theorem executed_exactly_once {labels : List Label}
    (run : Run System.step fits System.init labels s) :
    (∃ order, Explains s order) ∧ s.panicked = false :=
  ⟨⟨s.done, (System.synced run).explains⟩, (System.synced run).alive⟩

end

/-- The reply to an `Append` is lost, and the clerk sends the request again. -/
def sentTwice : List Label :=
  [.call 0 .append [107] [97], .deliver 0, .deliver 0, .accept 1]

theorem executed_exactly_once_sentTwice :
    ∃ s, Run System.step fits System.init sentTwice s ∧ s.kv.data [107] = some [97] ∧
      (∃ order, Explains s order) ∧ s.panicked = false := by
  obtain ⟨s, run, data⟩ :
      ∃ s, Run System.step fits System.init sentTwice s ∧ s.kv.data [107] = some [97] :=
    Run.exists_of_runSteps (by decide +kernel)
  exact ⟨s, run, data, executed_exactly_once run⟩

/-- Each clerk issues fewer than `2 ^ 32 - 1` calls. -/
def fewCalls (s : System) : Label → Prop
  | .call clerk .. => (byClerk clerk s.issued).length + 1 < 2 ^ 32 - 1
  | _ => True

instance (s : System) : (label : Label) → Decidable (fewCalls s label)
  | .call .. => inferInstanceAs (Decidable (_ < _))
  | .get .. | .deliver _ | .accept _ => .isTrue trivial

/-- Two clerks with the same identity append to one key. -/
def sameIdentity : List Label :=
  [.call 0 .append [107] [97], .deliver 0, .accept 0,
    .call (2 ^ 32) .append [107] [98], .deliver 1, .accept 1]

theorem eq_pair_of_nodup {first second : Op} {order : List Op} (once : order.Nodup)
    (hasFirst : first ∈ order) (hasSecond : second ∈ order) (differ : first ≠ second)
    (only : ∀ op ∈ order, op ∈ [first, second]) :
    order = [first, second] ∨ order = [second, first] := by
  rcases order with - | ⟨x, - | ⟨y, - | ⟨z, rest⟩⟩⟩
  · cases hasFirst
  · rw [List.mem_singleton] at hasFirst hasSecond
    exact (differ (hasFirst.trans hasSecond.symm)).elim
  all_goals simp only [List.mem_cons, List.not_mem_nil, or_false, List.nodup_cons] at *
  · grind
  · grind

/-- The call of the second clerk returns and is not executed. -/
theorem append_lost : ∃ s, Run System.step fewCalls System.init sameIdentity s ∧
    ¬ ((∃ order, Explains s order) ∧ s.panicked = false) := by
  obtain ⟨s, run, data, issued, first, second⟩ :
      ∃ s, Run System.step fewCalls System.init sameIdentity s ∧ s.kv.data [107] = some [97] ∧
        s.issued = [⟨0, 0, .append, [107], [97]⟩, ⟨2 ^ 32, 0, .append, [107], [98]⟩] ∧
        (⟨0, 0, .append, [107], [97]⟩, []) ∈ s.returned ∧
        (⟨2 ^ 32, 0, .append, [107], [98]⟩, []) ∈ s.returned :=
    Run.exists_of_runSteps (by decide +kernel)
  refine ⟨s, run, ?_⟩
  rintro ⟨⟨order, explains⟩, -⟩
  have either := eq_pair_of_nodup explains.once (explains.returned _ _ first)
    (explains.returned _ _ second) (by decide) (issued ▸ explains.issued)
  rw [explains.data] at data
  rcases either with rfl | rfl <;> exact absurd data (by decide)

end GoLab.KVSrv
