/-!
# The key/value server of lab 2 (`kvsrv/server.go`)

A handler runs as one step here.  Strings are their bytes, a `sync.Map` is a partial
function, and the counters are 32-bit words.  `none` as the result of a handler is the
panic of `syncRpcID`.
-/

namespace GoLab.KVSrv

/-- A Go `string`. -/
abbrev Str := List UInt8

structure PutAppendArgs where
  key : Str
  value : Str
  clientID : UInt32
  rpcID : UInt32
  deriving DecidableEq, Repr

structure PutAppendReply where
  rpcID : UInt32 := 0
  value : Str := []
  deriving DecidableEq, Repr

/-- `lastValue` is for the reply of a repeated `Append`. -/
structure SyncInfo where
  rpcID : UInt32
  lastValue : Str := []
  deriving DecidableEq, Repr

/-- The contents of `data`. -/
abbrev Data := Str → Option Str

/-- A key and its value are stored. -/
def Data.store (data : Data) (key value : Str) : Data :=
  fun other => if other = key then some value else data other

structure KVServer where
  data : Data
  clientsSync : UInt32 → Option SyncInfo

namespace KVServer

/-- `StartKVServer`. -/
def start : KVServer where
  data := fun _ => none
  clientsSync := fun _ => none

/-- The entry of a client, as `LoadOrStore` finds or makes it. -/
def syncInfo (kv : KVServer) (clientID : UInt32) : SyncInfo :=
  (kv.clientsSync clientID).getD { rpcID := 1 }

def setSync (kv : KVServer) (clientID : UInt32) (info : SyncInfo) : KVServer :=
  { kv with clientsSync := fun other =>
      if other = clientID then some info else kv.clientsSync other }

/-- `syncRpcID`; the flag tells the handler to go on. -/
def syncRpcID (kv : KVServer) (args : PutAppendArgs) :
    Option (KVServer × PutAppendReply × Bool) :=
  let info := kv.syncInfo args.clientID
  let kv := kv.setSync args.clientID info
  if info.rpcID > args.rpcID then
    some (kv, { rpcID := info.rpcID - 1, value := info.lastValue }, false)
  else if info.rpcID = args.rpcID then
    some (kv.setSync args.clientID { info with rpcID := info.rpcID + 1 },
      { rpcID := info.rpcID }, true)
  else
    none

/-- `Get`: the value of the reply, empty when there is none. -/
def get (kv : KVServer) (key : Str) : Str :=
  match kv.data key with
  | some value => value
  | none => []

/-- The first line of `Put` and `Append`: what comes after it is carried out only once. -/
def once (kv : KVServer) (args : PutAppendArgs)
    (rest : KVServer → PutAppendReply → KVServer × PutAppendReply) :
    Option (KVServer × PutAppendReply) :=
  match kv.syncRpcID args with
  | none => none
  | some (kv, reply, false) => some (kv, reply)
  | some (kv, reply, true) => some (rest kv reply)

/-- `Put`. -/
def put (kv : KVServer) (args : PutAppendArgs) : Option (KVServer × PutAppendReply) :=
  kv.once args fun kv reply =>
    match kv.data args.key with
    | none => ({ kv with data := kv.data.store args.key args.value }, reply)
    | some _ => ({ kv with data := kv.data.store args.key args.value }, reply)

/-- `Append`. -/
def append (kv : KVServer) (args : PutAppendArgs) : Option (KVServer × PutAppendReply) :=
  kv.once args fun kv reply =>
    match kv.data args.key with
    | none => ({ kv with data := kv.data.store args.key args.value }, reply)
    | some value =>
        let info := kv.syncInfo args.clientID
        let kv := kv.setSync args.clientID { info with lastValue := value }
        ({ kv with data := kv.data.store args.key (value ++ args.value) }, { reply with value })

end KVServer

/-- The two operations that change the data. -/
inductive Method where
  | put
  | append
  deriving DecidableEq, Repr

/-- The handler of a method. -/
def Method.handle : Method → KVServer → PutAppendArgs → Option (KVServer × PutAppendReply)
  | .put => KVServer.put
  | .append => KVServer.append

/-- What a method is for: the data it leaves behind. -/
def Method.effect (method : Method) (data : Data) (key value : Str) : Data :=
  match method with
  | .put => data.store key value
  | .append => data.store key ((data key).getD [] ++ value)

/-- What a method answers, given the value its key had before. -/
def Method.answer : Method → Option Str → Str
  | .put, _ => []
  | .append, before => before.getD []

/-! ## What a handler does -/

/-- The three branches of `syncRpcID`, with what comes after them. -/
inductive Once (kv : KVServer) (args : PutAppendArgs)
    (rest : KVServer → PutAppendReply → KVServer × PutAppendReply) :
    Option (KVServer × PutAppendReply) → Prop where
  | repeated {kv' : KVServer} (data : kv'.data = kv.data)
      (same : ∀ client, kv'.syncInfo client = kv.syncInfo client)
      (old : args.rpcID < (kv.syncInfo args.clientID).rpcID) :
      Once kv args rest (some (kv', {
        rpcID := (kv.syncInfo args.clientID).rpcID - 1
        value := (kv.syncInfo args.clientID).lastValue }))
  | next {kv' : KVServer} (data : kv'.data = kv.data)
      (others : ∀ client, client ≠ args.clientID → kv'.syncInfo client = kv.syncInfo client)
      (expected : (kv.syncInfo args.clientID).rpcID = args.rpcID)
      (counted : (kv'.syncInfo args.clientID).rpcID = args.rpcID + 1) :
      Once kv args rest (some (rest kv' { rpcID := args.rpcID }))
  | panicked (ahead : (kv.syncInfo args.clientID).rpcID < args.rpcID) : Once kv args rest none

/-- The outcomes of a handler: a repeated request is answered from what was kept for the
client, the next one of the client is executed. -/
inductive Handled (kv : KVServer) (method : Method) (args : PutAppendArgs) :
    KVServer → PutAppendReply → Prop where
  | repeated {kv' : KVServer} (data : kv'.data = kv.data)
      (same : ∀ client, kv'.syncInfo client = kv.syncInfo client)
      (old : args.rpcID < (kv.syncInfo args.clientID).rpcID) :
      Handled kv method args kv' {
        rpcID := (kv.syncInfo args.clientID).rpcID - 1
        value := (kv.syncInfo args.clientID).lastValue }
  | executed {kv' : KVServer} {reply : PutAppendReply}
      (data : kv'.data = method.effect kv.data args.key args.value)
      (others : ∀ client, client ≠ args.clientID → kv'.syncInfo client = kv.syncInfo client)
      (expected : (kv.syncInfo args.clientID).rpcID = args.rpcID)
      (counted : (kv'.syncInfo args.clientID).rpcID = args.rpcID + 1)
      (kept : ∀ value, method = .append → kv.data args.key = some value →
        (kv'.syncInfo args.clientID).lastValue = value)
      (rpcID : reply.rpcID = args.rpcID)
      (value : reply.value = method.answer (kv.data args.key)) :
      Handled kv method args kv' reply

section

variable {kv kv' : KVServer} {args : PutAppendArgs} {reply : PutAppendReply} {info : SyncInfo}
  {client : UInt32} {rest : KVServer → PutAppendReply → KVServer × PutAppendReply}

namespace KVServer

theorem syncInfo_setSync : (kv.setSync args.clientID info).syncInfo client =
    if client = args.clientID then info else kv.syncInfo client := by
  simp only [syncInfo, setSync]
  split <;> rfl

theorem once_once (kv : KVServer) (args : PutAppendArgs)
    (rest : KVServer → PutAppendReply → KVServer × PutAppendReply) :
    Once kv args rest (kv.once args rest) := by
  unfold once syncRpcID
  dsimp only
  by_cases old : (kv.syncInfo args.clientID).rpcID > args.rpcID
  · rw [if_pos old]
    refine .repeated rfl (fun client => ?_) old
    rw [syncInfo_setSync]
    split
    case isTrue same => rw [same]
    case isFalse => rfl
  · rw [if_neg old]
    by_cases expected : (kv.syncInfo args.clientID).rpcID = args.rpcID
    · rw [if_pos expected, expected]
      refine .next rfl (fun client differs => ?_) expected ?_
      · rw [syncInfo_setSync, syncInfo_setSync, if_neg differs, if_neg differs]
      · rw [syncInfo_setSync, if_pos rfl]
    · rw [if_neg expected]
      refine .panicked ?_
      rw [gt_iff_lt, UInt32.lt_iff_toNat_lt] at old
      rw [← UInt32.toNat_inj] at expected
      rw [UInt32.lt_iff_toNat_lt]
      omega

theorem put_handled (result : kv.put args = some (kv', reply)) :
    Handled kv .put args kv' reply := by
  unfold put at result
  generalize isRest : (fun _ _ => _) = rest at result
  have outcome := result ▸ once_once kv args rest
  generalize isResult : some (kv', reply) = out at outcome
  cases outcome with
  | repeated data same old =>
      cases isResult
      exact .repeated data same old
  | @next synced data others expected counted =>
      have effect : kv' = { synced with data := synced.data.store args.key args.value } ∧
          reply = { rpcID := args.rpcID } := by
        subst isRest
        dsimp only at isResult
        split at isResult <;> cases isResult <;> exact ⟨rfl, rfl⟩
      obtain ⟨rfl, rfl⟩ := effect
      exact .executed (by rw [Method.effect, data]) others expected counted nofun rfl rfl
  | panicked => cases isResult

theorem append_handled (result : kv.append args = some (kv', reply)) :
    Handled kv .append args kv' reply := by
  unfold append at result
  generalize isRest : (fun _ _ => _) = rest at result
  have outcome := result ▸ once_once kv args rest
  generalize isResult : some (kv', reply) = out at outcome
  cases outcome with
  | repeated data same old =>
      cases isResult
      exact .repeated data same old
  | @next synced data others expected counted =>
      subst isRest
      dsimp only at isResult
      split at isResult
      case h_1 missing =>
        cases isResult
        rw [data] at missing
        exact .executed (by simp [Method.effect, data, missing]) others expected counted
          (by simp [missing]) rfl (by simp [Method.answer, missing])
      case h_2 value found =>
        cases isResult
        rw [data] at found
        refine .executed ?_ (fun client differs => ?_) expected ?_ ?_ rfl ?_
        · simp [Method.effect, data, found, setSync]
        · exact (syncInfo_setSync.trans (if_neg differs)).trans (others client differs)
        · exact (congrArg SyncInfo.rpcID (syncInfo_setSync.trans (if_pos rfl))).trans counted
        · intro value' _ same
          cases found.symm.trans same
          exact congrArg SyncInfo.lastValue (syncInfo_setSync.trans (if_pos rfl))
        · simp [Method.answer, found]
  | panicked => cases isResult

/-- A handler panics only if the client is ahead of the server. -/
theorem once_eq_none (result : kv.once args rest = none) :
    (kv.syncInfo args.clientID).rpcID < args.rpcID := by
  have outcome := result ▸ once_once kv args rest
  cases outcome with
  | panicked ahead => exact ahead

end KVServer

/-- Each method has the two outcomes. -/
theorem Method.handle_handled {method : Method}
    (result : method.handle kv args = some (kv', reply)) :
    Handled kv method args kv' reply := by
  cases method with
  | put => exact KVServer.put_handled result
  | append => exact KVServer.append_handled result

theorem Method.handle_eq_none {method : Method} (result : method.handle kv args = none) :
    (kv.syncInfo args.clientID).rpcID < args.rpcID := by
  cases method with
  | put | append => exact KVServer.once_eq_none result

end

end GoLab.KVSrv
