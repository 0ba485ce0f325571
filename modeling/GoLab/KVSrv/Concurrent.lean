import GoLab.KVSrv.Server
import GoLab.Lib.CellMap
import GoLab.Lib.Linearization
import GoLab.Lib.Run

/-!
# Handlers that run side by side (`kvsrv/server.go`)

Each handler is a thread of its own here.  A step of it is a call of `Load` or
`LoadOrStore` of a `sync.Map`, the use of the client's `SyncInfo`, or the section under the
lock of a `Value`.  The entry of `data` for a key points to a `Value` that stays the same.

`history` is what the callers see; the code has nothing of it.
-/

namespace GoLab.KVSrv

/-- A request for one of the three handlers. -/
inductive Call where
  | get (key : Str)
  | update (method : Method) (args : PutAppendArgs)
  deriving DecidableEq, Repr

/-- `GetReply` and `PutAppendReply`. -/
inductive Answer where
  | got (value : Str)
  | updated (reply : PutAppendReply)
  deriving DecidableEq, Repr

/-- One handler after the other, each as a single step. -/
def KVServer.serve (kv : KVServer) : Call → Option (KVServer × Answer)
  | .get key => some (kv, .got (kv.get key))
  | .update method args =>
      (method.handle kv args).map fun (kv, reply) => (kv, .updated reply)

/-- What a handler is about to do. -/
inductive Pc where
  /-- `Get`: `kv.data.Load` -/
  | load
  /-- `Get`: the section under `RLock` of the value that was found -/
  | read (cell : Nat)
  /-- `syncRpcID`: `kv.clientsSync.LoadOrStore` -/
  | sync
  /-- `syncRpcID`: the comparison with the counter in the entry -/
  | check
  /-- `Put` and `Append`: `kv.data.LoadOrStore` -/
  | store (reply : PutAppendReply)
  /-- `Put` and `Append`: the section under `Lock` of the value that was found -/
  | locked (cell : Nat) (reply : PutAppendReply)
  /-- the handler has returned, the reply is on its way -/
  | answer (answer : Answer)
  | answered
  deriving DecidableEq, Repr

structure Handler where
  call : Call
  pc : Pc
  deriving DecidableEq, Repr

/-- Where the handler of a request begins. -/
def Call.entry : Call → Pc
  | .get _ => .load
  | .update .. => .sync

/-- The server with the handlers that have been started. -/
structure Server where
  data : CellMap Str Str
  clientsSync : UInt32 → Option SyncInfo
  panicked : Bool
  handlers : List Handler
  history : List (CallEvent Call Answer)

/-- A request arrives, or a handler takes its next step. -/
inductive Step where
  | invoke (call : Call)
  | advance (handler : Nat)
  deriving DecidableEq, Repr

namespace Server

def init (data : CellMap Str Str) (clientsSync : UInt32 → Option SyncInfo) : Server where
  data
  clientsSync
  panicked := false
  handlers := []
  history := []

/-- What the server holds. -/
def kv (s : Server) : KVServer where
  data := s.data.contents
  clientsSync := s.clientsSync

def setSync (s : Server) (clientID : UInt32) (info : SyncInfo) : Server :=
  { s with clientsSync := (s.kv.setSync clientID info).clientsSync }

/-- The handler goes on with `pc`. -/
def goto (s : Server) (id : Nat) (call : Call) (pc : Pc) : Server :=
  { s with handlers := s.handlers.set id ⟨call, pc⟩ }

/-- The last lines of `Put`. -/
def putLocked (s : Server) (cell : Nat) (args : PutAppendArgs) : Server :=
  { s with data := s.data.write cell args.value }

/-- The last lines of `Append`, with the value that the cell has. -/
def appendLocked (s : Server) (cell : Nat) (args : PutAppendArgs) (value : Str) : Server :=
  let s := s.setSync args.clientID
    { s.kv.syncInfo args.clientID with lastValue := value }
  { s with data := s.data.write cell (value ++ args.value) }

/-- The next step of a handler. -/
def handlerStep (s : Server) (id : Nat) : Handler → Option Server
  | ⟨.get key, .load⟩ =>
      match s.data.cells key with
      | none => some (s.goto id (.get key) (.answer (.got [])))
      | some cell => some (s.goto id (.get key) (.read cell))
  | ⟨.get key, .read cell⟩ =>
      (s.data.values[cell]?).map fun value =>
        s.goto id (.get key) (.answer (.got value))
  | ⟨.update method args, .sync⟩ =>
      let s := s.setSync args.clientID (s.kv.syncInfo args.clientID)
      some (s.goto id (.update method args) .check)
  | ⟨.update method args, .check⟩ =>
      let info := s.kv.syncInfo args.clientID
      if info.rpcID > args.rpcID then
        some (s.goto id (.update method args)
          (.answer (.updated { rpcID := info.rpcID - 1, value := info.lastValue })))
      else if info.rpcID = args.rpcID then
        let s := s.setSync args.clientID { info with rpcID := info.rpcID + 1 }
        some (s.goto id (.update method args) (.store { rpcID := info.rpcID }))
      else
        some { s with panicked := true }
  | ⟨.update method args, .store reply⟩ =>
      match s.data.cells args.key with
      | none =>
          let s := { s with data := s.data.insert args.key args.value }
          some (s.goto id (.update method args) (.answer (.updated reply)))
      | some cell => some (s.goto id (.update method args) (.locked cell reply))
  | ⟨.update .put args, .locked cell reply⟩ =>
      some ((s.putLocked cell args).goto id (.update .put args) (.answer (.updated reply)))
  | ⟨.update .append args, .locked cell reply⟩ =>
      (s.data.values[cell]?).map fun value =>
        (s.appendLocked cell args value).goto id (.update .append args)
          (.answer (.updated { reply with value }))
  | ⟨call, .answer answer⟩ =>
      let s : Server := { s with history := s.history ++ [.respond id answer] }
      some (s.goto id call .answered)
  | _ => none

/-- One step; nothing happens after a panic. -/
def step (label : Step) (s : Server) : Option Server :=
  if s.panicked then
    none
  else
    match label with
    | .invoke call =>
        some { s with
          handlers := s.handlers ++ [⟨call, call.entry⟩]
          history := s.history ++ [.invoke s.handlers.length call] }
    | .advance id => (s.handlers[id]?).bind (s.handlerStep id)

end Server

/-- The client of a request; a `GetArgs` does not name it. -/
def Call.client : Call → Option UInt32
  | .get _ => none
  | .update _ args => some args.clientID

/-- A `Put` or `Append` is the next one of its client, and none of the client is running. -/
def noRetry (s : Server) : Step → Prop
  | .invoke (.update _ args) =>
      (∀ h ∈ s.handlers, h.pc ≠ .answered → h.call.client ≠ some args.clientID) ∧
        args.rpcID = (s.kv.syncInfo args.clientID).rpcID
  | _ => True

instance (s : Server) : (label : Step) → Decidable (noRetry s label)
  | .invoke (.update ..) => inferInstanceAs (Decidable (_ ∧ _))
  | .invoke (.get _) | .advance _ => .isTrue trivial

end GoLab.KVSrv
