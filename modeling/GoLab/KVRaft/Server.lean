import GoLab.KVRaft.Store
import GoLab.Raft.Logs
import GoLab.Raft.Rpc

/-!
# The replicated key/value server (`kvraft/server.go`, `kvraft/applier.go`)

A request handler starts its command in Raft and waits on a channel; the apply loop matches
what Raft delivers with the commands started here and answers on the channel.  Both hold
`kv.mu` while they touch `startedCmds`, so each is one step.  What is sent on the channels is
kept in `answers`.
-/

namespace GoLab.KVRaft

open KVSrv (Str)
open Raft (ApplyMsg noopIndex)

inductive OpResult where
  | default
  | success
  | fail
  | unsync
  deriving DecidableEq, Repr

/-- What `OpArgs` points to. -/
inductive OpArgs where
  | getArgs (key : Str)
  | putAppendArgs (key value : Str)
  deriving DecidableEq, Repr

structure RpcArgs where
  clientID : Int
  rpcID : Int
  opArgs : OpArgs
  deriving DecidableEq, Repr

structure RpcReply where
  opRes : OpResult := .default
  rpcID : Int := 0
  opReply : Option Str := none
  deriving DecidableEq, Repr

inductive Op where
  | getOp
  | putOp (key value : Str)
  | appendOp (key value : Str)
  deriving DecidableEq, Repr

/-- The command given to Raft. -/
structure CmdEntry where
  clientID : Int
  rpcID : Int
  op : Op
  deriving DecidableEq, Repr

/-- A command started on this server.  `ch` is the number of the channel its handler waits
on; `args` is a pointer, `none` if it is nil. -/
structure CmdInfo where
  cmdIndex : Int
  clientID : Int
  rpcID : Int
  ch : Nat
  args : Option RpcArgs := none
  deriving DecidableEq, Repr

/-- A waiting handler is answered: the flag sent on its channel, the reply it returns, and
the index and the command whose delivery it was answered for. -/
structure Answer where
  info : CmdInfo
  index : Int
  entry : CmdEntry
  sent : Bool
  reply : RpcReply
  deriving DecidableEq, Repr

structure KVServer where
  /-- `lastRpcID` of each client. -/
  syncInfo : Int → Option Int
  startedCmds : List CmdInfo
  /-- How many channels have been made. -/
  channels : Nat
  store : Store
  answers : List Answer

/-- Why the process ends. -/
inductive Panic where
  | assertion
  | nilPointer
  | typeAssertion
  deriving DecidableEq, Repr

namespace KVServer

/-- `StartKVServer`. -/
def start : KVServer where
  syncInfo := fun _ => none
  startedCmds := []
  channels := 0
  store := fun _ => none
  answers := []

/-- `checkSync`: nothing writes `lastRpcID` after it is stored here. -/
def checkSync (kv : KVServer) (clientID rpcID : Int) (reply : RpcReply) :
    KVServer × RpcReply × Bool :=
  match kv.syncInfo clientID with
  | none =>
      ({ kv with syncInfo := fun other =>
          if other = clientID then some 1 else kv.syncInfo other }, reply, true)
  | some lastRpcID =>
      if lastRpcID ≠ rpcID then
        (kv, { reply with rpcID := lastRpcID - 1, opRes := .unsync }, false)
      else
        (kv, reply, true)

/-- `startOp` up to the point where it waits on its channel; `rfStart` is the answer of Raft
to `Start`.  The reply is `none` if the handler waits. -/
def startOp (kv : KVServer) (args : RpcArgs) (op : Op) (rfStart : CmdEntry → Option Int) :
    KVServer × Option RpcReply :=
  match kv.checkSync args.clientID args.rpcID {} with
  | (kv, reply, false) => (kv, some reply)
  | (kv, reply, true) =>
      match rfStart { clientID := args.clientID, rpcID := args.rpcID, op } with
      | none => (kv, some { reply with opRes := .fail })
      | some index =>
          ({ kv with
              channels := kv.channels + 1
              startedCmds := kv.startedCmds ++ [{
                cmdIndex := index
                clientID := args.clientID
                rpcID := args.rpcID
                ch := kv.channels }] }, none)

/-- A flag is sent to a waiting handler. -/
def answer (kv : KVServer) (info : CmdInfo) (index : Int) (entry : CmdEntry) (sent : Bool)
    (reply : RpcReply) : KVServer :=
  { kv with answers := kv.answers ++ [⟨info, index, entry, sent, reply⟩] }

/-- `checkMyStarted`: the waiting command, if what is applied is that command. -/
def checkMyStarted (kv : KVServer) (index : Int) (entry : CmdEntry) :
    Except Panic (KVServer × Option CmdInfo) :=
  match kv.startedCmds with
  | [] => .ok (kv, none)
  | info :: rest =>
      if info.cmdIndex < index then
        .error .assertion
      else if info.cmdIndex > index then
        .ok (kv, none)
      else
        let kv := { kv with startedCmds := rest }
        if info.clientID = entry.clientID ∧ info.rpcID = entry.rpcID then
          .ok (kv, some info)
        else
          .ok (kv.answer info index entry false { opRes := .fail }, none)

/-- `kv.get(cmdInfo.args.OpArgs.(*GetArgs).Key)`. -/
def getFor (kv : KVServer) (info : CmdInfo) : Except Panic Str :=
  match info.args with
  | none => .error .nilPointer
  | some args =>
      match args.opArgs with
      | .putAppendArgs _ _ => .error .typeAssertion
      | .getArgs key =>
          match kv.store.get key with
          | none => .error .typeAssertion
          | some value => .ok value

/-- The cases of `apply`. -/
def applyOp (kv : KVServer) (index : Int) (entry : CmdEntry) (info : Option CmdInfo) :
    Except Panic KVServer :=
  match entry.op with
  | .getOp =>
      match info with
      | none => .ok kv
      | some info => do
        let value ← kv.getFor info
        return kv.answer info index entry true { opRes := .success, opReply := some value }
  | .putOp key value =>
      let kv := { kv with store := kv.store.put key value }
      match info with
      | none => .ok kv
      | some info => .ok (kv.answer info index entry true { opRes := .success })
  | .appendOp key value =>
      match kv.store.append key value with
      | none => .error .typeAssertion
      | some (store, old) =>
          let kv := { kv with store }
          match info with
          | none => .ok kv
          | some info =>
              .ok (kv.answer info index entry true { opRes := .success, opReply := some old })

/-- One round of `apply`.  `installSnapshot` is empty, and a command that is no `CmdEntry`
fails the type assertion. -/
def apply (kv : KVServer) : ApplyMsg CmdEntry → Except Panic KVServer
  | .snapshot _ _ _ => .ok kv
  | .command index command =>
      if index = noopIndex then
        .ok kv
      else
        match command with
        | none => .error .typeAssertion
        | some entry => do
          let (kv, info) ← kv.checkMyStarted index entry
          kv.applyOp index entry info

end KVServer

/-! ## The running server -/

/-- The server, the last command index applied, and the panic that ended the process. -/
structure Service where
  kv : KVServer
  lastApplied : Option Int
  panicked : Option Panic

/-- A request arrives, with the answer Raft gives to its `Start`, or Raft delivers a
message. -/
inductive Label where
  | start (args : RpcArgs) (op : Op) (index : Option Int)
  | applied (msg : ApplyMsg CmdEntry)
  deriving DecidableEq, Repr

namespace Service

def init : Service where
  kv := .start
  lastApplied := none
  panicked := none

/-- The last command index applied after a message. -/
def appliedBy (s : Service) : ApplyMsg CmdEntry → Option Int
  | .snapshot _ _ _ => s.lastApplied
  | .command index _ => if index = noopIndex then s.lastApplied else some index

def step (label : Label) (s : Service) : Option Service :=
  if s.panicked.isSome then
    none
  else
    match label with
    | .start args op index => some { s with kv := (s.kv.startOp args op fun _ => index).1 }
    | .applied msg =>
        match s.kv.apply msg with
        | .error panic => some { s with panicked := some panic }
        | .ok kv => some { s with kv, lastApplied := s.appliedBy msg }

/-- Commands are delivered in increasing order of their index. -/
def Increasing (s : Service) : Label → Prop
  | .start _ _ _ => True
  | .applied (.snapshot _ _ _) => True
  | .applied (.command index _) =>
      index = noopIndex ∨ ∀ last ∈ s.lastApplied, last < index

/-- The last command index applied; the indices start with 1. -/
def reached (s : Service) : Int :=
  s.lastApplied.getD 0

/-- A command is started at an index above those applied and those pending, and while
commands are pending the commands are applied one after another. -/
def InSequence (s : Service) : Label → Prop
  | .start _ _ none => True
  | .start _ _ (some index) =>
      s.reached < index ∧ ∀ info ∈ s.kv.startedCmds, info.cmdIndex < index
  | .applied (.snapshot _ _ _) => True
  | .applied (.command index _) =>
      index = noopIndex ∨ s.kv.startedCmds = [] ∨ index = s.reached + 1

instance (s : Service) : (label : Label) → Decidable (s.Increasing label)
  | .start _ _ _ => inferInstanceAs (Decidable True)
  | .applied (.snapshot _ _ _) => inferInstanceAs (Decidable True)
  | .applied (.command _ _) => inferInstanceAs (Decidable (_ ∨ _))

instance (s : Service) : (label : Label) → Decidable (s.InSequence label)
  | .start _ _ none => inferInstanceAs (Decidable True)
  | .start _ _ (some _) => inferInstanceAs (Decidable (_ ∧ _))
  | .applied (.snapshot _ _ _) => inferInstanceAs (Decidable True)
  | .applied (.command _ _) => inferInstanceAs (Decidable (_ ∨ _))

end Service

end GoLab.KVRaft
