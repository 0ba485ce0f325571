import GoLab.KVSrv.Concurrent

/-!
# Handlers of different clients are linearizable

A `Put` or an `Append` takes effect when it stores its key, if there is none, and otherwise
in the section under the lock of the value; a `Get` takes effect when it finds no key, and
otherwise when it reads the value.  In that order the handlers, run one at a time, give the
same replies and leave the same data.
-/

namespace GoLab.KVSrv

/-- The client of a `Put` or `Append` that has not taken effect. -/
def Handler.waits (h : Handler) : Option UInt32 :=
  match h.pc with
  | .sync | .check | .store _ | .locked .. => h.call.client
  | .load | .read _ | .answer _ | .answered => none

/-- A handler together with the server `kv` on which the calls of `order` were carried out
one at a time. -/
inductive Stage (s : Server) (order : List (CallEffect Call Answer)) (kv : KVServer) (id : Nat) :
    Handler → Prop where
  | load {key : Str} (new : id ∉ inEffect order) : Stage s order kv id ⟨.get key, .load⟩
  | read {key : Str} {cell : Nat} (new : id ∉ inEffect order)
      (found : s.data.cells key = some cell) : Stage s order kv id ⟨.get key, .read cell⟩
  | sync {method : Method} {args : PutAppendArgs} (new : id ∉ inEffect order)
      (expected : (s.kv.syncInfo args.clientID).rpcID = args.rpcID)
      (next : (kv.syncInfo args.clientID).rpcID = args.rpcID) :
      Stage s order kv id ⟨.update method args, .sync⟩
  | check {method : Method} {args : PutAppendArgs} (new : id ∉ inEffect order)
      (expected : (s.kv.syncInfo args.clientID).rpcID = args.rpcID)
      (next : (kv.syncInfo args.clientID).rpcID = args.rpcID) :
      Stage s order kv id ⟨.update method args, .check⟩
  | store {method : Method} {args : PutAppendArgs} (new : id ∉ inEffect order)
      (counted : (s.kv.syncInfo args.clientID).rpcID = args.rpcID + 1)
      (next : (kv.syncInfo args.clientID).rpcID = args.rpcID) :
      Stage s order kv id ⟨.update method args, .store { rpcID := args.rpcID }⟩
  | locked {method : Method} {args : PutAppendArgs} {cell : Nat} (new : id ∉ inEffect order)
      (counted : (s.kv.syncInfo args.clientID).rpcID = args.rpcID + 1)
      (next : (kv.syncInfo args.clientID).rpcID = args.rpcID)
      (found : s.data.cells args.key = some cell) :
      Stage s order kv id ⟨.update method args, .locked cell { rpcID := args.rpcID }⟩
  | answer {call : Call} {answer : Answer} (effective : ⟨id, call, answer⟩ ∈ order) :
      Stage s order kv id ⟨call, .answer answer⟩
  | answered {call : Call} {answer : Answer} (responded : .respond id answer ∈ s.history) :
      Stage s order kv id ⟨call, .answered⟩

/-- The calls of `order`, carried out one at a time, explain what has happened so far. -/
structure Simulates (start : KVServer) (s : Server) (order : List (CallEffect Call Answer))
    (kv : KVServer) : Prop where
  alive : s.panicked = false
  linearizes : Linearizes KVServer.serve start s.history order kv
  data : kv.data = s.data.contents
  invoked : ∀ (id : Nat) (h : Handler), s.handlers[id]? = some h → .invoke id h.call ∈ s.history
  known : ∀ id call, .invoke id call ∈ s.history → id < s.handlers.length
  stages : ∀ (id : Nat) (h : Handler), s.handlers[id]? = some h → Stage s order kv id h
  apart : ∀ (id other : Nat) (h h' : Handler) (client : UInt32), s.handlers[id]? = some h →
    s.handlers[other]? = some h' → h.waits = some client → h'.waits = some client → id = other
  level : ∀ client, (∀ h ∈ s.handlers, h.waits ≠ some client) →
    (kv.syncInfo client).rpcID = (s.kv.syncInfo client).rpcID

section

variable {s s' : Server} {order order' : List (CallEffect Call Answer)} {start kv kv' : KVServer}
  {id other : Nat} {h : Handler} {call : Call} {pc : Pc} {args : PutAppendArgs} {answer : Answer}
  {client : UInt32} {info : SyncInfo}

/-- What a handler relies on is not touched by the steps of others. -/
theorem Stage.frame (stage : Stage s order kv id h)
    (cells : ∀ key cell, s.data.cells key = some cell → s'.data.cells key = some cell)
    (history : ∀ event ∈ s.history, event ∈ s'.history)
    (grows : ∀ effect ∈ order, effect ∈ order')
    (notHere : id ∈ inEffect order' → id ∈ inEffect order)
    (counter : ∀ client, h.waits = some client →
      (s'.kv.syncInfo client).rpcID = (s.kv.syncInfo client).rpcID)
    (next : ∀ client, h.waits = some client →
      (kv'.syncInfo client).rpcID = (kv.syncInfo client).rpcID) :
    Stage s' order' kv' id h := by
  cases stage with
  | load new => exact .load (mt notHere new)
  | read new found => exact .read (mt notHere new) (cells _ _ found)
  | sync new expected isNext =>
      exact .sync (mt notHere new) ((counter _ rfl).trans expected) ((next _ rfl).trans isNext)
  | check new expected isNext =>
      exact .check (mt notHere new) ((counter _ rfl).trans expected) ((next _ rfl).trans isNext)
  | store new counted isNext =>
      exact .store (mt notHere new) ((counter _ rfl).trans counted) ((next _ rfl).trans isNext)
  | locked new counted isNext found =>
      exact .locked (mt notHere new) ((counter _ rfl).trans counted) ((next _ rfl).trans isNext)
        (cells _ _ found)
  | answer effective => exact .answer (grows _ effective)
  | answered responded => exact .answered (history _ responded)

/-- The next request of a client is executed when it is served. -/
theorem KVServer.serve_update (method : Method)
    (next : (kv.syncInfo args.clientID).rpcID = args.rpcID) :
    ∃ kv', kv.serve (.update method args) =
        some (kv', .updated ⟨args.rpcID, method.answer (kv.data args.key)⟩) ∧
      kv'.data = method.effect kv.data args.key args.value ∧
      (∀ client, client ≠ args.clientID → kv'.syncInfo client = kv.syncInfo client) ∧
      (kv'.syncInfo args.clientID).rpcID = args.rpcID + 1 := by
  cases result : method.handle kv args with
  | none => exact absurd (Method.handle_eq_none result) (by rw [next]; exact UInt32.lt_irrefl _)
  | some out =>
      obtain ⟨kv', reply⟩ := out
      cases Method.handle_handled result with
      | repeated _ _ old => exact absurd old (by rw [next]; exact UInt32.lt_irrefl _)
      | executed data others _ counted _ rpcID value =>
          refine ⟨kv', ?_, data, others, counted⟩
          rw [KVServer.serve, result, ← rpcID, ← value]
          rfl

theorem Server.handlerStep_answer : s.handlerStep id ⟨call, .answer answer⟩ =
    some (({ s with history := s.history ++ [.respond id answer] } : Server).goto id call
      .answered) := by
  cases call with
  | get => rfl
  | update method => cases method <;> rfl

theorem Server.handlerStep_answered : s.handlerStep id ⟨call, .answered⟩ = none := by
  cases call with
  | get => rfl
  | update method => cases method <;> rfl

namespace Simulates

theorem init (data : CellMap Str Str) (clientsSync : UInt32 → Option SyncInfo) :
    Simulates (Server.init data clientsSync).kv (Server.init data clientsSync) []
      (Server.init data clientsSync).kv where
  alive := rfl
  linearizes := .nil
  data := rfl
  invoked := by simp [Server.init]
  known := by simp [Server.init]
  stages := by simp [Server.init]
  apart := by simp [Server.init]
  level := fun _ _ => rfl

section

variable (simulates : Simulates start s order kv)
include simulates

/-- A request arrives. -/
theorem invoke (allowed : noRetry s (.invoke call)) :
    Simulates start { s with
      handlers := s.handlers ++ [⟨call, call.entry⟩]
      history := s.history ++ [.invoke s.handlers.length call] } order kv := by
  have new : s.handlers.length ∉ inEffect order := by
    intro inside
    obtain ⟨effect, member, isId⟩ := mem_inEffect.mp inside
    have below := simulates.known _ _ (simulates.linearizes.invoked effect member)
    omega
  have split {id : Nat} {h : Handler} (found : (s.handlers ++ [⟨call, call.entry⟩])[id]? = some h) :
      s.handlers[id]? = some h ∨ id = s.handlers.length ∧ h = ⟨call, call.entry⟩ := by
    rw [List.getElem?_append] at found
    split at found
    case isTrue => exact .inl found
    case isFalse past =>
      have last := (List.getElem?_eq_some_iff.mp found).1
      simp only [List.length_singleton] at last
      have isFirst : id - s.handlers.length = 0 := by omega
      rw [isFirst] at found
      cases found
      exact .inr ⟨by omega, rfl⟩
  have free (client : UInt32) (isClient : (⟨call, call.entry⟩ : Handler).waits = some client) :
      (∀ h ∈ s.handlers, h.waits ≠ some client) ∧ ∃ method args, call = .update method args ∧
        args.clientID = client ∧ (s.kv.syncInfo client).rpcID = args.rpcID := by
    cases call with
    | get key => cases isClient
    | update method args =>
        cases isClient
        obtain ⟨idle, expected⟩ := allowed
        refine ⟨fun h member waits => ?_, method, args, rfl, rfl, expected.symm⟩
        obtain ⟨hCall, hPc⟩ := h
        cases hPc with
        | sync | check | store _ | locked => exact idle _ member nofun waits
        | load | read _ | answer _ | answered => cases waits
  refine ⟨simulates.alive, simulates.linearizes.invoke new, simulates.data, ?_, ?_, ?_, ?_, ?_⟩
  · intro id h found
    rcases split found with earlier | ⟨rfl, rfl⟩
    · exact List.mem_append_left _ (simulates.invoked id h earlier)
    · exact List.mem_append_right _ (List.mem_singleton_self _)
  · intro id other member
    rw [List.length_append, List.length_singleton]
    rcases List.mem_append.mp member with earlier | isNew
    · exact Nat.lt_succ_of_lt (simulates.known id other earlier)
    · cases List.mem_singleton.mp isNew
      exact Nat.lt_succ_self _
  · intro id h found
    rcases split found with earlier | ⟨rfl, rfl⟩
    · exact (simulates.stages id h earlier).frame (fun _ _ found => found)
        (fun _ member => List.mem_append_left _ member) (fun _ member => member)
        (fun inside => inside) (fun _ _ => rfl) (fun _ _ => rfl)
    · cases call with
      | get key => exact .load new
      | update method args =>
          obtain ⟨nobody, _, _, isCall, -, expected⟩ := free args.clientID rfl
          cases isCall
          exact .sync new expected ((simulates.level args.clientID nobody).trans expected)
  · intro id other h h' client found found' waits waits'
    rcases split found with earlier | ⟨rfl, rfl⟩ <;> rcases split found' with earlier' | ⟨rfl, rfl⟩
    · exact simulates.apart id other h h' client earlier earlier' waits waits'
    · exact ((free client waits').1 h (List.mem_of_getElem? earlier) waits).elim
    · exact ((free client waits).1 h' (List.mem_of_getElem? earlier') waits').elim
    · rfl
  · intro client nobody
    exact simulates.level client fun h member =>
      nobody h (List.mem_append_left _ member)

/-- A handler moves on.  The counters of other clients stay, and when the handler has
taken effect the counter of its own client is the one of the server. -/
theorem moved {pc' : Pc} (found : s.handlers[id]? = some ⟨call, pc⟩)
    (alive : s'.panicked = s.panicked) (handlers : s'.handlers = s.handlers.set id ⟨call, pc'⟩)
    (linearizes : Linearizes KVServer.serve start s'.history order' kv')
    (data : kv'.data = s'.data.contents)
    (cells : ∀ key cell, s.data.cells key = some cell → s'.data.cells key = some cell)
    (history : ∀ event ∈ s.history, event ∈ s'.history)
    (calls : ∀ id call, .invoke id call ∈ s'.history → .invoke id call ∈ s.history)
    (grows : ∀ effect ∈ order, effect ∈ order')
    (only : ∀ other, other ≠ id → other ∈ inEffect order' → other ∈ inEffect order)
    (counter : ∀ client, (⟨call, pc⟩ : Handler).waits ≠ some client →
      (s'.kv.syncInfo client).rpcID = (s.kv.syncInfo client).rpcID)
    (next : ∀ client, (⟨call, pc⟩ : Handler).waits ≠ some client →
      (kv'.syncInfo client).rpcID = (kv.syncInfo client).rpcID)
    (waits : ∀ client, (⟨call, pc'⟩ : Handler).waits = some client →
      (⟨call, pc⟩ : Handler).waits = some client)
    (released : ∀ client, (⟨call, pc⟩ : Handler).waits = some client →
      (⟨call, pc'⟩ : Handler).waits ≠ some client →
      (kv'.syncInfo client).rpcID = (s'.kv.syncInfo client).rpcID)
    (stage : Stage s' order' kv' id ⟨call, pc'⟩) : Simulates start s' order' kv' := by
  have inside := (List.getElem?_eq_some_iff.mp found).1
  have split {other : Nat} {h : Handler} (here : s'.handlers[other]? = some h) :
      other = id ∧ h = ⟨call, pc'⟩ ∨ other ≠ id ∧ s.handlers[other]? = some h := by
    rw [handlers, List.getElem?_set] at here
    split at here
    case isTrue same =>
      cases here
      exact .inl ⟨same.symm, rfl⟩
    case isFalse differs => exact .inr ⟨Ne.symm differs, here⟩
  have apart {other : Nat} {h : Handler} {client : UInt32} (differs : other ≠ id)
      (here : s.handlers[other]? = some h) (isClient : h.waits = some client) :
      (⟨call, pc⟩ : Handler).waits ≠ some client := fun same =>
    differs (simulates.apart other id h _ client here found isClient same)
  refine ⟨alive.trans simulates.alive, linearizes, data, ?_, ?_, ?_, ?_, ?_⟩
  · intro other h here
    rcases split here with ⟨rfl, rfl⟩ | ⟨-, here⟩
    · exact history _ (simulates.invoked _ ⟨call, pc⟩ found)
    · exact history _ (simulates.invoked other h here)
  · intro other call' member
    rw [handlers, List.length_set]
    exact simulates.known other call' (calls other call' member)
  · intro other h here
    rcases split here with ⟨rfl, rfl⟩ | ⟨differs, here⟩
    · exact stage
    · exact (simulates.stages other h here).frame cells history grows (only other differs)
        (fun client isClient => counter client (apart differs here isClient))
        (fun client isClient => next client (apart differs here isClient))
  · intro first second h h' client here here' isClient isClient'
    rcases split here with ⟨rfl, rfl⟩ | ⟨differs, here⟩ <;>
      rcases split here' with ⟨rfl, rfl⟩ | ⟨differs', here'⟩
    · rfl
    · exact (apart differs' here' isClient' (waits client isClient)).elim
    · exact (apart differs here isClient (waits client isClient')).elim
    · exact simulates.apart first second h h' client here here' isClient isClient'
  · intro client nobody
    by_cases own : (⟨call, pc⟩ : Handler).waits = some client
    · refine released client own (nobody _ ?_)
      rw [handlers]
      exact List.mem_set inside _
    · rw [next client own, counter client own]
      refine simulates.level client fun h member isClient => ?_
      obtain ⟨other, here⟩ := List.mem_iff_getElem?.mp member
      have differs : other ≠ id := by
        rintro rfl
        cases here.symm.trans found
        exact own isClient
      refine nobody h ?_ isClient
      rw [handlers]
      refine List.mem_iff_getElem?.mpr ⟨other, ?_⟩
      rw [List.getElem?_set_ne (Ne.symm differs)]
      exact here

/-- A step that is not seen from outside and after which the handler still waits. -/
theorem quiet {pc' : Pc} (found : s.handlers[id]? = some ⟨call, pc⟩)
    {clientsSync : UInt32 → Option SyncInfo}
    (counter : ∀ client, (⟨call, pc⟩ : Handler).waits ≠ some client →
      (({ s with clientsSync } : Server).kv.syncInfo client).rpcID =
        (s.kv.syncInfo client).rpcID)
    (waits : (⟨call, pc'⟩ : Handler).waits = (⟨call, pc⟩ : Handler).waits)
    (stage : Stage { s with clientsSync } order kv id ⟨call, pc'⟩) :
    Simulates start (({ s with clientsSync } : Server).goto id call pc') order kv :=
  simulates.moved found rfl rfl simulates.linearizes simulates.data (fun _ _ here => here)
    (fun _ member => member) (fun _ _ member => member) (fun _ member => member)
    (fun _ _ member => member) counter (fun _ _ => rfl) (fun _ isClient => waits ▸ isClient)
    (fun _ isClient differs => (differs (waits ▸ isClient)).elim)
    (stage.frame (fun _ _ here => here) (fun _ member => member) (fun _ member => member)
      (fun member => member) (fun _ _ => rfl) (fun _ _ => rfl))

/-- A handler takes effect: the call is carried out on the server of the sequential run. -/
theorem commit (found : s.handlers[id]? = some ⟨call, pc⟩) (new : id ∉ inEffect order)
    (served : kv.serve call = some (kv', answer)) {data : CellMap Str Str}
    {clientsSync : UInt32 → Option SyncInfo} (contents : kv'.data = data.contents)
    (cells : ∀ key cell, s.data.cells key = some cell → data.cells key = some cell)
    (counter : ∀ client, (({ s with data, clientsSync } : Server).kv.syncInfo client).rpcID =
      (s.kv.syncInfo client).rpcID) (next : ∀ client, (⟨call, pc⟩ : Handler).waits ≠ some client →
      (kv'.syncInfo client).rpcID = (kv.syncInfo client).rpcID)
    (released : ∀ client, (⟨call, pc⟩ : Handler).waits = some client →
      (kv'.syncInfo client).rpcID = (s.kv.syncInfo client).rpcID) :
    Simulates start (({ s with data, clientsSync } : Server).goto id call (.answer answer))
      (order ++ [⟨id, call, answer⟩]) kv' :=
  simulates.moved found rfl rfl
    (simulates.linearizes.commit new (simulates.invoked id _ found) served) contents cells
    (fun _ member => member) (fun _ _ member => member)
    (fun _ member => List.mem_append_left _ member)
    (fun other differs member => by
      rw [inEffect_append] at member
      rcases List.mem_append.mp member with earlier | isNew
      · exact earlier
      · exact (differs (List.mem_singleton.mp isNew)).elim)
    (fun client _ => counter client) next nofun
    (fun client isClient _ => (released client isClient).trans (counter client).symm)
    (.answer (List.mem_append_right _ (List.mem_singleton_self _)))

/-- The reply of a handler arrives. -/
theorem respond (found : s.handlers[id]? = some ⟨call, .answer answer⟩) :
    Simulates start (({ s with
      history := s.history ++ [.respond id answer] } : Server).goto id call .answered)
      order kv := by
  cases simulates.stages id _ found with
  | answer effective =>
      refine simulates.moved found rfl rfl (simulates.linearizes.respond effective)
        simulates.data (fun _ _ here => here) (fun _ member => List.mem_append_left _ member)
        (fun other call' member => ?_) (fun _ member => member) (fun _ _ member => member)
        (fun _ _ => rfl) (fun _ _ => rfl) nofun nofun
        (.answered (List.mem_append_right _ (List.mem_singleton_self _)))
      simpa [Server.goto] using member

/-- A `Put` or an `Append` takes effect. -/
theorem commit_update {method : Method} (found : s.handlers[id]? = some ⟨.update method args, pc⟩)
    (new : id ∉ inEffect order)
    (waits : (⟨.update method args, pc⟩ : Handler).waits = some args.clientID)
    (counted : (s.kv.syncInfo args.clientID).rpcID = args.rpcID + 1)
    (next : (kv.syncInfo args.clientID).rpcID = args.rpcID) {data : CellMap Str Str}
    {clientsSync : UInt32 → Option SyncInfo}
    (contents : data.contents = method.effect s.data.contents args.key args.value)
    (cells : ∀ key cell, s.data.cells key = some cell → data.cells key = some cell)
    (counter : ∀ client, (({ s with data, clientsSync } : Server).kv.syncInfo client).rpcID =
      (s.kv.syncInfo client).rpcID) :
    ∃ order kv, Simulates start (({ s with data, clientsSync } : Server).goto id
      (.update method args) (.answer (.updated
        ⟨args.rpcID, method.answer (s.data.contents args.key)⟩))) order kv := by
  obtain ⟨kv', served, effect, others, counted'⟩ := KVServer.serve_update method next
  rw [simulates.data] at served effect
  refine ⟨_, kv', simulates.commit found new served (effect.trans contents.symm) cells counter
    (fun client differs => ?_) (fun client isClient => ?_)⟩
  · rw [others client fun same => differs (waits.trans (congrArg some same.symm))]
  · cases waits.symm.trans isClient
    exact counted'.trans counted.symm

/-- A `Get` takes effect. -/
theorem commit_get {key : Str} (found : s.handlers[id]? = some ⟨.get key, pc⟩)
    (new : id ∉ inEffect order) (noClient : (⟨.get key, pc⟩ : Handler).waits = none) {value : Str}
    (isValue : (s.data.contents key).getD [] = value) :
    ∃ order kv, Simulates start (s.goto id (.get key) (.answer (.got value))) order kv := by
  have served : kv.serve (.get key) = some (kv, .got value) := by
    rw [KVServer.serve, KVServer.get, simulates.data, ← isValue]
    cases s.data.contents key with
    | none | some _ => rfl
  exact ⟨_, kv, simulates.commit found new served simulates.data (fun _ _ here => here)
    (fun _ => rfl) (fun _ _ => rfl) fun _ isClient => absurd (noClient.symm.trans isClient) nofun⟩

/-- The handler of a `Put` or `Append` that has found its key is in the section under the
lock of the value. -/
theorem locked {method : Method} {cell : Nat} {reply : PutAppendReply}
    (found : s.handlers[id]? = some ⟨.update method args, .locked cell reply⟩)
    (taken : s.handlerStep id ⟨.update method args, .locked cell reply⟩ = some s') :
    ∃ order kv, Simulates start s' order kv := by
  cases simulates.stages id _ found with
  | locked new counted next isCell =>
      have contents := CellMap.contents_of_cells isCell
      cases method with
      | put =>
          cases taken
          exact simulates.commit_update found new rfl counted next
            (CellMap.contents_write isCell) (fun _ _ here => here) (fun _ => rfl)
      | append =>
          obtain ⟨value, isValue, rfl⟩ := Option.map_eq_some_iff.mp taken
          rw [isValue] at contents
          have answer : value = Method.answer .append (s.data.contents args.key) := by
            rw [contents]
            rfl
          have written : (s.data.write cell (value ++ args.value)).contents =
              Method.effect .append s.data.contents args.key args.value := by
            rw [CellMap.contents_write isCell, Method.effect, contents]
            rfl
          have counter (client : UInt32) :
              ((s.appendLocked cell args value).kv.syncInfo client).rpcID =
                (s.kv.syncInfo client).rpcID := by
            change ((s.kv.setSync args.clientID _).syncInfo client).rpcID = _
            rw [KVServer.syncInfo_setSync]
            split
            case isTrue same => rw [same]
            case isFalse => rfl
          have moved := simulates.commit_update found new rfl counted next written
            (fun _ _ here => here) counter
          rw [← answer] at moved
          exact moved

theorem handlerStep (found : s.handlers[id]? = some h) (taken : s.handlerStep id h = some s') :
    ∃ order kv, Simulates start s' order kv := by
  cases simulates.stages id h found with
  | @load key new =>
      simp only [Server.handlerStep] at taken
      split at taken
      case h_1 missing =>
        cases taken
        exact simulates.commit_get found new rfl (by simp [CellMap.contents, missing])
      case h_2 cell isCell =>
        cases taken
        exact ⟨order, kv, simulates.quiet found (fun _ _ => rfl) rfl (.read new isCell)⟩
  | @read key cell new isCell =>
      obtain ⟨value, isValue, rfl⟩ := Option.map_eq_some_iff.mp taken
      exact simulates.commit_get found new rfl (by
        rw [CellMap.contents_of_cells isCell, isValue]
        rfl)
  | @sync method args new expected next =>
      cases taken
      have same (client : UInt32) :
          ((s.setSync args.clientID (s.kv.syncInfo args.clientID)).kv.syncInfo client).rpcID =
            (s.kv.syncInfo client).rpcID := by
        change ((s.kv.setSync args.clientID _).syncInfo client).rpcID = _
        rw [KVServer.syncInfo_setSync]
        split
        case isTrue isClient => rw [isClient]
        case isFalse => rfl
      exact ⟨order, kv, simulates.quiet found (fun client _ => same client) rfl
        (.check new ((same _).trans expected) next)⟩
  | @check method args new expected next =>
      simp only [Server.handlerStep, expected, gt_iff_lt, UInt32.lt_irrefl, if_false,
        if_true] at taken
      cases taken
      refine ⟨order, kv, simulates.quiet found (fun client differs => ?_) rfl
        (.store new ?_ next)⟩
      · change ((s.kv.setSync args.clientID _).syncInfo client).rpcID = _
        rw [KVServer.syncInfo_setSync, if_neg fun same => differs (congrArg some same.symm)]
      · change ((s.kv.setSync args.clientID _).syncInfo args.clientID).rpcID = _
        rw [KVServer.syncInfo_setSync, if_pos rfl]
  | @store method args new counted next =>
      simp only [Server.handlerStep] at taken
      split at taken
      case h_1 missing =>
        cases taken
        have absent : s.data.contents args.key = none := by simp [CellMap.contents, missing]
        have stored : (s.data.insert args.key args.value).contents =
            method.effect s.data.contents args.key args.value := by
          rw [CellMap.contents_insert missing]
          cases method with
          | put => rfl
          | append =>
              rw [Method.effect, absent]
              rfl
        have answer : [] = method.answer (s.data.contents args.key) := by
          rw [absent]
          cases method <;> rfl
        have moved := simulates.commit_update found new rfl counted next stored
          (fun _ _ here => CellMap.cells_insert missing here) (fun _ => rfl)
        rw [← answer] at moved
        exact moved
      case h_2 cell isCell =>
        cases taken
        exact ⟨order, kv, simulates.quiet found (fun _ _ => rfl) rfl
          (.locked new counted next isCell)⟩
  | locked => exact simulates.locked found taken
  | answer =>
      rw [Server.handlerStep_answer] at taken
      cases taken
      exact ⟨order, kv, simulates.respond found⟩
  | answered =>
      rw [Server.handlerStep_answered] at taken
      cases taken

theorem step {label : Step} (allowed : noRetry s label) (taken : Server.step label s = some s') :
    ∃ order kv, Simulates start s' order kv := by
  unfold Server.step at taken
  rw [if_neg (by simp [simulates.alive])] at taken
  cases label with
  | invoke call =>
      cases taken
      exact ⟨order, kv, simulates.invoke allowed⟩
  | advance id =>
      obtain ⟨h, found, moved⟩ := Option.bind_eq_some_iff.mp taken
      exact simulates.handlerStep found moved

/-- A handler that is not running has given its answer. -/
theorem responded (found : s.handlers[id]? = some ⟨call, .answered⟩) :
    ∃ answer, .respond id answer ∈ s.history := by
  cases simulates.stages id _ found with
  | answered responded => exact ⟨_, responded⟩

end

end Simulates

variable {data : CellMap Str Str} {clientsSync : UInt32 → Option SyncInfo} {labels : List Step}

theorem Server.simulates
    (run : Run Server.step noRetry (Server.init data clientsSync) labels s) :
    ∃ order kv, Simulates (Server.init data clientsSync).kv s order kv :=
  run.invariant (fun _ s => ∃ order kv, Simulates (Server.init data clientsSync).kv s order kv)
    ⟨[], _, .init data clientsSync⟩ fun _ _ _ _ _ ⟨_, _, simulates⟩ allowed taken =>
      simulates.step allowed taken

/-- Whatever the interleaving of handlers of different clients without retries, there is an
order of them that respects real time and in which the handlers, run one at a time, give
the same replies and the same value for every key.  No handler panics, and one that has
come to its end has answered. -/
theorem handlers_linearizable
    (run : Run Server.step noRetry (Server.init data clientsSync) labels s) :
    (∃ order final, Linearizes KVServer.serve (Server.init data clientsSync).kv s.history order
        final ∧ final.data = s.data.contents) ∧
      s.panicked = false ∧
      ∀ (id : Nat) (call : Call), s.handlers[id]? = some ⟨call, .answered⟩ →
        ∃ answer, .respond id answer ∈ s.history := by
  obtain ⟨order, kv, simulates⟩ := Server.simulates run
  exact ⟨⟨order, kv, simulates.linearizes, simulates.data⟩, simulates.alive,
    fun _ _ found => simulates.responded found⟩

end

/-- Two appends to a key that neither has found when it starts, and a `Get`. -/
def createdMeanwhile : List Step :=
  [.invoke (.update .append ⟨[107], [97], 1, 1⟩), .invoke (.update .append ⟨[107], [98], 2, 1⟩),
    .advance 0, .advance 1, .advance 1, .advance 0, .invoke (.get [107]), .advance 0, .advance 1,
    .advance 2, .advance 1, .advance 1, .advance 2, .advance 2, .advance 0]

theorem handlers_linearizable_createdMeanwhile :
    ∃ s, Run Server.step noRetry (Server.init .empty fun _ => none) createdMeanwhile s ∧
      s.data.contents [107] = some [97, 98] ∧
      (∃ order final, Linearizes KVServer.serve (Server.init .empty fun _ => none).kv s.history
        order final ∧ final.data = s.data.contents) ∧ s.panicked = false ∧
      ∀ (id : Nat) (call : Call), s.handlers[id]? = some ⟨call, .answered⟩ →
        ∃ answer, .respond id answer ∈ s.history := by
  obtain ⟨s, run, value⟩ : ∃ s, Run Server.step noRetry (Server.init .empty fun _ => none)
      createdMeanwhile s ∧ s.data.contents [107] = some [97, 98] :=
    Run.exists_of_runSteps (by decide +kernel)
  exact ⟨s, run, value, handlers_linearizable run⟩

end GoLab.KVSrv
