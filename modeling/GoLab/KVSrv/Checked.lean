import GoLab.KVSrv.Linearizable
import GoLab.Porcupine.Operations

/-!
# The server passes the checker

The tests of lab 2 record the operations of the clerks and give them to the linearizability
checker (`kvsrv/test_test.go`).  Without retries every `Put` and `Append` is executed once, and
the handlers are linearizable as operations on a plain map.  So the checker accepts whatever
the clerks have recorded.
-/

namespace GoLab.KVSrv

open Porcupine

/-- What the server is for: an operation on the data, with its reply. -/
def Data.serve (data : Data) : Call → Option (Data × Answer)
  | .get key => some (data, .got ((data key).getD []))
  | .update method args => some (method.effect data args.key args.value,
      .updated ⟨args.rpcID, method.answer (data args.key)⟩)

/-- The handler has not taken effect. -/
def Handler.pending (h : Handler) : Bool :=
  match h.pc with
  | .load | .read _ | .sync | .check | .store _ | .locked .. => true
  | .answer _ | .answered => false

/-- The calls of `order`, carried out one at a time on a plain map, explain what has happened so
far. -/
structure Plain (start : Data) (s : Server) (order : List (CallEffect Call Answer)) : Prop where
  linearizes : Linearizes Data.serve start s.history order s.data.contents
  waiting : ∀ (id : Nat) (h : Handler), s.handlers[id]? = some h → h.pending = true →
    id ∉ inEffect order
  effective : ∀ (id : Nat) (call : Call) (answer : Answer),
    s.handlers[id]? = some ⟨call, .answer answer⟩ → ⟨id, call, answer⟩ ∈ order

section

variable {s s' : Server} {order : List (CallEffect Call Answer)} {start : Data}
  {id : Nat} {h : Handler} {call : Call} {pc pc' : Pc} {args : PutAppendArgs} {answer : Answer}

theorem Server.handlers_goto {other : Nat}
    (here : (s.goto id call pc).handlers[other]? = some h) :
    h = ⟨call, pc⟩ ∧ other = id ∨ other ≠ id ∧ s.handlers[other]? = some h := by
  rw [goto, List.getElem?_set] at here
  split at here
  case isTrue same =>
    split at here
    · cases here
      exact .inl ⟨rfl, same.symm⟩
    · cases here
  case isFalse differ => exact .inr ⟨Ne.symm differ, here⟩

namespace Plain

section

variable (plain : Plain start s order)
include plain

/-- A request arrives. -/
theorem invoke (new : s.handlers.length ∉ inEffect order) :
    Plain start { s with
      handlers := s.handlers ++ [⟨call, call.entry⟩]
      history := s.history ++ [.invoke s.handlers.length call] } order := by
  have split {id : Nat} {h : Handler}
      (found : (s.handlers ++ [⟨call, call.entry⟩])[id]? = some h) :
      s.handlers[id]? = some h ∨ id = s.handlers.length ∧ h = ⟨call, call.entry⟩ := by
    rw [List.getElem?_append] at found
    split at found
    case isTrue => exact .inl found
    case isFalse past =>
      rw [List.getElem?_singleton] at found
      split at found
      case isTrue isFirst =>
        cases found
        exact .inr ⟨by omega, rfl⟩
      case isFalse => cases found
  refine ⟨plain.linearizes.invoke new, fun id h found isPending => ?_,
    fun id call' answer found => ?_⟩
  · rcases split found with earlier | ⟨rfl, -⟩
    · exact plain.waiting id h earlier isPending
    · exact new
  · rcases split found with earlier | ⟨-, isNew⟩
    · exact plain.effective id call' answer earlier
    · cases call <;> cases isNew

/-- A handler goes on and has still not taken effect. -/
theorem quiet (found : s.handlers[id]? = some ⟨call, pc⟩)
    (pending : (⟨call, pc⟩ : Handler).pending = true)
    (pending' : (⟨call, pc'⟩ : Handler).pending = true) (clientsSync : UInt32 → Option SyncInfo) :
    Plain start (({ s with clientsSync } : Server).goto id call pc') order where
  linearizes := plain.linearizes
  waiting := fun other h here isPending => by
    rcases Server.handlers_goto here with ⟨-, rfl⟩ | ⟨-, here⟩
    · exact plain.waiting _ _ found pending
    · exact plain.waiting other h here isPending
  effective := fun other call' answer here => by
    rcases Server.handlers_goto here with ⟨same, -⟩ | ⟨-, here⟩
    · cases same
      cases pending'
    · exact plain.effective other call' answer here

/-- A handler takes effect. -/
theorem commit (found : s.handlers[id]? = some ⟨call, pc⟩)
    (pending : (⟨call, pc⟩ : Handler).pending = true) (invoked : .invoke id call ∈ s.history)
    {data : CellMap Str Str} {clientsSync : UInt32 → Option SyncInfo}
    (served : Data.serve s.data.contents call = some (data.contents, answer)) :
    Plain start (({ s with data, clientsSync } : Server).goto id call (.answer answer))
      (order ++ [⟨id, call, answer⟩]) where
  linearizes := plain.linearizes.commit (plain.waiting id _ found pending) invoked served
  waiting := fun other h here isPending => by
    rcases Server.handlers_goto here with ⟨rfl, -⟩ | ⟨differ, here⟩
    · cases isPending
    · rw [inEffect_append, List.mem_append, List.mem_singleton]
      rintro (before | same)
      · exact plain.waiting other h here isPending before
      · exact differ same
  effective := fun other call' answer' here => by
    rcases Server.handlers_goto here with ⟨same, rfl⟩ | ⟨-, here⟩
    · cases same
      simp
    · exact List.mem_append_left _ (plain.effective other call' answer' here)

/-- The reply of a handler arrives. -/
theorem respond (found : s.handlers[id]? = some ⟨call, .answer answer⟩) :
    Plain start (({ s with
      history := s.history ++ [.respond id answer] } : Server).goto id call .answered) order where
  linearizes := plain.linearizes.respond (plain.effective id call answer found)
  waiting := fun other h here isPending => by
    rcases Server.handlers_goto here with ⟨rfl, -⟩ | ⟨-, here⟩
    · cases isPending
    · exact plain.waiting other h here isPending
  effective := fun other call' answer' here => by
    rcases Server.handlers_goto here with ⟨same, -⟩ | ⟨-, here⟩
    · cases same
    · exact plain.effective other call' answer' here

/-- A step of a handler.  That its request is the next one of its client, and that its cell is the
one of its key, is known from the simulation on the server with its counters. -/
theorem handlerStep {origin kv : KVServer} {order' : List (CallEffect Call Answer)}
    (simulates : Simulates origin s order' kv) (found : s.handlers[id]? = some h)
    (taken : s.handlerStep id h = some s') :
    ∃ order, Plain start s' order := by
  have invoked := simulates.invoked id h found
  cases simulates.stages id h found with
  | @load key =>
      simp only [Server.handlerStep] at taken
      split at taken
      case h_1 missing =>
        cases taken
        exact ⟨_, plain.commit found rfl invoked
          (by simp [Data.serve, CellMap.contents, missing])⟩
      case h_2 =>
        cases taken
        exact ⟨_, plain.quiet found rfl rfl s.clientsSync⟩
  | @read key cell new isCell =>
      obtain ⟨value, isValue, rfl⟩ := Option.map_eq_some_iff.mp taken
      refine ⟨_, plain.commit found rfl invoked ?_⟩
      simp [Data.serve, CellMap.contents_of_cells isCell, isValue]
  | sync =>
      cases taken
      exact ⟨_, plain.quiet found rfl rfl _⟩
  | @check method args new expected =>
      simp only [Server.handlerStep, expected, gt_iff_lt, UInt32.lt_irrefl, if_false,
        if_true] at taken
      cases taken
      exact ⟨_, plain.quiet found rfl rfl _⟩
  | @store method args =>
      simp only [Server.handlerStep] at taken
      split at taken
      case h_1 missing =>
        cases taken
        refine ⟨_, plain.commit found rfl invoked ?_⟩
        have absent : s.data.contents args.key = none := by simp [CellMap.contents, missing]
        rw [Data.serve, CellMap.contents_insert missing, absent]
        cases method with
        | put => rfl
        | append =>
            rw [Method.effect, absent]
            rfl
      case h_2 =>
        cases taken
        exact ⟨_, plain.quiet found rfl rfl s.clientsSync⟩
  | @locked method args cell new counted next isCell =>
      have contents := CellMap.contents_of_cells isCell
      cases method with
      | put =>
          cases taken
          refine ⟨_, plain.commit found rfl invoked ?_⟩
          rw [Data.serve, CellMap.contents_write isCell]
          rfl
      | append =>
          obtain ⟨value, isValue, rfl⟩ := Option.map_eq_some_iff.mp taken
          rw [isValue] at contents
          have written : (s.data.write cell (value ++ args.value)).contents =
              Method.effect .append s.data.contents args.key args.value := by
            rw [CellMap.contents_write isCell, Method.effect, contents]
            rfl
          refine ⟨_, plain.commit found rfl invoked ?_⟩
          rw [Data.serve, ← written, contents]
          rfl
  | answer =>
      rw [Server.handlerStep_answer] at taken
      cases taken
      exact ⟨_, plain.respond found⟩
  | answered =>
      rw [Server.handlerStep_answered] at taken
      cases taken

end

end Plain

variable {data : CellMap Str Str} {clientsSync : UInt32 → Option SyncInfo} {labels : List Step}

/-- Without retries the handlers are linearizable as operations on a plain map. -/
theorem Server.plain (run : Run Server.step noRetry (Server.init data clientsSync) labels s) :
    ∃ order, Plain data.contents s order := by
  refine run.invariant (fun _ s => ∃ order, Plain data.contents s order) ⟨[], .nil, ?_, ?_⟩ ?_
  · simp [Server.init]
  · simp [Server.init]
  · rintro labels s label s' before ⟨order, plain⟩ - taken
    obtain ⟨order', kv, simulates⟩ := Server.simulates before
    unfold Server.step at taken
    rw [if_neg (by simp [simulates.alive])] at taken
    cases label with
    | invoke call =>
        cases taken
        refine ⟨order, plain.invoke fun inside => ?_⟩
        obtain ⟨effect, member, isId⟩ := mem_inEffect.mp inside
        have below := simulates.known _ _ (plain.linearizes.invoked effect member)
        omega
    | advance id =>
        obtain ⟨h, found, moved⟩ := Option.bind_eq_some_iff.mp taken
        exact plain.handlerStep simulates found moved

end

/-! ## What the clerks record -/

/-- What `Get`, `Put` and `Append` of the tests record as the input of an operation. -/
def Call.input : Call → KvInput
  | .get key => ⟨0, key, []⟩
  | .update .put args => ⟨1, args.key, args.value⟩
  | .update .append args => ⟨3, args.key, args.value⟩

/-- What they record as its output. -/
def Call.output : Call → Answer → KvOutput
  | .get _, .got value => ⟨value⟩
  | .update .append _, .updated reply => ⟨reply.value⟩
  | _, _ => ⟨[]⟩

/-- No request was sent twice, and each was recorded as an operation, with a time before it was
made and one after it was answered. -/
structure Recorded (s : Server) (ops : List KvModel.KvOperation) : Prop where
  size : ops.length = s.handlers.length
  values : ∀ (id : Nat) (call : Call) (answer : Answer), .invoke id call ∈ s.history →
    .respond id answer ∈ s.history → ∃ op, ops[id]? = some op ∧
      op.input = .input call.input ∧ op.output = .output (call.output answer)
  timed : Timed ops
  clock : ∀ (i j : Nat) (a b : KvModel.KvOperation), ops[i]? = some a → ops[j]? = some b →
    a.ret < b.call → Precedes s.history i j

/-- The store of the checker. -/
def Data.values (data : Data) : Str → Str :=
  fun key => (data key).getD []

section

variable {ops : List KvModel.KvOperation} {order : List (CallEffect Call Answer)}
  {start final : Data}

theorem values_store (data : Data) (key value : Str) :
    (data.store key value).values = Function.update data.values key value := by
  funext other
  by_cases same : other = key
  · subst same
    simp [Data.values, Data.store]
  · simp [Data.values, Data.store, same]

/-- An operation on the data is one on the store of the checker. -/
theorem storeStep_serve {data data' : Data} {call : Call} {answer : Answer}
    (served : data.serve call = some (data', answer)) {op : KvModel.KvOperation}
    (isInput : op.input = .input call.input) (isOutput : op.output = .output (call.output answer)) :
    KvModel.storeStep data.values op = some data'.values := by
  rw [KvModel.storeStep, isInput, isOutput]
  cases call with
  | get key =>
      cases served
      simp [KvValue.asInput, KvValue.asOutput, Call.input, Call.output, Data.values]
  | update method args =>
      cases served
      cases method with
      | put => simp [KvValue.asInput, KvValue.asOutput, Call.input, Method.effect, values_store]
      | append =>
          simp [KvValue.asInput, KvValue.asOutput, Call.input, Call.output, Method.effect,
            values_store, Method.answer, Data.values]

/-- The effects in their order, as operations on the store of the checker. -/
theorem foldlM_storeStep_effects (sequential : Sequential Data.serve start order final)
    (isRecord : ∀ effect ∈ order, ∃ op, ops[effect.id]? = some op ∧
      op.input = .input effect.op.input ∧ op.output = .output (effect.op.output effect.reply)) :
    ((inEffect order).filterMap (ops[·]?)).foldlM KvModel.storeStep start.values =
      some final.values := by
  induction sequential with
  | start => rfl
  | @next order s s' effect _ served ih =>
      obtain ⟨op, isOp, isInput, isOutput⟩ := isRecord effect (by simp)
      rw [inEffect_append, List.filterMap_append, List.foldlM_append,
        ih fun other inside => isRecord other (List.mem_append_left _ inside)]
      simp [isOp, storeStep_serve served isInput isOutput]

/-- The operations by their numbers. -/
theorem filterMap_range (ops : List KvModel.KvOperation) :
    (List.range ops.length).filterMap (ops[·]?) = ops := by
  have all := congrArg (List.filterMap id) (map_range_getElem? ops)
  simpa [List.filterMap_map] using all

section

variable {s : Server} {labels : List Step}

section

variable (recorded : Recorded s ops)
  (run : Run Server.step noRetry (Server.init .empty fun _ => none) labels s)
  (complete : ∀ h ∈ s.handlers, h.pc = .answered)
include recorded run complete

/-- Each operation belongs to a request that was answered. -/
theorem Recorded.answered {id : Nat} (below : id < ops.length) :
    ∃ call answer, .invoke id call ∈ s.history ∧ .respond id answer ∈ s.history := by
  obtain ⟨order, kv, simulates⟩ := Server.simulates run
  rw [recorded.size] at below
  have found := List.getElem?_eq_getElem below
  have isAnswered := complete _ (List.getElem_mem below)
  cases isHandler : s.handlers[id] with
  | mk call pc =>
      rw [isHandler] at found isAnswered
      cases isAnswered
      obtain ⟨answer, responded⟩ := simulates.responded found
      exact ⟨call, answer, simulates.invoked id _ found, responded⟩

theorem Recorded.typed : KvModel.Typed ops := by
  intro op inside
  obtain ⟨id, isOp⟩ := List.mem_iff_getElem?.mp inside
  obtain ⟨call, answer, invoked, responded⟩ :=
    recorded.answered run complete (List.getElem?_eq_some_iff.mp isOp).1
  obtain ⟨op', isOp', isInput, isOutput⟩ := recorded.values id call answer invoked responded
  cases isOp.symm.trans isOp'
  exact ⟨⟨_, isInput⟩, _, isOutput⟩

/-- What the clerks have recorded can be carried out on the store of the checker. -/
theorem Recorded.storeLinearizable : KvModel.StoreLinearizable ops := by
  obtain ⟨order, plain⟩ := Server.plain run
  obtain ⟨order', kv, simulates⟩ := Server.simulates run
  have below (effect : CallEffect Call Answer) (inside : effect ∈ order) :
      effect.id < ops.length := by
    rw [recorded.size]
    exact simulates.known _ _ (plain.linearizes.invoked effect inside)
  have ids : (inEffect order).Perm (.range ops.length) := by
    refine (List.perm_ext_iff_of_nodup plain.linearizes.once List.nodup_range).mpr fun id => ?_
    rw [List.mem_range, mem_inEffect]
    constructor
    · rintro ⟨effect, inside, rfl⟩
      exact below effect inside
    · intro isId
      obtain ⟨call, answer, -, responded⟩ := recorded.answered run complete isId
      obtain ⟨op, inside⟩ := plain.linearizes.answered id answer responded
      exact ⟨_, inside, rfl⟩
  refine ⟨(inEffect order).filterMap (ops[·]?), ?_, ?_, ?_⟩
  · have perm := ids.filterMap (ops[·]?)
    rwa [filterMap_range] at perm
  · rw [List.pairwise_filterMap, List.pairwise_iff_forall_sublist]
    intro i j sublist a isA b isB before
    have precedes := recorded.clock j i b a isB isA before
    exact Marks.not_sublist_swap plain.linearizes.once sublist
      (plain.linearizes.realTime j i precedes (sublist.subset (by simp)))
  · refine Option.isSome_iff_exists.mpr ⟨_, foldlM_storeStep_effects plain.linearizes.sequential
      fun effect inside => ?_⟩
    obtain ⟨call, answer, -, responded⟩ := recorded.answered run complete (below effect inside)
    obtain ⟨op, inside'⟩ := plain.linearizes.answered effect.id answer responded
    have same : (⟨effect.id, op, answer⟩ : CallEffect Call Answer) = effect :=
      List.inj_on_of_nodup_map plain.linearizes.once inside' inside rfl
    rw [← congrArg CallEffect.op same, ← congrArg CallEffect.reply same]
    exact recorded.values _ op answer (plain.linearizes.invoked _ inside') responded

end

end

end

deriving instance DecidableEq for CallEvent

/-- A `Put` and a `Get` after it. -/
def putThenGet : List Step :=
  [.invoke (.update .put ⟨[107], [97], 1, 1⟩), .advance 0, .advance 0, .advance 0, .advance 0,
    .invoke (.get [107]), .advance 1, .advance 1, .advance 1]

/-- What the clerks have recorded of them. -/
def putThenGetLog : List KvModel.KvOperation :=
  [⟨0, .input ⟨1, [107], [97]⟩, 0, .output ⟨[]⟩, 1⟩, ⟨1, .input ⟨0, [107], []⟩, 2, .output ⟨[97]⟩, 3⟩]

theorem putThenGet_recorded :
    ∃ s, Run Server.step noRetry (Server.init .empty fun _ => none) putThenGet s ∧
      (∀ h ∈ s.handlers, h.pc = .answered) ∧ Recorded s putThenGetLog := by
  obtain ⟨s, run, handlers, history⟩ : ∃ s,
      Run Server.step noRetry (Server.init .empty fun _ => none) putThenGet s ∧
        s.handlers = [⟨.update .put ⟨[107], [97], 1, 1⟩, .answered⟩, ⟨.get [107], .answered⟩] ∧
        s.history = [.invoke 0 (.update .put ⟨[107], [97], 1, 1⟩), .respond 0 (.updated ⟨1, []⟩),
          .invoke 1 (.get [107]), .respond 1 (.got [97])] :=
    Run.exists_of_runSteps (by decide +kernel)
  refine ⟨s, run, by simp [handlers], by simp [handlers, putThenGetLog], ?_, ?_, ?_⟩
  · intro id call answer invoked responded
    simp only [history, List.mem_cons, CallEvent.invoke.injEq, CallEvent.respond.injEq,
      reduceCtorEq, List.not_mem_nil, or_false, false_or] at invoked responded
    rcases invoked with ⟨rfl, rfl⟩ | ⟨rfl, rfl⟩
    · exact ⟨_, rfl, rfl, rfl⟩
    · obtain ⟨-, rfl⟩ : 1 = 1 ∧ answer = .got [97] := by simpa using responded
      exact ⟨_, rfl, rfl, rfl⟩
  · simp [Timed, putThenGetLog]
  · have times : ∀ i < 2, ∀ j < 2, ∀ a ∈ putThenGetLog[i]?, ∀ b ∈ putThenGetLog[j]?,
        a.ret < b.call → i = 0 ∧ j = 1 := by decide
    intro i j a b isA isB before
    obtain ⟨rfl, rfl⟩ := times i (List.getElem?_eq_some_iff.mp isA).1 j
      (List.getElem?_eq_some_iff.mp isB).1 a isA b isB before
    refine ⟨s.history.take 2, s.history.drop 2, .updated ⟨1, []⟩, .get [107], ?_, ?_, ?_⟩
    · exact (List.take_append_drop 2 _).symm
    · simp [history]
    · simp [history]

end GoLab.KVSrv
