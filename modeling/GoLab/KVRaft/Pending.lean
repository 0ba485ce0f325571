import GoLab.KVRaft.Server
import GoLab.Lib.Run

/-!
# The commands a replicated server waits for

`checkMyStarted` looks at the head of `startedCmds` only, so it takes the queue to be sorted
by command index.  It is as long as `Start` hands out increasing indices and no pending index
is skipped; after a change of leaders neither has to be the case.
-/

namespace GoLab.KVRaft

open Raft (ApplyMsg noopIndex)

namespace KVServer

/-- `checkSync` touches no pending command. -/
theorem checkSync_kept (kv : KVServer) (clientID rpcID : Int) (reply : RpcReply) :
    (kv.checkSync clientID rpcID reply).1.startedCmds = kv.startedCmds ∧
      (kv.checkSync clientID rpcID reply).1.answers = kv.answers := by
  unfold checkSync
  split
  case h_1 => exact ⟨rfl, rfl⟩
  case h_2 => split <;> exact ⟨rfl, rfl⟩

/-- A request waits behind those that wait already, or it has been answered at once. -/
theorem startOp_started (kv : KVServer) (args : RpcArgs) (op : Op)
    (rfStart : CmdEntry → Option Int) :
    (kv.startOp args op rfStart).1.answers = kv.answers ∧
      ((kv.startOp args op rfStart).1.startedCmds = kv.startedCmds ∨
        ∃ info : CmdInfo, (kv.startOp args op rfStart).1.startedCmds =
            kv.startedCmds ++ [info] ∧
          rfStart { clientID := args.clientID, rpcID := args.rpcID, op } =
            some info.cmdIndex ∧
          info.clientID = args.clientID ∧ info.rpcID = args.rpcID) := by
  have kept := kv.checkSync_kept args.clientID args.rpcID {}
  unfold startOp
  split
  case h_1 kv' reply checked =>
    rw [checked] at kept
    exact ⟨kept.2, .inl kept.1⟩
  case h_2 kv' reply checked =>
    rw [checked] at kept
    split
    case h_1 => exact ⟨kept.2, .inl kept.1⟩
    case h_2 index started =>
      refine ⟨kept.2, .inr ⟨{
        cmdIndex := index
        clientID := args.clientID
        rpcID := args.rpcID
        ch := kv'.channels }, ?_, started, rfl, rfl⟩⟩
      rw [← kept.1]

/-- What is applied concerns no command started here, or the first one, which is answered.
It is told that it was applied only if it was. -/
inductive Matched (index : Int) (entry : CmdEntry) (kv kv' : KVServer) : Prop where
  | other (ahead : ∀ info ∈ kv.startedCmds.head?, index < info.cmdIndex)
      (started : kv'.startedCmds = kv.startedCmds) (answers : kv'.answers = kv.answers)
  | first (info : CmdInfo) (sent : Bool) (reply : RpcReply)
      (started : kv.startedCmds = info :: kv'.startedCmds) (here : info.cmdIndex = index)
      (answers : kv'.answers = kv.answers ++ [⟨info, index, entry, sent, reply⟩])
      (own : sent = true → info.clientID = entry.clientID ∧ info.rpcID = entry.rpcID)

variable {index : Int} {entry : CmdEntry} {waiting : Option CmdInfo}

/-- The cases of `apply` leave the queue alone and answer the command they are given. -/
theorem applyOp_ok {kv kv' : KVServer} (result : kv.applyOp index entry waiting = .ok kv') :
    kv'.startedCmds = kv.startedCmds ∧
      match waiting with
      | none => kv'.answers = kv.answers
      | some info => ∃ reply,
          kv'.answers = kv.answers ++ [⟨info, index, entry, true, reply⟩] := by
  unfold applyOp at result
  split at result
  case h_1 =>
    cases waiting with
    | none => cases result; exact ⟨rfl, rfl⟩
    | some info =>
        cases value : kv.getFor info with
        | error panic => simp [value, bind, Except.bind] at result
        | ok value' =>
            simp only [value, bind, Except.bind, pure, Except.pure, Except.ok.injEq] at result
            subst result
            exact ⟨rfl, _, rfl⟩
  case h_2 =>
    cases waiting with
    | none => cases result; exact ⟨rfl, rfl⟩
    | some info => cases result; exact ⟨rfl, _, rfl⟩
  case h_3 =>
    split at result
    case h_1 => cases result
    case h_2 =>
      cases waiting with
      | none => cases result; exact ⟨rfl, rfl⟩
      | some info => cases result; exact ⟨rfl, _, rfl⟩

theorem getFor_error {kv : KVServer} {info : CmdInfo} :
    kv.getFor info ≠ .error .assertion := by
  unfold getFor
  split
  case h_1 => simp
  case h_2 =>
    split
    case h_1 => simp
    case h_2 => split <;> simp

theorem applyOp_error {kv : KVServer} : kv.applyOp index entry waiting ≠ .error .assertion := by
  unfold applyOp
  split
  case h_1 =>
    cases waiting with
    | none => simp
    | some info =>
        have noAssertion := @getFor_error kv info
        cases value : kv.getFor info with
        | error panic =>
            rw [value] at noAssertion
            simpa [value, bind, Except.bind] using noAssertion
        | ok value' => simp [value, bind, Except.bind, pure, Except.pure]
  case h_2 => cases waiting <;> simp
  case h_3 =>
    split
    case h_1 => simp
    case h_2 => cases waiting <;> simp

/-- The first pending command is taken off the queue if it is at the index applied. -/
theorem checkMyStarted_ok {kv kv' : KVServer}
    (result : kv.checkMyStarted index entry = .ok (kv', waiting)) :
    ((∀ info ∈ kv.startedCmds.head?, index < info.cmdIndex) ∧ kv' = kv ∧ waiting = none) ∨
      ∃ info, kv.startedCmds = info :: kv'.startedCmds ∧ info.cmdIndex = index ∧
        ((info.clientID = entry.clientID ∧ info.rpcID = entry.rpcID) ∧
            waiting = some info ∧ kv'.answers = kv.answers ∨
          waiting = none ∧
            kv'.answers = kv.answers ++ [⟨info, index, entry, false, { opRes := .fail }⟩]) := by
  unfold checkMyStarted at result
  split at result
  case h_1 empty =>
    cases result
    exact .inl ⟨by simp [empty], rfl, rfl⟩
  case h_2 info rest queue =>
    split at result
    case isTrue => cases result
    case isFalse notBehind =>
      split at result
      case isTrue ahead =>
        cases result
        exact .inl ⟨by simpa [queue] using ahead, rfl, rfl⟩
      case isFalse notAhead =>
        have here : info.cmdIndex = index := by omega
        split at result
        case isTrue own =>
          cases result
          exact .inr ⟨info, queue, here, .inl ⟨own, rfl, rfl⟩⟩
        case isFalse =>
          cases result
          exact .inr ⟨info, queue, here, .inr ⟨rfl, rfl⟩⟩

/-- Its assertion fails only behind the first pending command. -/
theorem checkMyStarted_error {kv : KVServer} {panic : Panic}
    (fails : kv.checkMyStarted index entry = .error panic) :
    ∃ info ∈ kv.startedCmds, info.cmdIndex < index := by
  unfold checkMyStarted at fails
  split at fails
  case h_1 => cases fails
  case h_2 info rest queue =>
    split at fails
    case isTrue behind => exact ⟨info, by simp [queue], behind⟩
    case isFalse =>
      split at fails
      case isTrue => cases fails
      case isFalse => split at fails <;> cases fails

/-- What a command that is applied does to the queue. -/
theorem apply_matched {kv kv' : KVServer} {command : Option CmdEntry}
    (isCommand : index ≠ noopIndex) (result : kv.apply (.command index command) = .ok kv') :
    ∃ entry, command = some entry ∧ Matched index entry kv kv' := by
  simp only [apply, if_neg isCommand] at result
  cases command with
  | none => cases result
  | some entry =>
      refine ⟨entry, rfl, ?_⟩
      cases checked : kv.checkMyStarted index entry with
      | error panic => simp [checked, bind, Except.bind] at result
      | ok checkedKv =>
          obtain ⟨mid, waiting⟩ := checkedKv
          simp only [checked, bind, Except.bind] at result
          obtain ⟨started, answers⟩ := applyOp_ok result
          rcases checkMyStarted_ok checked with ⟨ahead, rfl, rfl⟩ | ⟨info, queue, here, found⟩
          · exact .other ahead started answers
          · rw [← started] at queue
            rcases found with ⟨own, rfl, same⟩ | ⟨rfl, failed⟩
            · obtain ⟨reply, answers⟩ := answers
              exact .first info true reply queue here (same ▸ answers) fun _ => own
            · exact .first info false _ queue here (answers.trans failed) nofun

/-- An assertion fails in the apply loop only behind the first pending command. -/
theorem apply_assertion {kv : KVServer} {command : Option CmdEntry}
    (fails : kv.apply (.command index command) = .error .assertion) :
    index ≠ noopIndex ∧ ∃ info ∈ kv.startedCmds, info.cmdIndex < index := by
  by_cases isNoop : index = noopIndex
  · simp [apply, isNoop] at fails
  · refine ⟨isNoop, ?_⟩
    simp only [apply, if_neg isNoop] at fails
    cases command with
    | none => cases fails
    | some entry =>
        cases checked : kv.checkMyStarted index entry with
        | error panic => exact checkMyStarted_error checked
        | ok checkedKv =>
            simp only [checked, bind, Except.bind] at fails
            exact absurd fails applyOp_error

end KVServer

namespace Service

/-- What a step of the running server does to the queue and the answers. -/
inductive Moves (s s' : Service) : Label → Prop where
  | same {label : Label} (started : s'.kv.startedCmds = s.kv.startedCmds)
      (answers : s'.kv.answers = s.kv.answers) (applied : s'.lastApplied = s.lastApplied)
      (running : s'.panicked ≠ some .assertion) : Moves s s' label
  | waits {args : RpcArgs} {op : Op} {index : Int} (info : CmdInfo)
      (here : info.cmdIndex = index) (client : info.clientID = args.clientID)
      (rpc : info.rpcID = args.rpcID)
      (started : s'.kv.startedCmds = s.kv.startedCmds ++ [info])
      (answers : s'.kv.answers = s.kv.answers) (applied : s'.lastApplied = s.lastApplied)
      (running : s'.panicked = none) : Moves s s' (.start args op (some index))
  | applied {index : Int} {entry : CmdEntry} (isCommand : index ≠ noopIndex)
      (round : s.kv.Matched index entry s'.kv) (applied : s'.lastApplied = some index)
      (running : s'.panicked = none) : Moves s s' (.applied (.command index (some entry)))
  | asserted {index : Int} {command : Option CmdEntry} (isCommand : index ≠ noopIndex)
      (behind : ∃ info ∈ s.kv.startedCmds, info.cmdIndex < index) (kv : s'.kv = s.kv) :
      Moves s s' (.applied (.command index command))

theorem step_moves {label : Label} {s s' : Service} (taken : step label s = some s') :
    Moves s s' label := by
  unfold step at taken
  split at taken
  case isTrue => cases taken
  case isFalse running =>
    have alive : s.panicked = none := by simpa using running
    cases label with
    | start args op index =>
        cases taken
        obtain ⟨answers, started⟩ := s.kv.startOp_started args op fun _ => index
        rcases started with started | ⟨info, started, rfl, client, rpc⟩
        · exact .same started answers rfl (by simp [alive])
        · exact .waits info rfl client rpc started answers rfl alive
    | applied msg =>
        cases msg with
        | snapshot snapshot snapshotTerm snapshotIndex =>
            cases taken
            exact .same rfl rfl rfl (by simp [alive])
        | command index command =>
            dsimp only at taken
            cases result : s.kv.apply (.command index command) with
            | error panic =>
                simp only [result, Option.some.injEq] at taken
                subst taken
                by_cases assertion : panic = .assertion
                · subst assertion
                  obtain ⟨isCommand, behind⟩ := KVServer.apply_assertion result
                  exact .asserted isCommand behind rfl
                · exact .same rfl rfl rfl (by simpa using assertion)
            | ok kv =>
                simp only [result, Option.some.injEq] at taken
                subst taken
                by_cases isNoop : index = noopIndex
                · simp only [KVServer.apply, if_pos isNoop, Except.ok.injEq] at result
                  subst result
                  exact .same rfl rfl (by simp [appliedBy, isNoop]) (by simp [alive])
                · obtain ⟨entry, rfl, round⟩ := KVServer.apply_matched isNoop result
                  exact .applied isNoop round (by simp [appliedBy, isNoop]) alive

/-! ## Whose command an answer is about -/

/-- The command waits for a request that was started at its index. -/
def StartedBy (labels : List Label) (info : CmdInfo) : Prop :=
  ∃ args op, .start args op (some info.cmdIndex) ∈ labels ∧
    args.clientID = info.clientID ∧ args.rpcID = info.rpcID

variable {labels : List Label}

theorem StartedBy.later {info : CmdInfo} (started : StartedBy labels info) (label : Label) :
    StartedBy (labels ++ [label]) info := by
  obtain ⟨args, op, member, ids⟩ := started
  exact ⟨args, op, List.mem_append_left _ member, ids⟩

/-- An answer is for a request that was started, by a command that was applied; the request
is told that it was applied only by its own command at its own index. -/
structure Justified (labels : List Label) (answer : Answer) : Prop where
  started : StartedBy labels answer.info
  applied : .applied (.command answer.index (some answer.entry)) ∈ labels
  index : answer.index = answer.info.cmdIndex
  own : answer.sent = true →
    answer.info.clientID = answer.entry.clientID ∧ answer.info.rpcID = answer.entry.rpcID

theorem Justified.later {answer : Answer} (justified : Justified labels answer) (label : Label) :
    Justified (labels ++ [label]) answer where
  started := justified.started.later label
  applied := List.mem_append_left _ justified.applied
  index := justified.index
  own := justified.own

/-- What waits was started, and what was answered was answered rightly. -/
structure Attributed (labels : List Label) (s : Service) : Prop where
  waiting : ∀ info ∈ s.kv.startedCmds, StartedBy labels info
  answered : ∀ answer ∈ s.kv.answers, Justified labels answer

theorem Attributed.step {s s' : Service} {label : Label} (attributed : Attributed labels s)
    (moves : Moves s s' label) :
    Attributed (labels ++ [label]) s' := by
  have waiting info member := (attributed.waiting info member).later label
  have answered answer member := (attributed.answered answer member).later label
  cases moves with
  | same started answers =>
      constructor
      · rwa [started]
      · rwa [answers]
  | @waits args op index info here client rpc started answers =>
      constructor
      · rw [started]
        intro other member
        rcases List.mem_append.mp member with old | new
        · exact waiting other old
        · cases List.mem_singleton.mp new
          exact ⟨args, op, by simp [here], client.symm, rpc.symm⟩
      · rwa [answers]
  | applied isCommand round =>
      cases round with
      | other ahead started answers =>
          constructor
          · rwa [started]
          · rwa [answers]
      | first info sent reply started here answers own =>
          rw [started] at waiting
          constructor
          · exact fun other member => waiting other (List.mem_cons_of_mem _ member)
          · rw [answers]
            intro answer member
            rcases List.mem_append.mp member with old | new
            · exact answered answer old
            · cases List.mem_singleton.mp new
              exact ⟨waiting info List.mem_cons_self, by simp, here.symm, own⟩
  | asserted isCommand behind kv =>
      constructor
      · rwa [kv]
      · rwa [kv]

/-- It holds in every run: no order of the indices is needed. -/
theorem attributed {allowed : Service → Label → Prop} {s : Service}
    (run : Run step allowed init labels s) : Attributed labels s := by
  refine run.invariant Attributed ⟨?_, ?_⟩ ?_
  · simp [init, KVServer.start]
  · simp [init, KVServer.start]
  · intro labels s label s' _ attributed _ taken
    exact attributed.step (step_moves taken)

/-! ## The order of the queue -/

/-- The pending commands are in increasing order of their indices, above what was applied. -/
structure Ordered (s : Service) : Prop where
  running : s.panicked ≠ some .assertion
  above : ∀ info ∈ s.kv.startedCmds, s.reached < info.cmdIndex
  sorted : s.kv.startedCmds.Pairwise (·.cmdIndex < ·.cmdIndex)

theorem ordered_init : init.Ordered where
  running := nofun
  above := nofun
  sorted := .nil

theorem Ordered.step {s s' : Service} {label : Label} (ordered : s.Ordered)
    (inSequence : s.InSequence label) (moves : Moves s s' label) : s'.Ordered := by
  cases moves with
  | same started _ applied running =>
      exact ⟨running, by rw [reached, applied, started]; exact ordered.above,
        by rw [started]; exact ordered.sorted⟩
  | waits info here _ _ started _ applied running =>
      obtain ⟨aboveApplied, abovePending⟩ := inSequence
      refine ⟨by simp [running], ?_, ?_⟩
      · rw [reached, applied, started]
        intro other member
        rcases List.mem_append.mp member with old | new
        · exact ordered.above other old
        · cases List.mem_singleton.mp new
          rw [here]
          exact aboveApplied
      · rw [started, List.pairwise_append]
        refine ⟨ordered.sorted, List.pairwise_singleton _ _, fun other member new isNew => ?_⟩
        cases List.mem_singleton.mp isNew
        rw [here]
        exact abovePending other member
  | applied isCommand round applied running =>
      refine ⟨by simp [running], ?_, ?_⟩
      · rw [reached, applied]
        intro info member
        cases round with
        | other ahead started _ =>
            rw [started] at member
            cases queue : s.kv.startedCmds with
            | nil => simp [queue] at member
            | cons first rest =>
                have firstAhead := ahead first (by simp [queue])
                have sorted := ordered.sorted
                rw [queue, List.pairwise_cons] at sorted
                rw [queue] at member
                rcases List.mem_cons.mp member with rfl | later
                · exact firstAhead
                · exact Int.lt_trans firstAhead (sorted.1 info later)
        | first head sent reply started here _ _ =>
            have sorted := ordered.sorted
            rw [started, List.pairwise_cons] at sorted
            rw [← here]
            exact sorted.1 info member
      · cases round with
        | other _ started _ => rw [started]; exact ordered.sorted
        | first head _ _ started _ _ _ =>
            have sorted := ordered.sorted
            rw [started, List.pairwise_cons] at sorted
            exact sorted.2
  | asserted isCommand behind =>
      obtain ⟨info, member, lower⟩ := behind
      have above := ordered.above info member
      rcases inSequence.resolve_left isCommand with nothing | next
      · simp [nothing] at member
      · omega

/-- In a run in which commands are started at increasing indices and applied one after
another while some are pending, the assertion of `checkMyStarted` does not fail, no pending
command has an index that was applied, and a request is told that its command was applied
only when that command is applied at its own index. -/
theorem pending_matched {labels : List Label} {s : Service}
    (run : Run step (fun s label => s.Increasing label ∧ s.InSequence label) init labels s) :
    s.panicked ≠ some .assertion ∧
      (∀ last ∈ s.lastApplied, ∀ info ∈ s.kv.startedCmds, last < info.cmdIndex) ∧
      ∀ answer ∈ s.kv.answers, Justified labels answer := by
  have ordered : s.Ordered := by
    refine run.invariant (fun _ s => s.Ordered) ordered_init ?_
    intro labels s label s' _ ordered ok taken
    exact ordered.step ok.2 (step_moves taken)
  refine ⟨ordered.running, fun last isLast info member => ?_, (attributed run).answered⟩
  have above := ordered.above info member
  rwa [reached, isLast] at above

/-- A request that puts a value under a key. -/
def putRequest (clientID : Int) (index : Int) : Label :=
  .start { clientID, rpcID := 1, opArgs := .putAppendArgs [107] [118] } (.putOp [107] [118])
    (some index)

/-- Such a command is applied. -/
def putApplied (clientID : Int) (index : Int) : Label :=
  .applied (.command index (some { clientID, rpcID := 1, op := .putOp [107] [118] }))

/-- Two requests are started, the first is applied, and another command takes the place of
the second. -/
theorem pending_matched_lost :
    ∃ s, Run step (fun s label => s.Increasing label ∧ s.InSequence label) init
        [putRequest 1 1, putRequest 2 2, putApplied 1 1, putApplied 3 2] s ∧
      (s.kv.answers.map (·.sent) = [true, false] ∧ s.kv.startedCmds = []) ∧
      s.panicked ≠ some .assertion := by
  obtain ⟨s, run, reached⟩ := @Run.exists_of_runSteps _ _ step
    (fun s label => s.Increasing label ∧ s.InSequence label) init _
    (fun s => s.kv.answers.map (·.sent) = [true, false] ∧ s.kv.startedCmds = [])
    [putRequest 1 1, putRequest 2 2, putApplied 1 1, putApplied 3 2] (by decide)
  exact ⟨s, run, reached, (pending_matched run).1⟩

/-- A request is started at index 2, the log is truncated, and a request is started at index
1.  The second one is never answered when its command is applied, and the assertion fails
once the first one has left the queue. -/
theorem pending_behind_applied :
    (∃ s, Run step Increasing init [putRequest 1 2, putRequest 2 1, putApplied 2 1] s ∧
      s.lastApplied = some 1 ∧ s.kv.startedCmds.map (·.cmdIndex) = [2, 1]) ∧
    ∃ s, Run step Increasing init [putRequest 1 2, putRequest 2 1, putApplied 2 1,
        putApplied 3 2, putApplied 3 3] s ∧ s.panicked = some .assertion :=
  ⟨Run.exists_of_runSteps (by decide), Run.exists_of_runSteps (by decide)⟩

end Service

end GoLab.KVRaft
