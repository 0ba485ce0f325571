import GoLab.KVSrv.Session

/-!
# What a repeated `Append` returns

A request that was executed before is answered from `LastValue`, which `Append` writes
only when it finds its key.  The answer is the right one as long as no `Append` that has
made its key is answered from the value of an earlier one.
-/

namespace GoLab.KVSrv

/-- The values noted with the executed operations are those of their keys, `LastValue` is
the one the last `Append` of the clerk found, and the answers that are waited for and the
values that were returned are the noted ones. -/
structure Kept (s : System) : Prop where
  noted : ∀ past op before later, s.executed = past ++ (op, before) :: later →
    before = replay (past.map Prod.fst) op.key
  last : ∀ op value, (op, some value) ∈ s.executed → op.method = .append →
    op.number + 1 = (byClerk op.clerk s.done).length →
    (s.kv.syncInfo (clerkID op.clerk)).lastValue = value
  answers : ∀ op reply, (op, reply) ∈ s.replies → s.Awaits op → op.method = .append →
    ∃ before, (op, before) ∈ s.executed ∧ reply.value = before.getD []
  returns : ∀ op value, (op, value) ∈ s.returned → op.method = .append →
    ∃ before, (op, before) ∈ s.executed ∧ value = before.getD []

/-- When the last `Append` of a client is answered from `LastValue`, it had found its key or
`LastValue` is empty. -/
def foundKey (s : System) : Label → Prop
  | .deliver number => ∀ request ∈ s.sent[number]?,
      (s.kv.syncInfo request.args.clientID).rpcID = request.args.rpcID + 1 →
      request.op.method = .append → (request.op, none) ∈ s.executed →
      (s.kv.syncInfo request.args.clientID).lastValue = []
  | _ => True

instance (s : System) : (label : Label) → Decidable (foundKey s label)
  | .deliver number =>
      match found : s.sent[number]? with
      | none => .isTrue (by simp [foundKey, found])
      | some request => decidable_of_iff
          ((s.kv.syncInfo request.args.clientID).rpcID = request.args.rpcID + 1 →
            request.op.method = .append → (request.op, none) ∈ s.executed →
            (s.kv.syncInfo request.args.clientID).lastValue = [])
          (by simp [foundKey, found])
  | .call .. | .get .. | .accept _ => .isTrue trivial

/-- The conditions under which retries return the original result. -/
def retriesKept (s : System) (label : Label) : Prop :=
  fits s label ∧ foundKey s label

instance (s : System) (label : Label) : Decidable (retriesKept s label) :=
  inferInstanceAs (Decidable (_ ∧ _))

section

variable {s s' : System} {op : Op} {clerk : Nat}

/-- Operations on other keys leave the value of a key. -/
theorem foldl_apply_of_untouched {ops : List Op} {key : Str} (data : Data)
    (untouched : ∀ op ∈ ops, op.key ≠ key) : ops.foldl Op.apply data key = data key := by
  induction ops generalizing data with
  | nil => rfl
  | cons op ops ih =>
      have differs : key ≠ op.key := (untouched op (List.mem_cons_self ..)).symm
      rw [List.foldl_cons, ih _ fun other inside => untouched other (List.mem_cons_of_mem _ inside)]
      cases isMethod : op.method with
      | put | append => simp [Op.apply, isMethod, Method.effect, Data.store, differs]

theorem System.mem_done : op ∈ s.done ↔ ∃ before, (op, before) ∈ s.executed := by
  simp [System.done]

namespace Kept

theorem init : Kept .init where
  noted := by simp [System.init]
  last := nofun
  answers := nofun
  returns := nofun

theorem call (kept : Kept s) (synced : Synced s) {method : Method} {key value : Str}
    (result : s.call clerk method key value = some s') : Kept s' := by
  obtain ⟨idle, rfl⟩ := System.call_eq_some result
  obtain ⟨allDone, -⟩ := synced.idle clerk idle
  refine ⟨kept.noted, kept.last, ?_, kept.returns⟩
  intro op reply sent waits isAppend
  rcases System.awaits_setClerk waits with ⟨-, before⟩ | ⟨isClerk, _, isCall, rfl⟩
  · exact kept.answers op reply sent before isAppend
  · cases isCall
    have new := synced.not_done_of_number isClerk (congrArg List.length allDone.symm)
    exact (new (synced.replies _ _ sent).1).elim

theorem accept (kept : Kept s) {reply : PutAppendReply} (sent : (op, reply) ∈ s.replies)
    (result : s.accept op reply = some s') : Kept s' := by
  obtain ⟨waits, rfl⟩ := System.accept_eq_some result
  refine ⟨kept.noted, kept.last, ?_, ?_⟩
  · intro op' reply' sent' waits'
    rcases System.awaits_setClerk waits' with ⟨-, before⟩ | ⟨-, _, none, -⟩
    · exact kept.answers op' reply' sent' before
    · cases none
  · intro op' value membership isAppend
    rcases List.mem_append.mp membership with earlier | new
    · exact kept.returns op' value earlier isAppend
    · cases List.mem_singleton.mp new
      exact kept.answers op reply sent waits isAppend

/-- The next operation of a clerk is executed. -/
theorem executed (kept : Kept s) (synced : Synced s) {request : Request}
    (sent : request ∈ s.sent) {kv : KVServer} {reply : PutAppendReply}
    (others : ∀ client, client ≠ request.args.clientID → kv.syncInfo client = s.kv.syncInfo client)
    (expected : (s.kv.syncInfo request.args.clientID).rpcID = request.args.rpcID)
    (found : ∀ value, request.op.method = .append → s.kv.data request.args.key = some value →
      (kv.syncInfo request.args.clientID).lastValue = value)
    (answer : reply.value = request.op.method.answer (s.kv.data request.args.key)) :
    Kept { s with
      kv
      replies := s.replies ++ [(request.op, reply)]
      executed := s.executed ++ [(request.op, s.kv.data request.args.key)] } := by
  obtain ⟨issued, args, rpcID, counter, -⟩ := synced.counters sent
  have number : request.op.number = (byClerk request.op.clerk s.done).length := by
    rw [← UInt32.toNat_inj] at expected
    omega
  have key : request.args.key = request.op.key := by rw [args]; rfl
  have clientID : request.args.clientID = clerkID request.op.clerk := by rw [args]; rfl
  refine ⟨?_, ?_, ?_, ?_⟩
  · intro past op before later whole
    dsimp only at whole
    rcases List.eq_nil_or_concat later with rfl | ⟨later, last, rfl⟩
    · obtain ⟨rfl, isLast⟩ := List.append_inj' whole rfl
      cases isLast
      rw [key, synced.data]
      rfl
    · rw [List.concat_eq_append, ← List.cons_append, ← List.append_assoc] at whole
      exact kept.noted past op before later (List.append_inj' whole rfl).1
  · intro op value membership isAppend atEnd
    simp only [System.done, List.map_append, List.map_cons, List.map_nil] at atEnd
    change op.number + 1 = (byClerk op.clerk (s.done ++ [request.op])).length at atEnd
    rw [byClerk_append] at atEnd
    rcases List.mem_append.mp membership with earlier | new
    · have done : op ∈ s.done := System.mem_done.mpr ⟨_, earlier⟩
      have inIssued := synced.issued_of_done done
      split at atEnd
      case isTrue same =>
        have early := (synced.done_iff inIssued).mp done
        simp only [List.length_append, List.length_singleton] at atEnd
        omega
      case isFalse differs =>
        dsimp only
        rw [others]
        · exact kept.last op value earlier isAppend atEnd
        · rw [clientID]
          exact fun same => differs (clerkID_inj (synced.known _ inIssued)
            (synced.known _ issued) same).symm
    · obtain ⟨rfl, isValue⟩ := Prod.mk.inj (List.mem_singleton.mp new)
      rw [← clientID]
      exact found value isAppend isValue.symm
  · intro op' reply' membership waits isAppend
    rcases List.mem_append.mp membership with earlier | new
    · obtain ⟨before, noted, value⟩ := kept.answers op' reply' earlier waits isAppend
      exact ⟨before, List.mem_append_left _ noted, value⟩
    · cases List.mem_singleton.mp new
      refine ⟨_, List.mem_append_right _ (List.mem_singleton_self _), ?_⟩
      rw [answer, isAppend]
      rfl
  · intro op' value membership isAppend
    obtain ⟨before, noted, same⟩ := kept.returns op' value membership isAppend
    exact ⟨before, List.mem_append_left _ noted, same⟩

/-- A copy of a request reaches the server. -/
theorem deliver (kept : Kept s) (synced : Synced s) {number : Nat} {request : Request}
    (found : s.sent[number]? = some request) (answered : foundKey s (.deliver number)) :
    Kept (s.deliver request) := by
  have sent := List.mem_of_getElem? found
  obtain ⟨issued, args, rpcID, counter, behind⟩ := synced.counters sent
  have clientID : request.args.clientID = clerkID request.op.clerk := by rw [args]; rfl
  unfold System.deliver
  split
  case h_1 panicked =>
    have ahead := UInt32.lt_iff_toNat_lt.mp (Method.handle_eq_none panicked)
    omega
  case h_2 kv reply handled =>
    cases Method.handle_handled handled with
    | repeated data same old =>
        rw [UInt32.lt_iff_toNat_lt] at old
        have notNext : (s.kv.syncInfo request.args.clientID).rpcID ≠ request.args.rpcID := by
          intro next
          rw [next] at old
          omega
        rw [if_neg notNext]
        refine ⟨kept.noted, ?_, ?_, kept.returns⟩
        · intro op value membership isAppend atEnd
          dsimp only
          rw [same]
          exact kept.last op value membership isAppend atEnd
        · intro op reply membership waits isAppend
          rcases List.mem_append.mp membership with earlier | new
          · exact kept.answers op reply earlier waits isAppend
          · cases List.mem_singleton.mp new
            have done : request.op ∈ s.done := (synced.done_iff issued).mpr (by omega)
            obtain ⟨before, noted⟩ := System.mem_done.mp done
            obtain ⟨other, waiting, isOp⟩ := waits
            obtain ⟨-, last, -⟩ := synced.busy _ other waiting
            have atMost := (synced.ahead request.op.clerk).length_le
            rw [isOp] at last
            refine ⟨before, noted, ?_⟩
            cases before with
            | some value =>
                rw [clientID]
                exact kept.last request.op value noted isAppend (by omega)
            | none =>
                have bound := synced.issued_lt issued
                have one : (1 : UInt32).toNat = 1 := rfl
                refine answered request found (UInt32.toNat_inj.mp ?_) isAppend noted
                rw [UInt32.toNat_add, one, Nat.mod_eq_of_lt (by omega)]
                omega
    | executed data others expected counted found answer value =>
        rw [if_pos expected]
        exact kept.executed synced sent others expected found value

theorem step (kept : Kept s) (synced : Synced s) {label : Label} (answered : foundKey s label)
    (taken : System.step label s = some s') : Kept s' := by
  cases label with
  | call clerk method key value => exact kept.call synced taken
  | get clerk key =>
      simp only [System.step] at taken
      split at taken <;> cases taken
      exact kept
  | deliver request =>
      simp only [System.step] at taken
      split at taken
      case isTrue => cases taken
      case isFalse =>
        obtain ⟨request, found, rfl⟩ := Option.map_eq_some_iff.mp taken
        exact kept.deliver synced found answered
  | accept reply =>
      obtain ⟨⟨op, reply⟩, found, accepted⟩ := Option.bind_eq_some_iff.mp taken
      exact kept.accept (List.mem_of_getElem? found) accepted

end Kept

theorem System.kept {labels : List Label} (run : Run System.step retriesKept System.init labels s) :
    Synced s ∧ Kept s :=
  run.invariant (fun _ s => Synced s ∧ Kept s) ⟨.init, .init⟩
    fun _ _ _ _ _ holds allowed taken =>
      ⟨holds.1.step allowed.1 taken, holds.2.step holds.1 allowed.2 taken⟩

/-- The value an `Append` has returned is the one that its key had just before it was
executed, and empty if there was none. -/
def ReturnsBefore (s : System) (order : List Op) : Prop :=
  ∀ op value, (op, value) ∈ s.returned → op.method = .append →
    ∃ earlier later, order = earlier ++ op :: later ∧ value = (replay earlier op.key).getD []

theorem Kept.returnsBefore (kept : Kept s) : ReturnsBefore s s.done := by
  intro op value returned isAppend
  obtain ⟨before, noted, rfl⟩ := kept.returns op value returned isAppend
  obtain ⟨past, later, whole⟩ := List.append_of_mem noted
  refine ⟨past.map Prod.fst, later.map Prod.fst, ?_, ?_⟩
  · rw [System.done, whole, List.map_append, List.map_cons]
  · rw [kept.noted past op before later whole]

/-- A retry returns the original result as long as no `Append` that has made its key is
answered with what an earlier one of its client has found. -/
theorem append_returns_value_before {labels : List Label}
    (run : Run System.step retriesKept System.init labels s) :
    ∃ order, Explains s order ∧ ReturnsBefore s order :=
  ⟨s.done, (System.kept run).1.explains, (System.kept run).2.returnsBefore⟩

end

/-- The second of two appends to a key is answered twice. -/
def answeredAgain : List Label :=
  [.call 0 .append [120] [97], .deliver 0, .accept 0,
    .call 0 .append [120] [98], .deliver 1, .deliver 1, .accept 2]

theorem append_returns_value_before_answeredAgain :
    ∃ s, Run System.step retriesKept System.init answeredAgain s ∧
      (⟨0, 1, .append, [120], [98]⟩, [97]) ∈ s.returned ∧
      ∃ order, Explains s order ∧ ReturnsBefore s order := by
  obtain ⟨s, run, returned⟩ :
      ∃ s, Run System.step retriesKept System.init answeredAgain s ∧
        (⟨0, 1, .append, [120], [98]⟩, [97]) ∈ s.returned :=
    Run.exists_of_runSteps (by decide +kernel)
  exact ⟨s, run, returned, append_returns_value_before run⟩

/-- Two appends to one key, and one to a new key whose first answer is lost. -/
def answeredFromEarlier : List Label :=
  [.call 0 .append [120] [97], .deliver 0, .accept 0,
    .call 0 .append [120] [98], .deliver 1, .accept 1,
    .call 0 .append [121] [99], .deliver 2, .deliver 2, .accept 3]

/-- The last `Append` returns what the second one has found in another key. -/
theorem append_returns_earlier_value :
    ∃ s, Run System.step fits System.init answeredFromEarlier s ∧
      ¬ ∃ order, Explains s order ∧ ReturnsBefore s order := by
  obtain ⟨s, run, issued, returned⟩ :
      ∃ s, Run System.step fits System.init answeredFromEarlier s ∧
        (∀ op ∈ s.issued, op.key = [121] → op = ⟨0, 2, .append, [121], [99]⟩) ∧
        (⟨0, 2, .append, [121], [99]⟩, [97]) ∈ s.returned :=
    Run.exists_of_runSteps (by decide +kernel)
  refine ⟨s, run, ?_⟩
  rintro ⟨order, explains, returnsBefore⟩
  obtain ⟨earlier, later, rfl, value⟩ := returnsBefore _ _ returned rfl
  have untouched : ∀ op ∈ earlier, op.key ≠ [121] := by
    intro op membership isKey
    have same := issued op (explains.issued op (List.mem_append_left _ membership)) isKey
    have distinct := (List.nodup_append.mp explains.once).2.2 op membership op
    exact distinct (same ▸ List.mem_cons_self ..) rfl
  rw [replay, foldl_apply_of_untouched _ untouched] at value
  cases value

end GoLab.KVSrv
