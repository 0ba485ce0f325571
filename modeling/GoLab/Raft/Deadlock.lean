import Mathlib.Algebra.GroupWithZero.Nat
import GoLab.Raft.Isolation

/-!
# The cycle of processor, applier and service

The processor waits for room in `logs.applier`, the applier for the service to
receive, and the service, inside `rf.Snapshot`, for the processor to reach its
event.  What the processor still sends before it gets there is bounded by the
operations left in its handler and by the events in front of the service's.
-/

namespace GoLab.Raft

variable {α : Type}

/-- Operations that send on `logs.applier`. -/
def Op.sends : Op α → Nat
  | .apply _ | .updateCommit _ => 1
  | _ => 0

/-- Events whose handler may send on `logs.applier`. -/
def Event.sends : Event α → Nat
  | .appendEntries .. | .replConfirm .. => 1
  | _ => 0

/-- How often a handler may still send. -/
def opSends (todo : List (Op α)) : Nat := (todo.map Op.sends).sum

/-- How often the handlers of some events may send. -/
def eventSends (events : List (Event α)) : Nat := (events.map Event.sends).sum

namespace Server

/-- Nothing is left to do for any of the three goroutines. -/
structure AtRest (sv : Server α) : Prop where
  todo : sv.todo = []
  evCh : sv.evCh = []
  applier : sv.applier = []
  hand : sv.hand = .idle
  service : sv.service = .ready

/-- One of the processor, the applier and the service can take a step. -/
def CanStep (cfg : Config) (me : Nat) (sv : Server α) : Prop :=
  (sv.pop cfg me).isSome ∨ (sv.exec cfg me).isSome ∨ (sv.applierStep me).isSome ∨
    sv.snapshotPush.isSome

/-- The batches queued and those the handler under way may still send fit the
channel. -/
def Fits (sv : Server α) : Prop :=
  sv.applier.length + opSends sv.todo ≤ applierCap

/-- Replicator `number` is about to stop the role. -/
def stepsDown (sv : Server α) (number : Nat) : Bool :=
  sv.repls[number]?.any fun repl =>
    match repl.pc with
    | .stepDown => true
    | _ => false

/-- The service is about to push its event. -/
def isCalling (sv : Server α) : Bool :=
  match sv.service with
  | .calling .. => true
  | _ => false

/-- A step after which the three goroutines cannot block each other: the event
channel keeps a free slot; `rf.Snapshot` pushes its event only when all that may
be sent before it is reached fits `logs.applier`; and while the role is stopped
under the service's hands, what the handler under way may still send fits. -/
def RoomFor (sv : Server α) : Act α → Prop
  | .snapshotPush =>
      sv.evCh.length + 1 < evCap ∧
        sv.applier.length + opSends sv.todo + eventSends sv.evCh ≤ applierCap
  | .snapshotCall .. => sv.active = true ∨ sv.Fits
  | .repl number => sv.stepsDown number = true → sv.isCalling = true → sv.Fits
  | act => act.isInput = true → sv.evCh.length + 1 < evCap

instance (cfg : Config) (me : Nat) (sv : Server α) : Decidable (sv.CanStep cfg me) :=
  inferInstanceAs (Decidable (_ ∨ _))

instance (sv : Server α) : Decidable sv.Fits :=
  inferInstanceAs (Decidable (_ ≤ _))

instance (sv : Server α) : (act : Act α) → Decidable (sv.RoomFor act)
  | .snapshotPush => inferInstanceAs (Decidable (_ ∧ _))
  | .snapshotCall .. => inferInstanceAs (Decidable (_ ∨ _))
  | .repl _ => inferInstanceAs (Decidable (_ → _ → _))
  | .pop | .exec | .applier | .start _ | .heartBeat | .election | .receive _ | .call _
  | .refresh _ | .crash | .restart => inferInstanceAs (Decidable (_ → _))

end Server

/-- Every step of a server leaves room. -/
def leavesRoom (s : Cluster α) (label : Label α) : Prop :=
  (s.servers label.server).RoomFor label.act

instance (s : Cluster α) (label : Label α) : Decidable (leavesRoom s label) :=
  inferInstanceAs (Decidable (Server.RoomFor _ _))

/-- What keeps the three goroutines going. -/
structure Flows (sv : Server α) : Prop where
  /-- The service waits for an event the processor gets to. -/
  waiting : ∀ index bytes, sv.service = .waiting index bytes →
    (∃ ok, sv.todo = [.replySnapshot ok]) ∨
      ∃ before index bytes after, sv.evCh = before ++ .snapshot index bytes :: after ∧
        sv.applier.length + opSends sv.todo + eventSends before ≤ applierCap
  calling : ∀ index bytes, sv.service = .calling index bytes → sv.active = true ∨ sv.Fits
  size : sv.applier.length ≤ applierCap
  room : sv.evCh.length ≤ evCap
  roomActive : sv.active = true → sv.evCh.length < evCap
  /-- A handler that changes the role sends nothing. -/
  exclusive : ∀ transFunc, .transRole transFunc ∈ sv.todo → opSends sv.todo = 0

@[simp] theorem opSends_nil : opSends ([] : List (Op α)) = 0 := rfl

theorem opSends_cons (op : Op α) (rest : List (Op α)) :
    opSends (op :: rest) = op.sends + opSends rest := by
  simp [opSends]

theorem opSends_append (front back : List (Op α)) :
    opSends (front ++ back) = opSends front + opSends back := by
  simp [opSends]

theorem eventSends_cons (ev : Event α) (rest : List (Event α)) :
    eventSends (ev :: rest) = ev.sends + eventSends rest := by
  simp [eventSends]

namespace Handles

variable {cfg : Config} {me : Nat} {sv : Server α} {ev : Event α} {out : Out α}

/-- A handler sends no more than its event may. -/
theorem opSends_le (handles : Handles cfg me sv ev out) (idle : sv.todo = []) :
    opSends out.server.todo ≤ ev.sends := by
  cases handles with
  | appended =>
      simp only [opSends_append]
      split <;> split <;> simp [opSends, Op.sends, Event.sends]
  | counted =>
      dsimp only
      split <;> simp [opSends, Op.sends, Event.sends]
  | @confirmed _ _ _ _ _ _ commit =>
      cases commit <;> simp [opSends, Op.sends, Event.sends]
  | _ => simp [opSends, Op.sends, Event.sends, idle]

/-- A stopped role sends nothing. -/
theorem opSends_stopped (handles : Handles cfg me sv ev out) (idle : sv.todo = [])
    (stopped : sv.active = false) : opSends out.server.todo = 0 := by
  cases handles <;> simp_all [opSends, Op.sends]

/-- A handler that changes the role sends nothing. -/
theorem exclusive (handles : Handles cfg me sv ev out) (idle : sv.todo = [])
    {transFunc : TransFunc} (changes : .transRole transFunc ∈ out.server.todo) :
    opSends out.server.todo = 0 := by
  cases handles with
  | appended =>
      simp only [List.mem_append, List.mem_singleton, reduceCtorEq, or_false] at changes
      split at changes <;> split at changes <;> simp at changes
  | counted =>
      dsimp only
      split <;> simp [opSends, Op.sends]
  | _ => simp_all [opSends, Op.sends]

theorem active_of_active (handles : Handles cfg me sv ev out) (running : sv.active = true) :
    out.server.active = true := by
  cases handles <;> first | exact running | rfl

end Handles

namespace Flows

variable {sv sv' : Server α}

theorem handles {cfg : Config} {me : Nat} {ev : Event α} {rest : List (Event α)} {out : Out α}
    (ok : Flows sv) (idle : sv.todo = []) (isNext : sv.evCh = ev :: rest)
    (handles : Handles cfg me { sv with evCh := rest } ev out) : Flows out.server where
  waiting index bytes waiting := by
    rw [handles.service_eq] at waiting
    rcases ok.waiting index bytes waiting with ⟨_, due⟩ | ⟨before, index, bytes, after, evCh, fits⟩
    · simp [idle] at due
    · rw [isNext] at evCh
      cases before with
      | nil =>
          obtain ⟨rfl, -⟩ := List.cons.inj evCh
          refine .inl ?_
          cases handles with
          | snapshotTaken => exact ⟨true, rfl⟩
          | snapshotRefused => exact ⟨false, rfl⟩
          | ignored _ _ inner => exact (inner _ _ rfl).elim
      | cons first before =>
          obtain ⟨rfl, restEq⟩ := List.cons.inj evCh
          refine .inr ⟨before, index, bytes, after, by rw [handles.evCh_eq]; exact restEq, ?_⟩
          have sends := handles.opSends_le idle
          rw [eventSends_cons] at fits
          rw [handles.applier_eq]
          dsimp only
          omega
  calling index bytes calling := by
    rw [handles.service_eq] at calling
    cases active : sv.active with
    | true => exact .inl (handles.active_of_active active)
    | false =>
        refine .inr ?_
        have nothing := handles.opSends_stopped idle active
        rw [Server.Fits, nothing, handles.applier_eq]
        exact ok.size
  size := by
    rw [handles.applier_eq]
    exact ok.size
  room := by
    have room := ok.room
    rw [isNext, List.length_cons] at room
    rw [handles.evCh_eq]
    exact Nat.le_of_succ_le room
  roomActive _ := by
    have room := ok.room
    rw [isNext, List.length_cons] at room
    rw [handles.evCh_eq]
    exact room
  exclusive _ := handles.exclusive idle

/-- A step that adds at most to the end of the channel and sends no more than it
was expected to. -/
theorem frame (ok : Flows sv) {pushed : List (Event α)} (evCh : sv'.evCh = sv.evCh ++ pushed)
    (waits : ∀ index bytes, sv'.service = .waiting index bytes → sv'.service = sv.service ∧
      ∀ ok, sv.todo = [.replySnapshot ok] → sv'.todo = [.replySnapshot ok])
    (calling : ∀ index bytes, sv'.service = .calling index bytes → sv'.active = true ∨ sv'.Fits)
    (sends : sv'.applier.length + opSends sv'.todo ≤ sv.applier.length + opSends sv.todo)
    (size : sv'.applier.length ≤ applierCap) (room : sv'.evCh.length ≤ evCap)
    (roomActive : sv'.active = true → sv'.evCh.length < evCap)
    (exclusive : ∀ transFunc, .transRole transFunc ∈ sv'.todo →
      .transRole transFunc ∈ sv.todo ∧ opSends sv'.todo ≤ opSends sv.todo) :
    Flows sv' where
  waiting index bytes waiting := by
    obtain ⟨service, due⟩ := waits index bytes waiting
    rcases ok.waiting index bytes (service ▸ waiting) with
      ⟨ok, isDue⟩ | ⟨before, index, bytes, after, split, fits⟩
    · exact .inl ⟨ok, due ok isDue⟩
    · refine .inr ⟨before, index, bytes, after ++ pushed, ?_, ?_⟩
      · simp [evCh, split]
      · omega
  calling := calling
  size := size
  room := room
  roomActive := roomActive
  exclusive transFunc changes := by
    obtain ⟨changed, fewer⟩ := exclusive transFunc changes
    have nothing := ok.exclusive transFunc changed
    omega

/-- The processor goes on with a handler, on the same channel and role. -/
theorem goOn {op : Op α} {rest : List (Op α)} (ok : Flows sv) (next : sv.todo = op :: rest)
    (evCh : sv'.evCh = sv.evCh) (active : sv'.active = sv.active)
    (service : sv'.service = sv.service) (notReply : ∀ ok, op ≠ .replySnapshot ok)
    (sends : sv'.applier.length + opSends sv'.todo ≤ sv.applier.length + opSends sv.todo)
    (size : sv'.applier.length ≤ applierCap)
    (exclusive : ∀ transFunc, .transRole transFunc ∈ sv'.todo →
      .transRole transFunc ∈ sv.todo ∧ opSends sv'.todo ≤ opSends sv.todo) :
    Flows sv' := by
  refine ok.frame (evCh.trans (List.append_nil _).symm) (fun _ _ _ => ⟨service, ?_⟩) ?_ sends
    size (evCh ▸ ok.room) (by rw [evCh, active]; exact ok.roomActive) exclusive
  · intro answer due
    rw [next] at due
    exact (notReply answer (List.cons.inj due).1).elim
  · intro index bytes calling
    rw [active]
    refine (ok.calling index bytes (service ▸ calling)).imp_right fun fits => ?_
    exact Nat.le_trans sends fits

theorem executes {cfg : Config} {me : Nat} {op : Op α} {rest : List (Op α)} {out : Out α}
    (ok : Flows sv) (isolated : Isolated sv) (next : sv.todo = op :: rest)
    (executes : Executes cfg me { sv with todo := rest } op out) : Flows out.server := by
  have sends : opSends sv.todo = op.sends + opSends rest := by rw [next, opSends_cons]
  have fewer {transFunc : TransFunc} (changes : .transRole transFunc ∈ rest) :
      .transRole transFunc ∈ sv.todo ∧ opSends rest ≤ opSends sv.todo :=
    ⟨by rw [next]; exact .tail _ changes, by omega⟩
  cases executes with
  | queued room =>
      refine ok.goOn next rfl rfl rfl nofun ?_ ?_ (fun _ => fewer)
      · simp only [List.length_append, List.length_singleton, sends, Op.sends]
        omega
      · rw [List.length_append]
        exact room
  | committed result room =>
      refine ok.goOn next rfl rfl rfl nofun ?_ ?_ ?_
      · simp only [List.length_append, List.length_singleton, opSends_cons, sends, Op.sends]
        omega
      · rw [List.length_append]
        exact room
      · intro transFunc changes
        have changes : .transRole transFunc ∈ rest := by simpa using changes
        simpa [opSends_cons, Op.sends] using fewer changes
  | voteGiven | voteDenied =>
      refine ok.goOn next rfl rfl rfl nofun ?_ ok.size ?_
      · simp only [opSends_append, opSends_cons, opSends_nil, Op.sends, sends]
        omega
      · intro transFunc changes
        have changes : .transRole transFunc ∈ rest := by simpa using changes
        simpa [opSends_append, opSends_cons, Op.sends] using fewer changes
  | @stopped transFunc running room =>
      have changes : .transRole transFunc ∈ sv.todo := by simp [next]
      have nothing : opSends rest = 0 := by
        have := ok.exclusive transFunc changes
        omega
      refine ok.frame rfl (fun _ _ _ => ⟨rfl, by simp [next]⟩) ?_ ?_ ok.size ?_ nofun
        (fun _ => fewer)
      · exact fun _ _ _ => .inr (by simpa [Server.Fits, nothing] using ok.size)
      · dsimp only
        omega
      · rw [List.length_append]
        exact room
  | snapshotAnswered released again =>
      refine ok.frame (List.append_nil _).symm
        (fun index bytes waiting => (released index bytes waiting).elim) ?_ ?_ ok.size ok.room
        ok.roomActive (fun _ => fewer)
      · intro index bytes calling
        rcases again index bytes calling with wasCalling | wasWaiting
        · refine (ok.calling index bytes wasCalling).imp_right fun fits => ?_
          exact Nat.le_trans (Nat.add_le_add_left (by dsimp only; omega) _) fits
        · refine .inr ?_
          have size := ok.size
          rcases ok.waiting index bytes wasWaiting with ⟨answer, due⟩ | ⟨_, _, _, _, -, fits⟩
          · rw [next] at due
            simpa [Server.Fits, (List.cons.inj due).2] using size
          · simp only [Server.Fits]
            omega
      · dsimp only
        omega
  | activated =>
      obtain ⟨-, -, empty⟩ := isolated.entering (by simp [next])
      refine ok.frame (List.append_nil _).symm (fun _ _ _ => ⟨rfl, by simp [next]⟩)
        (fun _ _ _ => .inl rfl) ?_ ok.size ok.room ?_ (fun _ => fewer)
      · dsimp only
        omega
      · simp [empty, evCap]
  | _ =>
      exact ok.goOn next rfl rfl rfl nofun
        (by dsimp only [Server.persistState, Server.persist]; omega) ok.size (fun _ => fewer)

/-- Another goroutine takes a step that leaves the role and the handler alone and
sends nothing. -/
theorem beside (ok : Flows sv) {pushed : List (Event α)} (evCh : sv'.evCh = sv.evCh ++ pushed)
    (active : sv'.active = sv.active) (todo : sv'.todo = sv.todo)
    (service : sv'.service = sv.service) (applier : sv'.applier.length ≤ sv.applier.length)
    (room : pushed = [] ∨ (sv.evCh ++ pushed).length < evCap) : Flows sv' := by
  have sends : sv'.applier.length + opSends sv'.todo ≤ sv.applier.length + opSends sv.todo := by
    rw [todo]
    omega
  refine ok.frame evCh (fun _ _ _ => ⟨service, fun _ => todo ▸ id⟩) ?_ sends
    (Nat.le_trans applier ok.size) ?_ ?_
    (fun _ changes => ⟨todo ▸ changes, Nat.le_of_eq (by rw [todo])⟩)
  · intro index bytes calling
    rw [active]
    refine (ok.calling index bytes (service ▸ calling)).imp_right fun fits => ?_
    exact Nat.le_trans sends fits
  · rw [evCh]
    rcases room with rfl | room
    · simpa using ok.room
    · exact Nat.le_of_lt room
  · rw [evCh, active]
    rcases room with rfl | room
    · simpa using ok.roomActive
    · exact fun _ => room

theorem applies {me : Nat} {out : Out α} (ok : Flows sv) (applies : Applies me sv out) :
    Flows out.server := by
  cases applies with
  | takenLog _ next | takenSnapshot _ next =>
      exact ok.beside (List.append_nil _).symm rfl rfl rfl (by simp [next]) (.inl rfl)
  | _ => exact ok.beside (List.append_nil _).symm rfl rfl rfl (Nat.le_refl _) (.inl rfl)

theorem make {persister : Persister α} {nextId : Nat}
    (made : make persister nextId = some sv) : Flows sv := by
  obtain ⟨applier, -, queued, rfl⟩ := make_eq_some made
  exact {
    waiting := nofun
    calling := nofun
    size := Nat.le_trans (length_unfinished queued) (by decide)
    room := by simp [evCap]
    roomActive := nofun
    exclusive := by simp }

end Flows

theorem Server.RoomFor.of_input {sv : Server α} {act : Act α} (room : sv.RoomFor act)
    (input : act.isInput = true) : sv.evCh.length + 1 < evCap := by
  cases act <;> first | exact room rfl | cases input

theorem Cluster.flows {cfg : Config} {labels : List (Label α)} {s : Cluster α}
    (run : Run (step cfg) leavesRoom init labels s) (i : Nat)
    (up : (s.servers i).up = true) : Flows (s.servers i) := by
  refine local_invariant (fun _ sv _ => sv.up = true → Flows sv) ?_ ?_ run i up
  · exact fun _ _ => .make make_fresh
  · intro _ s i act out earlier before room steps isUp
    cases steps with
    | popped up idle next handles => exact (before up).handles idle next handles
    | executed up next executes =>
        exact (before up).executes (isolated earlier i up) next executes
    | applied up applies => exact (before up).applies applies
    | snapshotCalled up =>
        have ok := before up
        exact ok.frame (List.append_nil _).symm nofun (fun _ _ _ => room) (Nat.le_refl _) ok.size
          ok.room ok.roomActive (fun _ changes => ⟨changes, Nat.le_refl _⟩)
    | @snapshotPushed index bytes up =>
        have ok := before up
        have free : ((s.servers i).evCh ++ [Event.snapshot index bytes]).length < evCap := by
          rw [List.length_append]
          exact room.1
        exact { ok with
          waiting := fun _ _ _ => .inr ⟨_, index, bytes, [], rfl, room.2⟩
          calling := nofun
          room := Nat.le_of_lt free
          roomActive := fun _ => free }
    | arrived input up arrives running | polledEvent input up | repliedEvent input up =>
        exact (before up).beside rfl rfl rfl rfl (Nat.le_refl _)
          (.inr (by simpa using room.of_input input))
    | steppedDown up found stepDown running free =>
        have ok := before up
        refine ok.frame rfl (fun _ _ _ => ⟨rfl, fun _ => id⟩) ?_ (Nat.le_refl _) ok.size ?_ nofun
          (fun _ changes => ⟨changes, Nat.le_refl _⟩)
        · intro index bytes calling
          have calling : (s.servers i).service = .calling index bytes := calling
          exact .inr (room (by simp [Server.stepsDown, found, stepDown])
            (by simp [Server.isCalling, calling]))
        · rw [List.length_append]
          exact free
    | crashed => cases isUp
    | restarted _ made => exact .make made
    | polled _ up | replied _ up | advanced up | called up | refreshed up =>
        exact (before up).beside (List.append_nil _).symm rfl rfl rfl (Nat.le_refl _) (.inl rfl)

/-! ## Progress -/

namespace Server

variable {cfg : Config} {me : Nat} {sv : Server α}

/-- A processor that is stuck in a handler waits for room. -/
theorem blocked_of_exec_eq_none {op : Op α} {rest : List (Op α)} (next : sv.todo = op :: rest)
    (blocked : sv.exec cfg me = none) :
    (op.sends = 1 ∧ applierCap ≤ sv.applier.length) ∨
      (sv.active = true ∧ evCap ≤ sv.evCh.length) := by
  have full {item : ApplyEntry α} {f : Server α → Out α}
      (refused : (do
        let server ← ({ sv with todo := rest } : Server α).sendApplier item
        return f server) = none) : applierCap ≤ sv.applier.length := by
    refine Nat.le_of_not_lt fun room => ?_
    simp [Server.sendApplier, guard, room] at refused
  unfold Server.exec at blocked
  rw [next] at blocked
  dsimp only at blocked
  cases op with
  | apply item =>
      dsimp only at blocked
      exact .inl ⟨rfl, full blocked⟩
  | updateCommit leaderCommit =>
      dsimp only at blocked
      split at blocked
      case h_3 => exact .inl ⟨rfl, full blocked⟩
      all_goals cases blocked
  | transRole transFunc =>
      simp only [Server.transRole, guard, Option.map_eq_none_iff] at blocked
      split at blocked
      case isTrue running =>
        split at blocked
        case isTrue => cases blocked
        case isFalse full => exact .inr ⟨running, Nat.le_of_not_lt full⟩
      case isFalse => cases blocked
  | replySnapshot ok =>
      dsimp only at blocked
      split at blocked <;> cases blocked
  | replyStart =>
      dsimp only at blocked
      split at blocked <;> cases blocked
  | _ => cases blocked

/-- An applier that has something to deliver but cannot waits for the service. -/
theorem service_of_applierStep_eq_none (blocked : sv.applierStep me = none) :
    sv.service ≠ .ready ∨ (sv.hand = .idle ∧ sv.applier = []) := by
  by_cases ready : sv.service = .ready
  · refine .inr ?_
    unfold Server.applierStep at blocked
    split at blocked
    case h_1 idle =>
      split at blocked
      case h_1 empty => exact ⟨idle, empty⟩
      all_goals cases blocked
    case h_3 =>
      split at blocked
      · cases blocked
      · simp [ready, guard] at blocked
    case h_4 => simp [ready, guard] at blocked
    all_goals cases blocked
  · exact .inl ready

theorem snapshotPush_isSome {index : Int} {bytes : List UInt8}
    (calling : sv.service = .calling index bytes) (running : sv.active = true)
    (room : sv.evCh.length < evCap) : sv.snapshotPush.isSome := by
  simp [Server.snapshotPush, calling, Server.push, guard, running, room]

end Server

/-- A server that flows and is not at rest can go on. -/
theorem Flows.progress {sv : Server α} {cfg : Config} {me : Nat} (flows : Flows sv)
    (isolated : Isolated sv) : sv.AtRest ∨ sv.CanStep cfg me := by
  by_cases stuck : sv.CanStep cfg me
  · exact .inr stuck
  refine .inl ?_
  simp only [Server.CanStep, not_or, Bool.not_eq_true, Option.isSome_eq_false_iff,
    Option.isNone_iff_eq_none] at stuck
  obtain ⟨noPop, noExec, noApply, noPush⟩ := stuck
  have stopped {index : Int} {bytes : List UInt8} (calling : sv.service = .calling index bytes) :
      sv.active = false := by
    cases active : sv.active with
    | false => rfl
    | true =>
        have pushes := Server.snapshotPush_isSome calling active (flows.roomActive active)
        simp [noPush] at pushes
  have waits := Server.service_of_applierStep_eq_none noApply
  cases todo : sv.todo with
  | nil =>
      have evCh : sv.evCh = [] := by
        cases evCh : sv.evCh with
        | nil => rfl
        | cons => simp [Server.pop, todo, evCh] at noPop
      cases service : sv.service with
      | ready =>
          obtain ⟨hand, applier⟩ := waits.resolve_left (not_not_intro service)
          exact ⟨todo, evCh, applier, hand, service⟩
      | waiting =>
          rcases flows.waiting _ _ service with ⟨_, due⟩ | ⟨before, _, _, _, split, -⟩
          · simp [todo] at due
          · simp [evCh] at split
      | calling =>
          cases isolated.stopped (stopped service) with
          | leaving last => simp [evCh] at last
          | entering due => simp [todo] at due
  | cons op rest =>
      exfalso
      obtain ⟨sends, full⟩ | ⟨active, full⟩ := Server.blocked_of_exec_eq_none todo noExec
      · have sending : 1 ≤ opSends sv.todo := by
          rw [todo, opSends_cons]
          omega
        cases service : sv.service with
        | ready =>
            obtain ⟨-, applier⟩ := waits.resolve_left (not_not_intro service)
            simp [applier, applierCap] at full
        | waiting =>
            rcases flows.waiting _ _ service with ⟨_, due⟩ | ⟨_, _, _, _, -, fits⟩
            · rw [due] at sending
              simp [opSends_cons, Op.sends] at sending
            · omega
        | calling =>
            rcases flows.calling _ _ service with active | fits
            · simp [stopped service] at active
            · simp only [Server.Fits] at fits
              omega
      · exact Nat.not_lt.mpr full (flows.roomActive active)

/-- While every step leaves room, a running server is at rest or one of its three
goroutines can go on. -/
theorem atRest_or_canStep {cfg : Config} {labels : List (Label α)} {s : Cluster α}
    (run : Run (Cluster.step cfg) leavesRoom .init labels s) (i : Nat)
    (up : (s.servers i).up = true) :
    (s.servers i).AtRest ∨ (s.servers i).CanStep cfg i :=
  (Cluster.flows run i up).progress (Cluster.isolated run i up)

/-- `atRest_or_canStep` after the first command has been delivered. -/
theorem atRest_or_canStep_firstCommit :
    ∃ s, Run (Cluster.step (.doubling 3)) leavesRoom .init firstCommit s ∧
      ((s.servers 0).AtRest ∨ (s.servers 0).CanStep (.doubling 3) 0) := by
  have reached : ∃ s, Run (Cluster.step (.doubling 3)) leavesRoom .init firstCommit s ∧
      (s.servers 0).up = true :=
    Run.exists_of_runSteps (by decide +kernel)
  obtain ⟨s, run, up⟩ := reached
  exact ⟨s, run, atRest_or_canStep run 0 up⟩

/-- Command `k` of twelve is replicated to server 1 and confirmed; the leader has
not looked at the confirmation yet. -/
def confirmUnseen (k : Nat) : List (Label Nat) :=
  Label.all 0 [.pop, .exec, .exec, .repl 0, .repl 0, .repl 0, .call 0] ++
  Label.all 1 ([.receive (7 + 2 * k), .pop, .exec, .exec, .exec] ++
    if k = 0 then [.exec] else []) ++
  Label.all 0 [.receive (8 + 2 * k)]

/-- The service calls `rf.Snapshot` while twelve commands are under way; their
confirmations reach the channel before its event does. -/
def snapshotBehindCommits : List (Label Nat) :=
  firstCommit ++
  Label.all 0 (.snapshotCall 1 [1] :: (List.range 12).map fun k => .start (some k)) ++
  (List.range 12).flatMap confirmUnseen ++
  Label.all 0 ([.snapshotPush, .pop, .exec, .exec, .applier] ++
    (List.replicate 10 [.pop, .exec, .exec]).flatten ++ [.pop])

/-- The processor is stuck sending the twelfth batch, the applier is stuck with a
command in hand, and the service waits for the processor. -/
theorem snapshot_stalls :
    ∃ s, Run (Cluster.step (.doubling 3)) (fun _ _ => True) .init snapshotBehindCommits s ∧
      (s.servers 0).up = true ∧ (s.servers 0).todo = [.updateCommit 13] ∧
      (s.servers 0).hand = .log [⟨2, 1, some 0⟩] ∧ (s.servers 0).service = .waiting 1 [1] ∧
      ¬ (s.servers 0).CanStep (.doubling 3) 0 :=
  Run.exists_of_runSteps (by decide +kernel)

end GoLab.Raft
