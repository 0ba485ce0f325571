import GoLab.Raft.EventTokens

/-!
# Isolation of the events of a role

An internal event is handed to the role instance it was pushed for, and when the next
role is activated the events of the last one have been handed or discarded.  That an
event is handed before its role is stopped needs more: a replicator that calls
`transRole` on its own can stop the role between the processor's check of `closed()` and
its call of `process`.
-/

namespace GoLab.Raft.EventLoop

/-! ## Events of the present role only -/

/-- The internal events in the channel and in hand are of the present role, and so are
those about to be pushed.  None stands behind a `TransEvent`. -/
structure Owned (s : Loop) : Prop where
  pushing : ∀ ev role, .tryPutEv ev role .push ∈ s.threads → role = s.role
  inside : ∀ ev, .internal ev ∈ s.evCh → ev.owner = s.role
  hand : ∀ ev, s.pc.hand = some ev → ev.owner = s.role
  behind : ∀ before transFunc rest, s.evCh = before ++ .trans transFunc :: rest →
    ∀ ev, .internal ev ∉ rest
  clear : s.pc.entering = true → ∀ ev, .internal ev ∉ s.evCh

section

variable {s s' : Loop}

/-- A goroutine about to push an event keeps the lock from being taken. -/
theorem Tokens.free_of_push (tokens : Tokens s) {ev : Internal} {role : Nat}
    (pushing : .tryPutEv ev role .push ∈ s.threads) :
    s.pc.locks = 0 ∧ s.evCh.countP Event.isTrans = 0 := by
  have reads := weight_le_total Thread.reads pushing
  have readers := tokens.readers
  have locks := tokens.locks
  have notHeld : s.chLock.writer ≠ .held := by
    intro held
    have noReaders := s.chLock.exclusive held
    simp only [Thread.reads] at reads
    omega
  simp only [holding, if_neg notHeld] at locks
  omega

theorem Moves.pushing {label : Label} (moves : Moves s label s') (tokens : Tokens s)
    {ev : Internal} {role : Nat} (pushing : .tryPutEv ev role .push ∈ s'.threads) :
    .tryPutEv ev role .push ∈ s.threads ∨ role = s.role := by
  cases moves with
  | processor _ processes =>
      left
      cases processes with
      | stopped _ stops => exact stops.threads_eq ▸ pushing
      | _ => exact pushing
  | thread found threads =>
      rcases List.mem_or_eq_of_mem_set pushing with earlier | new
      · exact .inl earlier
      · cases threads with
        | found active =>
            cases new
            exact .inr (tokens.eq_of_active active)
        | _ => cases new
  | spawned entry =>
      rcases List.mem_append.mp pushing with earlier | new
      · exact .inl earlier
      · rcases entry with ⟨_, _, rfl⟩ | rfl | ⟨_, _, rfl⟩ <;> cases List.mem_singleton.mp new
  | put => exact .inl pushing

namespace Owned

/-- The channel is as it was, or its first event has been taken. -/
theorem dropped (owned : Owned s) (role : s'.role = s.role) (front : List Event)
    (evCh : s.evCh = front ++ s'.evCh)
    (pushing : ∀ ev role, .tryPutEv ev role .push ∈ s'.threads →
      .tryPutEv ev role .push ∈ s.threads ∨ role = s.role)
    (hand : ∀ ev, s'.pc.hand = some ev → .internal ev ∈ s.evCh ∨ s.pc.hand = some ev)
    (entering : s'.pc.entering = true → s.pc.entering = true ∨ ∀ ev, .internal ev ∉ s'.evCh) :
    Owned s' where
  pushing := fun ev role' new => by
    rw [role]
    exact (pushing ev role' new).elim (owned.pushing ev role') id
  inside := fun ev membership => by
    rw [role]
    exact owned.inside ev (evCh ▸ List.mem_append_right _ membership)
  hand := fun ev held => by
    rw [role]
    exact (hand ev held).elim (owned.inside ev) (owned.hand ev)
  behind := fun before transFunc rest same =>
    owned.behind (front ++ before) transFunc rest (by rw [evCh, same, List.append_assoc])
  clear := fun now ev membership =>
    (entering now).elim
      (fun before => owned.clear before ev (evCh ▸ List.mem_append_right _ membership))
      (fun none => none ev membership)

/-- An event has been pushed: one that is not internal, or one of the present role while
no change of role is under way. -/
theorem appended (owned : Owned s) {ev : Event} (role : s'.role = s.role)
    (evCh : s'.evCh = s.evCh ++ [ev]) (phase : SamePhase s.pc s'.pc)
    (pushing : ∀ ev role, .tryPutEv ev role .push ∈ s'.threads →
      .tryPutEv ev role .push ∈ s.threads ∨ role = s.role)
    (own : ∀ pushed, ev = .internal pushed → pushed.owner = s.role ∧ s.pc.entering = false ∧
      ∀ transFunc, .trans transFunc ∉ s.evCh) : Owned s' where
  pushing := fun ev role' new => by
    rw [role]
    exact (pushing ev role' new).elim (owned.pushing ev role') id
  inside := fun pushed membership => by
    rw [evCh, List.mem_append, List.mem_singleton] at membership
    rw [role]
    exact membership.elim (owned.inside pushed) fun same => (own pushed same.symm).1
  hand := fun pushed held => by
    rw [role]
    exact owned.hand pushed (phase.hand ▸ held)
  behind := fun before transFunc rest same pushed membership => by
    rw [evCh] at same
    rcases List.eq_nil_or_concat rest with rfl | ⟨rest, last, rfl⟩
    · cases membership
    · rw [List.concat_eq_append] at same membership
      rw [← List.cons_append, ← List.append_assoc] at same
      obtain ⟨front, isLast⟩ := List.append_inj' same rfl
      cases isLast
      rcases List.mem_append.mp membership with earlier | new
      · exact owned.behind before transFunc rest front pushed earlier
      · refine (own pushed (List.mem_singleton.mp new).symm).2.2 transFunc ?_
        rw [front]
        simp
  clear := fun now pushed membership => by
    rw [evCh, List.mem_append, List.mem_singleton] at membership
    rcases membership with earlier | rfl
    · exact owned.clear (phase.entering now) pushed earlier
    · exact absurd ((own pushed rfl).2.1.symm.trans (phase.entering now)) nofun

end Owned

theorem Moves.owned {label : Label} (moves : Moves s label s') (tokens : Tokens s)
    (owned : Owned s) : Owned s' := by
  have pushing (ev : Internal) (role : Nat) := @Moves.pushing s s' label moves tokens ev role
  cases moves.effect tokens with
  | idle role _ evCh phase | stopped role _ _ evCh phase =>
      exact owned.dropped role [] evCh.symm pushing
        (fun ev held => .inr (phase.hand ▸ held)) (fun now => .inl (phase.entering now))
  | @took ev role _ evCh empty hand entering =>
      refine owned.dropped role [ev] evCh pushing (fun pushed held => ?_) fun now => ?_
      · rw [hand] at held
        cases ev with
        | internal ev =>
            cases held
            exact .inl (evCh ▸ List.mem_cons_self)
        | _ => cases held
      · cases ev with
        | trans transFunc => exact .inr (owned.behind [] transFunc _ evCh)
        | _ => exact absurd (entering now) nofun
  | changed role evCh empty hand entering threads =>
      have none (pushed : Pushed) : .internal pushed ∉ s'.evCh := by
        rw [evCh]
        exact owned.clear entering pushed
      refine ⟨fun ev role' new => ?_, fun pushed here => (none pushed here).elim, ?_, ?_,
        fun _ => none⟩
      · have locks := Pc.locks_of_entering entering
        have free := (tokens.free_of_push (threads ▸ new)).1
        omega
      · exact fun _ held => absurd (hand.symm.trans held) nofun
      · intro before transFunc rest same ev membership
        refine none ev ?_
        rw [same]
        simp [membership]
  | activated role evCh empty hand entering =>
      exact owned.dropped role [] evCh.symm pushing
        (fun _ held => absurd (hand.symm.trans held) nofun) (fun _ => .inl entering)
  | resolved role _ evCh _ empty entering =>
      exact owned.dropped role [] evCh.symm pushing
        (fun _ held => absurd (empty.symm.trans held) nofun)
        (fun now => absurd (entering.symm.trans now) nofun)
  | appended role _ evCh other _ phase =>
      refine owned.appended role evCh phase pushing ?_
      rintro pushed rfl
      cases other
  | @put ev role _ thread evCh phase =>
      refine owned.appended role evCh phase pushing ?_
      rintro pushed same
      cases same
      obtain ⟨noLock, noTrans⟩ := tokens.free_of_push thread
      refine ⟨owned.pushing _ _ thread, ?_, fun transFunc membership => ?_⟩
      · cases entering : s.pc.entering with
        | false => rfl
        | true =>
            have locks := Pc.locks_of_entering entering
            omega
      · exact List.countP_eq_zero.mp noTrans _ membership rfl

end

/-! ## The history -/

/-- What a record says about those before it. -/
def Obs.Follows (past : List Obs) : Obs → Prop
  | .pushed ev => ∀ role, .activated role ∈ past → role ≤ ev.owner
  | .handed role ev => ev.owner = role ∧ .pushed ev ∈ past
  | .activated role => (∀ stopped, .stopped stopped ∈ past → stopped < role) ∧
      ∀ ev, .pushed ev ∈ past → .handed ev.owner ev ∈ past ∨ .discarded ev ∈ past
  | .discarded _ | .stopped _ => True

/-- An event is in the channel or in the processor's hand. -/
def Loop.Pending (s : Loop) (ev : Pushed) : Prop :=
  .internal ev ∈ s.evCh ∨ s.pc.hand = some ev

/-- The present role has been active and will not be again. -/
structure Loop.Over (s : Loop) : Prop where
  inactive : s.isActive s.role = false
  notFresh : s.pc.fresh = false
  noTrans : .trans none ∉ s.evCh

/-- The history is in order.  What was pushed is pending or done with; a role that has been
stopped stays so. -/
structure Orderly (s : Loop) : Prop where
  records : ∀ record past, record :: past <:+ s.obs → record.Follows past
  waiting : ∀ ev, .pushed ev ∈ s.obs →
    s.Pending ev ∨ .handed ev.owner ev ∈ s.obs ∨ .discarded ev ∈ s.obs
  noted : ∀ ev, s.Pending ev → .pushed ev ∈ s.obs
  activated : ∀ role, .activated role ∈ s.obs → role ≤ s.role
  stopped : ∀ role, .stopped role ∈ s.obs → role < s.role ∨ role = s.role ∧ s.Over

section

variable {s s' : Loop}

theorem SamePhase.stillNotFresh {pc pc' : Pc} (phase : SamePhase pc pc')
    (notFresh : pc.fresh = false) : pc'.fresh = false := by
  cases now : pc'.fresh with
  | false => rfl
  | true => exact absurd (notFresh.symm.trans (phase.fresh now)) nofun

theorem Pc.ends_of_fresh {pc : Pc} (fresh : pc.fresh = true) : pc.ends = 1 := by
  cases pc <;> first | rfl | cases fresh

/-- No change of role is under way while the present role is active. -/
theorem Tokens.of_active (tokens : Tokens s) (active : s.isActive s.role = true) :
    s.pc.fresh = false ∧ ∀ transFunc, .trans transFunc ∉ s.evCh := by
  have ends := tokens.ends
  rw [active, Bool.toNat_true] at ends
  constructor
  · cases fresh : s.pc.fresh with
    | false => rfl
    | true =>
        have one := Pc.ends_of_fresh fresh
        omega
  · intro transFunc membership
    have none : s.evCh.countP Event.isTrans = 0 := by omega
    exact List.countP_eq_zero.mp none _ membership rfl

namespace Orderly

/-- A step that adds nothing to the history. -/
theorem same (orderly : Orderly s) (obs : s'.obs = s.obs)
    (pending : ∀ ev, s'.Pending ev ↔ s.Pending ev) (role : s.role ≤ s'.role)
    (isOver : s'.role = s.role → s.Over → s'.Over) : Orderly s' := by
  refine ⟨obs ▸ orderly.records, ?_, ?_, ?_, ?_⟩ <;> rw [obs]
  · exact fun ev membership => (orderly.waiting ev membership).imp (pending ev).mpr id
  · exact fun ev here => orderly.noted ev ((pending ev).mp here)
  · exact fun role' membership => Nat.le_trans (orderly.activated role' membership) role
  · intro role' membership
    rcases orderly.stopped role' membership with less | ⟨rfl, before⟩
    · exact .inl (by omega)
    · rcases Nat.lt_or_eq_of_le role with less | still
      · exact .inl less
      · exact .inr ⟨still, isOver still.symm before⟩

/-- A step that adds a record. -/
theorem added (orderly : Orderly s) {record : Obs} (obs : s'.obs = record :: s.obs)
    (role : s'.role = s.role) (follows : record.Follows s.obs)
    (stays : ∀ ev, s.Pending ev → s'.Pending ev ∨ record = .handed ev.owner ev ∨
      record = .discarded ev)
    (pushed : ∀ ev, record = .pushed ev → s'.Pending ev)
    (pending : ∀ ev, s'.Pending ev → record = .pushed ev ∨ s.Pending ev)
    (activated : ∀ role, record = .activated role → role = s.role)
    (stopped : ∀ role, record = .stopped role → role = s.role ∧ s'.Over)
    (isOver : s.Over → s'.Over) : Orderly s' := by
  refine ⟨?_, ?_, ?_, ?_, ?_⟩ <;> rw [obs]
  · intro other past suffix
    rcases List.suffix_cons_iff.mp suffix with same | earlier
    · cases same
      exact follows
    · exact orderly.records other past earlier
  · intro ev membership
    rcases List.mem_cons.mp membership with rfl | earlier
    · exact .inl (pushed ev rfl)
    · rcases orderly.waiting ev earlier with here | handed | discarded
      · rcases stays ev here with still | rfl | rfl
        · exact .inl still
        · exact .inr (.inl List.mem_cons_self)
        · exact .inr (.inr List.mem_cons_self)
      · exact .inr (.inl (List.mem_cons_of_mem _ handed))
      · exact .inr (.inr (List.mem_cons_of_mem _ discarded))
  · intro ev here
    rcases pending ev here with rfl | before
    · exact List.mem_cons_self
    · exact List.mem_cons_of_mem _ (orderly.noted ev before)
  · intro role' membership
    rw [role]
    rcases List.mem_cons.mp membership with same | earlier
    · exact Nat.le_of_eq (activated role' same.symm)
    · exact orderly.activated role' earlier
  · intro role' membership
    rw [role]
    rcases List.mem_cons.mp membership with same | earlier
    · exact .inr (stopped role' same.symm)
    · exact (orderly.stopped role' earlier).imp id fun ⟨same, before⟩ => ⟨same, isOver before⟩

end Orderly

/-- The channel and the hand are as they were. -/
theorem Loop.pending_iff (evCh : s'.evCh = s.evCh) (hand : s'.pc.hand = s.pc.hand) (ev : Pushed) :
    s'.Pending ev ↔ s.Pending ev := by
  unfold Loop.Pending
  rw [evCh, hand]

theorem Effect.orderly (effect : Effect s s') (tokens : Tokens s) (owned : Owned s)
    (orderly : Orderly s) : Orderly s' := by
  cases effect with
  | idle role active evCh phase obs =>
      refine orderly.same obs (Loop.pending_iff evCh phase.hand) (Nat.le_of_eq role.symm) ?_
      rintro - ⟨inactive, notFresh, noTrans⟩
      exact ⟨role ▸ active.trans inactive, phase.stillNotFresh notFresh, evCh ▸ noTrans⟩
  | @took ev role active evCh empty hand _ fresh obs =>
      refine orderly.same obs (fun pushed => ?_) (Nat.le_of_eq role.symm) ?_
      · unfold Loop.Pending
        rw [evCh, empty, hand, List.mem_cons]
        cases ev <;> simp [eq_comm, or_comm]
      · rintro - ⟨inactive, -, noTrans⟩
        rw [evCh, List.mem_cons, not_or] at noTrans
        refine ⟨role ▸ active.trans inactive, ?_, noTrans.2⟩
        cases now : s'.pc.fresh with
        | false => rfl
        | true => exact (noTrans.1 (fresh now).symm).elim
  | changed role evCh empty hand _ _ obs =>
      exact orderly.same obs (Loop.pending_iff evCh (hand.trans empty.symm)) (by omega) (by omega)
  | activated role evCh empty hand entering fresh onward obs =>
      have notOver : ¬ s.Over := fun isOver => absurd (isOver.notFresh.symm.trans fresh) (by simp)
      have none (ev : Pushed) : ¬ s.Pending ev := fun here =>
        here.elim (owned.clear entering ev) fun held => absurd (empty.symm.trans held) (by simp)
      refine orderly.added obs role ⟨fun stopped membership => ?_, fun ev membership => ?_⟩
        (fun ev here => (none ev here).elim) (by simp)
        (fun ev here => .inr ((Loop.pending_iff evCh (hand.trans empty.symm) ev).mp here))
        (by rintro _ ⟨⟩; rfl) (by simp) (fun isOver => (notOver isOver).elim)
      · exact (orderly.stopped stopped membership).resolve_right fun isOver => notOver isOver.2
      · exact (orderly.waiting ev membership).resolve_left (none ev)
  | @resolved ev record role active evCh hand empty _ fresh way obs =>
      have owner := owned.hand ev hand
      have follows : record.Follows s.obs := by
        rcases way with ⟨-, rfl⟩ | rfl
        · exact ⟨owner, orderly.noted ev (.inr hand)⟩
        · trivial
      refine orderly.added obs role follows (fun ev' here => ?_) ?_ (fun ev' here => ?_) ?_ ?_ ?_
      · rcases here with queued | held
        · exact .inl (.inl (evCh ▸ queued))
        · cases hand.symm.trans held
          exact .inr (way.imp (fun handed => owner ▸ handed.2) id)
      · rcases way with ⟨-, rfl⟩ | rfl <;> simp
      · exact .inr (.inl (evCh ▸ here.resolve_right fun held =>
          absurd (empty.symm.trans held) (by simp)))
      · rcases way with ⟨-, rfl⟩ | rfl <;> simp
      · rcases way with ⟨-, rfl⟩ | rfl <;> simp
      · rintro ⟨inactive, -, noTrans⟩
        exact ⟨role ▸ active.trans inactive, fresh, evCh ▸ noTrans⟩
  | stopped role wasActive inactive evCh phase obs =>
      obtain ⟨notFresh, noTrans⟩ := tokens.of_active wasActive
      have isOver : s'.Over :=
        ⟨role ▸ inactive, phase.stillNotFresh notFresh, evCh ▸ noTrans none⟩
      have pending := Loop.pending_iff evCh phase.hand
      exact orderly.added obs role trivial (fun ev here => .inl ((pending ev).mpr here)) (by simp)
        (fun ev here => .inr ((pending ev).mp here)) (by simp)
        (by rintro _ ⟨⟩; exact ⟨rfl, isOver⟩) (fun _ => isOver)
  | @appended ev role active evCh other some phase obs =>
      refine orderly.same obs (fun pushed => ?_) (Nat.le_of_eq role.symm) ?_
      · unfold Loop.Pending
        rw [evCh, phase.hand, List.mem_append, List.mem_singleton]
        cases ev with
        | internal => cases other
        | _ => simp
      · rintro - ⟨inactive, notFresh, noTrans⟩
        refine ⟨role ▸ active.trans inactive, phase.stillNotFresh notFresh, ?_⟩
        rw [evCh, List.mem_append, List.mem_singleton, not_or]
        exact ⟨noTrans, some.symm⟩
  | @put ev role active thread evCh phase obs =>
      have owner := owned.pushing _ _ thread
      have pending (pushed : Pushed) : s'.Pending pushed ↔ pushed = ev ∨ s.Pending pushed := by
        unfold Loop.Pending
        rw [evCh, phase.hand, List.mem_append, List.mem_singleton, Event.internal.injEq]
        simp only [or_assoc, or_left_comm]
      refine orderly.added obs role
        (fun role' membership => owner ▸ orderly.activated role' membership)
        (fun pushed here => .inl ((pending pushed).mpr (.inr here)))
        (fun pushed same => (pending pushed).mpr (.inl (Obs.pushed.inj same).symm))
        (fun pushed here => ((pending pushed).mp here).imp (congrArg Obs.pushed ·.symm) id)
        (by simp) (by simp) ?_
      rintro ⟨inactive, notFresh, noTrans⟩
      refine ⟨role ▸ active.trans inactive, phase.stillNotFresh notFresh, ?_⟩
      simp [evCh, noTrans]

end

/-! ## Every run -/

/-- The processor has found the role open and is about to hand it an internal event. -/
def Pc.handing : Pc → Bool
  | .process (.internal _) => true
  | _ => false

/-- The step by which a replicator stops the present role. -/
def Loop.deposes (s : Loop) : Label → Bool
  | .thread i =>
      match s.threads[i]? with
      | some (.stop role .cas) => s.isActive role
      | _ => false
  | _ => false

/-- No replicator stops the present role between the check of `closed()` and the call of
`process`. -/
def checkHolds (s : Loop) (label : Label) : Prop :=
  s.deposes label = true → s.pc.handing = false

instance (s : Loop) (label : Label) : Decidable (checkHolds s label) :=
  inferInstanceAs (Decidable (_ → _))

/-- An event is handed to a role that is active. -/
structure Undisturbed (s : Loop) : Prop where
  running : s.pc.handing = true → s.isActive s.role = true
  handed : ∀ role ev past, .handed role ev :: past <:+ s.obs → .stopped role ∉ past

section

variable {s s' : Loop} {allowed : Loop → Label → Prop} {labels : List Label}

theorem owned_init : Owned .init where
  pushing := nofun
  inside := by simp [Loop.init]
  hand := nofun
  behind := by
    intro before transFunc rest same
    rcases List.append_eq_cons_iff.mp same.symm with ⟨-, only⟩ | ⟨rest', -, rest⟩
    · cases only
      simp
    · simp at rest
  clear := nofun

theorem orderly_init : Orderly .init where
  records := by simp [Loop.init]
  waiting := nofun
  noted := by simp [Loop.Pending, Loop.init]
  activated := nofun
  stopped := nofun

/-- In every run the token is kept, the channel has events of the present role only, and
the history is in order. -/
theorem Loop.invariant (run : Run Loop.step allowed Loop.init labels s) :
    Tokens s ∧ Owned s ∧ Orderly s := by
  refine run.invariant (fun _ s => Tokens s ∧ Owned s ∧ Orderly s)
    ⟨tokens_init, owned_init, orderly_init⟩ ?_
  rintro _ s label s' - ⟨tokens, owned, orderly⟩ - taken
  have moves := step_moves taken
  exact ⟨moves.tokens tokens, moves.owned tokens owned,
    (moves.effect tokens).orderly tokens owned orderly⟩

theorem Moves.handing {label : Label} (moves : Moves s label s')
    (holds : checkHolds s label) (before : s.pc.handing = true → s.isActive s.role = true)
    (handing : s'.pc.handing = true) : s'.isActive s'.role = true := by
  cases moves with
  | processor present processes =>
      cases processes with
      | checked _ active => simpa [Loop.isActive, present] using active
      | unlocked _ _ onward | wasStopped _ _ onward =>
          rcases onward with rfl | rfl <;> cases handing
      | handed _ onward => rcases onward with rfl | ⟨_, rfl⟩ <;> cases handing
      | activated _ _ onward => rcases onward with rfl | rfl <;> cases handing
      | _ => cases handing
  | thread found threads =>
      cases threads with
      | stopped stops =>
          cases stops with
          | won active =>
              have closed := holds (by simp [Loop.deposes, found, active])
              exact absurd (closed.symm.trans handing) (by simp)
          | announced | acquired => exact before handing
      | _ => exact before handing
  | spawned | put => exact before handing

theorem Moves.undisturbed {label : Label} (moves : Moves s label s') (tokens : Tokens s)
    (orderly : Orderly s) (holds : checkHolds s label) (undisturbed : Undisturbed s) :
    Undisturbed s' := by
  refine ⟨moves.handing holds undisturbed.running, ?_⟩
  have cons {record : Obs} (obs : s'.obs = record :: s.obs)
      (new : ∀ role ev, record = .handed role ev → .stopped role ∉ s.obs) (role : Nat) (ev : Pushed)
      (past : List Obs) (suffix : .handed role ev :: past <:+ s'.obs) : .stopped role ∉ past := by
    rw [obs] at suffix
    rcases List.suffix_cons_iff.mp suffix with same | earlier
    · cases same
      exact new role ev rfl
    · exact undisturbed.handed role ev past earlier
  cases moves.effect tokens with
  | idle _ _ _ _ obs | took _ _ _ _ _ _ _ obs | changed _ _ _ _ _ _ obs
  | appended _ _ _ _ _ _ obs =>
      rw [obs]
      exact undisturbed.handed
  | activated _ _ _ _ _ _ _ obs | stopped _ _ _ _ _ obs | put _ _ _ _ _ obs => exact cons obs nofun
  | resolved role active evCh hand empty entering fresh way obs =>
      refine cons obs fun role ev same => ?_
      rcases way with ⟨stands, rfl⟩ | rfl
      · cases same
        intro stopped
        have active := undisturbed.running (by rw [stands]; rfl)
        rcases orderly.stopped _ stopped with less | ⟨-, isOver⟩
        · omega
        · exact absurd (isOver.inactive.symm.trans active) nofun
      · cases same

theorem Loop.undisturbed (run : Run Loop.step checkHolds Loop.init labels s) : Undisturbed s := by
  refine run.invariant (fun _ s => Undisturbed s)
    ⟨by simp [Loop.init, Pc.handing], by simp [Loop.init]⟩ ?_
  intro _ s label s' before undisturbed holds taken
  obtain ⟨tokens, -, orderly⟩ := Loop.invariant before
  exact (step_moves taken).undisturbed tokens orderly holds undisturbed

/-- Whatever the replicators do, an internal event is handed to the role instance it was
pushed for. -/
theorem handed_to_owner (run : Run Loop.step allowed Loop.init labels s) {role : Nat}
    {ev : Pushed} {past : List Obs} (handed : .handed role ev :: past <:+ s.obs) :
    ev.owner = role ∧ .pushed ev ∈ past :=
  (Loop.invariant run).2.2.records _ _ handed

/-- When a role is activated, the events of a role stopped before are done with. -/
theorem done_when_activated (run : Run Loop.step allowed Loop.init labels s) {role next : Nat}
    {past : List Obs} (activated : .activated next :: past <:+ s.obs)
    (stopped : .stopped role ∈ past) {ev : Pushed} (pushed : .pushed ev ∈ s.obs)
    (owner : ev.owner = role) : .handed role ev ∈ past ∨ .discarded ev ∈ past := by
  have records := (Loop.invariant run).2.2.records
  obtain ⟨before, done⟩ := records _ _ activated
  obtain ⟨later, whole⟩ := activated
  rw [← whole, List.mem_append, List.mem_cons] at pushed
  rcases pushed with after | same | earlier
  · obtain ⟨front, back, split⟩ := List.append_of_mem after
    have follows := records (.pushed ev) (back ++ .activated next :: past)
      ⟨front, by rw [← whole, split]; simp⟩
    have atLeast := follows next (by simp)
    have less := before role stopped
    omega
  · cases same
  · rw [← owner]
    exact done ev earlier

/-- If no replicator stops the present role between the processor's check of `closed()` and
its call of `process`, then every internal event that is handed to a role instance was
pushed by `tryPutEv` for that instance, which has not been stopped, and when a role is
activated all events of the roles that were stopped before have been handed or discarded. -/
theorem events_isolated (run : Run Loop.step checkHolds Loop.init labels s) :
    (∀ role ev past, .handed role ev :: past <:+ s.obs →
      ev.owner = role ∧ .pushed ev ∈ past ∧ .stopped role ∉ past) ∧
    ∀ role next past, .activated next :: past <:+ s.obs → .stopped role ∈ past →
      ∀ ev, .pushed ev ∈ s.obs → ev.owner = role →
        .handed role ev ∈ past ∨ .discarded ev ∈ past := by
  constructor
  · intro role ev past handed
    obtain ⟨owner, pushed⟩ := handed_to_owner run handed
    exact ⟨owner, pushed, (Loop.undisturbed run).handed role ev past handed⟩
  · intro role next past activated stopped ev pushed owner
    exact done_when_activated run activated stopped pushed owner

end

/-! ## A replicator beside the processor -/

def processorSteps (choices : List (Option TransFunc)) : List Label :=
  choices.map .processor

/-- A goroutine of a role instance puts an event into the channel. -/
def putting (ev : Internal) (role thread : Nat) : List Label :=
  [.tryPutEv ev role, .thread thread, .thread thread, .thread thread, .thread thread]

/-- The processor takes an event, hands it to the role, stops the role and activates the next
one. -/
def changing (transFunc : TransFunc) : List Label :=
  processorSteps ([none, none, some transFunc] ++ List.replicate 9 none)

/-- A server becomes a follower, a candidate and the leader. -/
def becomesLeader : List Label :=
  processorSteps (List.replicate 5 none) ++
  putting .heartBeatTimeout 0 0 ++ changing .candidateFromFollower ++
  putting .voteGrant 1 1 ++ changing .leaderFromCandidate

theorem events_isolated_becomesLeader :
    ∃ s, Run Loop.step checkHolds Loop.init becomesLeader s ∧ s.role = 2 ∧
      (∀ role ev past, .handed role ev :: past <:+ s.obs →
        ev.owner = role ∧ .pushed ev ∈ past ∧ .stopped role ∉ past) ∧
      ∀ role next past, .activated next :: past <:+ s.obs → .stopped role ∈ past →
        ∀ ev, .pushed ev ∈ s.obs → ev.owner = role →
          .handed role ev ∈ past ∨ .discarded ev ∈ past := by
  obtain ⟨s, run, role⟩ :
      ∃ s, Run Loop.step checkHolds Loop.init becomesLeader s ∧ s.role = 2 :=
    Run.exists_of_runSteps (by decide +kernel)
  exact ⟨s, run, role, events_isolated run⟩

/-- The processor has checked that the leader is not closed; then a replicator of the leader
stops it in `transRole`, and the processor hands it the event. -/
def deposedMeanwhile : List Label :=
  becomesLeader ++ putting .replConfirm 2 2 ++ processorSteps [none, none] ++
  [.transRole 2, .thread 3, .thread 3] ++ processorSteps [none]

/-- An event is handed to a role that has been stopped. -/
theorem handed_after_stop : ∃ s role ev past,
    Run Loop.step (fun _ _ => True) Loop.init deposedMeanwhile s ∧
      .handed role ev :: past <:+ s.obs ∧ .stopped role ∈ past := by
  obtain ⟨s, run, latest⟩ :
      ∃ s, Run Loop.step (fun _ _ => True) Loop.init deposedMeanwhile s ∧
        s.obs.take 2 = [.handed 2 ⟨.replConfirm, 2, 9⟩, .stopped 2] :=
    Run.exists_of_runSteps (by decide +kernel)
  have whole := List.take_append_drop 2 s.obs
  rw [latest] at whole
  exact ⟨s, 2, _, .stopped 2 :: s.obs.drop 2, run, ⟨[], whole⟩, List.mem_cons_self⟩

end GoLab.Raft.EventLoop
