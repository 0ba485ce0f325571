import GoLab.Lib.Run
import GoLab.Raft.Steps

/-!
# The applier's save

`encodeState` copies the slice of the entries under the lock of the log and encodes the state
after the lock has been released.  When the applier goroutine saves, the processor goes on
meanwhile: it waits for `saveLock` only when it saves itself, and it may write to the array
behind `entries` before that.  In `Cluster.step` the applier's save is one step.  Here it is two:
the state is captured together with the slice, and later the entries are read through the slice.

The persister gets the captured state at once, and when the save is written, the entries in it
become those that the slice shows then.  What the disk holds until then, and after a crash that
cuts the save off, is what it holds in the run in which the applier has not begun to save: no
other save of the server is made in the meantime, and what the applier changes in memory (`lai`)
is read by saves only.
-/

namespace GoLab.Raft

variable {α : Type}

/-- What the applier has captured in `encodeState`, and the slice of the entries. -/
structure Save (α : Type) where
  state : PersistentState α
  view : Slice
  deriving DecidableEq, Repr

/-- A cluster with the saves that are not written yet. -/
structure Saving (α : Type) where
  cluster : Cluster α
  pending : Nat → Option (Save α)

/-- A step of the cluster, or the end of the save of a server's applier. -/
inductive SavingStep (α : Type) where
  | act (label : Label α)
  | written (server : Nat)
  deriving DecidableEq, Repr

/-- The applier is inside `persistState`, or the step needs `saveLock`. -/
def Out.waits (out : Out α) : Act α → Bool
  | .applier => true
  | _ => out.obs.any fun
    | .saved _ => true
    | _ => false

/-- The save a server's applier is in after a step: it is begun by the applier and lost in a
crash. -/
def Server.saveAfter (sv : Server α) (act : Act α) (out : Out α) (before : Option (Save α)) :
    Option (Save α) :=
  if out.server.up then
    match act, sv.hand with
    | .applier, .applied _ => some ⟨out.server.encodeState, out.server.slice⟩
    | _, _ => before
  else
    none

/-- The state is written with the entries that the slice shows now. -/
def Save.write (save : Save α) (sv : Server α) : Server α :=
  let logs := { save.state.logs with entries := save.view.read sv.heap }
  { sv with persister := { sv.persister with raftstate := some { save.state with logs } } }

namespace Saving

def init : Saving α := ⟨.init, fun _ => none⟩

def step (cfg : Config) : SavingStep α → Saving α → Option (Saving α)
  | .act label, s => do
      let out ← s.cluster.outcome cfg label
      guard ((s.pending label.server).isSome → out.waits label.act = false)
      let save := (s.cluster.servers label.server).saveAfter label.act out (s.pending label.server)
      return ⟨s.cluster.update label.server out, Function.update s.pending label.server save⟩
  | .written i, s => do
      let save ← s.pending i
      return ⟨s.cluster.update i { server := save.write (s.cluster.servers i) },
        Function.update s.pending i none⟩

/-- The steps of the cluster are allowed, and a save is written with the entries it was begun
with: the array behind them has not been written to in between. -/
def Intact (allowed : Cluster α → Label α → Prop) (s : Saving α) : SavingStep α → Prop
  | .act label => allowed s.cluster label
  | .written i => ∀ save ∈ s.pending i,
      save.view.read (s.cluster.servers i).heap = save.state.logs.entries

instance [DecidableEq α] (allowed : Cluster α → Label α → Prop)
    [∀ s label, Decidable (allowed s label)] (s : Saving α) :
    (step : SavingStep α) → Decidable (s.Intact allowed step)
  | .act label => inferInstanceAs (Decidable (allowed s.cluster label))
  | .written i => inferInstanceAs (Decidable (∀ save ∈ s.pending i, _))

end Saving

/-- A step that saves nothing leaves the persister alone. -/
theorem Steps.persister_eq {cfg : Config} {me : Nat} {net : List (Msg α)} {sv : Server α}
    {act : Act α} {out : Out α} (steps : Steps cfg me net sv act out)
    (quiet : ∀ i, .saved i ∉ out.obs) : out.server.persister = sv.persister := by
  have raised {term : Int} (same : .saved me ∉ sv.raiseObs me term) :
      (sv.raiseTo term).persister = sv.persister := by
    rw [Server.mem_raiseObs, not_and'] at same
    rw [Server.raiseTo_of_le (Int.not_lt.mp (same rfl))]
  cases steps with
  | popped _ _ _ handles =>
      cases handles with
      | installed | appended | candidateHold | staleCandidate => exact raised (quiet me)
      | voteGiven | voteDenied | candidateVote | becameLeader | snapshotTaken =>
          exact (quiet me (by simp)).elim
      | _ => rfl
  | executed _ _ executes =>
      cases executes with
      | persistState | persist => exact (quiet me (by simp)).elim
      | _ => rfl
  | applied _ applies =>
      cases applies with
      | snapshotApplied => exact (quiet me (by simp)).elim
      | _ => rfl
  | restarted _ made =>
      obtain ⟨applier, -, -, rfl⟩ := make_eq_some made
      rfl
  | _ => rfl

/-- What a save that is begun has captured is what the persister is given. -/
theorem Steps.saveAfter_eq {cfg : Config} {me : Nat} {net : List (Msg α)} {sv : Server α}
    {act : Act α} {out : Out α} (steps : Steps cfg me net sv act out) {before : Option (Save α)}
    (free : before.isSome → out.waits act = false)
    (begun : ∀ save ∈ before, sv.persister.raftstate = some save.state) {save : Save α}
    (isSave : save ∈ sv.saveAfter act out before) :
    out.server.persister.raftstate = some save.state := by
  unfold Server.saveAfter at isSave
  split at isSave
  case isFalse => cases isSave
  case isTrue running =>
    split at isSave
    case h_1 snapshot isHand =>
      cases isSave
      cases steps with
      | applied _ applies => cases applies <;> simp_all [Server.persistState, Server.encodeState]
      | crashed => cases running
      | arrived input | polled input | polledEvent input | replied input | repliedEvent input =>
          cases input
    case h_2 notBegun =>
      have quiet : ∀ i, .saved i ∉ out.obs := by
        intro i inside
        have waits := free (Option.isSome_iff_exists.mpr ⟨save, isSave⟩)
        unfold Out.waits at waits
        split at waits
        case h_1 => cases waits
        case h_2 =>
          rw [List.any_eq_false] at waits
          exact waits _ inside rfl
      rw [steps.persister_eq quiet]
      exact begun save isSave

namespace Saving

/-- What is under way is what the persister will hold. -/
def Begun (s : Saving α) : Prop :=
  ∀ i, ∀ save ∈ s.pending i, (s.cluster.servers i).persister.raftstate = some save.state

variable {cfg : Config} {allowed : Cluster α → Label α → Prop} {s s' : Saving α}

theorem Begun.act (begun : s.Begun) {label : Label α}
    (taken : step cfg (.act label) s = some s') :
    s'.Begun ∧ Cluster.step cfg label s.cluster = some s'.cluster := by
  simp only [step, Option.bind_eq_bind, Option.bind_eq_some_iff, Option.guard_eq_some'] at taken
  obtain ⟨out, isOut, _, free, ⟨⟩⟩ := taken
  obtain ⟨_, steps⟩ := Cluster.outcome_steps isOut
  refine ⟨fun i save isSave => ?_, by rw [Cluster.step, isOut, Option.map_some]⟩
  by_cases here : i = label.server
  · subst here
    simp only [Function.update_self] at isSave
    simpa [Cluster.update] using steps.saveAfter_eq free (begun label.server) isSave
  · simp only [Function.update_of_ne here] at isSave
    simpa [Cluster.update, here] using begun i save isSave

/-- A save that is written as it was begun changes nothing. -/
theorem Begun.written (begun : s.Begun) {i : Nat} (intact : s.Intact allowed (.written i))
    (taken : step cfg (.written i) s = some s') : s'.Begun ∧ s'.cluster = s.cluster := by
  obtain ⟨save, isSave, ⟨⟩⟩ := Option.bind_eq_some_iff.mp taken
  have same : save.write (s.cluster.servers i) = s.cluster.servers i := by
    simp only [Save.write, intact save isSave, ← begun i save isSave]
  have unchanged : s.cluster.update i { server := save.write (s.cluster.servers i) } =
      s.cluster := by
    simp only [Cluster.update, same, List.append_nil, List.nil_append]
    congr 1
    funext j
    split <;> simp_all
  refine ⟨fun j other isOther => ?_, unchanged⟩
  by_cases here : j = i
  · simp [here] at isOther
  · simp only [Function.update_of_ne here] at isOther
    simp only [unchanged]
    exact begun j other isOther

/-- A run in which every save is written as it was begun is a run of the cluster. -/
theorem cluster_run {labels : List (SavingStep α)}
    (run : Run (step cfg) (Intact allowed) init labels s) :
    ∃ labels', Run (Cluster.step cfg) allowed Cluster.init labels' s.cluster := by
  refine (run.invariant (fun _ s => s.Begun ∧
    ∃ labels', Run (Cluster.step cfg) allowed Cluster.init labels' s.cluster)
    ⟨by simp [Begun, init], [], .start⟩ ?_).2
  rintro _ s label s' - ⟨begun, earlier, before⟩ intact taken
  cases label with
  | act label =>
      obtain ⟨begun', isStep⟩ := begun.act taken
      exact ⟨begun', _, before.next intact isStep⟩
  | written i =>
      obtain ⟨begun', same⟩ := begun.written intact taken
      exact ⟨begun', earlier, same ▸ before⟩

end Saving

end GoLab.Raft
