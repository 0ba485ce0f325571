import GoLab.Raft.Steps
import GoLab.Lib.Run

/-!
# Histories and invariants of one server

A step of a server adds to the history what that server did.  A property of a
server and its own history is therefore kept by the steps of all other servers,
and an invariant of this kind only has to be checked on the server's own steps.
-/

namespace GoLab.Raft

variable {α : Type}
variable {cfg : Config} {me : Nat} {allowed : Cluster α → Label α → Prop} {labels : List (Label α)}
  {s : Cluster α} {out : Out α} {act : Act α}

/-- The server an observation is about. -/
def Obs.server : Obs α → Nat
  | .activated i .. | .pushed i _ | .started i .. | .selfVote i .. | .voted i ..
  | .granted i .. | .answered i .. | .saved i | .queued i _ | .delivered i _
  | .restarted i _ => i

/-- The history of server `i`, latest first. -/
def Cluster.history (s : Cluster α) (i : Nat) : List (Obs α) :=
  s.obs.filter fun obs => obs.server = i

theorem Handles.obs_server {sv : Server α} {ev : Event α} (handles : Handles cfg me sv ev out) :
    ∀ obs ∈ out.obs, obs.server = me := by
  cases handles <;>
    simp [Server.raiseObs, Obs.server]

theorem Steps.obs_server {net : List (Msg α)} {sv : Server α} (steps : Steps cfg me net sv act out)
     :
    ∀ obs ∈ out.obs, obs.server = me := by
  cases steps with
  | popped _ _ _ handles => exact handles.obs_server
  | executed _ _ executes =>
      cases executes <;> simp [Obs.server]
  | applied _ applies => cases applies <;> simp [Obs.server]
  | restarted => simp +contextual [Obs.server, or_imp]
  | _ => simp

namespace Cluster

theorem history_update_self (steps : Steps cfg me s.net (s.servers me) act out) :
    (s.update me out).history me = out.obs ++ s.history me := by
  have own : out.obs.filter (fun obs => decide (obs.server = me)) = out.obs := by
    rw [List.filter_eq_self]
    exact fun obs membership => decide_eq_true (steps.obs_server obs membership)
  simp only [history, update, List.filter_append, own]

theorem history_update_other {me i : Nat} (steps : Steps cfg me s.net (s.servers me) act out)
    (other : i ≠ me) :
    (s.update me out).history i = s.history i := by
  have foreign : out.obs.filter (fun obs => decide (obs.server = i)) = [] := by
    rw [List.filter_eq_nil_iff]
    intro obs membership
    simp [steps.obs_server obs membership, other.symm]
  simp only [history, update, List.filter_append, foreign, List.nil_append]

/-- An invariant of a server and its own history holds in every run if the
server's own steps keep it. -/
theorem local_invariant (inv : Nat → Server α → List (Obs α) → Prop)
    (initially : ∀ i, inv i Server.initial [])
    (kept : ∀ labels (s : Cluster α) i act out, Run (step cfg) allowed init labels s →
      inv i (s.servers i) (s.history i) → allowed s ⟨i, act⟩ →
      Steps cfg i s.net (s.servers i) act out → inv i out.server (out.obs ++ s.history i))
    (run : Run (step cfg) allowed init labels s) :
    ∀ i, inv i (s.servers i) (s.history i) := by
  refine Run.invariant (fun _ s => ∀ i, inv i (s.servers i) (s.history i)) initially ?_ run
  intro labels s label s' earlier before ok taken i
  obtain ⟨out, -, steps, rfl⟩ := step_steps taken
  by_cases same : i = label.server
  · subst same
    rw [history_update_self steps]
    simpa [update] using kept labels s label.server label.act out earlier (before _) ok steps
  · rw [history_update_other steps same]
    simpa [update, same] using before i

/-- An invariant of one server, with the outcome of the step as the code computes it and
what is known of the run that the step extends. -/
theorem outcome_invariant (inv : Nat → Server α → Prop) (initially : ∀ i, inv i Server.initial)
    (kept : ∀ labels (s : Cluster α) label out, Run (step cfg) allowed init labels s →
      Run (step cfg) allowed init (labels ++ [label]) (s.update label.server out) →
      s.outcome cfg label = some out → inv label.server (s.servers label.server) →
      inv label.server out.server) (run : Run (step cfg) allowed init labels s) (i : Nat) :
    inv i (s.servers i) := by
  refine Run.invariant (fun _ s => ∀ i, inv i (s.servers i)) initially ?_ run i
  intro labels s label s' earlier before ok taken i
  have later := earlier.next ok taken
  obtain ⟨out, outcome, rfl⟩ := Option.map_eq_some_iff.mp taken
  by_cases same : i = label.server
  · subst same
    simpa [update] using kept labels s label out earlier later outcome (before _)
  · simpa [update, same] using before i

/-- An invariant of servers and messages that looks at the whole cluster holds in
every run if it lasts when the cluster goes on, and if a step of a server keeps it
for that server and for the messages it sends. -/
theorem global_invariant (sound : List (Label α) → Cluster α → Nat → Server α → Prop)
    (good : List (Label α) → Cluster α → Msg α → Prop)
    (initially : ∀ i, sound [] init i Server.initial)
    (lasts : ∀ labels (s : Cluster α) i act out, Run (step cfg) allowed init labels s →
      Steps cfg i s.net (s.servers i) act out →
      (∀ j sv, sound labels s j sv → sound (labels ++ [⟨i, act⟩]) (s.update i out) j sv) ∧
      ∀ msg, good labels s msg → good (labels ++ [⟨i, act⟩]) (s.update i out) msg)
    (kept : ∀ labels (s : Cluster α) i act out, Run (step cfg) allowed init labels s →
      (∀ j, sound labels s j (s.servers j)) → (∀ msg ∈ s.net, good labels s msg) →
      i < cfg.peers → allowed s ⟨i, act⟩ → Steps cfg i s.net (s.servers i) act out →
      sound (labels ++ [⟨i, act⟩]) (s.update i out) i out.server ∧
      ∀ msg ∈ out.msgs, good (labels ++ [⟨i, act⟩]) (s.update i out) msg)
    (run : Run (step cfg) allowed init labels s) :
    (∀ i, sound labels s i (s.servers i)) ∧ ∀ msg ∈ s.net, good labels s msg := by
  refine Run.invariant (fun labels s => (∀ i, sound labels s i (s.servers i)) ∧
    ∀ msg ∈ s.net, good labels s msg) ⟨initially, by simp [init]⟩ ?_ run
  rintro labels s label s' earlier ⟨servers, messages⟩ ok taken
  obtain ⟨out, isPeer, steps, rfl⟩ := step_steps taken
  obtain ⟨soundLasts, goodLasts⟩ := lasts labels s label.server label.act out earlier steps
  obtain ⟨serverKept, sentGood⟩ := kept labels s label.server label.act out earlier servers messages
    isPeer ok steps
  refine ⟨fun i => ?_, fun msg membership => ?_⟩
  · by_cases same : i = label.server
    · subst same
      simpa [update] using serverKept
    · simpa [update, same] using soundLasts i (s.servers i) (servers i)
  · rcases List.mem_append.mp membership with wasThere | sent
    · exact goodLasts msg (messages msg wasThere)
    · exact sentGood msg sent

end Cluster

end GoLab.Raft
