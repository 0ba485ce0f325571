import GoLab.Lib.Consensus
import GoLab.Raft.LogMatching
import GoLab.Raft.Election

/-!
# The leaders and what they send

If servers vote once in a term, requests are built in office and sent as they were
built, then the requests of a term are cut from the log of the one leader of that
term.
-/

namespace GoLab.Raft

variable {α : Type}
variable {cfg : Config} {allowed : Cluster α → Label α → Prop} {labels : List (Label α)}
  {s : Cluster α} {term : Int} {i : Nat}

namespace Cluster

/-! ## The log of a leader -/

/-- The log the leader of a term begins with. -/
def begun (s : Cluster α) (term : Int) (log : List (LogEntry α)) : Prop :=
  ∃ i role, .activated i role term log ∈ s.obs

/-- A part of the log of the leader of a term. -/
def OnBranch (s : Cluster α) (term : Int) (log : List (LogEntry α)) : Prop :=
  ∃ whole, s.branch term whole ∧ log <+: whole

/-- A leader keeps what it begins with. -/
theorem begun_front (run : Run (step cfg) allowed init labels s) {i role : Nat}
    {log : List (LogEntry α)} (began : .activated i role term log ∈ s.obs) :
    log <+: leaderLog i term s.obs := by
  refine Run.invariant (fun _ s => ∀ i role term log, .activated i role term log ∈ s.obs →
    log <+: leaderLog i term s.obs) (by simp [init]) ?_ run i role term log began
  intro _ s label s' earlier before _ taken i role term log began
  obtain ⟨out, -, steps, rfl⟩ := step_steps taken
  rcases List.mem_append.mp began with isNew | wasThere
  · have loud : ¬ Quiet out.obs := fun quiet => quiet.inactive _ _ _ _ isNew
    have grown := (leaderLog_of_loud earlier steps loud).2
    cases leads earlier steps with
    | kept quiet => exact (loud quiet).elim
    | activated _ _ _ _ _ _ _ obs =>
        simp only [obs, List.mem_cons, Obs.activated.injEq, reduceCtorEq, List.not_mem_nil,
          or_false] at isNew
        obtain ⟨rfl, rfl, rfl, rfl⟩ := isNew
        rw [grown]
    | pushed _ _ _ _ _ _ _ obs => simp [obs] at isNew
  · exact (before i role term log wasThere).trans
      (leaderLog_grows earlier steps ⟨role, log, wasThere⟩)

/-- The log of every leadership is valid. -/
theorem leaderLog_valid (intact : ∀ s label, allowed s label → copiesIntact s label)
    (run : Run (step cfg) allowed init labels s) (one : s.OneLeader)
    (activated : Activated s.obs i term) : s.Valid term (leaderLog i term s.obs) := by
  refine Run.invariant (fun _ s => s.OneLeader → ∀ i term, Activated s.obs i term →
    s.Valid term (leaderLog i term s.obs)) ?_ ?_ run one i term activated
  · exact fun _ _ _ ⟨_, _, membership⟩ => by simp [init] at membership
  · intro _ s label s' earlier before ok taken one i term activated
    have now := valid intact (earlier.next ok taken) one
    obtain ⟨out, -, steps, rfl⟩ := step_steps taken
    rcases leaderLog_step earlier steps activated with ⟨wasActivated, same⟩ | ⟨rfl, rfl, loud⟩
    · rw [same]
      exact (before one.earlier i term wasActivated).lasts earlier steps
    · have bounded := ((valid intact earlier one.earlier).1 label.server).memory.full.bounded
      have memory := (now.1 label.server).memory.full
      simp only [update, if_pos] at memory
      rw [(leaderLog_of_loud earlier steps loud).2]
      refine ⟨memory.onTree, ?_, memory.dense⟩
      obtain ⟨entry, isTerm, full⟩ : ∃ entry : LogEntry α, entry.term =
          (s.servers label.server).term ∧
          out.server.logs.full = (s.servers label.server).logs.full ++ [entry] := by
        cases leads earlier steps with
        | kept quiet => exact (loud quiet).elim
        | activated _ _ _ _ pushed | pushed _ _ _ _ pushed =>
            exact ⟨_, rfl, Logs.full_pushEntry pushed⟩
      rw [full]
      intro entry' membership
      rcases List.mem_append.mp membership with old | isNew
      · exact bounded entry' old
      · exact Int.le_of_eq (by rw [List.mem_singleton.mp isNew, isTerm])

theorem OnBranch.valid (intact : ∀ s label, allowed s label → copiesIntact s label)
    (run : Run (step cfg) allowed init labels s) (one : s.OneLeader) {log : List (LogEntry α)}
    (onBranch : s.OnBranch term log) : s.Valid term log := by
  obtain ⟨_, ⟨i, activated, rfl⟩, front⟩ := onBranch
  exact (leaderLog_valid intact run one activated).cut front

theorem OnBranch.cut {log log' : List (LogEntry α)} (onBranch : s.OnBranch term log)
    (front : log' <+: log) : s.OnBranch term log' := by
  obtain ⟨whole, isBranch, onBranch⟩ := onBranch
  exact ⟨whole, isBranch, front.trans onBranch⟩

/-- Parts of the log of one leader differ in length only. -/
theorem OnBranch.front (one : s.OneLeader) {log log' : List (LogEntry α)}
    (onBranch : s.OnBranch term log) (onBranch' : s.OnBranch term log')
    (shorter : log.length ≤ log'.length) : log <+: log' := by
  obtain ⟨whole, isBranch, front⟩ := onBranch
  obtain ⟨whole', isBranch', front'⟩ := onBranch'
  cases one.uniqueBranch _ _ _ isBranch isBranch'
  exact List.prefix_of_prefix_length_le front front' shorter

theorem OnBranch.lasts {act : Act α} {out : Out α} {log : List (LogEntry α)}
    (onBranch : s.OnBranch term log) (run : Run (step cfg) allowed init labels s)
    (steps : Steps cfg i s.net (s.servers i) act out) : (s.update i out).OnBranch term log := by
  obtain ⟨whole, isBranch, front⟩ := onBranch
  obtain ⟨longer, isLonger, grown⟩ := branch_grows run steps isBranch
  exact ⟨longer, isLonger, front.trans grown⟩

/-- The leaders of a run, each with the log it begins with and the one it has. -/
theorem tenure (intact : ∀ s label, allowed s label → copiesIntact s label)
    (run : Run (step cfg) allowed init labels s) (one : s.OneLeader) :
    Tenure LogEntry.term s.branch s.begun where
  unique := one.uniqueBranch
  began := by
    rintro term _ ⟨i, ⟨role, log, membership⟩, rfl⟩
    exact ⟨log, i, role, membership⟩
  grown := by
    rintro term log ⟨i, role, membership⟩
    exact ⟨_, ⟨i, ⟨role, log, membership⟩, rfl⟩, begun_front run membership⟩
  bounded := by
    rintro term _ ⟨i, activated, rfl⟩
    exact (leaderLog_valid intact run one activated).bounded

end Cluster

/-! ## The requests of a leader -/

/-- A request is cut from the log of the leader of its term. -/
structure AppendEntriesArgs.OnBranch (s : Cluster α) (args : AppendEntriesArgs α) : Prop where
  snapshot : ∀ snapshot ∈ args.snapshot, snapshot.Ok ∧ s.OnBranch args.term snapshot.compacted
  entries : ∀ sent ∈ args.sendEntries, ∃ whole, sent.EndOf whole ∧ s.OnBranch args.term whole

theorem AppendEntriesArgs.OnBranch.lasts {act : Act α} {out : Out α} {args : AppendEntriesArgs α}
    (onBranch : args.OnBranch s) (run : Run (Cluster.step cfg) allowed Cluster.init labels s)
    (steps : Steps cfg i s.net (s.servers i) act out) : args.OnBranch (s.update i out) where
  snapshot snapshot carried :=
    (onBranch.snapshot snapshot carried).imp_right fun cut => cut.lasts run steps
  entries sent carried := by
    obtain ⟨whole, isEnd, cut⟩ := onBranch.entries sent carried
    exact ⟨whole, isEnd, cut.lasts run steps⟩

/-- A leader in office has the log of its leadership. -/
theorem Cluster.onBranch_of_inOffice (run : Run (step cfg) allowed init labels s)
    (up : (s.servers i).up = true) {repl : Replicator α} (found : repl ∈ (s.servers i).repls)
    (office : (s.servers i).inOffice repl.ld = true) :
    s.OnBranch (s.servers i).term (s.servers i).logs.full := by
  obtain ⟨⟨rc, leader⟩, led⟩ := led_of_inOffice run up found office
  simp only [Server.inOffice, Server.leading, Bool.and_eq_true, beq_iff_eq] at office
  rw [← office.1.2] at led
  exact ⟨_, ⟨i, ⟨_, led⟩, rfl⟩, by simp only [leaderLog_eq run leader led, List.prefix_rfl]⟩

/-- Requests are cut from the log of the leader of their term if they are built in
office and sent as they were built. -/
theorem Cluster.requests_onBranch (office : ∀ s label, allowed s label → buildsInOffice s label)
    (intact : ∀ s label, allowed s label → copiesIntact s label)
    (run : Run (step cfg) allowed init labels s) :
    (∀ i, Received (fun _ args => args.OnBranch s) (s.servers i)) ∧
      ∀ caller dst args, .appendEntries caller dst args ∈ s.net → args.OnBranch s := by
  have invariant := (served (fun _ _ _ _ => True) (fun _ s _ _ args => args.OnBranch s)
    (fun _ => trivial) (fun _ _ _ _ _ _ _ _ _ => id) ?_ (fun _ _ _ _ _ _ => id)
    (fun _ _ _ _ _ _ _ _ _ _ => trivial) ?_ ?_ ?_ run).2
  · refine ⟨fun i caller args received => ?_, fun caller dst args sent => ?_⟩
    · obtain ⟨repl, onBranch⟩ := invariant.1 i caller args received
      exact onBranch
    · obtain ⟨repl, onBranch⟩ := invariant.2 caller dst args sent
      exact onBranch
  · exact fun _ _ _ _ _ _ _ _ run steps onBranch => onBranch.lasts run steps
  · intro labels s i number repl args run _ ok up found builds
    have sound := (sound run i).memory
    obtain ⟨snapshots, entries⟩ := builds.payload sound
    have full := onBranch_of_inOffice run up (List.mem_of_getElem? found)
      (office s _ ok repl found builds.building)
    rw [← builds.term_eq] at full
    constructor
    · intro snapshot carried
      have isSnapshot := snapshots snapshot carried
      exact ⟨sound.snapshot snapshot isSnapshot, full.cut (Logs.compacted_front isSnapshot)⟩
    · intro sent carried
      obtain ⟨whole, front, isEnd⟩ := entries sent carried
      exact ⟨whole, isEnd, full.cut front⟩
  · exact fun _ _ _ _ _ _ _ _ _ _ _ _ onBranch => ⟨onBranch.snapshot, onBranch.entries⟩
  · intro labels s i number repl call ok found calling onBranch
    have same : Replicator.copy (s.servers i) call = call.args :=
      intact s ⟨i, .call number⟩ ok repl found call calling
    rw [same]
    exact onBranch

end GoLab.Raft
