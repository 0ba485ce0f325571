import GoLab.Raft.Correspondence

/-!
# Candidates and their voters

A candidate asks for votes with the end of its log, which it keeps until it leads.  A
voter compares that end with its own log, so that the log of a candidate is at least as
up to date as the logs of its voters.
-/

namespace GoLab.Raft

variable {α : Type}
variable {cfg : Config} {me : Nat} {sv : Server α} {out : Out α} {act : Act α} {net : List (Msg α)}

/-! ## Comparing logs -/

/-- The last index and the last term of a log. -/
def LogInfo.Describes (info : LogInfo) (log : List (LogEntry α)) : Prop :=
  info.index + 1 = log.length ∧ (log.getLast?.map LogEntry.term).getD 0 = info.term

theorem Logs.Sound.lastLogInfo {logs : Logs α} (sound : logs.Sound) {info : LogInfo}
    (last : logs.lastLogInfo = some info) : info.Describes logs.full := by
  have length := sound.length_eq
  unfold Logs.lastLogInfo at last
  split at last
  case isTrue empty =>
    have noEntries := List.eq_nil_of_length_eq_zero empty
    split at last
    case h_1 noSnapshot =>
      cases last
      simp [LogInfo.Describes, full, compacted, noEntries, noSnapshot]
    case h_2 snapshot isSnapshot =>
      cases last
      have ok := sound.snapshot snapshot isSnapshot
      have isFull : logs.full = snapshot.compacted := by
        simp [full, compacted, noEntries, isSnapshot]
      rw [isFull]
      exact ⟨ok.length.symm, by rw [ok.term]; rfl⟩
  case isFalse =>
    simp only [Option.bind_eq_bind, Option.bind_eq_some_iff] at last
    obtain ⟨entry, found, last⟩ := last
    cases last
    obtain ⟨nonneg, isEntry⟩ := sound.index?_entries found
    refine ⟨length.symm, ?_⟩
    have position : logs.full.length - 1 = logs.lli.toNat := by omega
    rw [List.getLast?_eq_getElem?, position, isEntry]
    rfl

theorem Logs.Sound.upToDate {logs : Logs α} (sound : logs.Sound) {info : LogInfo}
    {log : List (LogEntry α)} (upToDate : logs.atLeastUpToDate info = some true)
    (describes : info.Describes log) (nonneg : ∀ entry ∈ logs.full, 0 ≤ entry.term) :
    UpToDate LogEntry.term logs.full log := by
  simp only [Logs.atLeastUpToDate, Option.bind_eq_bind, Option.bind_eq_some_iff] at upToDate
  obtain ⟨own, isOwn, upToDate⟩ := upToDate
  have order : own.term < info.term ∨ own.term = info.term ∧ own.index ≤ info.index := by
    split at upToDate
    case isTrue same => exact .inr ⟨same, of_decide_eq_true (Option.some.inj upToDate)⟩
    case isFalse => exact .inl (of_decide_eq_true (Option.some.inj upToDate))
  obtain ⟨ownLength, ownTerm⟩ := sound.lastLogInfo isOwn
  obtain ⟨length, term⟩ := describes
  intro last isLast
  have inside := List.mem_of_getLast? isLast
  have lastNonneg := nonneg last inside
  have nonempty := List.length_pos_of_mem inside
  rw [Option.mem_def] at isLast
  simp only [isLast, Option.map_some, Option.getD_some] at ownTerm
  cases isLast' : log.getLast? with
  | none =>
      have isEmpty := List.getLast?_eq_none_iff.mp isLast'
      simp only [isEmpty, List.length_nil, List.getLast?_nil, Option.map_none, Option.getD_none]
        at length term
      omega
  | some last' =>
      simp only [isLast', Option.map_some, Option.getD_some] at term
      exact ⟨last', rfl, by omega⟩

/-! ## The terms of leaders -/

theorem Cluster.term_nonneg {allowed : Cluster α → Label α → Prop} {labels : List (Label α)}
    {s : Cluster α} (run : Run (step cfg) allowed init labels s) (i : Nat) :
    0 ≤ (s.servers i).term ∧ 0 ≤ (s.servers i).persister.term := by
  refine local_invariant (fun _ sv _ => 0 ≤ sv.term ∧ 0 ≤ sv.persister.term) ?_ ?_ run i
  · exact fun _ => ⟨Int.le_refl _, Int.le_refl _⟩
  · rintro _ s i act out _ ⟨memory, disk⟩ _ steps
    have now : 0 ≤ out.server.term := by
      cases isUp : (s.servers i).up with
      | true => exact Int.le_trans memory (steps.term_le isUp)
      | false =>
          obtain ⟨-, made, -⟩ := steps.restarts isUp
          obtain ⟨applier, -, -, server⟩ := make_eq_some made
          rw [server]
          exact disk
    refine ⟨now, ?_⟩
    cases steps.saves with
    | kept same => exact same ▸ disk
    | before _ saved | after saved => exact saved.term_eq ▸ now

theorem Cluster.activated_nonneg {allowed : Cluster α → Label α → Prop} {labels : List (Label α)}
    {s : Cluster α} (run : Run (step cfg) allowed init labels s) {i : Nat} {term : Int}
    (activated : Activated s.obs i term) : 0 ≤ term := by
  refine Run.invariant (fun _ s => ∀ i term, Activated s.obs i term → 0 ≤ term) ?_ ?_ run i term
    activated
  · exact fun _ _ ⟨_, _, membership⟩ => by simp [init] at membership
  · intro _ s label s' earlier before _ taken i term activated
    obtain ⟨out, -, steps, rfl⟩ := step_steps taken
    rcases leaderLog_step earlier steps activated with ⟨wasActivated, -⟩ | ⟨-, rfl, -⟩
    · exact before i term wasActivated
    · exact (term_nonneg earlier _).1

/-! ## The votes of a step -/

/-- A server that stands for election votes for itself with its log. -/
theorem Steps.stands (steps : Steps cfg me net sv act out) {i role : Nat} {term : Int}
    {log : List (LogEntry α)} (stood : .selfVote i role term log ∈ out.obs) :
    i = me ∧ sv.up = true ∧ term = sv.term + 1 ∧ log = sv.logs.full := by
  cases steps with
  | popped up _ _ handles =>
      cases handles with
      | becameCandidate =>
          cases List.mem_singleton.mp stood
          exact ⟨rfl, up, rfl, rfl⟩
      | _ => simp at stood
  | executed _ _ executes => exact (executes.noCandidacy _ _ _ ⟨log, stood⟩).elim
  | applied _ applies => cases applies <;> simp at stood
  | _ => simp at stood

/-- A server votes for a candidate whose log is at least as up to date as its own.  It has
raised its term before, or raises it now. -/
theorem Steps.votes (steps : Steps cfg me net sv act out) {i candidate : Nat} {term : Int}
    {log : List (LogEntry α)} (voted : .voted i term candidate log ∈ out.obs) :
    i = me ∧ sv.up = true ∧ log = sv.logs.full ∧ ∃ caller args, term = args.term ∧
      candidate = args.candidateID ∧ sv.logs.atLeastUpToDate args.lastLogInfo = some true ∧
      (.requestVote caller args ∈ sv.evCh ∧ sv.term < args.term ∨
        .grantVote caller args ∈ sv.todo) := by
  cases steps with
  | popped up _ next handles =>
      cases handles with
      | @voteGiven caller args _ _ _ larger upToDate =>
          simp only [List.mem_cons, Obs.voted.injEq, reduceCtorEq, List.not_mem_nil, or_false]
            at voted
          obtain ⟨rfl, rfl, rfl, rfl⟩ := voted
          exact ⟨rfl, up, rfl, caller, args, rfl, rfl, upToDate, .inl ⟨by simp [next], larger⟩⟩
      | _ => simp at voted
  | executed up next executes =>
      cases executes with
      | @voteGiven caller args upToDate =>
          cases List.mem_singleton.mp voted
          exact ⟨rfl, up, rfl, caller, args, rfl, rfl, upToDate, .inr (by simp [next])⟩
      | _ => simp at voted
  | applied _ applies => cases applies <;> simp at voted
  | restarted => simp at voted
  | _ => simp at voted

/-- A candidate asks for votes with the end of its log. -/
theorem Steps.asks (steps : Steps cfg me net sv act out) {caller : Caller} {dst : Nat}
    {args : RequestVoteArgs} (isSent : .requestVote caller dst args ∈ out.msgs) :
    caller.server = me ∧ args.candidateID = me ∧
      sv.logs.lastLogInfo = some args.lastLogInfo ∧
      .selfVote me caller.call args.term sv.logs.full ∈ out.obs := by
  cases steps with
  | popped _ _ _ handles =>
      cases handles with
      | ignored refusal => rcases refusal with rfl | ⟨_, rfl⟩ | ⟨_, rfl⟩ <;> simp at isSent
      | becameCandidate _ last asked =>
          obtain ⟨peer, -, same⟩ := List.mem_map.mp isSent
          cases same
          rw [asked]
          exact ⟨rfl, rfl, last, .head _⟩
      | _ => simp at isSent
  | executed _ _ executes => cases executes <;> simp at isSent
  | applied _ applies => cases applies <;> simp at isSent
  | _ => simp at isSent

/-! ## The log of a candidate -/

namespace Cluster

variable {allowed : Cluster α → Label α → Prop} {labels : List (Label α)} {s : Cluster α} {i : Nat}
  {term : Int} {log : List (LogEntry α)}

/-- A request for votes tells where the log of the candidate ends. -/
theorem asked_log (run : Run (step cfg) allowed init labels s) {caller : Caller} {dst : Nat}
    {args : RequestVoteArgs} (sent : .requestVote caller dst args ∈ s.net) :
    ∃ role log, .selfVote args.candidateID role args.term log ∈ s.obs ∧
      args.lastLogInfo.Describes log := by
  refine Run.invariant (fun _ s => ∀ caller dst args, .requestVote caller dst args ∈ s.net →
    ∃ role log, .selfVote args.candidateID role args.term log ∈ s.obs ∧
      args.lastLogInfo.Describes log) (by simp [init]) ?_ run caller dst args sent
  intro _ s label s' earlier before _ taken caller dst args sent
  obtain ⟨out, -, steps, rfl⟩ := step_steps taken
  rcases List.mem_append.mp sent with wasSent | isNew
  · obtain ⟨role, log, stood, describes⟩ := before caller dst args wasSent
    exact ⟨role, log, List.mem_append_right _ stood, describes⟩
  · obtain ⟨-, candidate, last, stood⟩ := steps.asks isNew
    refine ⟨caller.call, _, ?_, (sound earlier label.server).memory.lastLogInfo last⟩
    rw [candidate]
    exact List.mem_append_left _ stood

/-- A candidate has the log it has voted for itself with. -/
theorem candidate_log (run : Run (step cfg) allowed init labels s) {cd : Candidate}
    (candidate : (s.servers i).role = .candidate cd) :
    .selfVote i (s.servers i).roleId cd.args.term (s.servers i).logs.full ∈ s.obs := by
  suffices own : .selfVote i (s.servers i).roleId cd.args.term (s.servers i).logs.full ∈
      s.history i from (List.mem_filter.mp own).1
  refine local_invariant (fun i sv history => ∀ cd, sv.role = .candidate cd →
    .selfVote i sv.roleId cd.args.term sv.logs.full ∈ history) ?_ ?_ run i cd candidate
  · simp [Server.initial]
  · intro _ s i act out earlier before _ steps cd candidate
    have same {cd' : Candidate} (wasCandidate : (s.servers i).role = .candidate cd')
        (args : cd.args = cd'.args) (roleId : out.server.roleId = (s.servers i).roleId)
        (full : out.server.logs.full = (s.servers i).logs.full) :
        .selfVote i out.server.roleId cd.args.term out.server.logs.full ∈
          out.obs ++ s.history i := by
      rw [args, roleId, full]
      exact List.mem_append_right _ (before cd' wasCandidate)
    cases steps with
    | popped _ _ _ handles =>
        cases handles with
        | installed _ follower | appended _ follower =>
            dsimp only at candidate follower
            rw [Server.raiseTo_role, follower] at candidate
            cases candidate
        | counted _ wasCandidate _ _ counted =>
            cases candidate
            exact same wasCandidate (by rw [counted]) rfl rfl
        | started _ leader =>
            dsimp only at candidate leader
            rw [leader] at candidate
            cases candidate
        | confirmed | becameFollower | becameLeader => cases candidate
        | becameCandidate _ _ asked =>
            cases candidate
            rw [asked]
            exact .head _
        | snapshotTaken _ taken => exact same candidate rfl rfl (Logs.full_takeSnapshot taken)
        | _ => exact same candidate rfl rfl rfl
    | executed _ _ executes =>
        cases executes with
        | committed result => exact same candidate rfl rfl (Logs.full_updateCommit result)
        | started => cases candidate
        | _ => exact same candidate rfl rfl rfl
    | applied _ applies => cases applies <;> exact same candidate rfl rfl rfl
    | polled _ _ wasCandidate | polledEvent _ _ wasCandidate =>
        cases candidate
        exact same wasCandidate rfl rfl rfl
    | restarted _ made =>
        obtain ⟨applier, -, -, rfl⟩ := make_eq_some made
        cases candidate
    | _ => exact same candidate rfl rfl rfl

/-- A leader begins with the log it stood with. -/
theorem begun_candidate (run : Run (step cfg) allowed init labels s) {role : Nat}
    (activated : .activated i role term log ∈ s.obs) :
    ∃ role' log', .selfVote i role' term log' ∈ s.obs ∧ log' <+: log := by
  refine Run.invariant (fun _ s => ∀ i role term log, .activated i role term log ∈ s.obs →
    ∃ role' log', .selfVote i role' term log' ∈ s.obs ∧ log' <+: log) (by simp [init]) ?_ run i role
    term log activated
  intro _ s label s' earlier before _ taken i role term log activated
  obtain ⟨out, -, steps, rfl⟩ := step_steps taken
  rcases List.mem_append.mp activated with isNew | wasThere
  · cases leads earlier steps with
    | kept quiet => exact (quiet.inactive _ _ _ _ isNew).elim
    | pushed _ _ _ _ _ _ _ obs => simp [obs] at isNew
    | activated _ standing _ _ pushed _ _ obs =>
        simp only [obs, List.mem_cons, Obs.activated.injEq, reduceCtorEq, List.not_mem_nil,
          or_false] at isNew
        obtain ⟨rfl, -, rfl, rfl⟩ := isNew
        have stood := candidate_log earlier standing.role
        rw [← standing.term] at stood
        refine ⟨_, _, List.mem_append_right _ stood, ?_⟩
        rw [Logs.full_pushEntry pushed]
        exact List.prefix_append ..
  · obtain ⟨role', log', stood, front⟩ := before i role term log wasThere
    exact ⟨role', log', List.mem_append_right _ stood, front⟩

/-- A server stands once in a term. -/
theorem selfVote_unique (votes : ∀ (s : Cluster α) label, allowed s label → votesOnce s label)
    (run : Run (step cfg) allowed init labels s) {role role' : Nat} {log' : List (LogEntry α)}
    (stood : .selfVote i role term log ∈ s.obs) (stood' : .selfVote i role' term log' ∈ s.obs) :
    log = log' := by
  refine Run.invariant (fun _ s => ∀ i role role' term log log', .selfVote i role term log ∈ s.obs →
    .selfVote i role' term log' ∈ s.obs → log = log') (by simp [init]) ?_ run i role role' term log
    log' stood stood'
  intro _ s label s' earlier before _ taken i role role' term log log' stood stood'
  obtain ⟨out, -, steps, rfl⟩ := step_steps taken
  have older {role : Nat} {log : List (LogEntry α)} (up : (s.servers label.server).up = true)
      (wasThere : .selfVote label.server role ((s.servers label.server).term + 1) log ∈ s.obs) :
      False := by
    have bound := ((ballots (earlier.mono votes) label.server).2 up).stood role _
      (stood_history.mpr ⟨log, wasThere⟩)
    omega
  rcases List.mem_append.mp stood with isNew | wasThere <;>
    rcases List.mem_append.mp stood' with isNew' | wasThere'
  · exact (steps.stands isNew).2.2.2.trans (steps.stands isNew').2.2.2.symm
  · obtain ⟨rfl, up, rfl, -⟩ := steps.stands isNew
    exact (older up wasThere').elim
  · obtain ⟨rfl, up, rfl, -⟩ := steps.stands isNew'
    exact (older up wasThere).elim
  · exact before i role role' term log log' wasThere wasThere'

/-- The log a server stands with is older than the term it stands in. -/
theorem stood_valid (alone : ∀ (s : Cluster α) label, allowed s label → leadsAlone s label)
    (run : Run (step cfg) allowed init labels s) {role : Nat}
    (stood : .selfVote i role term log ∈ s.obs) : s.Valid (term - 1) log := by
  refine Run.invariant (fun _ s => ∀ i role term log, .selfVote i role term log ∈ s.obs →
    s.Valid (term - 1) log) (by simp [init]) ?_ run i role term log stood
  intro _ s label s' earlier before _ taken i role term log stood
  obtain ⟨out, -, steps, rfl⟩ := step_steps taken
  rcases List.mem_append.mp stood with isNew | wasThere
  · obtain ⟨rfl, -, rfl, rfl⟩ := steps.stands isNew
    have one := oneLeader (fun s label ok => (alone s label ok).1) earlier
    have memory := ((valid (fun s label ok => (alone s label ok).2.2) earlier one).1
      label.server).memory
    rw [Int.add_sub_cancel]
    exact memory.full.lasts earlier steps
  · exact (before i role term log wasThere).lasts earlier steps

/-- A server votes for candidates whose log is at least as up to date as its own. -/
theorem voted_upToDate (alone : ∀ (s : Cluster α) label, allowed s label → leadsAlone s label)
    (run : Run (step cfg) allowed init labels s) {candidate : Nat}
    (voted : .voted i term candidate log ∈ s.obs) : OnTree LogEntry.term s.branch log ∧
      ∃ role log', .selfVote candidate role term log' ∈ s.obs ∧
        UpToDate LogEntry.term log log' := by
  refine Run.invariant (fun _ s => ∀ i term candidate log, .voted i term candidate log ∈ s.obs →
    OnTree LogEntry.term s.branch log ∧ ∃ role log', .selfVote candidate role term log' ∈ s.obs ∧
      UpToDate LogEntry.term log log') (by simp [init]) ?_ run i term candidate log voted
  intro _ s label s' earlier before _ taken i term candidate log voted
  obtain ⟨out, -, steps, rfl⟩ := step_steps taken
  suffices now : OnTree LogEntry.term s.branch log ∧ ∃ role log',
      .selfVote candidate role term log' ∈ s.obs ∧ UpToDate LogEntry.term log log' by
    obtain ⟨onTree, role, log', stood, upToDate⟩ := now
    exact ⟨onTree.mono fun _ _ => branch_grows earlier steps, role, log',
      List.mem_append_right _ stood, upToDate⟩
  rcases List.mem_append.mp voted with isNew | wasThere
  · obtain ⟨rfl, up, rfl, caller, args, rfl, rfl, upToDate, request⟩ := steps.votes isNew
    have one := oneLeader (fun s label ok => (alone s label ok).1) earlier
    have memory := ((valid (fun s label ok => (alone s label ok).2.2) earlier one).1
      label.server).memory
    have addressed := (addressed earlier).1 label.server up
    have sent : .requestVote caller label.server args ∈ s.net :=
      request.elim (fun received => addressed.votes caller args received.1)
        (addressed.grants caller args)
    obtain ⟨role, log', stood, describes⟩ := asked_log earlier sent
    refine ⟨memory.full.onTree, role, log', stood,
      memory.sound.upToDate upToDate describes fun entry inside => ?_⟩
    obtain ⟨k, found⟩ := List.mem_iff_getElem?.mp inside
    obtain ⟨_, ⟨leader, activated, -⟩, -⟩ := memory.full.onTree k entry found
    exact activated_nonneg earlier activated
  · exact before i term candidate log wasThere

end Cluster

end GoLab.Raft
