import GoLab.Raft.Candidates
import GoLab.Raft.Confirmations

/-!
# Leader completeness

A server that has promised a log to the leader of a term votes for later candidates with a
log that holds it, unless a leader in between has made it drop it.  Therefore every leader
begins with what a majority has promised to an earlier one.
-/

namespace GoLab.Raft

variable {α : Type}

/-! ## Votes after a promise -/

/-- The server has cast a vote in a term, for itself or for another candidate, when it had
this log. -/
def Cast (obs : List (Obs α)) (i : Nat) (term : Int) (log : List (LogEntry α)) : Prop :=
  (∃ role, .selfVote i role term log ∈ obs) ∨ ∃ candidate, .voted i term candidate log ∈ obs

/-- The server keeps what it has promised, and has kept it whenever it has voted since. -/
structure Honoured (s : Cluster α) (i : Nat) (sv : Server α) (term : Int)
    (whole : List (LogEntry α)) : Prop where
  retained : Retained s i sv term whole
  cast : ∀ later log, Cast s.obs i later log → term < later →
    Keeps s.begun term whole log (later - 1)
  due : sv.up = true → ∀ caller args, .grantVote caller args ∈ sv.todo → term < args.term →
    Keeps s.begun term whole sv.logs.full (args.term - 1)

/-- While a vote is about to be granted the log stays as it was before the term was
raised. -/
theorem Steps.grantVote_mem {cfg : Config} {me : Nat} {net : List (Msg α)} {sv : Server α}
    {act : Act α} {out : Out α} (steps : Steps cfg me net sv act out)
    (stays : out.server.up = true) {caller : Caller} {args : RequestVoteArgs}
    (due : .grantVote caller args ∈ out.server.todo) :
    sv.up = true ∧ out.server.logs.full = sv.logs.full ∧
      (.grantVote caller args ∈ sv.todo ∨ sv.term < args.term) := by
  cases steps with
  | popped up idle _ handles =>
      cases (handles.asks idle).1 caller args due
      cases handles with
      | candidateVote _ _ larger | leaderVote _ _ larger => exact ⟨up, rfl, .inr larger⟩
      | ignored => simp [idle] at due
      | _ => simp at due
  | executed up next executes =>
      refine ⟨up, (executes.sameLog next).full_eq, .inl ?_⟩
      cases executes <;> simp_all
  | applied up applies => cases applies <;> exact ⟨up, rfl, .inl due⟩
  | crashed => cases stays
  | restarted _ made =>
      obtain ⟨applier, -, -, rfl⟩ := make_eq_some made
      cases due
  | _ => exact ⟨‹_›, rfl, .inl due⟩

namespace Honoured

variable {cfg : Config} {allowed : Cluster α → Label α → Prop} {labels : List (Label α)}
  {s : Cluster α} {i j : Nat} {act : Act α} {out : Out α} {term : Int}
  {whole : List (LogEntry α)}

/-- A server has not voted in a later term when it promises something. -/
theorem of_present (votes : ∀ (s : Cluster α) label, allowed s label → votesOnce s label)
    (run : Run (Cluster.step cfg) allowed Cluster.init labels s)
    (retained : Retained s i (s.servers i) term whole) (isUp : (s.servers i).up = true)
    (present : (s.servers i).term = term) : Honoured s i (s.servers i) term whole := by
  obtain ⟨ballots, running⟩ := Cluster.ballots (run.mono votes) i
  have voting := running isUp
  refine ⟨retained, fun later log cast after => ?_, fun _ caller args due after => ?_⟩
  · rcases cast with ⟨role, stood⟩ | ⟨candidate, voted⟩
    · have bound := voting.stood role later (Cluster.stood_history.mpr ⟨log, stood⟩)
      omega
    · have bound := ballots.saved later candidate (Cluster.voted_history.mpr ⟨log, voted⟩)
      have disk := (Cluster.terms run i).disk
      omega
  · have isTerm := (voting.due caller args due).2.1
    omega

/-- A step of the server itself. -/
theorem steps (honoured : Honoured s i (s.servers i) term whole)
    (careful : ∀ (s : Cluster α) label, allowed s label → retains s label)
    (run : Run (Cluster.step cfg) allowed Cluster.init labels s) (ok : allowed s ⟨i, act⟩)
    (steps : Steps cfg i s.net (s.servers i) act out) :
    Honoured (s.update i out) i out.server term whole := by
  have onward {log : List (LogEntry α)} {now later : Int}
      (keeps : Keeps s.begun term whole log now) (atMost : now ≤ later) :
      Keeps (s.update i out).begun term whole log later :=
    keeps.mono List.prefix_rfl atMost fun _ _ => Cluster.begun_update
  have memory := honoured.retained.memory
  refine ⟨honoured.retained.steps careful run ok steps, fun later log cast after => ?_,
    fun stays caller args due after => ?_⟩
  · rcases cast with ⟨role, stood⟩ | ⟨candidate, voted⟩
    · rcases List.mem_append.mp stood with isNew | wasThere
      · obtain ⟨-, -, rfl, rfl⟩ := steps.stands isNew
        exact onward memory (by omega)
      · exact onward (honoured.cast later log (.inl ⟨role, wasThere⟩) after) (Int.le_refl _)
    · rcases List.mem_append.mp voted with isNew | wasThere
      · obtain ⟨-, up, rfl, caller, args, rfl, -, -, ⟨-, larger⟩ | due⟩ := steps.votes isNew
        · exact onward memory (by omega)
        · exact onward (honoured.due up caller args due after) (Int.le_refl _)
      · exact onward (honoured.cast later log (.inr ⟨candidate, wasThere⟩) after) (Int.le_refl _)
  · obtain ⟨up, full, wasDue | larger⟩ := steps.grantVote_mem stays due
    · rw [full]
      exact onward (honoured.due up caller args wasDue after) (Int.le_refl _)
    · rw [full]
      exact onward memory (by omega)

/-- A step of any server. -/
theorem onward (honoured : Honoured s j (s.servers j) term whole)
    (careful : ∀ (s : Cluster α) label, allowed s label → retains s label)
    (run : Run (Cluster.step cfg) allowed Cluster.init labels s) (ok : allowed s ⟨i, act⟩)
    (steps : Steps cfg i s.net (s.servers i) act out) :
    Honoured (s.update i out) j ((s.update i out).servers j) term whole := by
  by_cases same : j = i
  · subst same
    simpa [Cluster.update] using honoured.steps careful run ok steps
  · have unchanged : (s.update i out).servers j = s.servers j := if_neg same
    have foreign {obs : Obs α} (membership : obs ∈ (s.update i out).obs) (own : obs.server = j) :
        obs ∈ s.obs := by
      rcases List.mem_append.mp membership with isNew | wasThere
      · exact (same (own.symm.trans (steps.obs_server obs isNew))).elim
      · exact wasThere
    have grown {log : List (LogEntry α)} {now : Int} (keeps : Keeps s.begun term whole log now) :
        Keeps (s.update i out).begun term whole log now :=
      keeps.mono List.prefix_rfl (Int.le_refl _) fun _ _ => Cluster.begun_update
    rw [unchanged]
    refine ⟨honoured.retained.lasts run steps, fun later log cast after => ?_,
      fun isUp caller args due after => grown (honoured.due isUp caller args due after)⟩
    refine grown (honoured.cast later log (cast.imp ?_ ?_) after)
    · exact Exists.imp fun _ stood => foreign stood rfl
    · exact Exists.imp fun _ voted => foreign voted rfl

end Honoured

/-! ## Promises are honoured -/

theorem Promised.append {new obs : List (Obs α)} {i : Nat} {term idx : Int}
    (promised : Promised (new ++ obs) i term idx) :
    Promised new i term idx ∨ Promised obs i term idx := by
  cases promised with
  | answered answered isTerm plain carried something reaches =>
      exact (List.mem_append.mp answered).imp (.answered · isTerm plain carried something reaches)
        (.answered · isTerm plain carried something reaches)
  | activated activated reaches =>
      exact (List.mem_append.mp activated).imp (.activated · reaches) (.activated · reaches)
  | started started reaches =>
      exact (List.mem_append.mp started).imp (.started · reaches) (.started · reaches)

/-- A server that becomes the leader has saved the log it begins with. -/
theorem Steps.activated_mem {cfg : Config} {me : Nat} {net : List (Msg α)} {sv : Server α}
    {act : Act α} {out : Out α} (steps : Steps cfg me net sv act out) {i role : Nat} {term : Int}
    {log : List (LogEntry α)} (activated : .activated i role term log ∈ out.obs) :
    i = me ∧ out.server.up = true ∧ out.server.term = term ∧ out.server.logs.full = log ∧
      out.server.persister.logs.full = log ∧ out.server.persister.term = term := by
  cases steps with
  | popped up _ _ handles =>
      cases handles with
      | installed | appended | candidateHold | staleCandidate =>
          exact (inactive_raiseObs _ _ _ _ _ _ _ activated).elim
      | becameLeader =>
          simp only [List.mem_cons, Obs.activated.injEq, reduceCtorEq, List.not_mem_nil, or_false]
            at activated
          obtain ⟨rfl, -, rfl, rfl⟩ := activated
          exact ⟨rfl, up, rfl, rfl, Server.full_restore .., rfl⟩
      | _ => simp at activated
  | executed _ _ executes => exact (executes.inactive _ _ _ _ activated).elim
  | applied _ applies => exact (applies.inactive _ _ _ _ activated).elim
  | _ => simp at activated

section

variable {cfg : Config} {allowed : Cluster α → Label α → Prop} {labels : List (Label α)}
  {s : Cluster α} {i : Nat} {act : Act α} {out : Out α} {term idx : Int}

/-- A server is in the term of the leader it promises something to, and holds what it
promises. -/
theorem Promised.made (careful : ∀ (s : Cluster α) label, allowed s label → retains s label)
    (run : Run (Cluster.step cfg) allowed Cluster.init labels s) (ok : allowed s ⟨i, act⟩)
    (steps : Steps cfg i s.net (s.servers i) act out)
    (next : Run (Cluster.step cfg) allowed Cluster.init (labels ++ [⟨i, act⟩]) (s.update i out))
    {j : Nat} (promised : Promised out.obs j term idx) :
    j = i ∧ out.server.up = true ∧ out.server.term = term ∧
      ∃ whole, idx < whole.length ∧ Retained (s.update i out) i out.server term whole := by
  have own : (s.update i out).servers i = out.server := if_pos rfl
  cases promised with
  | answered answered isTerm plain carried something reaches =>
      obtain ⟨rfl, up, caller, reply, rest, isNext, isMatch, server⟩ := steps.answers answered
      have answer :=
        Cluster.answering careful run j up caller _ reply (by rw [isNext]; exact .head _)
      obtain ⟨whole, isEnd, retained⟩ := Cluster.acknowledged careful next
        (List.mem_append_left _ answered) plain carried
      have length := isEnd.length
      rw [own, isTerm] at retained
      refine ⟨rfl, by rw [server]; exact up, ?_, whole, by omega, retained something⟩
      rw [server]
      exact (answer.isTerm isMatch).trans isTerm
  | activated activated reaches =>
      obtain ⟨rfl, up, rfl, rfl, disk, diskTerm⟩ := steps.activated_mem activated
      have isActivated := List.mem_append_left s.obs activated
      refine ⟨rfl, up, rfl, _, reaches, ?_⟩
      exact {
        onBranch := ⟨_, ⟨j, ⟨_, _, isActivated⟩, rfl⟩, Cluster.begun_front next isActivated⟩
        current := Int.le_refl _
        saved := .inl (Int.le_of_eq diskTerm.symm)
        memory := .of_held List.prefix_rfl
        disk := .of_held (by rw [disk]) }
  | started started reaches =>
      obtain ⟨up, rfl, rfl, rest, role, isNext, server⟩ := steps.started_mem started
      obtain ⟨⟨activated, entry, nonneg, found, -⟩, isLog⟩ :=
        (Cluster.placed run).due j _ _ up (by rw [isNext]; exact .head _)
      obtain ⟨onDisk, saved⟩ := (Cluster.ordered run j up).answering isNext rfl
      have inside := (List.getElem?_eq_some_iff.mp found).1
      rw [isLog] at inside
      have retained : Retained s j (s.servers j) (s.servers j).term (s.servers j).logs.full := {
        onBranch := ⟨_, ⟨j, activated, rfl⟩, by rw [isLog]⟩
        current := Int.le_refl _
        saved := saved.imp_right fun ⟨role, stood⟩ => ⟨role, Cluster.stood_history.mp stood⟩
        memory := .of_held List.prefix_rfl
        disk := .of_held (by rw [onDisk]) }
      exact ⟨rfl, by rw [server]; exact up, by rw [server], _, by omega,
        retained.steps careful run ok steps⟩

end

/-- What a server has promised, it keeps, and has kept in every later vote. -/
theorem Cluster.honoured {cfg : Config} {allowed : Cluster α → Label α → Prop}
    (careful : ∀ (s : Cluster α) label, allowed s label → retains s label)
    {labels : List (Label α)} {s : Cluster α} (run : Run (step cfg) allowed init labels s)
    {i : Nat} {term idx : Int} (promised : Promised s.obs i term idx) :
    ∃ whole, idx < whole.length ∧ Honoured s i (s.servers i) term whole := by
  refine Run.invariant (fun _ s => ∀ i term idx, Promised s.obs i term idx →
    ∃ whole, idx < whole.length ∧ Honoured s i (s.servers i) term whole) ?_ ?_ run i term idx
    promised
  · rintro _ _ _ (⟨membership⟩ | ⟨membership⟩ | ⟨membership⟩) <;> simp [init] at membership
  · intro labels s label s' earlier before ok taken i term idx promised
    have next := earlier.next ok taken
    obtain ⟨out, -, steps, rfl⟩ := step_steps taken
    rcases promised.append with isNew | wasThere
    · obtain ⟨rfl, isUp, present, whole, reaches, retained⟩ :=
        isNew.made careful earlier ok steps next
      have tenure (s : Cluster α) (label : Label α) (ok : allowed s label) :=
        (careful s label ok).1.1
      refine ⟨whole, reaches, .of_present tenure next ?_ ?_ ?_⟩ <;>
        simpa only [update, if_pos]
    · obtain ⟨whole, reaches, honoured⟩ := before i term idx wasThere
      exact ⟨whole, reaches, honoured.onward careful earlier ok steps⟩

/-! ## Later leaders -/

namespace Cluster

variable {cfg : Config} {allowed : Cluster α → Label α → Prop}
  (careful : ∀ (s : Cluster α) label, allowed s label → retains s label)
  {labels : List (Label α)} {s : Cluster α} {term term' : Int}

include careful

/-- The vote of a server for the leader of a term: the log it voted with is not ahead of
the one the leader stood with. -/
theorem supports_upToDate (run : Run (step cfg) allowed init labels s) {voter i role : Nat}
    {candidate : List (LogEntry α)} (supports : Supports s.obs voter term i)
    (stood : .selfVote i role term candidate ∈ s.obs) :
    ∃ log, Cast s.obs voter term log ∧ OnTree LogEntry.term s.branch log ∧
      UpToDate LogEntry.term log candidate := by
  have alone (s : Cluster α) (label : Label α) (ok : allowed s label) := (careful s label ok).1
  have votes (s : Cluster α) (label : Label α) (ok : allowed s label) := (alone s label ok).1
  rcases supports with ⟨rfl, -⟩ | granted
  · exact ⟨candidate, .inl ⟨role, stood⟩, (stood_valid alone run stood).onTree,
      fun last isLast => ⟨last, isLast, .inr ⟨rfl, Nat.le_refl _⟩⟩⟩
  · obtain ⟨log, voted⟩ := voted_of_granted (run.mono votes) granted
    obtain ⟨onTree, role', log', stood', upToDate⟩ := voted_upToDate alone run voted
    cases selfVote_unique votes run stood stood'
    exact ⟨log, .inr ⟨i, voted⟩, onTree, upToDate⟩

/-- Every later leader begins with what was chosen. -/
theorem Chosen.begins (run : Run (step cfg) allowed init labels s) {log first : List (LogEntry α)}
    (chosen : s.Chosen cfg term log) (after : term < term') (isBegun : s.begun term' first) :
    log <+: first := by
  have alone (s : Cluster α) (label : Label α) (ok : allowed s label) := (careful s label ok).1
  have one := oneLeader (fun s label ok => (alone s label ok).1) run
  have tenure := tenure (fun s label ok => (alone s label ok).2.2) run one
  obtain ⟨whole, isBranch, onBranch⟩ := chosen.onBranch
  obtain ⟨members, peers, enough, promised⟩ := chosen.majority
  refine tenure.completeness isBranch onBranch chosen.last ?_ after isBegun
  rintro term' first after ⟨i, role, activated⟩
  obtain ⟨voters, voterPeers, voterEnough, supports⟩ := elected run ⟨role, first, activated⟩
  obtain ⟨voter, member, member'⟩ := Config.majorities_meet peers voterPeers enough voterEnough
  obtain ⟨kept, reaches, honoured⟩ := honoured careful run (promised voter member)
  obtain ⟨role', candidate, stood, begins⟩ := begun_candidate run activated
  obtain ⟨voterLog, cast, onTree, upToDate⟩ :=
    supports_upToDate careful run (supports voter member') stood
  have isValid := stood_valid alone run stood
  refine ⟨kept, voterLog, candidate, ?_, honoured.cast term' voterLog cast after, onTree,
    isValid.onTree, fun entry inside => ?_, upToDate, begins⟩
  · exact chosen.onBranch.front one honoured.retained.onBranch (by omega)
  · have bounded := isValid.bounded entry inside
    omega

/-- Of two logs that were chosen one continues the other. -/
theorem Chosen.comparable (run : Run (step cfg) allowed init labels s)
    {log log' : List (LogEntry α)} (chosen : s.Chosen cfg term log)
    (chosen' : s.Chosen cfg term' log') : log <+: log' ∨ log' <+: log := by
  have one := oneLeader (fun s label ok => (careful s label ok).1.1) run
  have tenure := tenure (fun s label ok => (careful s label ok).1.2.2) run one
  have earlier {term term' : Int} {log log' : List (LogEntry α)} (after : term < term')
      (chosen : s.Chosen cfg term log) (chosen' : s.Chosen cfg term' log') :
      log <+: log' ∨ log' <+: log := by
    obtain ⟨whole, isBranch, onBranch⟩ := chosen'.onBranch
    obtain ⟨first, isBegun⟩ := tenure.began term' whole isBranch
    obtain ⟨grown, isBranch', front⟩ := tenure.grown term' first isBegun
    cases tenure.unique _ _ _ isBranch isBranch'
    exact List.prefix_or_prefix_of_prefix ((chosen.begins careful run after isBegun).trans front)
      onBranch
  rcases Int.lt_trichotomy term term' with before | rfl | after
  · exact earlier before chosen chosen'
  · exact (Nat.le_total log.length log'.length).imp (chosen.onBranch.front one chosen'.onBranch)
      (chosen'.onBranch.front one chosen.onBranch)
  · exact (earlier after chosen' chosen).symm

end Cluster

end GoLab.Raft
