import GoLab.Raft.Following
import GoLab.Raft.Promises

/-!
# Acknowledged entries stay

If followers drop entries only where they conflict with those of the leader, a server
keeps what it has promised to the leader of a term, in memory and on disk, until it
follows a later leader that does not have it.
-/

namespace GoLab.Raft

variable {α : Type}
variable {cfg : Config} {s : Cluster α} {args : AppendEntriesArgs α}

/-! ## Conditions -/

/-- A request is in the log already if it begins below the commit index; otherwise it
reaches to the end of the log or conflicts with it, unless it is not written at all. -/
def Logs.Spares (logs : Logs α) (sent : SendEntries α) : Prop :=
  if sent.prevLogInfo.index < logs.lci then
    sent.entries <+: logs.full.drop (sent.prevLogInfo.index + 1).toNat
  else
    logs.lli ≤ sent.prevLogInfo.index + sent.entries.length ∨ sent.entries = [] ∨
      logs.matchesPrev sent.prevLogInfo = some false ∨
      ∃ pair ∈ (logs.full.drop (sent.prevLogInfo.index + 1).toNat).zip sent.entries,
        pair.1.term ≠ pair.2.term

/-- A snapshot reaches to the end of the log or conflicts with it. -/
def Logs.SparesFor (logs : Logs α) (snapshot : Snapshot α) : Prop :=
  logs.lli ≤ snapshot.lastIncludeIndex ∨
    logs.full[snapshot.lastIncludeIndex.toNat]?.map LogEntry.term ≠ some snapshot.lastIncludeTerm

/-- Followers drop entries only where they conflict with those of a request. -/
def keepsEntries (s : Cluster α) (label : Label α) : Prop :=
  ∀ args ∈ (s.popped label).bind Event.request,
    (s.servers label.server).active = true → (s.servers label.server).role = .follower →
    (s.servers label.server).term ≤ args.term →
      (∀ snapshot ∈ args.snapshot, (s.servers label.server).logs.SparesFor snapshot) ∧
      (args.snapshot = none → ∀ sent ∈ args.sendEntries,
        (s.servers label.server).logs.Spares sent)

/-- There is one leader in a term, and what it sends is cut from its log. -/
def leadsAlone (s : Cluster α) (label : Label α) : Prop :=
  votesOnce s label ∧ buildsInOffice s label ∧ copiesIntact s label

/-- Leaders are alone in their terms, and followers keep what does not conflict. -/
def retains (s : Cluster α) (label : Label α) : Prop :=
  leadsAlone s label ∧ keepsEntries s label

section

variable [DecidableEq α]

instance (logs : Logs α) (sent : SendEntries α) : Decidable (logs.Spares sent) := by
  unfold Logs.Spares
  infer_instance

instance (logs : Logs α) (snapshot : Snapshot α) : Decidable (logs.SparesFor snapshot) := by
  unfold Logs.SparesFor
  infer_instance

instance (s : Cluster α) (label : Label α) : Decidable (keepsEntries s label) :=
  inferInstanceAs (Decidable (∀ _ ∈ _, _))

instance (s : Cluster α) (label : Label α) : Decidable (leadsAlone s label) :=
  inferInstanceAs (Decidable (_ ∧ _ ∧ _))

instance (s : Cluster α) (label : Label α) : Decidable (retains s label) :=
  inferInstanceAs (Decidable (_ ∧ _))

end

theorem Follows.popped {i : Nat} {act : Act α} {caller : Caller} {sv' : Server α}
    (follows : Follows (s.servers i) act caller args sv') :
    args ∈ (s.popped ⟨i, act⟩).bind Event.request := by
  obtain ⟨rest, isNext⟩ := follows.isNext
  simp [Cluster.popped, follows.isPop, isNext, Event.request]

/-- What a follower that processes a request spares of its log. -/
theorem Follows.spares {i : Nat} {act : Act α} {caller : Caller} {sv' : Server α}
    (follows : Follows (s.servers i) act caller args sv') (keeps : keepsEntries s ⟨i, act⟩) :
    (∀ snapshot ∈ args.snapshot, (s.servers i).logs.SparesFor snapshot) ∧
      (args.snapshot = none → ∀ sent ∈ args.sendEntries, (s.servers i).logs.Spares sent) := by
  exact keeps args follows.popped follows.running follows.follower follows.current

/-- The second log is at least as long as the first one or conflicts with it. -/
def Replaces (log new : List (LogEntry α)) : Prop :=
  log.length ≤ new.length ∨ ∃ (k : Nat) (entry entry' : LogEntry α), log[k]? = some entry ∧
    new[k]? = some entry' ∧ entry.term ≠ entry'.term

namespace Logs

variable {logs logs' : Logs α} {sent : SendEntries α} {snapshot : Snapshot α}

/-- A request that is written replaces entries only at a conflict. -/
theorem Sound.replaces_appended (sound : logs.Sound) {status : EntryStatus}
    (appends : logs.Appends sent logs' status true) (spares : logs.Spares sent) :
    Replaces logs.full logs'.full := by
  have full := sound.full_appended appends
  have length := sound.length_eq
  cases appends with
  | appended _ notBelow inside matched something =>
      have kept : (logs.full.take (sent.prevLogInfo.index + 1).toNat).length =
          (sent.prevLogInfo.index + 1).toNat := by
        rw [List.length_take]
        omega
      rw [Spares, if_neg (Int.not_lt.mpr notBelow)] at spares
      rcases spares with reaches | nothing | unmatched | ⟨⟨entry, entry'⟩, both, conflict⟩
      · left
        rw [full, List.length_append, kept]
        omega
      · exact (something nothing).elim
      · unfold matchesPrev at unmatched
        split at unmatched
        case isTrue => cases unmatched
        case isFalse notFirst =>
          rw [matched.resolve_left notFirst] at unmatched
          simp at unmatched
      · obtain ⟨k, found⟩ := List.mem_iff_getElem?.mp both
        obtain ⟨found, found'⟩ := List.getElem?_zip_eq_some.mp found
        refine .inr ⟨(sent.prevLogInfo.index + 1).toNat + k, entry, entry', ?_, ?_, conflict⟩
        · rw [← List.getElem?_drop]
          exact found
        · rw [full, List.getElem?_append_right (by omega), kept, Nat.add_sub_cancel_left]
          exact found'

theorem Sound.replaces_installed (sound : logs.Sound) (ok : snapshot.Ok)
    (spares : logs.SparesFor snapshot) : Replaces logs.full snapshot.compacted := by
  have length := sound.length_eq
  have installed := ok.length
  rcases spares with reaches | conflict
  · left
    omega
  · by_cases shorter : logs.full.length ≤ snapshot.compacted.length
    · exact .inl shorter
    · right
      have term := ok.term
      rw [List.getLast?_eq_getElem?] at term
      obtain ⟨entry', found', isTerm⟩ := Option.map_eq_some_iff.mp term
      have last : snapshot.compacted.length - 1 = snapshot.lastIncludeIndex.toNat := by omega
      rw [last] at found'
      have inside : snapshot.lastIncludeIndex.toNat < logs.full.length := by omega
      refine ⟨_, _, entry', List.getElem?_eq_getElem inside, found', fun same => conflict ?_⟩
      rw [List.getElem?_eq_getElem inside, Option.map_some, same, isTerm]

/-- A request answered with `ENTRY_MATCH` is in the log afterwards. -/
theorem Sound.within_answered (sound : logs.Sound) {appended : Bool}
    (prev : -1 ≤ sent.prevLogInfo.index) (spares : logs.Spares sent)
    (appends : logs.Appends sent logs' .entryMatch appended) : sent.Within logs'.full := by
  by_cases below : sent.prevLogInfo.index < logs.lci
  · rw [appends.eq_of_lt below]
    rw [Spares, if_pos below] at spares
    refine ⟨prev, fun k entry found => ?_⟩
    have position : (sent.prevLogInfo.index + 1 + k).toNat =
        (sent.prevLogInfo.index + 1).toNat + k := by omega
    rw [position, ← List.getElem?_drop]
    exact getElem?_extend spares found
  · exact sound.within_appends prev (Int.not_lt.mp below) appends

end Logs

/-! ## Promises are kept -/

/-- What a server keeps of a log it has promised to the leader of a term. -/
structure Retained (s : Cluster α) (i : Nat) (sv : Server α) (term : Int)
    (whole : List (LogEntry α)) : Prop where
  onBranch : s.OnBranch term whole
  current : term ≤ sv.term
  saved : term ≤ sv.persister.term ∨ ∃ role, Stood s.obs i role term
  memory : Keeps s.begun term whole sv.logs.full sv.term
  disk : Keeps s.begun term whole sv.persister.logs.full sv.persister.term

section

variable {allowed : Cluster α → Label α → Prop} {labels : List (Label α)} {i j : Nat} {act : Act α}
  {out : Out α} {sv : Server α} {term : Int} {whole : List (LogEntry α)}

theorem Cluster.begun_update {first : List (LogEntry α)} (isBegun : s.begun term first) :
    (s.update j out).begun term first := by
  obtain ⟨i, role, membership⟩ := isBegun
  exact ⟨i, role, List.mem_append_right _ membership⟩

theorem Cluster.oneLeader (votes : ∀ (s : Cluster α) label, allowed s label → votesOnce s label)
    (run : Run (step cfg) allowed init labels s) : s.OneLeader :=
  fun _ _ _ => activated_unique (run.mono votes)

namespace Retained

/-- What is kept lasts when the cluster goes on. -/
theorem lasts (retained : Retained s i sv term whole)
    (run : Run (Cluster.step cfg) allowed Cluster.init labels s)
    (steps : Steps cfg j s.net (s.servers j) act out) :
    Retained (s.update j out) i sv term whole where
  onBranch := retained.onBranch.lasts run steps
  current := retained.current
  saved := retained.saved.imp_right fun ⟨role, stood⟩ => ⟨role, stood_append.mpr (.inr stood)⟩
  memory := retained.memory.mono List.prefix_rfl (Int.le_refl _) fun _ _ => Cluster.begun_update
  disk := retained.disk.mono List.prefix_rfl (Int.le_refl _) fun _ _ => Cluster.begun_update

/-- A server follows the leader of a request. -/
theorem follow (retained : Retained s i sv term whole)
    (tenure : Tenure LogEntry.term s.branch s.begun) (current : sv.term ≤ args.term)
    {new : List (LogEntry α)} (onBranch : s.OnBranch args.term new)
    (replaces : Replaces sv.logs.full new) : Keeps s.begun term whole new args.term := by
  obtain ⟨leaderLog, isBranch, front⟩ := onBranch
  refine retained.memory.follow tenure current (Int.le_trans retained.current current) isBranch
    front
    (fun same => ?_) replaces
  obtain ⟨promised, isPromised, promisedFront⟩ := retained.onBranch
  rw [same] at isPromised
  rw [tenure.unique _ _ _ isBranch isPromised]
  exact promisedFront

/-- The log a step leaves in memory. -/
theorem edits (retained : Retained s i (s.servers i) term whole)
    (careful : ∀ (s : Cluster α) label, allowed s label → retains s label)
    (run : Run (Cluster.step cfg) allowed Cluster.init labels s) (ok : allowed s ⟨i, act⟩)
    (steps : Steps cfg i s.net (s.servers i) act out) :
    Keeps s.begun term whole out.server.logs.full out.server.term := by
  have intact (s : Cluster α) (label : Label α) (ok : allowed s label) : copiesIntact s label :=
    (careful s label ok).1.2.2
  have one := Cluster.oneLeader (fun s label ok => (careful s label ok).1.1) run
  have tenure := Cluster.tenure intact run one
  have received := (Cluster.requests_onBranch (fun s label ok => (careful s label ok).1.2.1) intact
    run).1 i
  have memory := ((Cluster.valid intact run one).1 i).memory
  have same (isUp : (s.servers i).up = true)
      (full : out.server.logs.full = (s.servers i).logs.full) :
      Keeps s.begun term whole out.server.logs.full out.server.term :=
    full ▸ retained.memory.mono List.prefix_rfl (steps.term_le isUp) fun _ _ => id
  have keeps := (careful s _ ok).2
  cases steps.edits with
  | kept isUp logs => exact same isUp (by rw [logs])
  | installed follows carried logs =>
      obtain ⟨snapshotOk, onBranch⟩ := (received _ _ follows.mem).snapshot _ carried
      rw [logs, Logs.full_followerInstallSnapshot, follows.term]
      exact retained.follow tenure follows.current onBranch
        (memory.sound.replaces_installed snapshotOk ((follows.spares keeps).1 _ carried))
  | @appended _ _ _ _ appended follows plain carried result =>
      have appends := Logs.followerAppendEntries_appends memory.sound.cursors result
      cases appended with
      | false => exact same follows.isUp (by rw [appends.logs_eq])
      | true =>
          obtain ⟨sender, isEnd, onBranch⟩ := (received _ _ follows.mem).entries _ carried
          have replaces := memory.sound.replaces_appended appends
            ((follows.spares keeps).2 plain _ carried)
          rw [memory.sound.full_eq one.uniqueBranch memory.full.onTree isEnd
            (onBranch.valid intact run one).onTree appends] at replaces ⊢
          rw [follows.term]
          exact retained.follow tenure follows.current onBranch replaces
  | pushed isUp pushed =>
      refine retained.memory.mono ?_ (steps.term_le isUp) fun _ _ => id
      rw [Logs.full_pushEntry pushed]
      exact List.prefix_append ..
  | taken isUp _ taken => exact same isUp (Logs.full_takeSnapshot taken)
  | committed isUp _ result => exact same isUp (Logs.full_updateCommit result)
  | applied isUp _ logs => exact same isUp (by rw [logs]; rfl)
  | restored _ logs isTerm =>
      rw [logs, isTerm]
      exact retained.disk

/-- A server keeps what it has promised. -/
theorem steps (retained : Retained s i (s.servers i) term whole)
    (careful : ∀ (s : Cluster α) label, allowed s label → retains s label)
    (run : Run (Cluster.step cfg) allowed Cluster.init labels s) (ok : allowed s ⟨i, act⟩)
    (steps : Steps cfg i s.net (s.servers i) act out) :
    Retained (s.update i out) i out.server term whole := by
  have edited := retained.edits careful run ok steps
  have onward := retained.lasts run steps
  have current : term ≤ out.server.term := by
    cases isUp : (s.servers i).up with
    | true => exact Int.le_trans retained.current (steps.term_le isUp)
    | false =>
        obtain ⟨isRestart, made, -⟩ := steps.restarts isUp
        obtain ⟨applier, -, -, server⟩ := make_eq_some made
        have votes := (careful s _ ok).1.1.1 (by rw [isRestart]; rfl)
        rw [server]
        rcases retained.saved with saved | ⟨role, log, stood⟩
        · exact saved
        · exact votes _ stood term (by simp [Obs.stoodIn])
  have memory : Keeps (s.update i out).begun term whole out.server.logs.full out.server.term :=
    edited.mono List.prefix_rfl (Int.le_refl _) fun _ _ => Cluster.begun_update
  refine ⟨onward.onBranch, current, ?_, memory, ?_⟩
  · cases steps.saves with
    | kept same => exact same ▸ onward.saved
    | before _ saved | after saved => exact .inl (saved.term_eq ▸ current)
  · cases steps.saves with
    | kept same => exact same ▸ onward.disk
    | before isUp saved =>
        rw [saved.full_eq, saved.term_eq]
        exact onward.memory.mono List.prefix_rfl (steps.term_le isUp) fun _ _ => id
    | after saved =>
        rw [saved.full_eq, saved.term_eq]
        exact memory

/-- A step of any server. -/
theorem onward (retained : Retained s j (s.servers j) term whole)
    (careful : ∀ (s : Cluster α) label, allowed s label → retains s label)
    (run : Run (Cluster.step cfg) allowed Cluster.init labels s) (ok : allowed s ⟨i, act⟩)
    (steps : Steps cfg i s.net (s.servers i) act out) :
    Retained (s.update i out) j ((s.update i out).servers j) term whole := by
  by_cases same : j = i
  · subst same
    simpa [Cluster.update] using retained.steps careful run ok steps
  · simpa [Cluster.update, same] using retained.lasts run steps

/-- What is promised in the present term is in the log. -/
theorem held (retained : Retained s i sv term whole) (present : sv.term = term) :
    whole <+: sv.logs.full :=
  retained.memory.held (Int.le_of_eq present)

end Retained

end

/-! ## Answers -/

/-- What a follower answers to a request. -/
structure Answer (s : Cluster α) (sv : Server α) (args : AppendEntriesArgs α)
    (reply : AppendEntriesReply) : Prop where
  onBranch : args.OnBranch s
  isTerm : reply.entryStatus = .entryMatch → sv.term = args.term
  holds : reply.entryStatus = .entryMatch → args.snapshot = none →
    ∀ sent ∈ args.sendEntries, sent.Within sv.logs.full

/-- The answers a processor is about to give. -/
def Answering (s : Cluster α) (sv : Server α) : Prop :=
  ∀ caller args reply, .replyAppendEntries caller args reply ∈ sv.todo → Answer s sv args reply

section

variable {allowed : Cluster α → Label α → Prop} {labels : List (Label α)} {i : Nat} {act : Act α}
  {out : Out α} {sv sv' : Server α}

theorem Answering.lasts {j : Nat} (answering : Answering s sv)
    (run : Run (Cluster.step cfg) allowed Cluster.init labels s)
    (steps : Steps cfg j s.net (s.servers j) act out) : Answering (s.update j out) sv :=
  fun caller args reply due =>
    have answer := answering caller args reply due
    ⟨answer.onBranch.lasts run steps, answer.isTerm, answer.holds⟩

theorem Answering.frame (answering : Answering s sv)
    (todo : ∀ caller args reply, .replyAppendEntries caller args reply ∈ sv'.todo →
      .replyAppendEntries caller args reply ∈ sv.todo)
    (term : sv'.term = sv.term) (full : sv'.logs.full = sv.logs.full) : Answering s sv' := by
  intro caller args reply due
  have answer := answering caller args reply (todo caller args reply due)
  refine ⟨answer.onBranch, ?_, ?_⟩
  · rw [term]
    exact answer.isTerm
  · rw [full]
    exact answer.holds

/-- The request a processor answers is the one it has taken. -/
theorem Handles.replies {me : Nat} {ev : Event α} (handles : Handles cfg me sv ev out)
    (idle : sv.todo = []) {caller : Caller} {reply : AppendEntriesReply}
    (due : .replyAppendEntries caller args reply ∈ out.server.todo) :
    ev = .appendEntries caller args ∧ (reply.entryStatus = .entryMatch →
      sv.active = true ∧ sv.role = .follower ∧ sv.term ≤ args.term ∧
        out.server.term = args.term ∧
        (args.snapshot = none → ∃ sent appended, args.sendEntries = some sent ∧
          sv.logs.followerAppendEntries sent = some (out.server.logs, .entryMatch, appended))) := by
  cases handles with
  | appendAnswered running status =>
      cases List.mem_singleton.mp due
      refine ⟨rfl, fun isMatch => ?_⟩
      rw [isMatch] at status
      rcases status with ⟨isStale, -⟩ | ⟨isDefault, -⟩
      · cases isStale
      · cases isDefault
  | installed running follower current carried =>
      simp only [List.mem_cons, reduceCtorEq, Op.replyAppendEntries.injEq, List.not_mem_nil,
        or_false, false_or] at due
      obtain ⟨rfl, rfl, rfl⟩ := due
      exact ⟨rfl, fun _ => ⟨running, follower, current, Server.raiseTo_term_eq current,
        fun plain => by simp [plain] at carried⟩⟩
  | @appended _ _ sent _ status appended _ _ running follower current plain carried result =>
      rw [List.mem_append, List.mem_singleton] at due
      rcases due with earlier | isReply
      · rcases List.mem_append.mp earlier with first | first <;> split at first <;> simp at first
      · cases isReply
        exact ⟨rfl, fun isMatch => ⟨running, follower, current, Server.raiseTo_term_eq current,
          fun _ => ⟨sent, appended, carried, isMatch ▸ result⟩⟩⟩
  | candidateHold | leaderHold =>
      simp only [List.mem_cons, reduceCtorEq, Op.replyAppendEntries.injEq, List.not_mem_nil,
        or_false, false_or] at due
      obtain ⟨rfl, rfl, rfl⟩ := due
      exact ⟨rfl, nofun⟩
  | counted =>
      dsimp only at due
      split at due <;> simp at due
  | confirmed => simp [Option.mem_toList] at due
  | ignored | becameFollower | becameCandidate => simp [idle] at due
  | _ => simp at due

end

/-- Followers answer `ENTRY_MATCH` only to what is in their log, in the term of the
request. -/
theorem Cluster.answering {allowed : Cluster α → Label α → Prop}
    (careful : ∀ (s : Cluster α) label, allowed s label → retains s label) {labels : List (Label α)}
    (run : Run (step cfg) allowed init labels s) (i : Nat) (isUp : (s.servers i).up = true) :
    Answering s (s.servers i) := by
  refine (global_invariant (fun _ s _ sv => sv.up = true → Answering s sv) (fun _ _ _ => True)
    ?_ ?_ ?_ run).1 i isUp
  · exact fun _ _ => by simp [Answering, Server.initial]
  · exact fun _ s j act out earlier steps =>
      ⟨fun _ _ answering isUp => (answering isUp).lasts earlier steps, fun _ _ => trivial⟩
  · intro labels s i act out earlier before _ _ ok steps
    refine ⟨fun stays => ?_, fun _ _ => trivial⟩
    have beside {sv' : Server α} (up : (s.servers i).up = true)
        (todo : sv'.todo = (s.servers i).todo) (term : sv'.term = (s.servers i).term)
        (full : sv'.logs.full = (s.servers i).logs.full) : Answering (s.update i out) sv' :=
      ((before i up).lasts earlier steps).frame (fun _ _ _ => todo ▸ id) term full
    cases steps with
    | popped up idle next handles =>
        intro caller args reply due
        obtain ⟨rfl, matches_⟩ := handles.replies idle due
        have received := (requests_onBranch (fun s label ok => (careful s label ok).1.2.1)
          (fun s label ok => (careful s label ok).1.2.2) earlier).1 i caller args
          (by rw [next]; exact .head _)
        refine ⟨received.lasts earlier (.popped up idle next handles), fun isMatch =>
          (matches_ isMatch).2.2.2.1, fun isMatch plain sent carried => ?_⟩
        obtain ⟨running, follower, current, -, written⟩ := matches_ isMatch
        obtain ⟨sent', appended, carried', result⟩ := written plain
        cases carried.symm.trans carried'
        have sound := (sound earlier i).memory
        have keeps := (careful s _ ok).2
        have asked : args ∈ (s.popped ⟨i, .pop⟩).bind Event.request := by
          simp [Cluster.popped, next, Event.request]
        obtain ⟨whole, isEnd, -⟩ := received.entries sent carried
        exact sound.within_answered isEnd.prev
          ((keeps args asked running follower current).2 plain sent carried)
          (Logs.followerAppendEntries_appends sound.cursors result)
    | executed up next executes =>
        have full := (executes.sameLog next).full_eq
        refine ((before i up).lasts earlier (.executed up next executes)).frame ?_ ?_ full
        · rw [next]
          cases executes <;> simp +contextual
        · cases executes <;> rfl
    | applied up applies => cases applies <;> exact beside up rfl rfl rfl
    | crashed => cases stays
    | restarted _ made =>
        obtain ⟨applier, -, -, rfl⟩ := make_eq_some made
        simp [Answering]
    | _ => exact beside ‹_› rfl rfl rfl

/-- An answer is given by the processor, which leaves everything else as it is. -/
theorem Steps.answers {me : Nat} {net : List (Msg α)} {sv : Server α} {act : Act α} {out : Out α}
    (steps : Steps cfg me net sv act out) {i : Nat} {status : EntryStatus}
    (answered : .answered i args status ∈ out.obs) :
    i = me ∧ sv.up = true ∧ ∃ caller reply rest,
      sv.todo = .replyAppendEntries caller args reply :: rest ∧ reply.entryStatus = status ∧
        out.server = { sv with todo := rest } := by
  cases steps with
  | popped _ _ _ handles =>
      cases handles with
      | installed | appended | candidateHold | staleCandidate =>
          unfold Server.raiseObs at answered
          split at answered <;> simp at answered
      | _ => simp at answered
  | executed up next executes =>
      cases executes with
      | answered =>
          cases List.mem_singleton.mp answered
          exact ⟨rfl, up, _, _, _, next, rfl, rfl⟩
      | _ => simp at answered
  | applied _ applies => cases applies <;> simp at answered
  | restarted => simp at answered
  | _ => simp at answered

/-- The entries of a request in a log bring what is before them in the sender's log. -/
theorem SendEntries.Within.front {branch : Int → List (LogEntry α) → Prop}
    (unique : UniqueBranch branch) {sent : SendEntries α} {log whole : List (LogEntry α)}
    (within : sent.Within log) (isEnd : sent.EndOf whole) (something : sent.entries ≠ [])
    (onTree : OnTree LogEntry.term branch log)
    (wholeOnTree : OnTree LogEntry.term branch whole) : whole <+: log := by
  have positive := List.length_pos_iff.mpr something
  have length := isEnd.length
  have prev := isEnd.prev
  obtain ⟨last, isLast⟩ : ∃ last, sent.entries[sent.entries.length - 1]? = some last :=
    ⟨_, List.getElem?_eq_getElem (by omega)⟩
  have found := within.entries _ last isLast
  have position : (sent.prevLogInfo.index + 1 + (sent.entries.length - 1 : Nat)).toNat =
      whole.length - 1 := by omega
  have found' : whole[whole.length - 1]? = some last := by
    rw [← isLast, isEnd.entries, List.getElem?_drop]
    congr 1
    rw [List.length_drop]
    omega
  rw [position] at found
  have same := OnTree.matching unique onTree wholeOnTree (congrArg (Option.map LogEntry.term) found)
    (congrArg (Option.map LogEntry.term) found')
  rw [List.take_of_length_le (l := whole) (by omega)] at same
  rw [← same]
  exact List.take_prefix ..

/-- What a server has answered `ENTRY_MATCH` to, it keeps. -/
theorem Cluster.acknowledged {allowed : Cluster α → Label α → Prop}
    (careful : ∀ (s : Cluster α) label, allowed s label → retains s label) {labels : List (Label α)}
    (run : Run (step cfg) allowed init labels s) {i : Nat} {sent : SendEntries α}
    (answered : .answered i args .entryMatch ∈ s.obs) (plain : args.snapshot = none)
    (carried : args.sendEntries = some sent) : ∃ whole, sent.EndOf whole ∧
      (sent.entries ≠ [] → Retained s i (s.servers i) args.term whole) := by
  refine Run.invariant (fun _ s => ∀ i args sent, .answered i args .entryMatch ∈ s.obs →
    args.snapshot = none → args.sendEntries = some sent → ∃ whole, sent.EndOf whole ∧
      (sent.entries ≠ [] → Retained s i (s.servers i) args.term whole)) (by simp [init]) ?_ run i
    args
    sent answered plain carried
  intro labels s label s' earlier before ok taken i args sent answered plain carried
  obtain ⟨out, -, steps, rfl⟩ := step_steps taken
  rcases List.mem_append.mp answered with isNew | wasThere
  · obtain ⟨rfl, up, caller, reply, rest, next, isMatch, server⟩ := steps.answers isNew
    have intact (s : Cluster α) (label : Label α) (ok : allowed s label) : copiesIntact s label :=
      (careful s label ok).1.2.2
    have one := oneLeader (fun s label ok => (careful s label ok).1.1) earlier
    have answer := answering careful earlier label.server up caller args reply
      (by rw [next]; exact .head _)
    obtain ⟨whole, isEnd, onBranch⟩ := answer.onBranch.entries sent carried
    obtain ⟨onDisk, saved⟩ := (ordered earlier label.server up).answering next rfl
    refine ⟨whole, isEnd, fun something => ?_⟩
    have memory := ((valid intact earlier one).1 label.server).memory
    have held : whole <+: (s.servers label.server).logs.full :=
      (answer.holds isMatch plain sent carried).front one.uniqueBranch isEnd something
        memory.full.onTree (onBranch.valid intact earlier one).onTree
    have retained : Retained s label.server (s.servers label.server) args.term whole := by
      rw [answer.isTerm isMatch] at saved
      refine ⟨onBranch, Int.le_of_eq (answer.isTerm isMatch).symm, ?_, .of_held held,
        .of_held (onDisk ▸ held)⟩
      exact saved.imp_right (Exists.imp fun _ stood => stood_history.mp stood)
    exact retained.onward careful earlier ok steps
  · obtain ⟨whole, isEnd, retained⟩ := before i args sent wasThere plain carried
    exact ⟨whole, isEnd, fun something => (retained something).onward careful earlier ok steps⟩

/-- In every run with one leader in a term and followers that drop entries only where
they conflict with those of a request, the entries a server has answered `ENTRY_MATCH` to
are in its log whenever it is in the term of the request. -/
theorem acknowledged_entries_stay {cfg : Config} {labels : List (Label α)} {s : Cluster α}
    (run : Run (Cluster.step cfg) retains Cluster.init labels s) {i : Nat}
    {args : AppendEntriesArgs α} {sent : SendEntries α}
    (answered : .answered i args .entryMatch ∈ s.obs) (plain : args.snapshot = none)
    (carried : args.sendEntries = some sent) (present : (s.servers i).term = args.term) :
    sent.Within (s.servers i).logs.full := by
  obtain ⟨whole, isEnd, kept⟩ := Cluster.acknowledged (fun _ _ => id) run answered plain carried
  refine ⟨isEnd.prev, fun k entry found => ?_⟩
  have held := (kept (List.ne_nil_of_mem (List.mem_of_getElem? found))).held present
  have prev := isEnd.prev
  have position : (sent.prevLogInfo.index + 1 + k).toNat =
      (sent.prevLogInfo.index + 1).toNat + k := by omega
  rw [isEnd.entries, List.getElem?_drop, ← position] at found
  exact getElem?_extend held found

/-- The request by which the leader of term 1 replicates its first entries. -/
def firstEntries : AppendEntriesArgs Nat where
  id := 0
  term := 1
  leaderCommit := -1
  entryType := .entryTLog
  snapshot := none
  sendEntries := some { entries := [firstNoop, firstCommand], prevLogInfo := ⟨-1, -1⟩ }

theorem acknowledged_entries_stay_firstCommit :
    ∃ s, Run (Cluster.step (.doubling 3)) retains Cluster.init firstCommit s ∧
      .answered 1 firstEntries .entryMatch ∈ s.obs ∧
      SendEntries.Within ⟨[firstNoop, firstCommand], ⟨-1, -1⟩⟩ (s.servers 1).logs.full := by
  obtain ⟨s, run, answered, present⟩ : ∃ s, Run (Cluster.step (.doubling 3)) retains
      Cluster.init firstCommit s ∧ .answered 1 firstEntries .entryMatch ∈ s.obs ∧
      (s.servers 1).term = 1 :=
    Run.exists_of_runSteps (by decide +kernel)
  exact ⟨s, run, answered, acknowledged_entries_stay run answered rfl rfl present⟩

/-- The leader of term 1 replicates its no-op to server 1 and then a command.  A second
copy of the first request arrives after that. -/
def repeatedRequest : List (Label Nat) :=
  leaderElected ++
  Label.all 0 [.repl 0, .repl 0, .repl 0, .repl 0, .call 0] ++
  Label.all 1 [.receive 3, .pop, .exec] ++
  Label.all 0 [.receive 4, .repl 0, .repl 0, .repl 0, .repl 0, .repl 0, .call 0, .start (some 7),
    .pop, .exec, .exec] ++
  Label.all 1 [.receive 5, .pop, .exec, .exec, .exec] ++
  Label.all 0 [.receive 6, .repl 0, .repl 0, .repl 0, .call 0] ++
  Label.all 1 [.receive 7, .pop, .exec, .exec, .exec, .receive 5, .pop]

/-- The request by which the leader of term 1 replicates its first command. -/
def secondEntries : AppendEntriesArgs Nat :=
  { firstEntries with sendEntries := some { entries := [firstCommand], prevLogInfo := ⟨0, 1⟩ } }

/-- The second copy of the request cuts off the command that was acknowledged. -/
theorem acknowledged_entry_lost :
    ∃ s, Run (Cluster.step (.doubling 3)) leadsAlone Cluster.init repeatedRequest s ∧
      .answered 1 secondEntries .entryMatch ∈ s.obs ∧ (s.servers 1).term = secondEntries.term ∧
      ¬ SendEntries.Within ⟨[firstCommand], ⟨0, 1⟩⟩ (s.servers 1).logs.full := by
  obtain ⟨s, run, answered, present, full⟩ : ∃ s, Run (Cluster.step (.doubling 3)) leadsAlone
      Cluster.init repeatedRequest s ∧ .answered 1 secondEntries .entryMatch ∈ s.obs ∧
      (s.servers 1).term = secondEntries.term ∧ (s.servers 1).logs.full = [firstNoop] :=
    Run.exists_of_runSteps (by decide +kernel)
  refine ⟨s, run, answered, present, fun within => ?_⟩
  rw [full] at within
  cases within.entries 0 firstCommand rfl

end GoLab.Raft
