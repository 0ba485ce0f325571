import GoLab.Raft.Correspondence
import GoLab.Raft.Tally

/-!
# What a leader counts

A `ReplConfirmEvent` names indices its peer has acknowledged to the leader in the
leader's term, and the leader counts itself for what it has appended and saved.  What it
commits therefore was promised by a majority.
-/

namespace GoLab.Raft

variable {α : Type}
variable {cfg : Config} {me : Nat} {allowed : Cluster α → Label α → Prop} {labels : List (Label α)}
  {s : Cluster α} {sv : Server α} {out : Out α} {act : Act α} {i : Nat}

/-! ## Promises -/

/-- A server has told the leader of a term that it holds the leader's log up to an index:
as a follower by its answer, as the leader itself when it watches the index. -/
inductive Promised (obs : List (Obs α)) (i : Nat) (term idx : Int) : Prop where
  | answered {args : AppendEntriesArgs α} {sent : SendEntries α}
      (answered : .answered i args .entryMatch ∈ obs) (isTerm : args.term = term)
      (plain : args.snapshot = none) (carried : args.sendEntries = some sent)
      (something : sent.entries ≠ [])
      (reaches : idx < sent.prevLogInfo.index + 1 + sent.entries.length)
  | activated {role : Nat} {log : List (LogEntry α)} (activated : .activated i role term log ∈ obs)
      (reaches : idx < log.length)
  | started {commandIndex logIndex : Int} (started : .started i commandIndex term logIndex ∈ obs)
      (reaches : idx ≤ logIndex)

theorem Promised.mono {obs obs' : List (Obs α)} {term idx : Int}
    (promised : Promised obs i term idx) (grows : obs ⊆ obs') : Promised obs' i term idx := by
  cases promised with
  | answered answered isTerm plain carried something reaches =>
      exact .answered (grows answered) isTerm plain carried something reaches
  | activated activated reaches => exact .activated (grows activated) reaches
  | started started reaches => exact .started (grows started) reaches

/-- Only peers take part in a run. -/
theorem Cluster.server_lt (run : Run (step cfg) allowed init labels s) {obs : Obs α}
    (membership : obs ∈ s.obs) : obs.server < cfg.peers := by
  refine Run.invariant (fun _ s => ∀ obs ∈ s.obs, obs.server < cfg.peers) (by simp [init]) ?_
    run obs
    membership
  intro _ s label s' _ before _ taken obs membership
  obtain ⟨out, isPeer, steps, rfl⟩ := step_steps taken
  rcases List.mem_append.mp membership with isNew | wasThere
  · rw [steps.obs_server obs isNew]
    exact isPeer
  · exact before obs wasThere

theorem Promised.lt_peers (run : Run (Cluster.step cfg) allowed Cluster.init labels s)
    {term idx : Int} (promised : Promised s.obs i term idx) : i < cfg.peers := by
  cases promised with
  | answered membership | activated membership | started membership =>
      exact Cluster.server_lt run membership

/-! ## The range of a confirmation -/

/-- A log request begins at the next index of its replicator. -/
def Replicator.Aligned (repl : Replicator α) : Prop :=
  ∀ call, repl.pc = .round call ∨ repl.pc = .sending call →
    ∀ sent ∈ call.args.sendEntries, sent.prevLogInfo.index + 1 = repl.nextIndex

theorem Replicator.Aligned.of_none {repl : Replicator α} (noCall : repl.pc.call? = none) :
    repl.Aligned := by
  rintro call (isPc | isPc) <;> simp [isPc, ReplPc.call?] at noCall

theorem Receives.aligned {repl repl' : Replicator α} {id : Nat} {reply : AppendEntriesReply}
    {ev : Option (Event α)} (aligned : repl.Aligned)
    (receives : Receives sv repl id reply repl' ev) : repl'.Aligned := by
  cases receives with
  | waited => exact aligned
  | moved noCall => exact .of_none noCall
  | storedProbe | repeatedProbe => rintro call (isPc | isPc) <;> cases isPc
  | @storedLog call sent =>
      rintro _ (isPc | isPc) <;> cases isPc
      exact aligned call (.inr sent)
  | @repeatedLog call sent =>
      rintro _ (isPc | isPc) <;> cases isPc
      exact aligned call (.inr sent)
  | stale | confirmed => exact .of_none rfl

theorem Advances.aligned {repl repl' : Replicator α} (aligned : repl.Aligned)
    (sound : sv.logs.Sound) (advances : Advances me sv repl repl') :
    repl'.Aligned := by
  cases advances with
  | waited => exact aligned
  | moved noCall => exact .of_none noCall
  | builtProbe | calledProbe => rintro call (isPc | isPc) <;> cases isPc
  | builtLog _ payload =>
      rintro _ (isPc | isPc) <;> cases isPc
      intro sent carried
      rcases sound.entriesAfter payload with ⟨-, nothing⟩ | ⟨sent', -, isSent, -, prev, -⟩
      · cases nothing.symm.trans carried
      · cases isSent.symm.trans carried
        exact prev
  | @calledLog call built =>
      rintro _ (isPc | isPc) <;> cases isPc
      exact aligned call (.inl built)

theorem Replicator.Aligned.refresh {repl : Replicator α} (aligned : repl.Aligned) :
    (repl.refresh sv).Aligned := by
  unfold Replicator.refresh
  dsimp only
  split
  case h_1 => rintro call (isPc | isPc) <;> cases isPc
  case h_2 call isSending =>
    rintro _ (isPc | isPc) <;> cases isPc
    exact aligned call (.inr isSending)
  case h_3 => exact aligned

/-- The requests of all replicators begin at their next index in every run. -/
theorem Cluster.aligned (run : Run (step cfg) allowed init labels s) {repl : Replicator α}
    (inside : repl ∈ (s.servers i).repls) : repl.Aligned := by
  refine local_invariant (fun _ sv _ => ∀ repl ∈ sv.repls, repl.Aligned) ?_ ?_ run i repl inside
  · simp [Server.initial]
  · intro _ s i act out earlier before _ steps repl inside
    have set {number : Nat} {old changed : Replicator α}
        (found : (s.servers i).repls[number]? = some old)
        (aligned : old.Aligned → changed.Aligned)
        (inside : repl ∈ (s.servers i).repls.set number changed) : repl.Aligned := by
      rcases List.mem_or_eq_of_mem_set inside with unchanged | rfl
      · exact before repl unchanged
      · exact aligned (before old (List.mem_of_getElem? found))
    cases steps with
    | popped _ _ _ handles =>
        rcases handles.mem_repls inside with earlier | noCall
        · exact before repl earlier
        · exact .of_none noCall
    | executed _ _ executes => exact before repl (executes.repls_eq ▸ inside)
    | applied _ applies => exact before repl (applies.repls_eq ▸ inside)
    | replied _ _ found _ receives | repliedEvent _ _ found _ receives =>
        exact set found (fun aligned => receives.aligned aligned) inside
    | advanced _ found advances =>
        exact set found (fun aligned => advances.aligned aligned (sound earlier i).memory) inside
    | steppedDown _ found => exact set found (fun _ => .of_none rfl) inside
    | refreshed _ found => exact set found (fun aligned => aligned.refresh) inside
    | restarted _ made =>
        obtain ⟨applier, -, -, rfl⟩ := make_eq_some made
        cases inside
    | _ => exact before repl inside

/-- Requests are built for the leadership of their replicator. -/
theorem Cluster.calls_led
    (office : ∀ (s : Cluster α) label, allowed s label → buildsInOffice s label)
    (run : Run (step cfg) allowed init labels s) (i : Nat) :
    Calls (fun repl args => Led s.obs i repl.ld args.term) (s.servers i) := by
  refine (global_invariant
    (fun _ s i sv => Calls (fun repl args => Led s.obs i repl.ld args.term) sv)
    (fun _ _ _ => True) ?_ ?_ ?_ run).1 i
  · simp [Calls, Server.initial]
  · exact fun _ s i _ out _ _ => ⟨fun j sv calls repl inside call isCall =>
      (calls repl inside call isCall).append, fun _ _ => trivial⟩
  · intro _ s i act out earlier before _ _ ok steps
    refine ⟨fun repl inside call isCall => ?_, fun _ _ => trivial⟩
    have onward := (before i).steps (fun _ _ _ led => led) steps ?_ (fun _ _ _ _ _ _ _ led => led)
    · exact (onward repl inside call isCall).append
    · rintro number repl args rfl up found builds
      rw [builds.term_eq]
      exact (led_of_inOffice earlier up (List.mem_of_getElem? found)
        (office s _ ok repl found builds.building)).2

/-- Where the confirmations in the channel of a leader come from. -/
theorem Steps.mem_evCh_confirm {net : List (Msg α)} (steps : Steps cfg me net sv act out)
    {role id : Nat} {startIndex endIndex : Int}
    (membership : .replConfirm role id startIndex endIndex ∈ out.server.evCh) :
    .replConfirm role id startIndex endIndex ∈ sv.evCh ∨
      ∃ repl ∈ sv.repls, ∃ call sent reply, repl.pc = .sending call ∧
        .appendEntriesReply ⟨me, call.id⟩ reply ∈ net ∧ reply.entryStatus = .entryMatch ∧
        call.args.snapshot = none ∧ call.args.sendEntries = some sent ∧ sent.entries ≠ [] ∧
        role = repl.ld ∧ id = repl.peerId ∧ endIndex = repl.nextIndex + sent.entries.length := by
  cases steps with
  | popped _ _ next handles =>
      rw [handles.evCh_eq] at membership
      exact .inl (next ▸ List.mem_cons_of_mem _ membership)
  | executed _ _ executes => cases executes <;> simp_all
  | applied _ applies => cases applies <;> exact .inl membership
  | arrived _ _ arrives => cases arrives <;> simp_all
  | polledEvent _ _ _ _ _ _ _ event => cases event <;> simp_all
  | repliedEvent _ _ found isSent receives =>
      rcases List.mem_append.mp membership with before | isNew
      · exact .inl before
      · cases receives with
        | stale => simp at isNew
        | confirmed sent same _ _ matched plain carried something stopEq =>
            cases List.mem_singleton.mp isNew
            subst same
            exact .inr ⟨_, List.mem_of_getElem? found, _, _, _, sent, isSent, matched, plain,
              carried, something, rfl, rfl, stopEq⟩
  | restarted _ made =>
      obtain ⟨applier, -, -, rfl⟩ := make_eq_some made
      simp at membership
  | _ => simp_all

/-- A confirmation in the channel of a leader names what its peer has promised. -/
theorem Cluster.confirming
    (office : ∀ (s : Cluster α) label, allowed s label → buildsInOffice s label)
    (intact : ∀ (s : Cluster α) label, allowed s label → copiesIntact s label)
    (run : Run (step cfg) allowed init labels s) {i role id : Nat} {startIndex endIndex : Int}
    (membership : .replConfirm role id startIndex endIndex ∈ (s.servers i).evCh) :
    ∃ term, Led s.obs i role term ∧ ∀ idx < endIndex, Promised s.obs id term idx := by
  refine (global_invariant (fun _ s i sv => ∀ role id startIndex endIndex,
      .replConfirm role id startIndex endIndex ∈ sv.evCh →
      ∃ term, Led s.obs i role term ∧ ∀ idx < endIndex, Promised s.obs id term idx)
    (fun _ _ _ => True) ?_ ?_ ?_ run).1 i role id startIndex endIndex membership
  · simp [Server.initial]
  · intro _ s i _ out _ _
    refine ⟨fun j sv before role id startIndex endIndex membership => ?_, fun _ _ => trivial⟩
    obtain ⟨term, led, promised⟩ := before role id startIndex endIndex membership
    exact ⟨term, led.append, fun idx below =>
      (promised idx below).mono (List.subset_append_right ..)⟩
  · intro _ s i act out earlier before _ _ _ steps
    refine ⟨fun role id startIndex endIndex membership => ?_, fun _ _ => trivial⟩
    suffices now : ∃ term, Led s.obs i role term ∧ ∀ idx < endIndex, Promised s.obs id term idx by
      obtain ⟨term, led, promised⟩ := now
      exact ⟨term, led.append, fun idx below =>
        (promised idx below).mono (List.subset_append_right ..)⟩
    rcases steps.mem_evCh_confirm membership with wasThere | ⟨repl, inside, call, sent, reply,
      isSending, isSent, isMatch, plain, carried, something, rfl, rfl, rfl⟩
    · exact before i role id startIndex endIndex wasThere
    · have led := calls_led office earlier i repl inside call (by rw [isSending]; rfl)
      obtain ⟨dst, args, request, answered⟩ := (addressed earlier).2 _ isSent isMatch
      obtain ⟨rfl, term, snapshot, sendEntries⟩ := (callsOk intact earlier i).same repl inside call
        (by simp [Replicator.calling, isSending]) dst args request
      have start := aligned earlier inside call (.inr isSending) sent carried
      refine ⟨call.args.term, led, fun idx below => ?_⟩
      exact .answered answered term (snapshot.trans plain) (sendEntries.trans carried) something
        (by omega)

/-! ## The indices a leader watches -/

/-- What a step does to the counter of a leader. -/
inductive Counts (cfg : Config) (me : Nat) (sv : Server α) (out : Out α) : Prop where
  | kept (same : ∀ rc, out.server.role = .leader rc →
      sv.role = .leader rc ∧ out.server.roleId = sv.roleId)
  | elected {rc' : ReplCounter} (leader : out.server.role = .leader rc')
      (watched : ReplCounter.new.watchIndex cfg.peers me out.server.logs.lli = some rc')
      (obs : .activated me out.server.roleId sv.term out.server.logs.full ∈ out.obs)
  | started {rc rc' : ReplCounter} {commandIndex logIndex : Int} (isUp : sv.up = true)
      (due : .replyStart commandIndex logIndex ∈ sv.todo)
      (wasLeader : sv.role = .leader rc) (leader : out.server.role = .leader rc')
      (watched : rc.watchIndex cfg.peers me logIndex = some rc')
      (roleId : out.server.roleId = sv.roleId)
      (obs : .started me commandIndex sv.term logIndex ∈ out.obs)
  | confirmed {role id : Nat} {startIndex endIndex : Int} {rc rc' : ReplCounter}
      {commit : Option Int} (isUp : sv.up = true)
      (received : .replConfirm role id startIndex endIndex ∈ sv.evCh)
      (wasLeader : sv.role = .leader rc) (leader : out.server.role = .leader rc')
      (result : rc.confirm cfg.majorN id startIndex endIndex = some (rc', commit))
      (roleId : out.server.roleId = sv.roleId)
      (todo : out.server.todo = (commit.map Op.updateCommit).toList)

theorem Steps.counts {net : List (Msg α)} (steps : Steps cfg me net sv act out) :
    Counts cfg me sv out := by
  cases steps with
  | popped up idle next handles =>
      cases handles with
      | confirmed _ leader result =>
          have received := next ▸ List.mem_cons_self
          exact .confirmed up received leader rfl result rfl rfl
      | becameLeader _ _ _ watched => exact .elected rfl watched (.head _)
      | becameFollower | becameCandidate | counted => exact .kept nofun
      | _ => exact .kept fun rc leader => ⟨leader, rfl⟩
  | executed up next executes =>
      cases executes with
      | started leader watched =>
          exact .started up (next ▸ .head _) leader rfl watched rfl (.head _)
      | _ => exact .kept fun rc leader => ⟨leader, rfl⟩
  | applied _ applies => cases applies <;> exact .kept fun rc leader => ⟨leader, rfl⟩
  | polled | polledEvent => exact .kept nofun
  | restarted _ made =>
      obtain ⟨applier, -, -, rfl⟩ := make_eq_some made
      exact .kept nofun
  | _ => exact .kept fun rc leader => ⟨leader, rfl⟩

/-- A leader that is about to answer a `Start` has appended the command as the leader of
its term. -/
theorem Cluster.starting (run : Run (step cfg) allowed init labels s)
    (isUp : (s.servers i).up = true) {commandIndex logIndex : Int}
    (due : .replyStart commandIndex logIndex ∈ (s.servers i).todo) :
    Led s.obs i (s.servers i).roleId (s.servers i).term := by
  rw [← led_history]
  refine local_invariant (fun i sv history => sv.up = true → ∀ commandIndex logIndex,
    .replyStart commandIndex logIndex ∈ sv.todo → Led history i sv.roleId sv.term) ?_ ?_ run i isUp
    commandIndex logIndex due
  · simp [Server.initial]
  · intro _ s i act out earlier before _ steps stays commandIndex logIndex due
    by_cases quiet : Quiet out.obs
    · obtain ⟨up, wasDue, term, roleId, -⟩ := steps.replyStart_mem stays quiet due
      rw [term, roleId]
      exact (before up commandIndex logIndex wasDue).append
    · cases leads earlier steps with
      | kept isQuiet => exact (quiet isQuiet).elim
      | activated _ _ _ _ _ _ todo => simp [todo] at due
      | pushed _ _ led roleId _ _ term =>
          rw [term, roleId]
          exact led.append

/-- The leader of a term has appended the entry at an index itself. -/
def Appended (obs : List (Obs α)) (i : Nat) (term idx : Int) : Prop :=
  0 ≤ idx ∧ (leaderLog i term obs)[idx.toNat]?.map LogEntry.term = some term

/-- The counter of a leader holds indices of entries of its own, with the servers that
have promised them. -/
structure Watching (obs : List (Obs α)) (i role : Nat) (rc : ReplCounter) (term : Int) : Prop where
  led : Led obs i role term
  tallied : ReplCounter.Tallied (fun peer idx => Promised obs peer term idx) rc.entries
  appended : ∀ entry ∈ rc.entries, Appended obs i term entry.index

section

variable {i j role : Nat} {rc rc' : ReplCounter} {term : Int}

theorem Appended.lasts {idx : Int} (appended : Appended s.obs i term idx)
    (activated : Activated s.obs i term)
    (run : Run (Cluster.step cfg) allowed Cluster.init labels s)
    (steps : Steps cfg j s.net (s.servers j) act out) :
    Appended (s.update j out).obs i term idx := by
  obtain ⟨nonneg, found⟩ := appended
  obtain ⟨entry, isEntry, isTerm⟩ := Option.map_eq_some_iff.mp found
  refine ⟨nonneg, ?_⟩
  rw [getElem?_extend (Cluster.leaderLog_grows run steps activated) isEntry, Option.map_some,
    isTerm]

namespace Watching

theorem lasts (watching : Watching s.obs i role rc term)
    (run : Run (Cluster.step cfg) allowed Cluster.init labels s)
    (steps : Steps cfg j s.net (s.servers j) act out) :
    Watching (s.update j out).obs i role rc term where
  led := watching.led.append
  tallied := watching.tallied.mono fun _ _ promised =>
    promised.mono (List.subset_append_right ..)
  appended entry inside := (watching.appended entry inside).lasts ⟨role, watching.led⟩ run steps

/-- The leader watches an index it has appended and saved. -/
theorem watch {obs : List (Obs α)} (watching : Watching obs i role rc term) {idx : Int}
    (watched : rc.watchIndex cfg.peers i idx = some rc') (promised : Promised obs i term idx)
    (appended : Appended obs i term idx) : Watching obs i role rc' term := by
  obtain ⟨tallied, indices⟩ := watching.tallied.watchIndex watched promised
  refine ⟨watching.led, tallied, fun entry inside => ?_⟩
  rcases indices entry inside with earlier | rfl
  · exact watching.appended entry earlier
  · exact appended

/-- A peer confirms indices it has promised. -/
theorem confirm {obs : List (Obs α)} (watching : Watching obs i role rc term) {majorN id : Nat}
    {startIndex endIndex : Int} {commit : Option Int}
    (result : rc.confirm majorN id startIndex endIndex = some (rc', commit))
    (promised : ∀ idx < endIndex, Promised obs id term idx) :
    Watching obs i role rc' term ∧ ∀ idx ∈ commit, Appended obs i term idx ∧
      ∃ members : Finset Nat, majorN ≤ members.card ∧
        ∀ peer ∈ members, Promised obs peer term idx := by
  obtain ⟨tallied, indices, committed⟩ :=
    watching.tallied.confirm result fun idx _ below => promised idx below
  refine ⟨⟨watching.led, tallied, fun entry inside => ?_⟩, fun idx isCommit => ?_⟩
  · obtain ⟨before, wasThere, same⟩ := indices entry inside
    exact same ▸ watching.appended before wasThere
  · obtain ⟨⟨entry, inside, rfl⟩, majority⟩ := committed idx isCommit
    exact ⟨watching.appended entry inside, majority⟩

/-- A leader begins by watching its no-op. -/
theorem elected (run : Run (Cluster.step cfg) allowed Cluster.init labels s)
    (steps : Steps cfg i s.net (s.servers i) act out)
    (watched : ReplCounter.new.watchIndex cfg.peers i out.server.logs.lli = some rc')
    (obs : .activated i out.server.roleId (s.servers i).term out.server.logs.full ∈ out.obs) :
    Watching (s.update i out).obs i out.server.roleId rc' (s.servers i).term := by
  have loud : ¬ Quiet out.obs := fun quiet => quiet.inactive _ _ _ _ obs
  have isLog := (Cluster.leaderLog_of_loud run steps loud).2
  have isActivated := List.mem_append_left s.obs obs
  have sound := (Cluster.sound run i).memory
  cases Cluster.leads run steps with
  | kept quiet => exact (loud quiet).elim
  | pushed _ _ _ _ _ _ _ onlyPushed => simp [onlyPushed] at obs
  | activated _ _ _ _ pushed =>
      have length := (sound.pushEntry pushed).length_eq
      have last : out.server.logs.lli = (s.servers i).logs.lli + 1 := by
        rw [Logs.pushEntry_spec pushed]
      have lengthBefore := sound.length_eq
      have begun : Watching (s.update i out).obs i out.server.roleId .new (s.servers i).term :=
        ⟨⟨_, isActivated⟩, .nil, by simp [ReplCounter.new]⟩
      refine begun.watch watched (.activated isActivated (by omega)) ⟨by omega, ?_⟩
      rw [isLog, Logs.full_pushEntry pushed, getElem?_snoc.mpr (.inr ⟨by omega, rfl⟩)]
      rfl

end Watching

end

/-- A leader watches indices of entries of its own, and counts servers that have promised
them. -/
theorem Cluster.watching
    (office : ∀ (s : Cluster α) label, allowed s label → buildsInOffice s label)
    (intact : ∀ (s : Cluster α) label, allowed s label → copiesIntact s label)
    (run : Run (step cfg) allowed init labels s) {rc : ReplCounter}
    (leader : (s.servers i).role = .leader rc) :
    ∃ term, Watching s.obs i (s.servers i).roleId rc term := by
  refine (global_invariant (fun _ s i sv => ∀ rc, sv.role = .leader rc →
    ∃ term, Watching s.obs i sv.roleId rc term) (fun _ _ _ => True) ?_ ?_ ?_ run).1 i rc leader
  · simp [Server.initial]
  · intro _ s i act out earlier steps
    refine ⟨fun j sv before rc leader => ?_, fun _ _ => trivial⟩
    obtain ⟨term, watching⟩ := before rc leader
    exact ⟨term, watching.lasts earlier steps⟩
  · intro _ s i act out earlier before _ _ _ steps
    refine ⟨fun rc leader => ?_, fun _ _ => trivial⟩
    cases steps.counts with
    | kept same =>
        obtain ⟨wasLeader, roleId⟩ := same rc leader
        obtain ⟨term, watching⟩ := before i rc wasLeader
        exact ⟨term, roleId ▸ watching.lasts earlier steps⟩
    | elected isLeader watched obs =>
        cases leader.symm.trans isLeader
        exact ⟨_, .elected earlier steps watched obs⟩
    | started isUp due wasLeader isLeader watched roleId obs =>
        cases leader.symm.trans isLeader
        obtain ⟨term, watching⟩ := before i _ wasLeader
        cases led_unique earlier watching.led (starting earlier isUp due)
        obtain ⟨activated, entry, nonneg, found, -, isTerm⟩ :=
          ((placed earlier).1 i _ _ isUp due).1
        have own : Appended s.obs i (s.servers i).term _ :=
          ⟨nonneg, by rw [found, Option.map_some, isTerm]⟩
        have promised : Promised (s.update i out).obs i (s.servers i).term _ :=
          .started (List.mem_append_left _ obs) (Int.le_refl _)
        exact ⟨_, roleId ▸ (watching.lasts earlier steps).watch watched promised
          (own.lasts activated earlier steps)⟩
    | confirmed isUp received wasLeader isLeader result roleId =>
        cases leader.symm.trans isLeader
        obtain ⟨term, watching⟩ := before i _ wasLeader
        obtain ⟨term', led, promised⟩ := confirming office intact earlier received
        cases (isolated earlier i isUp).owned _ received _ rfl
        cases led_unique earlier watching.led led
        exact ⟨term, roleId ▸ (watching.confirm result promised).1.lasts earlier steps⟩

/-! ## What a leader commits -/

/-- The leader of a term has appended the last entry of the log itself, and a majority has
promised it the whole log. -/
structure Cluster.Chosen (cfg : Config) (s : Cluster α) (term : Int) (log : List (LogEntry α)) :
    Prop where
  onBranch : s.OnBranch term log
  last : log.getLast?.map LogEntry.term = some term
  majority : ∃ members ⊆ Finset.range cfg.peers, cfg.majorN ≤ members.card ∧
    ∀ peer ∈ members, Promised s.obs peer term (log.length - 1)

theorem Cluster.Chosen.lasts {term : Int} {log : List (LogEntry α)} (chosen : s.Chosen cfg term log)
    (run : Run (step cfg) allowed init labels s) (steps : Steps cfg i s.net (s.servers i) act out) :
    (s.update i out).Chosen cfg term log where
  onBranch := chosen.onBranch.lasts run steps
  last := chosen.last
  majority := by
    obtain ⟨members, peers, enough, promised⟩ := chosen.majority
    exact ⟨members, peers, enough, fun peer member =>
      (promised peer member).mono (List.subset_append_right ..)⟩

/-- The log of a leader is chosen up to the index it is about to commit. -/
theorem Cluster.chosen_of_confirm
    (office : ∀ (s : Cluster α) label, allowed s label → buildsInOffice s label)
    (intact : ∀ (s : Cluster α) label, allowed s label → copiesIntact s label)
    (run : Run (step cfg) allowed init labels s) {i role id : Nat}
    {startIndex endIndex commit : Int} {rc rc' : ReplCounter} (isUp : (s.servers i).up = true)
    (received : .replConfirm role id startIndex endIndex ∈ (s.servers i).evCh)
    (leader : (s.servers i).role = .leader rc)
    (result : rc.confirm cfg.majorN id startIndex endIndex = some (rc', some commit)) :
    ∃ term, s.Chosen cfg term ((s.servers i).logs.full.take (commit + 1).toNat) := by
  obtain ⟨term, watching⟩ := watching office intact run leader
  obtain ⟨term', led, promised⟩ := confirming office intact run received
  cases (isolated run i isUp).owned _ received _ rfl
  cases led_unique run watching.led led
  obtain ⟨⟨nonneg, found⟩, members, enough, held⟩ := (watching.confirm result promised).2 commit rfl
  have isLog := leaderLog_eq run leader led
  rw [isLog] at found
  obtain ⟨entry, isEntry, -⟩ := Option.map_eq_some_iff.mp found
  have inside := (List.getElem?_eq_some_iff.mp isEntry).1
  have length : ((s.servers i).logs.full.take (commit + 1).toNat).length = commit.toNat + 1 := by
    rw [List.length_take]
    omega
  refine ⟨term, ⟨_, ⟨i, ⟨_, led⟩, rfl⟩, ?_⟩, ?_, members, fun peer member => ?_, enough,
    fun peer member => ?_⟩
  · rw [isLog]
    exact List.take_prefix ..
  · rw [List.getLast?_eq_getElem?, length, Nat.add_sub_cancel, List.getElem?_take_of_lt (by omega)]
    exact found
  · exact Finset.mem_range.mpr ((held peer member).lt_peers run)
  · have index : ((commit.toNat + 1 : Nat) : Int) - 1 = commit := by omega
    rw [length, index]
    exact held peer member

end GoLab.Raft
