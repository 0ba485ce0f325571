import GoLab.Raft.Payload

/-!
# The log of a leadership

`leaderLog` reads off the history of a server which entries it held as the leader
of a term: those at its activation and those it has appended since.  It only grows,
and while the server is that leader it is the server's log.  The leaders' logs are
the branches of the tree all logs lie on.
-/

namespace GoLab.Raft

variable {α : Type}

/-- The log of server `me` as the leader of a term. -/
def leaderLog (me : Nat) (term : Int) : List (Obs α) → List (LogEntry α)
  | [] => []
  | .activated i _ t log :: rest => if i = me ∧ t = term then log else leaderLog me term rest
  | .pushed i entry :: rest =>
      if i = me ∧ entry.term = term then leaderLog me term rest ++ [entry]
      else leaderLog me term rest
  | _ :: rest => leaderLog me term rest

theorem Quiet.leaderLog_eq {new : List (Obs α)} (quiet : Quiet new) (me : Nat) (term : Int)
    (obs : List (Obs α)) : leaderLog me term (new ++ obs) = leaderLog me term obs := by
  induction new with
  | nil => rfl
  | cons first rest ih =>
      have restQuiet : Quiet rest :=
        ⟨fun i role t log later => quiet.inactive i role t log (.tail _ later),
          fun i entry later => quiet.unpushed i entry (.tail _ later)⟩
      rw [← ih restQuiet]
      cases first with
      | activated i role t log => exact (quiet.inactive i role t log (.head _)).elim
      | pushed i entry => exact (quiet.unpushed i entry (.head _)).elim
      | _ => rfl

/-- The log of a leadership only depends on the history of the leader. -/
theorem Cluster.leaderLog_history (s : Cluster α) (i : Nat) (term : Int) :
    leaderLog i term (s.history i) = leaderLog i term s.obs := by
  unfold history
  induction s.obs with
  | nil => rfl
  | cons first rest ih =>
      rw [List.filter_cons]
      split
      case isTrue =>
        cases first <;> simp only [leaderLog, ih]
      case isFalse other =>
        have different : first.server ≠ i := by simpa using other
        rw [ih]
        cases first with
        | activated | pushed => exact (if_neg fun same => different same.1).symm
        | _ => rfl

/-! ## What a step does to the log of a leader -/

/-- The log of the leader a server is after a step. -/
inductive Leads (cfg : Config) (me : Nat) (sv : Server α) (history : List (Obs α)) (out : Out α) :
    Prop where
  | kept (quiet : Quiet out.obs)
      (same : ∀ rc, out.server.role = .leader rc → (∃ rc', sv.role = .leader rc') ∧
        out.server.roleId = sv.roleId ∧ out.server.logs.full = sv.logs.full)
  | activated {cd : Candidate} (isUp : sv.up = true) (standing : Standing me sv history cd)
      (votes : cfg.majorN ≤ cd.votes) (roleId : out.server.roleId = sv.nextId)
      (pushed : sv.logs.pushEntry { commandIndex := noopIndex, term := sv.term, content := none } =
        (out.server.logs, noopIndex))
      (saved : out.server.persister.logs.full = out.server.logs.full)
      (todo : out.server.todo = [.setActive])
      (obs : out.obs = [.activated me sv.nextId sv.term out.server.logs.full, .saved me])
  | pushed {command : Option α} {commandIndex : Int} {rc : ReplCounter} (isUp : sv.up = true)
      (leader : sv.role = .leader rc) (led : Led history me sv.roleId sv.term)
      (roleId : out.server.roleId = sv.roleId)
      (pushed : sv.logs.pushEntry { commandIndex := 0, term := sv.term, content := command } =
        (out.server.logs, commandIndex))
      (todo : out.server.todo = [.persistState, .replyStart commandIndex out.server.logs.lli])
      (term : out.server.term = sv.term)
      (obs : out.obs = [.pushed me { commandIndex, term := sv.term, content := command }])

theorem Handles.leads {cfg : Config} {me : Nat} {sv : Server α} {history : List (Obs α)}
    {ev : Event α} {rest : List (Event α)} {out : Out α} (isUp : sv.up = true) (idle : sv.todo = [])
    (roles : Roles cfg me sv history) (isNext : sv.evCh = ev :: rest)
    (handles : Handles cfg me { sv with evCh := rest } ev out) : Leads cfg me sv history out := by
  have quiet : Quiet ([] : List (Obs α)) := ⟨by simp [Inactive], by simp⟩
  have saved : Quiet ([.saved me] : List (Obs α)) := ⟨by simp [Inactive], by simp⟩
  cases handles with
  | installed _ follower | appended _ follower =>
      refine .kept (quiet_raiseObs _ _ _) fun rc isLeader => ?_
      simp only [Server.raiseTo_role] at isLeader follower
      rw [follower] at isLeader
      cases isLeader
  | candidateHold | staleCandidate =>
      exact .kept (quiet_raiseObs _ _ _) fun rc isLeader => ⟨⟨rc, isLeader⟩, rfl, rfl⟩
  | voteGiven =>
      exact .kept ⟨by simp [Inactive], by simp⟩ fun rc isLeader => ⟨⟨rc, isLeader⟩, rfl, rfl⟩
  | voteDenied | candidateVote =>
      exact .kept saved fun rc isLeader => ⟨⟨rc, isLeader⟩, rfl, rfl⟩
  | started running leader pushed =>
      have led := roles.leader _ leader (.inl running) (by simp [Server.steady, idle])
      exact .pushed isUp leader led rfl pushed rfl rfl rfl
  | confirmed _ leader => exact .kept quiet fun _ _ => ⟨⟨_, leader⟩, rfl, rfl⟩
  | counted => exact .kept quiet (by simp)
  | becameFollower => exact .kept quiet (by simp)
  | becameCandidate => exact .kept ⟨by simp [Inactive], by simp⟩ (by simp)
  | becameLeader trans pushed =>
      obtain ⟨rfl, rfl, cd, standing, votes⟩ := roles.elects isNext trans
      have noop := Logs.pushEntry_index pushed
      rw [if_pos rfl] at noop
      subst noop
      refine .activated isUp standing votes rfl pushed ?_ rfl rfl
      exact Server.full_restore ..
  | snapshotTaken _ taken =>
      exact .kept saved fun rc isLeader => ⟨⟨rc, isLeader⟩, rfl, Logs.full_takeSnapshot taken⟩
  | _ => exact .kept quiet fun rc isLeader => ⟨⟨rc, isLeader⟩, rfl, rfl⟩

/-- What a step of a cluster does to the log of a leader. -/
theorem Cluster.leads {cfg : Config} {allowed : Cluster α → Label α → Prop}
    {labels : List (Label α)} {s : Cluster α} (run : Run (step cfg) allowed init labels s)
    {i : Nat} {act : Act α} {out : Out α} (steps : Steps cfg i s.net (s.servers i) act out) :
    Leads cfg i (s.servers i) (s.history i) out := by
  have quiet : Quiet ([] : List (Obs α)) := ⟨by simp [Inactive], by simp⟩
  cases steps with
  | popped up idle next handles => exact handles.leads up idle (roles run i up) next
  | executed _ _ executes =>
      have inactive := executes.inactive
      cases executes with
      | committed result =>
          exact .kept ⟨inactive, by simp⟩ fun rc isLeader =>
            ⟨⟨rc, isLeader⟩, rfl, Logs.full_updateCommit result⟩
      | voteAnswered =>
          refine .kept ⟨inactive, ?_⟩ fun rc isLeader => ⟨⟨rc, isLeader⟩, rfl, rfl⟩
          dsimp only
          split <;> simp
      | started leader => exact .kept ⟨inactive, by simp⟩ fun _ _ => ⟨⟨_, leader⟩, rfl, rfl⟩
      | _ => exact .kept ⟨inactive, by simp⟩ fun rc isLeader => ⟨⟨rc, isLeader⟩, rfl, rfl⟩
  | applied _ applies =>
      have inactive := applies.inactive
      cases applies <;>
        exact .kept ⟨inactive, by simp⟩ fun rc isLeader => ⟨⟨rc, isLeader⟩, rfl, rfl⟩
  | polled | polledEvent => exact .kept quiet (by simp)
  | restarted _ made =>
      obtain ⟨applier, -, -, rfl⟩ := make_eq_some made
      exact .kept ⟨by simp [Inactive], by simp⟩ (by simp)
  | _ => exact .kept quiet fun rc isLeader => ⟨⟨rc, isLeader⟩, rfl, rfl⟩

/-- The log of the leader a server is, is the log of that leadership. -/
theorem Cluster.leaderLog_eq {cfg : Config} {allowed : Cluster α → Label α → Prop}
    {labels : List (Label α)} {s : Cluster α} (run : Run (step cfg) allowed init labels s)
    {i : Nat} {rc : ReplCounter} (leader : (s.servers i).role = .leader rc) {term : Int}
    (led : Led s.obs i (s.servers i).roleId term) :
    leaderLog i term s.obs = (s.servers i).logs.full := by
  rw [← leaderLog_history]
  rw [← led_history] at led
  refine local_invariant (fun i sv history => ∀ rc term, sv.role = .leader rc →
    Led history i sv.roleId term → leaderLog i term history = sv.logs.full) ?_ ?_ run i rc term
    leader led
  · exact fun _ => nofun
  · intro _ s i act out earlier before _ steps rc term leader led
    have unique := leaderships earlier i
    cases leads earlier steps with
    | kept quiet same =>
        obtain ⟨⟨rc', wasLeader⟩, roleId, full⟩ := same rc leader
        rw [quiet.inactive.led_iff, roleId] at led
        rw [quiet.leaderLog_eq, full, before rc' term wasLeader led]
    | activated _ _ _ roleId _ _ _ obs =>
        rw [obs, roleId] at led
        rcases led with ⟨log, membership⟩
        simp only [List.cons_append, List.nil_append, List.mem_cons, Obs.activated.injEq, true_and,
          reduceCtorEq, false_or] at membership
        rcases membership with ⟨rfl, -⟩ | earlierLed
        · simp [obs, leaderLog]
        · exact (Nat.lt_irrefl _ (unique.fresh _ _ ⟨log, earlierLed⟩)).elim
    | pushed _ wasLeader now roleId pushed _ _ obs =>
        have inactive : Inactive out.obs := by simp [obs, Inactive]
        rw [inactive.led_iff, roleId] at led
        cases unique.term _ _ _ now led
        rw [Logs.full_pushEntry pushed, ← before _ _ wasLeader led, obs]
        simp [leaderLog]

/-! ## The tree of logs -/

/-- The log of a leadership of the term. -/
def Cluster.branch (s : Cluster α) (term : Int) (log : List (LogEntry α)) : Prop :=
  ∃ i, Activated s.obs i term ∧ leaderLog i term s.obs = log

/-- No two servers have been activated as the leader of a term. -/
def Cluster.OneLeader (s : Cluster α) : Prop :=
  ∀ i j term, Activated s.obs i term → Activated s.obs j term → i = j

def Obs.leadership : Obs α → Option (Nat × Int)
  | .activated i _ term _ => some (i, term)
  | _ => none

theorem mem_leaderships {history : List (Obs α)} {i : Nat} {term : Int} :
    (i, term) ∈ history.filterMap Obs.leadership ↔ Activated history i term := by
  simp only [List.mem_filterMap, Activated, Led]
  constructor
  · rintro ⟨obs, membership, isLeadership⟩
    cases obs with
    | activated j role t log =>
        cases isLeadership
        exact ⟨role, log, membership⟩
    | _ => cases isLeadership
  · rintro ⟨role, log, membership⟩
    exact ⟨_, membership, rfl⟩

theorem Cluster.oneLeader_iff {s : Cluster α} : s.OneLeader ↔
    ∀ a ∈ s.obs.filterMap Obs.leadership, ∀ b ∈ s.obs.filterMap Obs.leadership,
      a.2 = b.2 → a.1 = b.1 := by
  constructor
  · rintro one ⟨i, term⟩ first ⟨j, term'⟩ second rfl
    exact one i j term (mem_leaderships.mp first) (mem_leaderships.mp second)
  · intro one i j term first second
    exact one _ (mem_leaderships.mpr first) _ (mem_leaderships.mpr second) rfl

instance (s : Cluster α) : Decidable s.OneLeader :=
  decidable_of_iff' _ Cluster.oneLeader_iff

theorem Activated.append {new history : List (Obs α)} {me : Nat} {term : Int}
    (activated : Activated history me term) : Activated (new ++ history) me term := by
  obtain ⟨role, led⟩ := activated
  exact ⟨role, led.append⟩

namespace Cluster

variable {cfg : Config} {allowed : Cluster α → Label α → Prop} {labels : List (Label α)}
  {s : Cluster α} {i : Nat} {act : Act α} {out : Out α}

theorem OneLeader.uniqueBranch (one : s.OneLeader) : UniqueBranch s.branch := by
  rintro term _ _ ⟨i, activated, rfl⟩ ⟨j, activated', rfl⟩
  rw [one i j term activated activated']

theorem OneLeader.earlier (one : (s.update i out).OneLeader) : s.OneLeader :=
  fun j k term activated activated' => one j k term activated.append activated'.append

section

variable (run : Run (step cfg) allowed init labels s)
  (steps : Steps cfg i s.net (s.servers i) act out)
include run steps

/-- A log of a leadership only grows. -/
theorem leaderLog_grows {j : Nat} {term : Int} (activated : Activated s.obs j term) :
    leaderLog j term s.obs <+: leaderLog j term (s.update i out).obs := by
  unfold update
  cases leads run steps with
  | kept quiet =>
      simp only [quiet.leaderLog_eq, List.prefix_rfl]
  | activated _ standing _ _ _ _ _ obs =>
      have different : ¬ (i = j ∧ (s.servers i).term = term) := by
        rintro ⟨rfl, rfl⟩
        obtain ⟨role, led⟩ := activated
        exact standing.fresh ⟨role, led_history.mpr led⟩
      simp [obs, leaderLog, different]
  | pushed _ _ _ _ _ _ _ obs =>
      simp only [obs, List.cons_append, List.nil_append, leaderLog]
      split
      case isTrue => exact List.prefix_append ..
      case isFalse => exact List.prefix_rfl

theorem branch_grows {term : Int} {log : List (LogEntry α)} (isBranch : s.branch term log) :
    ∃ longer, (s.update i out).branch term longer ∧ log <+: longer := by
  obtain ⟨j, activated, rfl⟩ := isBranch
  exact ⟨_, ⟨j, activated.append, rfl⟩, leaderLog_grows run steps activated⟩

/-- A leader that appends an entry has the log of its leadership. -/
theorem leaderLog_of_loud (loud : ¬ Quiet out.obs) :
    Activated (s.update i out).obs i (s.servers i).term ∧
      leaderLog i (s.servers i).term (s.update i out).obs = out.server.logs.full := by
  cases leads run steps with
  | kept quiet => exact (loud quiet).elim
  | activated _ _ _ _ _ _ _ obs =>
      exact ⟨⟨_, _, by simp only [update, obs]; exact .head _⟩, by simp [update, obs, leaderLog]⟩
  | pushed _ leader led _ pushed _ _ obs =>
      rw [led_history] at led
      refine ⟨⟨_, led.append⟩, ?_⟩
      rw [Logs.full_pushEntry pushed, ← leaderLog_eq run leader led]
      simp [update, obs, leaderLog]

/-- The log of a leadership stays, or gets its next entry from the log of the leader. -/
theorem leaderLog_step {j : Nat} {term : Int} (activated : Activated (s.update i out).obs j term) :
    (Activated s.obs j term ∧ leaderLog j term (s.update i out).obs = leaderLog j term s.obs) ∨
      j = i ∧ term = (s.servers i).term ∧ ¬ Quiet out.obs := by
  by_cases quiet : Quiet out.obs
  · exact .inl ⟨quiet.inactive.activated_iff.mp activated, quiet.leaderLog_eq ..⟩
  by_cases own : j = i ∧ term = (s.servers i).term
  · exact .inr ⟨own.1, own.2, quiet⟩
  have other : ¬ (i = j ∧ (s.servers i).term = term) := fun ⟨same, sameTerm⟩ =>
    own ⟨same.symm, sameTerm.symm⟩
  refine .inl ?_
  unfold update at activated ⊢
  cases leads run steps with
  | kept isQuiet => exact (quiet isQuiet).elim
  | activated _ _ _ _ _ _ _ obs =>
      rw [obs] at activated ⊢
      obtain ⟨role, log, membership⟩ := activated
      refine ⟨⟨role, log, ?_⟩, by simp [leaderLog, other]⟩
      simp only [List.cons_append, List.nil_append, List.mem_cons, reduceCtorEq, false_or,
        Obs.activated.injEq] at membership
      exact membership.resolve_left fun ⟨same, _, sameTerm, _⟩ => own ⟨same, sameTerm⟩
  | pushed _ _ _ _ _ _ _ obs =>
      have inactive : Inactive out.obs := by simp [obs, Inactive]
      refine ⟨inactive.activated_iff.mp activated, ?_⟩
      simp [obs, leaderLog, other]

end

end Cluster

end GoLab.Raft
