import GoLab.Raft.Isolation

/-!
# Roles and terms

A server leads in the term in which it activated its leader role, from the
activation to the handler that raises the term and stops the role.  It stands for
election in the term of its own request for votes.  Identities of roles are used
once, so a replicator that finds its leader role present belongs to the present
leadership.
-/

namespace GoLab.Raft

variable {α : Type}
variable {cfg : Config} {me : Nat} {allowed : Cluster α → Label α → Prop} {labels : List (Label α)}
  {s : Cluster α} {sv : Server α} {out : Out α} {ev : Event α} {term : Int} {op : Op α}
  {rest : List (Event α)}

/-- The handler the processor is in does not stop the role any more. -/
def Server.steady (sv : Server α) : Bool :=
  sv.todo.all fun
    | .transRole _ => false
    | _ => true

theorem Server.steady_iff :
    sv.steady = true ↔ ∀ transFunc, .transRole transFunc ∉ sv.todo := by
  unfold steady
  rw [List.all_eq_true]
  constructor
  · intro quiet transFunc membership
    cases quiet _ membership
  · intro quiet op membership
    split
    case h_1 transFunc => exact (quiet transFunc membership).elim
    case h_2 => rfl

/-- The role is about to be replaced by the one `transFunc` gives. -/
def Server.Leaves (sv : Server α) (transFunc : TransFunc) : Prop :=
  .transRole transFunc ∈ sv.todo ∨ .trans (some transFunc) ∈ sv.evCh

/-- The server has activated the leader role `role` in a term. -/
def Led (history : List (Obs α)) (me role : Nat) (term : Int) : Prop :=
  ∃ log, .activated me role term log ∈ history

/-- The server has activated a leader role in a term. -/
def Activated (history : List (Obs α)) (me : Nat) (term : Int) : Prop :=
  ∃ role, Led history me role term

/-- Whether an activation in a term is recorded. -/
def Obs.activates (me : Nat) (term : Int) : Obs α → Bool
  | .activated i _ t _ => i == me && t == term
  | _ => false

theorem activated_iff_any {history : List (Obs α)} :
    Activated history me term ↔ history.any (Obs.activates me term) = true := by
  simp only [Activated, Led, List.any_eq_true]
  constructor
  · rintro ⟨role, log, membership⟩
    exact ⟨_, membership, by simp [Obs.activates]⟩
  · rintro ⟨obs, membership, activates⟩
    cases obs with
    | activated i role t log =>
        simp only [Obs.activates, Bool.and_eq_true, beq_iff_eq] at activates
        obtain ⟨rfl, rfl⟩ := activates
        exact ⟨role, log, membership⟩
    | _ => cases activates

instance (history : List (Obs α)) (me : Nat) (term : Int) : Decidable (Activated history me term) :=
  decidable_of_iff' _ activated_iff_any

/-- Terms never go back, and the one of a leadership is on disk. -/
structure Terms (me : Nat) (sv : Server α) (history : List (Obs α)) : Prop where
  activated : ∀ term, Activated history me term → term ≤ sv.persister.term
  disk : sv.persister.term ≤ sv.term

/-- A server in its election: its term is the one it asks votes for, and it has
not led in it. -/
structure Standing (me : Nat) (sv : Server α) (history : List (Obs α)) (cd : Candidate) :
    Prop where
  role : sv.role = .candidate cd
  term : sv.term = cd.args.term
  fresh : ¬ Activated history me sv.term

/-- The roles of a server that runs. -/
structure Roles (cfg : Config) (me : Nat) (sv : Server α) (history : List (Obs α)) : Prop where
  roleFresh : sv.roleId < sv.nextId
  replFresh : ∀ repl ∈ sv.repls, repl.ld < sv.nextId
  starting : .trans none ∈ sv.evCh → sv.role = .follower
  entering : .setActive ∈ sv.todo → ∃ rc, sv.role = .leader rc
  present : ∀ repl ∈ sv.repls, repl.ld = sv.roleId → ∃ rc, sv.role = .leader rc
  candidate : ∀ cd, sv.role = .candidate cd → sv.active = true → sv.steady = true →
    Standing me sv history cd
  elected : sv.Leaves .leaderFromCandidate →
    ∃ cd, Standing me sv history cd ∧ cfg.majorN ≤ cd.votes
  leader : ∀ rc, sv.role = .leader rc → sv.active = true ∨ .setActive ∈ sv.todo →
    sv.steady = true → Led history me sv.roleId sv.term

/-- A step that activates nothing. -/
def Inactive (obs : List (Obs α)) : Prop :=
  ∀ server role term log, .activated server role term log ∉ obs

theorem Inactive.led_iff {new history : List (Obs α)} {me role : Nat} (inactive : Inactive new) :
    Led (new ++ history) me role term ↔ Led history me role term := by
  simp [Led, inactive me role term]

theorem Inactive.activated_iff {new history : List (Obs α)} (inactive : Inactive new) :
    Activated (new ++ history) me term ↔ Activated history me term := by
  simp [Activated, inactive.led_iff]

theorem inactive_raiseObs (me : Nat) (sv : Server α) (term : Int) :
    Inactive (sv.raiseObs me term) := by
  simp [Inactive]

theorem Executes.inactive (executes : Executes cfg me sv op out) : Inactive out.obs := by
  cases executes with
  | _ => simp [Inactive]

theorem Applies.inactive (applies : Applies me sv out) :
    Inactive out.obs := by
  cases applies <;> simp [Inactive]

/-! ## Terms -/

namespace Terms

variable {sv sv' : Server α} {history new : List (Obs α)}

theorem step (ok : Terms me sv history) (inactive : Inactive new)
    (disk : sv.persister.term ≤ sv'.persister.term) (term : sv'.persister.term ≤ sv'.term) :
    Terms me sv' (new ++ history) where
  activated term activated := by
    rw [inactive.activated_iff] at activated
    exact Int.le_trans (ok.activated term activated) disk
  disk := term

theorem raiseTo (ok : Terms me sv history) (term : Int) :
    sv.persister.term ≤ (sv.raiseTo term).persister.term ∧
      (sv.raiseTo term).persister.term ≤ (sv.raiseTo term).term := by
  have disk := ok.disk
  unfold Server.raiseTo
  dsimp only
  split
  case isTrue larger =>
    refine ⟨?_, Int.le_refl _⟩
    change sv.persister.term ≤ term
    omega
  case isFalse => exact ⟨Int.le_refl _, disk⟩

theorem handles (ok : Terms me sv history) (handles : Handles cfg me sv ev out) :
    Terms me out.server (out.obs ++ history) := by
  have disk := ok.disk
  cases handles with
  | installed | appended | candidateHold | staleCandidate =>
      exact ok.step (inactive_raiseObs _ _ _) (ok.raiseTo _).1 (ok.raiseTo _).2
  | voteGiven | voteDenied | candidateVote =>
      exact ok.step (by simp [Inactive]) (ok.raiseTo _).1 (ok.raiseTo _).2
  | leaderVote _ _ larger | leaderHold _ _ larger | staleLeader _ _ larger =>
      exact ok.step (by simp [Inactive]) (Int.le_refl _) (by dsimp only; omega)
  | becameCandidate =>
      exact ok.step (by simp [Inactive]) (Int.le_refl _) (by dsimp only; omega)
  | snapshotTaken => exact ok.step (by simp [Inactive]) disk (Int.le_refl _)
  | becameLeader =>
      refine ⟨?_, Int.le_refl _⟩
      rintro term ⟨role, log, membership⟩
      change term ≤ sv.term
      simp only [List.mem_append, List.mem_cons, Obs.activated.injEq, reduceCtorEq,
        List.not_mem_nil, or_false] at membership
      rcases membership with ⟨-, -, rfl, -⟩ | earlier
      · exact Int.le_refl _
      · exact Int.le_trans (ok.activated term ⟨role, log, earlier⟩) disk
  | _ => exact ok.step (by simp [Inactive]) (Int.le_refl _) disk

theorem executes {rest : List (Op α)} (ok : Terms me sv history)
    (executes : Executes cfg me { sv with todo := rest } op out) :
    Terms me out.server (out.obs ++ history) := by
  have inactive := executes.inactive
  cases executes with
  | persistState | persist => exact ok.step inactive ok.disk (Int.le_refl _)
  | _ => exact ok.step inactive (Int.le_refl _) ok.disk

end Terms

/-- Terms never go back in any run. -/
theorem Cluster.terms (run : Run (step cfg) allowed init labels s) (i : Nat) :
    Terms i (s.servers i) (s.history i) := by
  refine local_invariant Terms ?_ ?_ run i
  · exact fun _ => ⟨by simp [Activated, Led], Int.le_refl _⟩
  · intro _ s i act out _ ok _ steps
    cases steps with
    | popped _ _ _ handles =>
        refine Terms.handles ?_ handles
        exact ⟨ok.activated, ok.disk⟩
    | executed _ _ executes => exact ok.executes executes
    | applied _ applies =>
        have inactive := applies.inactive
        cases applies with
        | snapshotApplied => exact ok.step inactive ok.disk (Int.le_refl _)
        | _ => exact ok.step inactive (Int.le_refl _) ok.disk
    | restarted _ made =>
        obtain ⟨applier, -, -, rfl⟩ := make_eq_some made
        exact ok.step (by simp [Inactive]) (Int.le_refl _) (Int.le_refl _)
    | _ => exact ok.step (by simp [Inactive]) (Int.le_refl _) ok.disk

/-! ## Roles -/

/-- The role stays, up to what it counts. -/
inductive Role.Keeps : Role → Role → Prop where
  | follower : Keeps .follower .follower
  | candidate {cd cd' : Candidate} (args : cd'.args = cd.args) (votes : cd.votes ≤ cd'.votes) :
      Keeps (.candidate cd) (.candidate cd')
  | leader {rc rc' : ReplCounter} : Keeps (.leader rc) (.leader rc')

namespace Role.Keeps

variable {role role' : Role}

theorem of_eq (same : role' = role) : role.Keeps role' := by
  rw [same]
  cases role with
  | follower => exact .follower
  | candidate cd => exact .candidate rfl (Nat.le_refl _)
  | leader rc => exact .leader

theorem candidate_inv {cd' : Candidate} (keeps : role.Keeps role')
    (isCandidate : role' = .candidate cd') :
    ∃ cd, role = .candidate cd ∧ cd'.args = cd.args ∧ cd.votes ≤ cd'.votes := by
  cases keeps with
  | candidate args votes =>
      cases isCandidate
      exact ⟨_, rfl, args, votes⟩
  | follower | leader => cases isCandidate

theorem candidate_next {cd : Candidate} (keeps : role.Keeps role')
    (wasCandidate : role = .candidate cd) :
    ∃ cd', role' = .candidate cd' ∧ cd'.args = cd.args ∧ cd.votes ≤ cd'.votes := by
  cases keeps with
  | candidate args votes =>
      cases wasCandidate
      exact ⟨_, rfl, args, votes⟩
  | follower | leader => cases wasCandidate

theorem leader_iff (keeps : role.Keeps role') :
    (∃ rc, role' = .leader rc) ↔ ∃ rc, role = .leader rc := by
  cases keeps <;> simp

theorem follower_iff (keeps : role.Keeps role') : role' = .follower ↔ role = .follower := by
  cases keeps <;> simp

end Role.Keeps

namespace Roles

variable {sv sv' : Server α} {history new : List (Obs α)}

theorem standing_of_keeps {cd cd' : Candidate} (ok : Standing me sv history cd)
    (inactive : Inactive new) (role : sv'.role = .candidate cd') (args : cd'.args = cd.args)
    (term : sv'.term = sv.term) : Standing me sv' (new ++ history) cd' where
  role := role
  term := by rw [term, args, ok.term]
  fresh := by
    rw [inactive.activated_iff, term]
    exact ok.fresh

section

variable (ok : Roles cfg me sv history)
include ok

/-- A step that keeps the role and the term. -/
theorem frame (inactive : Inactive new) (role : sv.role.Keeps sv'.role)
    (roleId : sv'.roleId = sv.roleId) (nextId : sv.nextId ≤ sv'.nextId)
    (repls : ∀ repl ∈ sv'.repls, ∃ earlier ∈ sv.repls, repl.ld = earlier.ld)
    (term : sv'.term = sv.term)
    (active : sv'.active = true → sv'.steady = true → sv.active = true ∧ sv.steady = true)
    (due : .setActive ∈ sv'.todo → .setActive ∈ sv.todo ∧ (sv'.steady = true → sv.steady = true))
    (starting : .trans none ∈ sv'.evCh → .trans none ∈ sv.evCh)
    (leaves : sv'.Leaves .leaderFromCandidate → sv.Leaves .leaderFromCandidate) :
    Roles cfg me sv' (new ++ history) where
  roleFresh := by
    have fresh := ok.roleFresh
    omega
  replFresh := by
    intro repl membership
    obtain ⟨earlier, wasThere, ld⟩ := repls repl membership
    have fresh := ok.replFresh earlier wasThere
    omega
  starting next := role.follower_iff.mpr (ok.starting (starting next))
  entering isDue := role.leader_iff.mpr (ok.entering (due isDue).1)
  present := by
    intro repl membership isPresent
    obtain ⟨earlier, wasThere, ld⟩ := repls repl membership
    exact role.leader_iff.mpr (ok.present earlier wasThere (ld ▸ isPresent.trans roleId))
  candidate := by
    intro cd isCandidate isActive isSteady
    obtain ⟨wasActive, wasSteady⟩ := active isActive isSteady
    obtain ⟨before, wasCandidate, args, -⟩ := role.candidate_inv isCandidate
    exact standing_of_keeps (ok.candidate before wasCandidate wasActive wasSteady) inactive
      isCandidate args term
  elected := by
    intro isLeaving
    obtain ⟨cd, standing, votes⟩ := ok.elected (leaves isLeaving)
    obtain ⟨cd', isCandidate, args, more⟩ := role.candidate_next standing.role
    exact ⟨cd', standing_of_keeps standing inactive isCandidate args term, by omega⟩
  leader := by
    intro rc isLeader isActive isSteady
    obtain ⟨rc₀, wasLeader⟩ := role.leader_iff.mp ⟨rc, isLeader⟩
    rw [inactive.led_iff, term, roleId]
    rcases isActive with isActive | isDue
    · obtain ⟨wasActive, wasSteady⟩ := active isActive isSteady
      exact ok.leader rc₀ wasLeader (.inl wasActive) wasSteady
    · obtain ⟨wasDue, steady⟩ := due isDue
      exact ok.leader rc₀ wasLeader (.inr wasDue) (steady isSteady)

/-- A handler is started by which a candidate or a leader goes back to follower. -/
theorem stop (role : sv'.role = sv.role) (roleId : sv'.roleId = sv.roleId)
    (nextId : sv'.nextId = sv.nextId) (repls : sv'.repls = sv.repls)
    (stopping : sv'.role = .follower ∨ sv'.steady = false) (notDue : .setActive ∉ sv'.todo)
    (starting : .trans none ∈ sv'.evCh → .trans none ∈ sv.evCh)
    (notElected : ¬ sv'.Leaves .leaderFromCandidate) : Roles cfg me sv' new where
  roleFresh := by rw [roleId, nextId]; exact ok.roleFresh
  replFresh := by rw [repls, nextId]; exact ok.replFresh
  starting next := role.trans (ok.starting (starting next))
  entering isDue := (notDue isDue).elim
  present := by rw [repls, roleId, role]; exact ok.present
  candidate := by
    intro cd isCandidate _ isSteady
    rcases stopping with isFollower | notSteady
    · simp [isCandidate] at isFollower
    · simp [isSteady] at notSteady
  elected isElected := (notElected isElected).elim
  leader := by
    intro rc isLeader _ isSteady
    rcases stopping with isFollower | notSteady
    · simp [isLeader] at isFollower
    · simp [isSteady] at notSteady

/-- A new role is put in place. -/
theorem enter {transFunc : Option TransFunc} {role : Role} {roleId nextId : Nat}
    (isNext : sv.evCh = .trans transFunc :: rest)
    (trans : Transformed { sv with evCh := rest } transFunc role roleId nextId)
    (notFollower : role ≠ .follower) :
    roleId = sv.nextId ∧ nextId = sv.nextId + 1 ∧
      ∃ changed, transFunc = some changed ∧ changed.apply sv.role = some role := by
  cases trans with
  | same unchanged =>
      exact (notFollower (unchanged.symm.trans (ok.starting (by simp [isNext])))).elim
  | new cast => exact ⟨rfl, rfl, _, rfl, cast⟩

/-- A follower is put in place. -/
theorem enterFollower (idle : sv.todo = []) :
    Roles cfg me { sv with
      role := .follower, roleId := sv.nextId, nextId := sv.nextId + 1, active := true, evCh := [] }
      new where
  roleFresh := Nat.lt_succ_self _
  replFresh repl membership := Nat.lt_succ_of_lt (ok.replFresh repl membership)
  starting := by simp
  entering := by simp [idle]
  present repl membership isPresent :=
    (Nat.ne_of_lt (ok.replFresh repl membership) isPresent).elim
  candidate := nofun
  elected := by simp [Server.Leaves, idle]
  leader := nofun

/-- A handler is started that keeps the role and the term. -/
theorem next (idle : sv.todo = []) (isNext : sv.evCh = ev :: rest) (inactive : Inactive new)
    (role : sv.role.Keeps sv'.role) (evCh : sv'.evCh = rest) (active : sv'.active = sv.active)
    (roleId : sv'.roleId = sv.roleId) (nextId : sv'.nextId = sv.nextId)
    (repls : sv'.repls = sv.repls) (term : sv'.term = sv.term) (notDue : .setActive ∉ sv'.todo)
    (notElected : .transRole .leaderFromCandidate ∉ sv'.todo) :
    Roles cfg me sv' (new ++ history) := by
  have later {ev' : Event α} (membership : ev' ∈ sv'.evCh) : ev' ∈ sv.evCh := by
    rw [isNext, ← evCh]
    exact .tail _ membership
  refine ok.frame inactive role roleId (by omega) ?_ term ?_ ?_ later ?_
  · rw [repls]
    exact fun repl membership => ⟨repl, membership, rfl⟩
  · exact fun isActive _ => ⟨active ▸ isActive, by simp [Server.steady, idle]⟩
  · exact fun isDue => (notDue isDue).elim
  · exact fun leaves => .inr (later (leaves.resolve_left notElected))

theorem handles (terms : Terms me sv history) (isolated : Isolated sv) (idle : sv.todo = [])
    (isNext : sv.evCh = ev :: rest) (handles : Handles cfg me { sv with evCh := rest } ev out) :
    Roles cfg me out.server (out.obs ++ history) := by
  have noTrans (running : sv.active = true) (transFunc : Option TransFunc) :
      .trans transFunc ∉ rest := by
    intro membership
    exact (isolated.running running).1 transFunc (by rw [isNext]; exact .tail _ membership)
  cases handles with
  | ignored =>
      exact ok.next idle isNext (by simp [Inactive]) (.of_eq rfl) rfl rfl rfl rfl rfl rfl
        (by simp [idle]) (by simp [idle])
  | appendAnswered | voteRefused | voteRepeated | heartBeat | electionOver | snapshotTaken
  | snapshotRefused | started =>
      exact ok.next idle isNext (by simp [Inactive]) (.of_eq rfl) rfl rfl rfl rfl rfl rfl
        (by simp) (by simp)
  | confirmed _ leader =>
      exact ok.next idle isNext (by simp [Inactive]) (leader ▸ .leader) rfl rfl rfl rfl rfl rfl
        (by simp) (by simp)
  | installed running follower | voteGiven running follower | voteDenied running follower =>
      exact ok.stop rfl rfl rfl rfl (.inl follower) (by simp)
        (fun late => (noTrans running _ late).elim)
        (by simp [Server.Leaves, noTrans running])
  | appended running follower =>
      refine ok.stop rfl rfl rfl rfl (.inl follower) ?_
        (fun late => (noTrans running _ late).elim) ?_
      · simp only [List.mem_append, List.mem_singleton, reduceCtorEq, or_false]
        split <;> split <;> simp
      · simp only [Server.Leaves, List.mem_append, List.mem_singleton, reduceCtorEq, or_false,
          Server.raiseTo_evCh, noTrans running]
        split <;> split <;> simp
  | candidateVote running | leaderVote running | candidateHold running | leaderHold running
  | staleCandidate running | staleLeader running =>
      exact ok.stop rfl rfl rfl rfl (.inr rfl) (by simp) (fun late => (noTrans running _ late).elim)
        (by simp [Server.Leaves, noTrans running])
  | @counted _ _ _ cd cd' running candidate _ _ counted =>
      have keeps : (Role.candidate cd).Keeps (.candidate cd') := by
        rw [counted]
        exact .candidate rfl (Nat.le_succ _)
      by_cases enough : cd'.votes ≥ cfg.majorN
      · have standing := ok.candidate cd candidate running (by simp [Server.steady, idle])
        simp only [enough, if_true]
        exact {
          roleFresh := ok.roleFresh
          replFresh := ok.replFresh
          starting := fun late => (noTrans running _ late).elim
          entering := by simp
          present := by
            intro repl membership isPresent
            obtain ⟨rc, isLeader⟩ := ok.present repl membership isPresent
            cases candidate.symm.trans isLeader
          candidate := nofun
          elected := fun _ =>
            ⟨cd', standing_of_keeps standing (by simp [Inactive]) rfl (by rw [counted]) rfl, enough⟩
          leader := nofun }
      · simp only [enough, if_false]
        exact ok.next idle isNext (by simp [Inactive]) (candidate ▸ keeps) rfl rfl rfl rfl rfl rfl
          (by simp) (by simp)
  | becameFollower trans =>
      obtain ⟨-, rfl⟩ := isolated.trans_last isNext
      cases trans with
      | same unchanged =>
          exact ok.stop unchanged.symm rfl rfl rfl (.inl rfl) (by simp [idle]) (by simp)
            (by simp [Server.Leaves, idle])
      | new => exact ok.enterFollower idle
  | becameCandidate trans _ asked =>
      obtain ⟨-, rfl⟩ := isolated.trans_last isNext
      obtain ⟨rfl, rfl, -⟩ := ok.enter isNext trans nofun
      have disk := terms.disk
      exact {
        roleFresh := Nat.lt_succ_self _
        replFresh := fun repl membership => Nat.lt_succ_of_lt (ok.replFresh repl membership)
        starting := by simp
        entering := by simp [idle]
        present := fun repl membership isPresent =>
          (Nat.ne_of_lt (ok.replFresh repl membership) isPresent).elim
        candidate := by
          rintro cd ⟨⟩ - -
          refine ⟨rfl, by rw [asked], ?_⟩
          rw [Inactive.activated_iff (by simp [Inactive])]
          intro activated
          have bound := terms.activated _ activated
          dsimp only at bound
          omega
        elected := by simp [Server.Leaves, idle]
        leader := nofun }
  | becameLeader trans =>
      obtain ⟨-, rfl⟩ := isolated.trans_last isNext
      obtain ⟨rfl, rfl, -⟩ := ok.enter isNext trans nofun
      exact {
        roleFresh := Nat.lt_succ_self _
        replFresh := by
          intro repl membership
          simp only [List.mem_append, List.mem_map] at membership
          rcases membership with earlier | ⟨peer, -, rfl⟩
          · exact Nat.lt_succ_of_lt (ok.replFresh repl earlier)
          · exact Nat.lt_succ_self _
        starting := by simp
        entering := fun _ => ⟨_, rfl⟩
        present := fun _ _ _ => ⟨_, rfl⟩
        candidate := nofun
        elected := by simp [Server.Leaves]
        leader := fun _ _ _ _ => ⟨_, .head _⟩ }

/-- The processor goes on with a handler and keeps the role. -/
theorem goOn {rest : List (Op α)} (next : sv.todo = op :: rest) (inactive : Inactive new)
    (role : sv.role.Keeps sv'.role) (evCh : sv'.evCh = sv.evCh) (active : sv'.active = sv.active)
    (roleId : sv'.roleId = sv.roleId) (nextId : sv'.nextId = sv.nextId)
    (repls : sv'.repls = sv.repls) (term : sv'.term = sv.term)
    (quiet : ∀ transFunc, op ≠ .transRole transFunc)
    (todo : ∀ transFunc, .transRole transFunc ∈ sv'.todo ↔ .transRole transFunc ∈ rest)
    (due : .setActive ∈ sv'.todo → .setActive ∈ rest) : Roles cfg me sv' (new ++ history) := by
  have steady (isSteady : sv'.steady = true) : sv.steady = true := by
    rw [Server.steady_iff] at isSteady ⊢
    intro transFunc membership
    rw [next, List.mem_cons] at membership
    rcases membership with rfl | later
    · exact quiet transFunc rfl
    · exact isSteady transFunc ((todo transFunc).mpr later)
  refine ok.frame inactive role roleId (by omega) ?_ term ?_ ?_ (fun next => evCh ▸ next) ?_
  · rw [repls]
    exact fun repl membership => ⟨repl, membership, rfl⟩
  · exact fun isActive isSteady => ⟨active ▸ isActive, steady isSteady⟩
  · intro isDue
    refine ⟨?_, steady⟩
    rw [next]
    exact .tail _ (due isDue)
  · unfold Server.Leaves
    rw [todo, evCh, next]
    exact Or.imp_left (.tail _)

theorem executes {rest : List (Op α)} (isolated : Isolated sv) (next : sv.todo = op :: rest)
    (executes : Executes cfg me { sv with todo := rest } op out) :
    Roles cfg me out.server (out.obs ++ history) := by
  have same : ∀ repl ∈ sv.repls, ∃ earlier ∈ sv.repls, repl.ld = earlier.ld :=
    fun repl membership => ⟨repl, membership, rfl⟩
  have inactive := executes.inactive
  cases executes with
  | @stopped transFunc running =>
      obtain ⟨-, notDue⟩ := isolated.running running
      refine ok.frame inactive (.of_eq rfl) rfl (Nat.le_refl _) same rfl nofun ?_ (by simp) ?_
      · exact fun due => (notDue (by rw [next]; exact .tail _ due)).elim
      · unfold Server.Leaves
        simp only [next, List.mem_cons, List.mem_append, List.not_mem_nil, or_false,
          Op.transRole.injEq, Event.trans.injEq, Option.some.injEq]
        grind
  | wasStopped stopped =>
      refine ok.frame inactive (.of_eq rfl) rfl (Nat.le_refl _) same rfl ?_ ?_ id ?_
      · exact fun isActive => by cases stopped.symm.trans isActive
      · intro due
        obtain ⟨-, only, -⟩ := isolated.entering (by rw [next]; exact .tail _ due)
        rw [next] at only
        cases (List.cons.inj only).1
      · unfold Server.Leaves
        rw [next]
        exact Or.imp_left (.tail _)
  | activated =>
      obtain ⟨-, only, -⟩ := isolated.entering (by simp [next])
      obtain ⟨rc, leader⟩ := ok.entering (by simp [next])
      have nothing : rest = [] := by
        rw [next] at only
        exact (List.cons.inj only).2
      exact {
        roleFresh := ok.roleFresh
        replFresh := ok.replFresh
        starting := ok.starting
        entering := by simp [nothing]
        present := ok.present
        candidate := fun cd isCandidate => by simp [leader] at isCandidate
        elected := by
          intro leaves
          obtain ⟨cd, standing, -⟩ :=
            ok.elected (leaves.imp_left fun later => by simp [nothing] at later)
          cases leader.symm.trans standing.role
        leader := fun rc isLeader _ _ =>
          ok.leader rc isLeader (.inr (by simp [next])) (by simp [Server.steady, only]) }
  | started leader =>
      exact ok.goOn next inactive (leader ▸ .leader) rfl rfl rfl rfl rfl rfl nofun (by simp)
        (by simp)
  | _ =>
      exact ok.goOn next inactive (.of_eq rfl) rfl rfl rfl rfl rfl rfl nofun (by simp) (by simp)

/-- A goroutine beside the processor leaves the role alone. -/
theorem beside (inactive : Inactive new) (role : sv.role.Keeps sv'.role)
    (roleId : sv'.roleId = sv.roleId) (nextId : sv.nextId ≤ sv'.nextId)
    (repls : ∀ repl ∈ sv'.repls, ∃ earlier ∈ sv.repls, repl.ld = earlier.ld)
    (term : sv'.term = sv.term) (active : sv'.active = true → sv.active = true)
    (todo : sv'.todo = sv.todo) {pushed : List (Event α)} (evCh : sv'.evCh = sv.evCh ++ pushed)
    (other : .trans none ∉ pushed ∧ .trans (some .leaderFromCandidate) ∉ pushed) :
    Roles cfg me sv' (new ++ history) := by
  have steady : sv'.steady = sv.steady := by rw [Server.steady, todo, Server.steady]
  refine ok.frame inactive role roleId nextId repls term ?_ ?_ ?_ ?_
  · exact fun isActive isSteady => ⟨active isActive, steady ▸ isSteady⟩
  · exact fun due => ⟨todo ▸ due, steady ▸ id⟩
  · rw [evCh, List.mem_append]
    exact fun membership => membership.resolve_right other.1
  · unfold Server.Leaves
    rw [todo, evCh, List.mem_append]
    exact Or.imp_right fun membership => membership.resolve_right other.2

end

theorem make {persister : Persister α} {nextId : Nat}
    (made : make persister nextId = some sv) : Roles cfg me sv history := by
  obtain ⟨applier, -, -, rfl⟩ := make_eq_some made
  exact {
    roleFresh := Nat.lt_succ_self _
    replFresh := by simp
    starting := fun _ => rfl
    entering := by simp
    present := by simp
    candidate := by simp
    elected := by simp [Server.Leaves]
    leader := by simp }

end Roles

/-- A replicator keeps its role, whatever it does. -/
theorem Advances.ld_eq {repl repl' : Replicator α} (advances : Advances me sv repl repl') :
    repl'.ld = repl.ld := by
  cases advances <;> rfl

theorem Receives.ld_eq {repl repl' : Replicator α} {id : Nat} {reply : AppendEntriesReply}
    {ev : Option (Event α)} (receives : Receives sv repl id reply repl' ev) :
    repl'.ld = repl.ld := by
  cases receives <;> rfl

theorem Replicator.refresh_ld (sv : Server α) (repl : Replicator α) :
    (repl.refresh sv).ld = repl.ld := by
  unfold refresh
  dsimp only
  split <;> rfl

theorem ld_of_mem_set {repls : List (Replicator α)} {number : Nat} {repl repl' : Replicator α}
    (found : repls[number]? = some repl) (ld : repl'.ld = repl.ld) :
    ∀ changed ∈ repls.set number repl', ∃ earlier ∈ repls, changed.ld = earlier.ld := by
  intro changed membership
  rcases List.mem_or_eq_of_mem_set membership with unchanged | rfl
  · exact ⟨changed, unchanged, rfl⟩
  · exact ⟨repl, List.mem_of_getElem? found, ld⟩

/-- The roles of every server are in order in every run. -/
theorem Cluster.roles (run : Run (step cfg) allowed init labels s) (i : Nat)
    (up : (s.servers i).up = true) : Roles cfg i (s.servers i) (s.history i) := by
  refine local_invariant (fun i sv history => sv.up = true → Roles cfg i sv history) ?_ ?_ run i up
  · exact fun _ _ => .make make_fresh
  · intro _ s i act out earlier before _ steps isUp
    have same : ∀ repl ∈ (s.servers i).repls, ∃ earlier ∈ (s.servers i).repls,
        repl.ld = earlier.ld := fun repl membership => ⟨repl, membership, rfl⟩
    cases steps with
    | popped up idle next handles =>
        exact (before up).handles (terms earlier i) (isolated earlier i up) idle next handles
    | executed up next executes =>
        exact (before up).executes (isolated earlier i up) next executes
    | applied up applies =>
        cases applies <;>
          exact (before up).beside (by simp [Inactive]) (.of_eq rfl) rfl (Nat.le_refl _) same rfl
            id rfl (List.append_nil _).symm (by simp)
    | snapshotCalled up | called up =>
        exact (before up).beside (by simp [Inactive]) (.of_eq rfl) rfl (Nat.le_refl _) same rfl
            id rfl (List.append_nil _).symm (by simp)
    | snapshotPushed up =>
        exact (before up).beside (by simp [Inactive]) (.of_eq rfl) rfl (Nat.le_refl _) same rfl
            id rfl rfl (by simp)
    | arrived _ up arrives =>
        refine (before up).beside (by simp [Inactive]) (.of_eq rfl) rfl (Nat.le_refl _) same rfl
            id rfl rfl ?_
        cases arrives <;> simp
    | polled _ up candidate =>
        exact (before up).beside (by simp [Inactive])
          (candidate ▸ .candidate rfl (Nat.le_refl _)) rfl (Nat.le_refl _) same rfl id rfl
          (List.append_nil _).symm (by simp)
    | polledEvent _ up candidate _ _ _ _ event =>
        refine (before up).beside (by simp [Inactive])
          (candidate ▸ .candidate rfl (Nat.le_refl _)) rfl (Nat.le_refl _) same rfl id rfl rfl ?_
        cases event <;> simp
    | replied _ up found _ receives =>
        exact (before up).beside (by simp [Inactive]) (.of_eq rfl) rfl (Nat.le_refl _)
          (ld_of_mem_set found receives.ld_eq) rfl id rfl (List.append_nil _).symm (by simp)
    | repliedEvent _ up found _ receives =>
        obtain ⟨-, other⟩ := receives.owner
        exact (before up).beside (by simp [Inactive]) (.of_eq rfl) rfl (Nat.le_refl _)
          (ld_of_mem_set found receives.ld_eq) rfl id rfl rfl (by simp [(other _).symm])
    | advanced up found advances =>
        exact (before up).beside (by simp [Inactive]) (.of_eq rfl) rfl (Nat.le_succ _)
          (ld_of_mem_set found advances.ld_eq) rfl id rfl (List.append_nil _).symm (by simp)
    | steppedDown up found =>
        refine (before up).beside (by simp [Inactive]) (.of_eq rfl) rfl (Nat.le_succ _)
          (ld_of_mem_set found rfl) rfl nofun rfl rfl (by simp)
    | refreshed up found =>
        exact (before up).beside (by simp [Inactive]) (.of_eq rfl) rfl (Nat.le_refl _)
          (ld_of_mem_set found (Replicator.refresh_ld _ _)) rfl id rfl (List.append_nil _).symm
          (by simp)
    | crashed => cases isUp
    | restarted _ made => exact .make made

/-- A server that is made leader was standing for election with a majority of the
votes, and it leads in a new role. -/
theorem Roles.elects {history : List (Obs α)} {transFunc : Option TransFunc} {rc : ReplCounter}
    {roleId nextId : Nat} (ok : Roles cfg me sv history)
    (isNext : sv.evCh = .trans transFunc :: rest)
    (trans : Transformed { sv with evCh := rest } transFunc (.leader rc) roleId nextId) :
    roleId = sv.nextId ∧ nextId = sv.nextId + 1 ∧
      ∃ cd, Standing me sv history cd ∧ cfg.majorN ≤ cd.votes := by
  obtain ⟨roleIdEq, nextIdEq, changed, rfl, cast⟩ := ok.enter isNext trans nofun
  have elects : changed = .leaderFromCandidate := by
    cases changed <;> cases role : sv.role <;> simp [TransFunc.apply, role] at cast ⊢
  exact ⟨roleIdEq, nextIdEq, ok.elected (.inr (by simp [isNext, elects]))⟩

theorem Roles.activates {history : List (Obs α)} (ok : Roles cfg me sv history)
    (isNext : sv.evCh = ev :: rest) (handles : Handles cfg me { sv with evCh := rest } ev out) :
    Inactive out.obs ∨ ∃ log cd, out.obs = [.activated me sv.nextId sv.term log, .saved me] ∧
      out.server.nextId = sv.nextId + 1 ∧ Standing me sv history cd ∧ cfg.majorN ≤ cd.votes := by
  cases handles with
  | becameLeader trans =>
      obtain ⟨rfl, rfl, cd, standing, votes⟩ := ok.elects isNext trans
      exact .inr ⟨_, cd, rfl, rfl, standing, votes⟩
  | installed | appended | candidateHold | staleCandidate =>
      exact .inl (inactive_raiseObs _ _ _)
  | _ => exact .inl (by simp [Inactive])

/-- What a step activates. -/
theorem Cluster.activates (run : Run (step cfg) allowed init labels s) {i : Nat} {act : Act α}
    (steps : Steps cfg i s.net (s.servers i) act out) :
    Inactive out.obs ∨ ∃ log cd, (s.servers i).up = true ∧
      out.obs = [.activated i (s.servers i).nextId (s.servers i).term log, .saved i] ∧
      out.server.nextId = (s.servers i).nextId + 1 ∧
      Standing i (s.servers i) (s.history i) cd ∧ cfg.majorN ≤ cd.votes := by
  cases steps with
  | popped up _ next handles =>
      rcases (roles run i up).activates next handles with inactive | ⟨log, cd, facts⟩
      · exact .inl inactive
      · exact .inr ⟨log, cd, up, facts⟩
  | executed _ _ executes => exact .inl executes.inactive
  | applied _ applies => exact .inl applies.inactive
  | _ => exact .inl (by simp [Inactive])

theorem Handles.nextId_le (handles : Handles cfg me sv ev out) : sv.nextId ≤ out.server.nextId := by
  cases handles with
  | becameFollower trans => cases trans <;> simp
  | becameCandidate trans => cases trans <;> simp
  | becameLeader trans => cases trans <;> simp
  | _ => exact Nat.le_refl _

theorem Steps.nextId_le {net : List (Msg α)} {act : Act α} (steps : Steps cfg me net sv act out) :
    sv.nextId ≤ out.server.nextId := by
  cases steps with
  | popped _ _ _ handles => exact handles.nextId_le
  | executed _ _ executes => cases executes <;> exact Nat.le_refl _
  | applied _ applies => cases applies <;> exact Nat.le_refl _
  | restarted _ made =>
      obtain ⟨applier, -, -, rfl⟩ := make_eq_some made
      exact Nat.le_succ _
  | advanced | steppedDown => exact Nat.le_succ _
  | _ => exact Nat.le_refl _

/-! ## Leaderships -/

/-- Each leadership has its own role and its own term. -/
structure Leaderships (me : Nat) (sv : Server α) (history : List (Obs α)) : Prop where
  fresh : ∀ role term, Led history me role term → role < sv.nextId
  term : ∀ role term term', Led history me role term → Led history me role term' → term = term'
  role : ∀ role role' term, Led history me role term → Led history me role' term → role = role'

namespace Leaderships

variable {sv sv' : Server α} {history new : List (Obs α)}

theorem frame (ok : Leaderships me sv history) (inactive : Inactive new)
    (nextId : sv.nextId ≤ sv'.nextId) : Leaderships me sv' (new ++ history) where
  fresh role term led := Nat.lt_of_lt_of_le (ok.fresh role term (inactive.led_iff.mp led)) nextId
  term role term term' led led' :=
    ok.term role term term' (inactive.led_iff.mp led) (inactive.led_iff.mp led')
  role role role' term led led' :=
    ok.role role role' term (inactive.led_iff.mp led) (inactive.led_iff.mp led')

theorem activate (ok : Leaderships me sv history) {log : List (LogEntry α)}
    (nextId : sv'.nextId = sv.nextId + 1) (first : ¬ Activated history me term) :
    Leaderships me sv' ([.activated me sv.nextId term log, .saved me] ++ history) := by
  have led_iff {role : Nat} {term' : Int} :
      Led ([.activated me sv.nextId term log, .saved me] ++ history) me role term' ↔
        (role = sv.nextId ∧ term' = term) ∨ Led history me role term' := by
    simp [Led, exists_or]
  constructor
  · intro role term' led
    rcases led_iff.mp led with ⟨rfl, -⟩ | earlier
    · omega
    · have fresh := ok.fresh role term' earlier
      omega
  · intro role term₁ term₂ led₁ led₂
    rcases led_iff.mp led₁ with ⟨rfl, rfl⟩ | earlier₁ <;>
      rcases led_iff.mp led₂ with ⟨isNew, rfl⟩ | earlier₂
    · rfl
    · exact (Nat.lt_irrefl _ (ok.fresh _ _ earlier₂)).elim
    · exact (Nat.lt_irrefl _ (isNew ▸ ok.fresh _ _ earlier₁)).elim
    · exact ok.term role term₁ term₂ earlier₁ earlier₂
  · intro role₁ role₂ term' led₁ led₂
    rcases led_iff.mp led₁ with ⟨rfl, rfl⟩ | earlier₁ <;>
      rcases led_iff.mp led₂ with ⟨rfl, isNew⟩ | earlier₂
    · rfl
    · exact (first ⟨_, earlier₂⟩).elim
    · exact (first ⟨_, isNew ▸ earlier₁⟩).elim
    · exact ok.role role₁ role₂ term' earlier₁ earlier₂

end Leaderships

/-- No server leads twice in a term, in any run. -/
theorem Cluster.leaderships (run : Run (step cfg) allowed init labels s) (i : Nat) :
    Leaderships i (s.servers i) (s.history i) := by
  refine local_invariant Leaderships ?_ ?_ run i
  · exact fun _ => ⟨by simp [Led], by simp [Led], by simp [Led]⟩
  · intro _ s i act out earlier ok _ steps
    rcases activates earlier steps with inactive | ⟨log, cd, -, obs, nextId, standing, -⟩
    · exact ok.frame inactive steps.nextId_le
    · rw [obs]
      exact ok.activate nextId standing.fresh

end GoLab.Raft
