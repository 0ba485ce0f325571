import GoLab.Raft.Locking
import GoLab.Raft.Steps

/-!
# The traced handlers are the handlers of the cluster

The processor of the cluster does a handler in pieces: its first part, and the operations it
leaves in `todo`.  When it is done without a crash, the term, the vote, the log and the
persister are those the traced handler returns.
-/

namespace GoLab.Raft

variable {α : Type}
variable {ev : Event α} {op : Op α} {rest : List (Op α)}

/-- What is left of a handler, with the locks it takes. -/
def Op.locking (sv : Server α) : Op α → Traced Mutex (Server α)
  | .persistState => Locking.persistState sv
  | .persist => Locking.persist sv
  | .updateCommit leaderCommit => Locking.updateCommit sv leaderCommit
  | .grantVote _ args => do
      let upToDate ← Locking.atLeastUpToDate sv args.lastLogInfo
      if upToDate then return { sv with voteFor := some args.candidateID } else return sv
  | _ => return sv

/-- The operations one after another. -/
def Op.lockingAll : List (Op α) → Server α → Traced Mutex (Server α)
  | [], sv => return sv
  | op :: rest, sv => do
      let sv ← op.locking sv
      lockingAll rest sv

/-- What a handler leaves in memory and on disk. -/
def Server.kept (sv : Server α) : Int × Option Nat × Logs α × Persister α :=
  (sv.term, sv.voteFor, sv.logs, sv.persister)

/-- The two computations end with the same in memory and on disk. -/
def Agree (first second : Traced Mutex (Server α)) : Prop :=
  first.value.map Server.kept = second.value.map Server.kept

/-- The processor finishes its handler, and the process stays up. -/
inductive Concludes (cfg : Config) (me : Nat) : Server α → Server α → Prop where
  | done {sv : Server α} (idle : sv.todo = []) : Concludes cfg me sv sv
  | step {sv sv' : Server α} {out : Out α} (taken : sv.exec cfg me = some out)
      (stays : out.server.up = true) (rest : Concludes cfg me out.server sv') :
      Concludes cfg me sv sv'

section

variable {sv sv' : Server α}

theorem Server.kept_persistState (same : sv.kept = sv'.kept) :
    sv.persistState.kept = sv'.persistState.kept := by
  simp only [kept, Prod.mk.injEq] at same
  obtain ⟨term, voteFor, logs, persister⟩ := same
  simp only [kept, persistState, encodeState, term, voteFor, logs, persister]

theorem Server.kept_persist (same : sv.kept = sv'.kept) : sv.persist.kept = sv'.persist.kept := by
  simp only [kept, Prod.mk.injEq] at same
  obtain ⟨term, voteFor, logs, -⟩ := same
  simp only [kept, persist, encodeState, term, voteFor, logs]

theorem Op.locking_congr (same : sv.kept = sv'.kept) (op : Op α) :
    Agree (op.locking sv) (op.locking sv') := by
  unfold Agree
  have fields := same
  simp only [Server.kept, Prod.mk.injEq] at fields
  obtain ⟨term, voteFor, logs, persister⟩ := fields
  cases op with
  | persistState => exact congrArg some (Server.kept_persistState same)
  | persist => exact congrArg some (Server.kept_persist same)
  | updateCommit leaderCommit =>
      simp only [Op.locking, Locking.value_updateCommit, logs, Option.map_map]
      congr 1
      funext committed
      simp only [Function.comp_apply]
      split
      case isTrue =>
        exact Server.kept_persistState (by simp [Server.kept, term, voteFor, persister])
      case isFalse => exact same
  | grantVote caller args =>
      simp only [Op.locking, Traced.value_bind, Locking.value_atLeastUpToDate, logs]
      cases sv'.logs.atLeastUpToDate args.lastLogInfo with
      | none => rfl
      | some upToDate =>
          cases upToDate with
          | false => exact congrArg some same
          | true => simp [Server.kept, term, persister]
  | _ => exact congrArg some same

theorem Op.lockingAll_congr (ops : List (Op α)) (same : sv.kept = sv'.kept) :
    Agree (lockingAll ops sv) (lockingAll ops sv') := by
  induction ops generalizing sv sv' with
  | nil => exact congrArg some same
  | cons op rest ih =>
      have agree := op.locking_congr same
      unfold Agree at agree ⊢
      simp only [lockingAll, Traced.value_bind]
      cases first : (op.locking sv).value with
      | none =>
          rw [first] at agree
          rw [Option.map_eq_none_iff.mp agree.symm]
      | some next =>
          rw [first] at agree
          obtain ⟨next', second, same'⟩ := Option.map_eq_some_iff.mp agree.symm
          rw [second]
          exact ih same'.symm

/-- An operation that is done leaves the others. -/
theorem Op.lockingAll_cons {next : Server α} (returned : (op.locking sv).value = some next)
    (same : next.kept = sv'.kept) :
    Agree (lockingAll (op :: rest) sv) (lockingAll rest sv') := by
  have agree := lockingAll_congr rest same
  unfold Agree at agree ⊢
  simp only [lockingAll, Traced.value_bind, returned, Option.bind_some]
  exact agree

/-- An operation that is done but for the saving of the state. -/
theorem Op.lockingAll_saving {next : Server α} (returned : (op.locking sv).value = some next)
    (same : next.kept = sv'.persistState.kept) :
    Agree (lockingAll (op :: rest) sv) (lockingAll (.persistState :: rest) sv') :=
  lockingAll_cons returned same

/-- An operation that is done but for the answer at the end of the handler. -/
theorem Op.lockingAll_replying {next : Server α} (caller : Caller) (args : RequestVoteArgs)
    (reply : RequestVoteReply) (returned : (op.locking sv).value = some next)
    (same : next.kept = sv'.kept) :
    Agree (lockingAll (op :: rest) sv)
      (lockingAll (rest ++ [.replyRequestVote caller args reply]) sv') := by
  have noEffect : ∀ (ops : List (Op α)) (sv : Server α),
      (lockingAll (ops ++ [.replyRequestVote caller args reply]) sv).value =
        (lockingAll ops sv).value := by
    intro ops
    induction ops with
    | nil => exact fun _ => rfl
    | cons op rest ih =>
        intro sv
        simp only [List.cons_append, lockingAll, Traced.value_bind, ih]
  unfold Agree
  rw [noEffect]
  exact lockingAll_cons returned same

/-- The last operation that touches the state. -/
theorem Op.lockingAll_last (same : sv.kept = sv'.kept) (op : Op α)
    (silent : ∀ sv : Server α, (lockingAll rest sv).value = some sv) :
    Agree (op.locking sv) (lockingAll (op :: rest) sv') := by
  have agree := op.locking_congr same
  unfold Agree at agree ⊢
  simp only [lockingAll, Traced.value_bind, silent, Option.bind_fun_some]
  exact agree

theorem Op.lockingAll_saving_last (same : sv.kept = sv'.persistState.kept) (op : Op α)
    (silent : ∀ sv : Server α, (lockingAll rest sv).value = some sv) :
    Agree (op.locking sv) (lockingAll (.persistState :: op :: rest) sv') :=
  lockingAll_last same op silent

variable {cfg : Config} {me : Nat} {out : Out α}

/-- The processor goes on with its handler. -/
theorem Server.exec_locking (next : sv.todo = op :: rest) (taken : sv.exec cfg me = some out)
    (stays : out.server.up = true) :
    Agree (Op.lockingAll sv.todo sv) (Op.lockingAll out.server.todo out.server) := by
  unfold exec at taken
  rw [next] at taken ⊢
  cases op with
  | apply item =>
      simp only [Option.bind_eq_bind, Option.bind_eq_some_iff, sendApplier_eq_some] at taken
      obtain ⟨_, ⟨-, rfl⟩, taken⟩ := taken
      cases taken
      exact Op.lockingAll_cons rfl rfl
  | updateCommit leaderCommit =>
      dsimp only at taken
      split at taken
      case h_1 =>
        cases taken
        cases stays
      case h_2 committed =>
        cases taken
        have returned : (Op.locking sv (.updateCommit leaderCommit)).value = some sv := by
          rw [Op.locking, Locking.value_updateCommit, committed]
          rfl
        exact Op.lockingAll_cons returned rfl
      case h_3 logs item committed =>
        simp only [Option.bind_eq_bind, Option.bind_eq_some_iff, sendApplier_eq_some] at taken
        obtain ⟨server, ⟨-, rfl⟩, taken⟩ := taken
        cases taken
        have returned : (Op.locking sv (.updateCommit leaderCommit)).value =
            some ({ sv with logs } : Server α).persistState := by
          rw [Op.locking, Locking.value_updateCommit, committed]
          rfl
        exact Op.lockingAll_saving returned rfl
  | grantVote caller args =>
      have value : (Op.locking sv (.grantVote caller args)).value =
          (sv.logs.atLeastUpToDate args.lastLogInfo).map fun upToDate =>
            if upToDate then { sv with voteFor := some args.candidateID } else sv := by
        rw [Op.locking, Traced.value_bind, Locking.value_atLeastUpToDate]
        rcases sv.logs.atLeastUpToDate args.lastLogInfo with _ | _ | _
        · rfl
        · rfl
        · rfl
      dsimp only at taken
      rcases upToDate : sv.logs.atLeastUpToDate args.lastLogInfo with _ | _ | _
      all_goals
        rw [upToDate] at taken value
        cases taken
      · cases stays
      all_goals exact Op.lockingAll_replying _ _ _ value rfl
  | transRole transFunc =>
      obtain ⟨server, stopped, rfl⟩ := Option.map_eq_some_iff.mp taken
      unfold transRole guard at stopped
      split at stopped
      case isTrue =>
        split at stopped
        case isTrue =>
          cases stopped
          exact Op.lockingAll_cons rfl rfl
        case isFalse => cases stopped
      case isFalse =>
        cases stopped
        exact Op.lockingAll_cons rfl rfl
  | replySnapshot ok =>
      dsimp only at taken
      split at taken <;> cases taken <;> exact Op.lockingAll_cons rfl rfl
  | replyStart commandIndex logIndex =>
      dsimp only at taken
      split at taken
      case h_1 rc leader =>
        simp only [orCrash, Option.some.injEq] at taken
        subst taken
        cases watched : rc.watchIndex cfg.peers me logIndex with
        | none =>
            rw [watched] at stays
            cases stays
        | some rc' => exact Op.lockingAll_cons rfl rfl
      case h_2 =>
        cases taken
        exact Op.lockingAll_cons rfl rfl
  | _ =>
      cases taken
      exact Op.lockingAll_cons rfl rfl

/-- A handler that is finished has left what its operations leave. -/
theorem Concludes.kept (concludes : Concludes cfg me sv sv') :
    (Op.lockingAll sv.todo sv).value.map Server.kept = some sv'.kept := by
  induction concludes with
  | done idle => rw [idle]; rfl
  | @step sv sv' out taken stays rest ih =>
      cases next : sv.todo with
      | nil =>
          unfold Server.exec at taken
          rw [next] at taken
          cases taken
      | cons op rest => exact next ▸ (Server.exec_locking next taken stays).trans ih

variable {caller : Caller}

/-- A handler that leaves everything as it is. -/
theorem agree_idle (idle : sv'.todo = []) (same : sv.kept = sv'.kept) :
    Agree (pure sv) (Op.lockingAll sv'.todo sv') := by
  rw [idle]
  exact congrArg some same

theorem Follower.appendEntries_agree {args : AppendEntriesArgs α}
    (result : Follower.appendEntries cfg me sv caller args = some out) :
    Agree (Locking.Follower.appendEntries sv args)
      (Op.lockingAll out.server.todo out.server) := by
  unfold Follower.appendEntries at result
  unfold Locking.Follower.appendEntries Agree
  split at result
  case isTrue stale =>
    rw [if_pos stale]
    cases result
    rfl
  case isFalse current =>
    rw [if_neg current, Traced.value_bind, Locking.value_adoptTerm, Option.bind_some]
    rw [Server.adoptTerm_eq] at result
    generalize sv.raiseTo args.term = raised at result ⊢
    cases isSnapshot : args.snapshot with
    | some snapshot =>
        rw [isSnapshot] at result
        cases result
        rfl
    | none =>
        rw [isSnapshot] at result
        simp only [Option.bind_eq_bind, Option.bind_some, Option.bind_eq_some_iff] at result
        obtain ⟨sendEntries, isEntries, ⟨logs, status, appended⟩, written, result⟩ := result
        simp only [Option.map_some, Option.bind_some, Traced.value_bind, Traced.value_ofOption,
          isEntries, Locking.value_followerAppendEntries, written]
        cases result
        dsimp only
        split
        case isTrue commit =>
          cases appended with
          | true =>
              refine Op.lockingAll_saving_last ?_ (.updateCommit args.leaderCommit) fun _ => rfl
              rfl
          | false =>
              refine Op.lockingAll_last ?_ (.updateCommit args.leaderCommit) fun _ => rfl
              rfl
        case isFalse noCommit =>
          cases appended with
          | true => rfl
          | false => rfl

theorem Follower.requestVote_agree {args : RequestVoteArgs}
    (result : Follower.requestVote me sv caller args = some out) :
    Agree (Locking.requestVote sv args) (Op.lockingAll out.server.todo out.server) := by
  unfold Follower.requestVote at result
  unfold Locking.requestVote Agree
  dsimp only at result
  split at result
  case isTrue older =>
    rw [if_pos (by omega)]
    cases result
    rfl
  split at result
  case isTrue current =>
    rw [if_pos (by omega)]
    split at result
    · cases result
      rfl
    · cases result
      rfl
  case isFalse =>
    rw [if_neg (by omega), Traced.value_bind, Locking.value_setTerm]
    simp only [Option.bind_eq_bind, Option.bind_eq_some_iff] at result
    obtain ⟨raised, isRaised, upToDate, isUpToDate, result⟩ := result
    rw [isRaised, Option.bind_some, Traced.value_bind, Locking.value_atLeastUpToDate, isUpToDate]
    cases upToDate with
    | true =>
        cases result
        rfl
    | false =>
        cases result
        rfl

theorem Candidate.appendEntries_agree {args : AppendEntriesArgs α}
    (result : Candidate.appendEntries me sv caller args = some out) :
    Agree (if args.term ≥ sv.term then Locking.adoptTerm sv args.term else pure sv)
      (Op.lockingAll out.server.todo out.server) := by
  unfold Candidate.appendEntries at result
  unfold Agree
  split at result
  case isTrue current =>
    rw [if_pos current, Locking.value_adoptTerm]
    rw [Server.adoptTerm_eq] at result
    cases result
    rfl
  case isFalse older =>
    rw [if_neg older]
    cases result
    rfl

theorem Candidate.requestVote_agree {args : RequestVoteArgs}
    (result : Candidate.requestVote me sv caller args = some out) :
    Agree (Locking.requestVote sv args) (Op.lockingAll out.server.todo out.server) := by
  unfold Candidate.requestVote at result
  unfold Locking.requestVote Agree
  dsimp only at result
  split at result
  case isTrue older =>
    rw [if_pos (by omega)]
    cases result
    rfl
  split at result
  case isTrue current =>
    rw [if_pos (by omega)]
    split at result
    · cases result
      rfl
    · cases result
      rfl
  case isFalse =>
    rw [if_neg (by omega), Traced.value_bind, Locking.value_setTerm]
    simp only [Option.bind_eq_bind, Option.bind_eq_some_iff] at result
    obtain ⟨raised, isRaised, result⟩ := result
    rw [isRaised, Option.bind_some]
    cases result
    refine Op.lockingAll_last ?_ (.grantVote caller args) fun _ => rfl
    rfl

theorem Candidate.auditVote_agree {cd : Candidate} {term : Int} {voter : Nat}
    (idle : sv.todo = []) (result : Candidate.auditVote cfg sv cd term voter = some out) :
    Agree (pure sv) (Op.lockingAll out.server.todo out.server) := by
  unfold Candidate.auditVote at result
  split at result
  case isFalse =>
    cases result
    exact agree_idle idle rfl
  case isTrue =>
    simp only [Option.bind_eq_bind, Option.bind_eq_some_iff] at result
    obtain ⟨counted, -, result⟩ := result
    split at result
    case isTrue =>
      cases result
      exact agree_idle idle rfl
    case isFalse =>
      cases result
      dsimp only
      split
      · rfl
      · rfl

theorem Candidate.process_agree {cd : Candidate} (idle : sv.todo = [])
    (result : Candidate.process cfg me sv cd ev = some out) :
    Agree (Locking.Candidate.process sv ev) (Op.lockingAll out.server.todo out.server) := by
  cases ev with
  | appendEntries caller args => exact Candidate.appendEntries_agree result
  | requestVote caller args => exact Candidate.requestVote_agree result
  | voteGrant role term voter => exact Candidate.auditVote_agree idle result
  | electionTimeout role =>
      cases result
      rfl
  | staleCandidate role newTerm =>
      rw [Candidate.process, Server.adoptTerm_eq] at result
      unfold Agree
      rw [Locking.Candidate.process, Locking.value_adoptTerm]
      cases result
      rfl
  | _ =>
      cases result
      exact agree_idle idle rfl

theorem Leader.appendEntries_agree {args : AppendEntriesArgs α}
    (result : Leader.appendEntries sv caller args = some out) :
    Agree (if args.term > sv.term then Locking.setTerm sv args.term else pure sv)
      (Op.lockingAll out.server.todo out.server) := by
  unfold Leader.appendEntries at result
  unfold Agree
  dsimp only at result
  split at result
  case isTrue older =>
    rw [if_neg (by omega)]
    cases result
    rfl
  split at result
  case isTrue current =>
    rw [if_neg (by omega)]
    cases result
    rfl
  case isFalse =>
    rw [if_pos (by omega), Locking.value_setTerm]
    simp only [Option.bind_eq_bind, Option.bind_eq_some_iff] at result
    obtain ⟨raised, isRaised, result⟩ := result
    rw [Server.setTerm, isRaised]
    cases result
    rfl

theorem Leader.requestVote_agree {args : RequestVoteArgs}
    (result : Leader.requestVote sv caller args = some out) :
    Agree (Locking.requestVote sv args) (Op.lockingAll out.server.todo out.server) := by
  unfold Leader.requestVote at result
  unfold Locking.requestVote Agree
  split at result
  case isTrue older =>
    rw [if_pos older]
    cases result
    rfl
  case isFalse newer =>
    rw [if_neg newer, Traced.value_bind, Locking.value_setTerm]
    simp only [Option.bind_eq_bind, Option.bind_eq_some_iff] at result
    obtain ⟨raised, isRaised, result⟩ := result
    rw [Server.setTerm, isRaised]
    cases result
    refine Op.lockingAll_saving_last ?_ (.grantVote caller args) fun _ => rfl
    rfl

section

variable (idle : sv.todo = [])
include idle

theorem Leader.process_agree {rc : ReplCounter} (result : Leader.process cfg me sv rc ev = some out)
     :
    Agree (Locking.Leader.process cfg sv rc ev) (Op.lockingAll out.server.todo out.server) := by
  cases ev with
  | startCommand command =>
      cases result
      rfl
  | appendEntries caller args => exact Leader.appendEntries_agree result
  | requestVote caller args => exact Leader.requestVote_agree result
  | replConfirm role id startIndex endIndex =>
      simp only [Leader.process, Option.bind_eq_bind, Option.bind_eq_some_iff] at result
      obtain ⟨⟨rc', commit⟩, counted, result⟩ := result
      unfold Agree
      rw [Locking.Leader.process, Traced.value_bind, Traced.value_ofOption, counted]
      cases result
      cases commit with
      | none => rfl
      | some leaderCommit =>
          refine Op.lockingAll_last ?_ (.updateCommit leaderCommit) fun _ => rfl
          rfl
  | staleLeader role newTerm =>
      simp only [Leader.process, Option.bind_eq_bind, Option.bind_eq_some_iff] at result
      obtain ⟨raised, isRaised, result⟩ := result
      unfold Agree
      rw [Locking.Leader.process, Locking.value_setTerm, Server.setTerm, isRaised]
      cases result
      rfl
  | _ =>
      cases result
      exact agree_idle idle rfl

theorem activate_agree (result : activate cfg me sv = some out) :
    Agree (Locking.activate sv) (Op.lockingAll out.server.todo out.server) := by
  cases isRole : sv.role with
  | follower =>
      simp only [activate, isRole] at result
      simp only [Locking.activate, isRole]
      cases result
      exact agree_idle idle rfl
  | candidate cd =>
      simp only [activate, isRole, Candidate.activate, Option.bind_eq_bind,
        Option.bind_eq_some_iff] at result
      obtain ⟨info, isInfo, result⟩ := result
      simp only [Agree, Locking.activate, isRole, Traced.value_bind, Locking.lastLogInfo,
        Traced.value_rLocked, Traced.value_ofOption, isInfo]
      cases result
      dsimp only
      rw [idle]
      rfl
  | leader rc =>
      simp only [activate, isRole, Leader.activate, Option.bind_eq_bind,
        Option.bind_eq_some_iff] at result
      obtain ⟨rc', -, result⟩ := result
      simp only [Locking.activate, isRole]
      cases result
      rfl

theorem Follower.process_agree (result : Follower.process cfg me sv ev = some out) :
    Agree (Locking.Follower.process sv ev) (Op.lockingAll out.server.todo out.server) := by
  cases ev with
  | appendEntries caller args => exact Follower.appendEntries_agree result
  | requestVote caller args => exact Follower.requestVote_agree result
  | heartBeatTimeout role =>
      cases result
      rfl
  | _ =>
      cases result
      exact agree_idle idle rfl

theorem processRole_agree (result : processRole cfg me sv ev = some out) :
    Agree (Locking.processRole cfg sv ev) (Op.lockingAll out.server.todo out.server) := by
  cases isRole : sv.role with
  | follower =>
      simp only [processRole, isRole] at result
      simp only [Locking.processRole, isRole]
      exact Follower.process_agree idle result
  | candidate cd =>
      simp only [processRole, isRole] at result
      simp only [Locking.processRole, isRole]
      exact Candidate.process_agree idle result
  | leader rc =>
      simp only [processRole, isRole] at result
      simp only [Locking.processRole, isRole]
      exact Leader.process_agree idle result

theorem discardEv_agree (ev : Event α) :
    Agree (pure sv)
      (Op.lockingAll (discardEv me sv ev).server.todo (discardEv me sv ev).server) := by
  unfold discardEv
  split
  all_goals exact agree_idle idle rfl

/-- The events that are left to the role. -/
theorem external_agree
    (result : (if sv.active then processRole cfg me sv ev else some (discardEv me sv ev)) =
      some out) :
    Agree (if sv.active then Locking.processRole cfg sv ev else pure sv)
      (Op.lockingAll out.server.todo out.server) := by
  split at result
  case isTrue isActive =>
    rw [if_pos isActive]
    exact processRole_agree idle result
  case isFalse stopped =>
    rw [if_neg stopped]
    cases result
    exact discardEv_agree idle ev

theorem processEvent_agree (result : processEvent cfg me sv ev = some out) :
    Agree (Locking.processEvent cfg sv ev) (Op.lockingAll out.server.todo out.server) := by
  cases ev with
  | trans transFunc =>
      cases transFunc with
      | none => exact activate_agree idle result
      | some transFunc =>
          simp only [processEvent, Option.bind_eq_bind, Option.bind_eq_some_iff] at result
          obtain ⟨role, applied, result⟩ := result
          unfold Agree
          rw [Locking.processEvent, Traced.value_bind, Traced.value_ofOption, applied]
          exact activate_agree idle result
  | snapshot index bytes =>
      simp only [processEvent] at result
      unfold Agree
      rw [Locking.processEvent]
      split at result
      case isTrue isActive =>
        rw [if_pos isActive, Locking.value_takeSnapshot]
        simp only [Option.bind_eq_bind, Option.bind_eq_some_iff] at result
        obtain ⟨logs, taken, result⟩ := result
        rw [taken]
        cases result
        rfl
      case isFalse stopped =>
        rw [if_neg stopped]
        cases result
        rfl
  | _ => exact external_agree idle result

/-- The traced handler ends with what the handler of the cluster ends with. -/
theorem processEvent_kept (result : processEvent cfg me sv ev = some out)
    (concludes : Concludes cfg me out.server sv') :
    ∃ left, (Locking.processEvent cfg sv ev).value = some left ∧ left.kept = sv'.kept :=
  Option.map_eq_some_iff.mp ((processEvent_agree idle result).trans concludes.kept)

end

end

end GoLab.Raft
