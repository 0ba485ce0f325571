import GoLab.Raft.Confirmations
import GoLab.Raft.StaleLeader

/-!
# The window a leader watches

A leader watches every index it appends before it takes the next event, so its window ends
at `LLI`, and one before it while the answer to a `Start` is due.  Its replicators send
entries of its log and report no index behind it.
-/

namespace GoLab.Raft

variable {α : Type}

/-- The watched indices follow one another, and the last one is `last`. -/
def ReplCounter.Reaches (rc : ReplCounter) (last : Int) : Prop :=
  ∀ (k : Nat) entry, rc.entries[k]? = some entry → entry.index + rc.entries.length = last + 1 + k

namespace ReplCounter

variable {rc rc' : ReplCounter} {last : Int}

theorem Reaches.last_index (reaches : rc.Reaches last) {entry : ReplEntry}
    (isLast : entry ∈ rc.entries.getLast?) : entry.index = last := by
  rw [Option.mem_def, List.getLast?_eq_getElem?] at isLast
  have inside := (List.getElem?_eq_some_iff.mp isLast).1
  have index := reaches _ entry isLast
  omega

theorem Reaches.first_index (reaches : rc.Reaches last) {entry : ReplEntry}
    (isFirst : entry ∈ rc.entries.head?) : entry.index + rc.entries.length = last + 1 := by
  rw [Option.mem_def, List.head?_eq_getElem?] at isFirst
  have index := reaches 0 entry isFirst
  omega

theorem reaches_new (last : Int) : new.Reaches last := by
  intro k entry found
  simp [new] at found

/-- The next index is watched. -/
theorem Reaches.watchIndex (reaches : rc.Reaches last) {peers me : Nat}
    (watched : rc.watchIndex peers me (last + 1) = some rc') : rc'.Reaches (last + 1) := by
  simp only [ReplCounter.watchIndex, Option.bind_eq_bind, Option.bind_eq_some_iff] at watched
  obtain ⟨-, -, bits, -, watched⟩ := watched
  cases watched
  intro k entry found
  dsimp only at found ⊢
  rw [List.length_append, List.length_singleton]
  rw [List.getElem?_append] at found
  split at found
  case isTrue =>
    have index := reaches k entry found
    omega
  case isFalse =>
    obtain ⟨inside, isNew⟩ := List.getElem?_eq_some_iff.mp found
    rw [List.length_singleton] at inside
    simp only [List.getElem_singleton] at isNew
    subst isNew
    dsimp only
    omega

theorem mark_length {peerId : Nat} {lo hi offset : Int} {entries entries' : List ReplEntry}
    (marked : mark peerId lo hi offset entries = some entries') :
    entries'.length = entries.length := by
  induction entries generalizing offset entries' with
  | nil =>
      cases marked
      rfl
  | cons entry rest ih =>
      obtain ⟨first, others, isOthers, rfl⟩ : ∃ first others,
          mark peerId lo hi (offset + 1) rest = some others ∧ entries' = first :: others := by
        unfold mark at marked
        split at marked <;>
          simp only [Option.bind_eq_bind, Option.bind_eq_some_iff, Option.bind_some] at marked
        case isTrue =>
          obtain ⟨_, -, others, isOthers, marked⟩ := marked
          cases marked
          exact ⟨_, others, isOthers, rfl⟩
        case isFalse =>
          obtain ⟨others, isOthers, marked⟩ := marked
          cases marked
          exact ⟨_, others, isOthers, rfl⟩
      rw [List.length_cons, List.length_cons, ih isOthers]

/-- Confirmed indices leave the window at its front. -/
theorem Reaches.confirm (reaches : rc.Reaches last) {majorN peerId : Nat} {startIdx endIdx : Int}
    {commit : Option Int}
    (result : rc.confirm majorN peerId startIdx endIdx = some (rc', commit)) :
    rc'.Reaches last := by
  unfold ReplCounter.confirm at result
  split at result
  case h_1 =>
    cases result
    exact reaches
  case h_2 first others isEntries =>
    simp only [Option.bind_eq_bind, Option.bind_eq_some_iff] at result
    obtain ⟨-, -, entries, marked, result⟩ := result
    have now : (⟨entries⟩ : ReplCounter).Reaches last := by
      intro k entry found
      obtain ⟨before, wasThere, index, -⟩ := mark_spec marked found
      rw [index, mark_length marked]
      exact reaches k before wasThere
    split at result
    case h_1 =>
      cases result
      exact now
    case h_2 =>
      cases result
      intro k entry found
      dsimp only at found ⊢
      have inside := (List.getElem?_eq_some_iff.mp found).1
      rw [List.getElem?_drop] at found
      have index := now _ entry found
      dsimp only at index
      rw [List.length_drop] at inside ⊢
      omega

end ReplCounter

/-! ## The window and the log -/

def Op.isReplyStart : Op α → Bool
  | .replyStart .. => true
  | _ => false

/-- The indices appended and not yet watched. -/
def Server.unwatched (sv : Server α) : Nat :=
  sv.todo.countP Op.isReplyStart

/-- The window of a leader ends where the answer to a `Start` is about to go on. -/
structure Server.Watched (sv : Server α) : Prop where
  starts : ∀ commandIndex logIndex, .replyStart commandIndex logIndex ∈ sv.todo →
    logIndex = sv.logs.lli
  once : sv.unwatched ≤ 1
  window : ∀ rc, sv.role = .leader rc → rc.Reaches (sv.logs.lli - sv.unwatched)

namespace Server.Watched

variable {cfg : Config} {me : Nat} {net : List (Msg α)} {sv sv' : Server α} {out : Out α}

theorem starts_of_zero (none : sv.unwatched = 0) (commandIndex logIndex : Int) :
    .replyStart commandIndex logIndex ∉ sv.todo := by
  intro due
  have positive : 0 < sv.unwatched := List.countP_pos_iff.mpr ⟨_, due, rfl⟩
  omega

/-- No index is left unwatched. -/
theorem of_zero (none : sv'.unwatched = 0)
    (window : ∀ rc, sv'.role = .leader rc → rc.Reaches sv'.logs.lli) : sv'.Watched where
  starts commandIndex logIndex due := (starts_of_zero none commandIndex logIndex due).elim
  once := by omega
  window := by simpa [none] using window

/-- A step that leaves the end of the log, the window and what is to be watched alone. -/
theorem frame (ok : sv.Watched) (lli : sv'.logs.lli = sv.logs.lli)
    (role : ∀ rc, sv'.role = .leader rc → sv.role = .leader rc)
    (starts : ∀ commandIndex logIndex, .replyStart commandIndex logIndex ∈ sv'.todo →
      .replyStart commandIndex logIndex ∈ sv.todo)
    (unwatched : sv'.unwatched = sv.unwatched) : sv'.Watched where
  starts commandIndex logIndex due :=
    (ok.starts commandIndex logIndex (starts commandIndex logIndex due)).trans lli.symm
  once := unwatched ▸ ok.once
  window rc leader := by
    rw [lli, unwatched]
    exact ok.window rc (role rc leader)

theorem handles {ev : Event α} {rest : List (Event α)} (ok : sv.Watched) (idle : sv.todo = [])
    (handles : Handles cfg me { sv with evCh := rest } ev out) : out.server.Watched := by
  have nothing : sv.unwatched = 0 := by simp [Server.unwatched, idle]
  have window : ∀ rc, sv.role = .leader rc → rc.Reaches sv.logs.lli := by
    simpa [nothing] using ok.window
  cases handles with
  | @started _ rc logs commandIndex _ _ _ leader pushed =>
      have lli : logs.lli = sv.logs.lli + 1 := by rw [Logs.pushEntry_spec pushed]
      refine ⟨by simp, Nat.le_refl _, fun rc leader => ?_⟩
      have before : rc.Reaches (logs.lli - 1) := by
        rw [lli, Int.add_sub_cancel]
        exact window rc leader
      exact before
  | @confirmed _ _ _ _ _ _ commit _ leader result =>
      refine .of_zero (by cases commit <;> rfl) ?_
      rintro _ ⟨⟩
      exact (window _ leader).confirm result
  | @becameLeader _ _ rc _ _ logs _ _ _ _ _ _ watched =>
      refine .of_zero rfl ?_
      rintro _ ⟨⟩
      have reaches : rc.Reaches (logs.lli - 1 + 1) :=
        (ReplCounter.reaches_new (logs.lli - 1)).watchIndex (by rwa [Int.sub_add_cancel])
      rwa [Int.sub_add_cancel] at reaches
  | snapshotTaken _ taken =>
      obtain ⟨kept, entry, term, passed, -, -, -, -, rfl⟩ := Logs.takeSnapshot_spec taken
      exact .of_zero rfl window
  | installed _ follower =>
      exact .of_zero rfl fun _ leader => by cases follower.symm.trans leader
  | appended _ follower =>
      refine .of_zero ?_ fun _ leader => by cases follower.symm.trans leader
      dsimp only [Server.unwatched]
      split <;> split <;> rfl
  | counted =>
      refine .of_zero ?_ nofun
      dsimp only [Server.unwatched]
      split <;> rfl
  | ignored => exact .of_zero nothing window
  | becameFollower | becameCandidate => exact .of_zero nothing nofun
  | _ => exact .of_zero rfl window

theorem executes {op : Op α} {rest : List (Op α)} (ok : sv.Watched) (next : sv.todo = op :: rest)
    (executes : Executes cfg me { sv with todo := rest } op out) : out.server.Watched := by
  have later : ∀ commandIndex logIndex, .replyStart commandIndex logIndex ∈ rest →
      .replyStart commandIndex logIndex ∈ sv.todo :=
    fun _ _ due => next ▸ List.mem_cons_of_mem _ due
  have counts : sv.unwatched = rest.countP Op.isReplyStart + if op.isReplyStart then 1 else 0 := by
    rw [Server.unwatched, next, List.countP_cons]
  cases executes with
  | @started commandIndex logIndex rc rc' leader watched =>
      have isLast : logIndex = sv.logs.lli := ok.starts commandIndex _ (by simp [next])
      have once := ok.once
      have one : sv.unwatched = 1 := by
        simp only [Op.isReplyStart, if_true] at counts
        omega
      have before : rc.Reaches (sv.logs.lli - 1) := by simpa [one] using ok.window rc leader
      refine .of_zero ?_ ?_
      · simp only [Op.isReplyStart, if_true] at counts
        show rest.countP Op.isReplyStart = 0
        omega
      · rintro _ ⟨⟩
        have reaches : rc'.Reaches (sv.logs.lli - 1 + 1) :=
          before.watchIndex (by rwa [Int.sub_add_cancel, ← isLast])
        rwa [Int.sub_add_cancel] at reaches
  | startDropped notLeader =>
      refine ⟨fun _ _ due => ok.starts _ _ (later _ _ due), ?_, fun rc leader => ?_⟩
      · have once := ok.once
        show rest.countP Op.isReplyStart ≤ 1
        omega
      · exact (notLeader rc leader).elim
  | committed result =>
      obtain ⟨commit, batch, -, -, -, rfl, -⟩ := Logs.updateCommit_spec result
      exact ok.frame rfl (fun _ leader => leader) (by simpa using later) counts.symm
  | voteGiven | voteDenied =>
      refine ok.frame rfl (fun _ leader => leader) (by simpa using later) ?_
      rw [counts]
      simp [Server.unwatched, List.countP_append, Op.isReplyStart]
  | _ => exact ok.frame rfl (fun _ leader => leader) later counts.symm

/-- Every step keeps the window and the log together. -/
theorem steps {act : Act α} (ok : sv.up = true → sv.Watched)
    (steps : Steps cfg me net sv act out) (stays : out.server.up = true) : out.server.Watched := by
  cases steps with
  | popped up idle _ handles => exact (ok up).handles idle handles
  | executed up next executes => exact (ok up).executes next executes
  | applied up applies =>
      cases applies <;> exact (ok up).frame rfl (fun _ leader => leader) (fun _ _ due => due) rfl
  | crashed => cases stays
  | polled _ up | polledEvent _ up => exact (ok up).frame rfl nofun (fun _ _ due => due) rfl
  | restarted _ made =>
      obtain ⟨applier, -, -, rfl⟩ := make_eq_some made
      exact .of_zero rfl nofun
  | _ => exact (ok ‹_›).frame rfl (fun _ leader => leader) (fun _ _ due => due) rfl

end Server.Watched

theorem Cluster.watched {cfg : Config} {allowed : Cluster α → Label α → Prop}
    {labels : List (Label α)} {s : Cluster α} (run : Run (step cfg) allowed init labels s)
    {i : Nat} (up : (s.servers i).up = true) : (s.servers i).Watched := by
  refine local_invariant (fun _ sv _ => sv.up = true → sv.Watched) ?_ ?_ run i up
  · exact fun _ _ => .of_zero rfl nofun
  · exact fun _ _ _ _ _ _ ok _ steps stays => .steps ok steps stays

/-! ## What the replicators report -/

section

variable {cfg : Config} {me : Nat} {net : List (Msg α)} {sv : Server α} {act : Act α} {out : Out α}

/-- The log of a leader does not get shorter. -/
theorem Steps.lli_le (steps : Steps cfg me net sv act out) (up : sv.up = true) {rc : ReplCounter}
    (leader : sv.role = .leader rc) : sv.logs.lli ≤ out.server.logs.lli := by
  cases steps.edits with
  | kept _ logs => rw [logs]
  | installed follows | appended follows => cases leader.symm.trans follows.follower
  | pushed _ pushed =>
      rw [Logs.pushEntry_spec pushed]
      exact Int.le_add_one (Int.le_refl _)
  | taken _ _ taken =>
      obtain ⟨kept, entry, term, passed, -, -, -, -, logs⟩ := Logs.takeSnapshot_spec taken
      rw [logs]
  | committed _ _ result =>
      obtain ⟨commit, batch, -, -, -, logs, -⟩ := Logs.updateCommit_spec result
      rw [logs]
  | applied _ _ logs => rw [logs]
  | restored down => simp [up] at down

/-- A new role has an identity of its own. -/
theorem Steps.roleId_cases (steps : Steps cfg me net sv act out) :
    out.server.roleId = sv.roleId ∨ out.server.roleId = sv.nextId := by
  cases steps with
  | popped _ _ _ handles =>
      cases handles with
      | becameFollower trans | becameCandidate trans | becameLeader trans =>
          cases trans with
          | same => exact .inl rfl
          | new => exact .inr rfl
      | _ => exact .inl rfl
  | executed _ _ executes => cases executes <;> exact .inl rfl
  | applied _ applies => cases applies <;> exact .inl rfl
  | restarted _ made =>
      obtain ⟨applier, -, -, rfl⟩ := make_eq_some made
      exact .inr rfl
  | _ => exact .inl rfl

/-- The entries of a request end inside the log it was built from. -/
theorem Builds.inside {repl : Replicator α} {args : AppendEntriesArgs α} (sound : sv.logs.Sound)
    (builds : Builds me sv repl args) {sent : SendEntries α} (carried : sent ∈ args.sendEntries) :
    sent.prevLogInfo.index + sent.entries.length ≤ sv.logs.lli := by
  obtain ⟨whole, front, isEnd⟩ := (builds.payload sound).2 sent carried
  have length := isEnd.length
  have shorter := front.length_le
  have full := sound.length_eq
  omega

end

namespace Cluster

variable {cfg : Config} {allowed : Cluster α → Label α → Prop} {labels : List (Label α)}
  {s : Cluster α} {i : Nat}

/-- The requests of the replicators of the present leader end inside its log. -/
theorem calls_inside (run : Run (step cfg) allowed init labels s) (i : Nat)
    (up : (s.servers i).up = true) :
    Calls (fun repl args => repl.ld = (s.servers i).roleId → ∀ sent ∈ args.sendEntries,
      sent.prevLogInfo.index + sent.entries.length ≤ (s.servers i).logs.lli) (s.servers i) := by
  refine local_invariant (fun _ sv _ => sv.up = true →
    Calls (fun repl args => repl.ld = sv.roleId → ∀ sent ∈ args.sendEntries,
      sent.prevLogInfo.index + sent.entries.length ≤ sv.logs.lli) sv) ?_ ?_ run i up
  · simp [Calls, Server.initial]
  · intro _ s i act out earlier before _ steps stays repl inside call isCall present sent carried
    cases up : (s.servers i).up with
    | false =>
        obtain ⟨-, made, -⟩ := steps.restarts up
        obtain ⟨applier, -, -, server⟩ := make_eq_some made
        simp [server] at inside
    | true =>
        have roles := roles earlier i up
        have led : Calls (fun repl args => repl.ld = (s.servers i).roleId →
            (∃ rc, (s.servers i).role = .leader rc) ∧ ∀ sent ∈ args.sendEntries,
              sent.prevLogInfo.index + sent.entries.length ≤ (s.servers i).logs.lli)
            (s.servers i) :=
          fun repl inside call isCall present =>
            ⟨roles.present repl inside present, before up repl inside call isCall present⟩
        have onward := led.steps (fun _ _ _ ends => ends) steps ?_ (fun _ _ _ _ _ _ _ ends => ends)
        · rcases steps.roleId_cases with same | isNew
          · obtain ⟨⟨rc, leader⟩, ends⟩ := onward repl inside call isCall (present.trans same)
            exact Int.le_trans (ends sent carried) (steps.lli_le up leader)
          · have older := roles.calls_old steps repl inside call isCall
            omega
        · intro _ repl args _ _ found builds present
          exact ⟨roles.present repl (List.mem_of_getElem? found) present,
            fun sent carried => builds.inside (sound earlier i).memory carried⟩

/-- The confirmations in the channel of a server are for the present leader and name no
index behind its log. -/
theorem confirms_inside (run : Run (step cfg) allowed init labels s)
    (up : (s.servers i).up = true) {role id : Nat} {startIndex endIndex : Int}
    (membership : .replConfirm role id startIndex endIndex ∈ (s.servers i).evCh) :
    (∃ rc, (s.servers i).role = .leader rc) ∧ endIndex ≤ (s.servers i).logs.lli + 1 := by
  refine outcome_invariant (fun _ sv => sv.up = true → ∀ role id startIndex endIndex,
    .replConfirm role id startIndex endIndex ∈ sv.evCh →
    (∃ rc, sv.role = .leader rc) ∧ endIndex ≤ sv.logs.lli + 1) ?_ ?_ run i up role id startIndex
    endIndex membership
  · simp [Server.initial]
  · intro _ s label out earlier later outcome ok stays role id startIndex endIndex membership
    have steps := (outcome_steps outcome).2
    cases up : (s.servers label.server).up with
    | false =>
        obtain ⟨-, made, -⟩ := steps.restarts up
        obtain ⟨applier, -, -, server⟩ := make_eq_some made
        simp [server] at membership
    | true =>
        obtain ⟨roleId, stillLeader⟩ :=
          steps.role_kept up (isolated earlier label.server up) membership
        suffices before : (∃ rc, (s.servers label.server).role = .leader rc) ∧
            endIndex ≤ (s.servers label.server).logs.lli + 1 by
          obtain ⟨⟨rc, leader⟩, ends⟩ := before
          have longer := steps.lli_le up leader
          exact ⟨stillLeader rc leader, by omega⟩
        rcases steps.mem_evCh_confirm membership with wasThere | ⟨repl, inside, call, sent, reply,
          isSending, -, -, -, carried, -, isRole, -, rfl⟩
        · exact ok up role id startIndex endIndex wasThere
        · have now : (s.update label.server out).servers label.server = out.server := if_pos rfl
          have owned := (isolated later label.server (by rwa [now])).owned _ (now.symm ▸ membership)
            _ rfl
          rw [now, isRole, roleId] at owned
          have start := aligned earlier inside call (.inr isSending) sent carried
          have ends := calls_inside earlier label.server up repl inside call
            (by rw [isSending]; rfl) owned sent carried
          exact ⟨(roles earlier label.server up).present repl inside owned, by omega⟩

end Cluster

end GoLab.Raft
