import GoLab.Raft.Payload

/-!
# What a replicator can do in one step

`Replicator.Moves` lists the steps of a replicator as the code computes them, and
`Server.act_moves` says that a step of a server does nothing else to its replicators.  The
indices a replicator searches with stay inside the log, so that the next index of every
replicator is at least 0.
-/

namespace GoLab.Raft

variable {α : Type}

/-- A step of a replicator: one of its own, the arrival of a reply, or the renewal of its
request. -/
inductive Replicator.Moves (me : Nat) (sv : Server α) (repl : Replicator α) :
    Replicator α → Prop where
  | stays : Moves me sv repl repl
  | advances {repl' : Replicator α} (result : repl.advance me sv = some repl') :
      Moves me sv repl repl'
  | receives (id : Nat) (reply : AppendEntriesReply) : Moves me sv repl (repl.receive sv id reply).1
  | renews : Moves me sv repl (repl.refresh sv)

section

variable {cfg : Config} {me : Nat} {net : List (Msg α)} {sv : Server α} {out : Out α}

/-- The replicators of `repls'` are those of `sv`, one of them one step on. -/
def Server.Stirs (me : Nat) (sv : Server α) (repls' : List (Replicator α)) : Prop :=
  ∀ repl' ∈ repls', ∃ repl ∈ sv.repls, Replicator.Moves me sv repl repl'

theorem Server.Stirs.refl : sv.Stirs me sv.repls :=
  fun repl inside => ⟨repl, inside, .stays⟩

theorem Server.Stirs.set {number : Nat} {repl repl' : Replicator α}
    (found : sv.repls[number]? = some repl) (moves : Replicator.Moves me sv repl repl') :
    sv.Stirs me (sv.repls.set number repl') := by
  intro other inside
  rcases List.mem_or_eq_of_mem_set inside with unchanged | rfl
  · exact ⟨other, unchanged, .stays⟩
  · exact ⟨repl, List.mem_of_getElem? found, moves⟩

theorem Server.Takes.stirs {act : Act α} {server : Server α}
    (takes : sv.Takes me net act server) : sv.Stirs me server.repls := by
  cases takes with
  | event _ _ pushed =>
      obtain ⟨-, rfl⟩ := Server.push_eq_some.mp pushed
      exact .refl
  | reply _ received =>
      obtain ⟨repl, repl', _, found, receives, -, rfl⟩ := replReceive_eq_some received
      have moves : Replicator.Moves me sv repl repl' := by
        obtain rfl : (repl.receive sv _ _).1 = repl' := congrArg Prod.fst receives
        exact .receives ..
      exact .set found moves
  | vote _ polled =>
      obtain ⟨_, -, -, -, -, polls⟩ := votePolled_polls polled
      cases polls <;> exact .refl

theorem Server.transRole_repls {transFunc : TransFunc} {server : Server α}
    (result : sv.transRole transFunc = some server) : server.repls = sv.repls := by
  unfold Server.transRole guard at result
  split at result
  case isTrue =>
    split at result
    case isTrue =>
      cases result
      rfl
    case isFalse => cases result
  case isFalse =>
    cases result
    rfl

/-- A replicator that does not crash the process takes its place again. -/
theorem Replicator.advance_repls {server : Server α} {repl : Replicator α} {number : Nat}
    (result : (match repl.advance me server with
      | none => some { server := server.crashed }
      | some repl => some { server := { server with
          repls := server.repls.set number repl
          nextId := server.nextId + 1 } }) = some out) :
    out.server.repls = server.repls ∨ ∃ repl', repl.advance me server = some repl' ∧
      out.server.repls = server.repls.set number repl' := by
  split at result
  case h_1 =>
    cases result
    exact .inl rfl
  case h_2 repl' advanced =>
    cases result
    exact .inr ⟨repl', advanced, rfl⟩

theorem Server.replStep_stirs {number : Nat} (result : sv.replStep me number = some out) :
    sv.Stirs me out.server.repls := by
  unfold Server.replStep at result
  simp only [Option.bind_eq_bind, Option.bind_eq_some_iff] at result
  obtain ⟨repl, found, result⟩ := result
  have moved : out.server.repls = sv.repls ∨ ∃ repl', repl.advance me sv = some repl' ∧
      out.server.repls = sv.repls.set number repl' := by
    split at result
    case h_1 stepDown =>
      -- the role is stopped first, but what the replicator does next does not depend on it
      obtain ⟨server, stopped, result⟩ := Option.bind_eq_some_iff.mp result
      have advances : repl.advance me server = repl.advance me sv := by
        simp only [Replicator.advance, stepDown]
      rw [← transRole_repls stopped, ← advances]
      exact Replicator.advance_repls result
    case h_2 => exact Replicator.advance_repls result
  rcases moved with same | ⟨repl', advanced, isSet⟩
  · exact same ▸ .refl
  · exact isSet ▸ .set found (.advances advanced)

/-- The replicators of a server after a step are those it had, one of them a step on, and
those of a new leader. -/
theorem Server.act_moves {act : Act α} (up : sv.up = true)
    (result : sv.act cfg me net act = some out) {repl' : Replicator α}
    (inside : repl' ∈ out.server.repls) :
    (∃ repl ∈ sv.repls, Replicator.Moves me sv repl repl') ∨
      ∃ peer, repl' = Leader.newReplicator out.server.roleId peer := by
  have same (unchanged : out.server.repls = sv.repls) :
      ∃ repl ∈ sv.repls, Replicator.Moves me sv repl repl' :=
    ⟨repl', unchanged ▸ inside, .stays⟩
  by_cases input : act.isInput = true
  · obtain ⟨server, rfl, takes⟩ := Server.act_takes input result
    exact .inl (takes.stirs repl' inside)
  cases Server.act_steps up result with
  | popped _ _ _ handles =>
      cases handles with
      | becameLeader =>
          simp only [List.mem_append, List.mem_map] at inside
          rcases inside with earlier | ⟨peer, -, rfl⟩
          · exact .inl ⟨repl', earlier, .stays⟩
          · exact .inr ⟨peer, rfl⟩
      | _ => exact .inl (same rfl)
  | executed _ _ executes => exact .inl (same executes.repls_eq)
  | applied _ applies => exact .inl (same applies.repls_eq)
  | advanced | steppedDown => exact .inl (replStep_stirs result repl' inside)
  | refreshed _ found => exact .inl (Server.Stirs.set found .renews repl' inside)
  | arrived isInput | polled isInput | polledEvent isInput | replied isInput
  | repliedEvent isInput => exact absurd isInput input
  | restarted => cases result
  | _ => exact .inl (same rfl)

end

/-! ## The next index -/

/-- The bounds of a search, and the snapshot of a request, are no indices below 0. -/
def ReplPc.Bounded : ReplPc α → Prop
  | .outer prevLogIndex | .finish prevLogIndex => -1 ≤ prevLogIndex
  | .inner l _ prevLogIndex => 0 ≤ l ∧ -1 ≤ prevLogIndex
  | .probeBuild l r prevLogIndex => 0 ≤ l ∧ l ≤ r ∧ -1 ≤ prevLogIndex
  | .probe l _ prevLogIndex m _ | .probing l _ prevLogIndex m _ =>
      0 ≤ l ∧ 0 ≤ m ∧ -1 ≤ prevLogIndex
  | .round call | .sending call =>
      ∀ snapshot ∈ call.args.snapshot, -1 ≤ snapshot.lastIncludeIndex
  | .stepDown | .head | .tick | .returned => True

/-- A replicator that is at no index below 0. -/
structure Replicator.Bounded (repl : Replicator α) : Prop where
  nextIndex : 0 ≤ repl.nextIndex
  pc : repl.pc.Bounded

namespace Replicator.Bounded

variable {me : Nat} {sv : Server α} {repl repl' : Replicator α}

theorem newReplicator (ld peer : Nat) :
    (Leader.newReplicator ld peer : Replicator α).Bounded :=
  ⟨Int.le_refl _, Int.le_refl _⟩

theorem lii_nonneg (sound : sv.logs.Sound) : 0 ≤ lii sv := by
  unfold lii
  cases isSnapshot : sv.logs.snapshot with
  | none => simp
  | some snapshot =>
      have ok := sound.snapshot snapshot isSnapshot
      have length := ok.length
      obtain ⟨last, isLast, -⟩ := Option.map_eq_some_iff.mp ok.term
      have something := List.length_pos_of_mem (List.mem_of_getLast? isLast)
      simp only [Option.map_some, Option.getD_some]
      omega

theorem buildProbe (ok : repl.Bounded) {l r prevLogIndex : Int}
    (building : repl.pc = .probeBuild l r prevLogIndex)
    (result : repl.buildProbe me sv l r prevLogIndex = some repl') : repl'.Bounded := by
  have bounds := ok.pc
  rw [building] at bounds
  obtain ⟨lower, order, prev⟩ := bounds
  simp only [Replicator.buildProbe, Option.bind_eq_bind, Option.bind_eq_some_iff] at result
  obtain ⟨⟨mTerm, found⟩, -, result⟩ := result
  cases found with
  | false =>
      cases result
      exact ⟨ok.nextIndex, prev⟩
  | true =>
      cases result
      exact ⟨ok.nextIndex, lower, by omega, prev⟩

theorem buildLog (sound : sv.logs.Sound) (ok : repl.Bounded)
    (result : repl.buildLog me sv = some repl') : repl'.Bounded := by
  simp only [Replicator.buildLog, Option.bind_eq_bind, Option.bind_eq_some_iff] at result
  obtain ⟨⟨snapshot, sendEntries⟩, payload, result⟩ := result
  cases result
  refine ⟨ok.nextIndex, fun carried isCarried => ?_⟩
  rcases sound.entriesAfter payload with ⟨rfl, -⟩ | ⟨sent, rfl, -⟩
  · have length := (sound.snapshot carried isCarried).length
    omega
  · cases isCarried

theorem advance (sound : sv.logs.Sound) (ok : repl.Bounded)
    (result : repl.advance me sv = some repl') : repl'.Bounded := by
  have bounds := ok.pc
  unfold Replicator.advance at result
  split at result
  case h_1 isOuter =>
    rw [isOuter] at bounds
    split at result <;> cases result
    · exact ⟨ok.nextIndex, lii_nonneg sound, bounds⟩
    · exact ⟨ok.nextIndex, bounds⟩
  case h_2 isInner =>
    rw [isInner] at bounds
    split at result
    case isTrue order =>
      cases result
      exact ⟨ok.nextIndex, bounds.1, order.2, bounds.2⟩
    case isFalse =>
      cases result
      exact ⟨ok.nextIndex, bounds.2⟩
  case h_3 building => exact ok.buildProbe building result
  case h_4 isProbe =>
    rw [isProbe] at bounds
    split at result <;> cases result
    · exact ⟨ok.nextIndex, bounds⟩
    · exact ⟨ok.nextIndex, bounds.2.2⟩
  case h_5 prevLogIndex isFinish =>
    rw [isFinish] at bounds
    cases result
    unfold matched
    split
    · exact ⟨by have : -1 ≤ prevLogIndex := bounds; simp only; omega, trivial⟩
    · exact ⟨ok.nextIndex, trivial⟩
  case h_6 =>
    cases result
    exact ⟨ok.nextIndex, trivial⟩
  case h_7 =>
    split at result
    case isTrue =>
      simp only [Option.bind_eq_bind, Option.bind_eq_some_iff] at result
      obtain ⟨_, -, result⟩ := result
      cases result
      exact ⟨ok.nextIndex, trivial⟩
    case isFalse =>
      cases result
      exact ⟨ok.nextIndex, trivial⟩
  case h_8 => exact ok.buildLog sound result
  case h_9 isRound =>
    rw [isRound] at bounds
    split at result <;> cases result
    · exact ⟨ok.nextIndex, bounds⟩
    · exact ⟨ok.nextIndex, trivial⟩
  all_goals
    cases result
    exact ok

theorem probed (ok : repl.Bounded) {l r prevLogIndex m : Int} {call : Call α}
    (sent : repl.pc = .probing l r prevLogIndex m call) (reply : AppendEntriesReply) :
    (repl.probed l r prevLogIndex m call reply).Bounded := by
  have bounds := ok.pc
  rw [sent] at bounds
  obtain ⟨lower, middle, prev⟩ := bounds
  unfold Replicator.probed
  split
  case h_1 => exact ⟨ok.nextIndex, by omega, by omega⟩
  case h_2 => exact ⟨ok.nextIndex, lower, prev⟩
  case h_3 => exact ⟨ok.nextIndex, trivial⟩
  case h_4 | h_5 => exact ⟨ok.nextIndex, lower, middle, prev⟩

theorem answered (ok : repl.Bounded) {call : Call α} (sent : repl.pc = .sending call)
    (reply : AppendEntriesReply) : (repl.answered call reply).1.Bounded := by
  have nonneg := ok.nextIndex
  have bounds := ok.pc
  rw [sent] at bounds
  unfold Replicator.answered
  split
  case h_1 | h_2 => exact ⟨nonneg, bounds⟩
  case h_3 => exact ⟨nonneg, trivial⟩
  case h_4 => exact ⟨nonneg, Int.le_refl _⟩
  case h_5 =>
    split
    case h_1 snapshot carried =>
      have base := bounds snapshot carried
      exact ⟨by simp only; omega, trivial⟩
    case h_2 =>
      dsimp only
      split
      case isTrue => exact ⟨by simp only; omega, trivial⟩
      case isFalse => exact ⟨nonneg, trivial⟩
    case h_3 => exact ⟨nonneg, trivial⟩

theorem receive (ok : repl.Bounded) (id : Nat) (reply : AppendEntriesReply) :
    (repl.receive sv id reply).1.Bounded := by
  have bounds := ok.pc
  unfold Replicator.receive
  split
  case h_1 sent =>
    rw [sent] at bounds
    split
    case isTrue =>
      split
      case isTrue =>
        split
        case isTrue => exact ok.probed sent reply
        case isFalse => exact ⟨ok.nextIndex, trivial⟩
      case isFalse => exact ⟨ok.nextIndex, bounds⟩
    case isFalse => exact ok
  case h_2 sent =>
    rw [sent] at bounds
    split
    case isTrue =>
      split
      case isTrue =>
        split
        case isTrue => exact ok.answered sent reply
        case isFalse => exact ⟨ok.nextIndex, trivial⟩
      case isFalse => exact ⟨ok.nextIndex, bounds⟩
    case isFalse => exact ok
  case h_3 => exact ok

theorem refresh (ok : repl.Bounded) : (repl.refresh sv).Bounded := by
  have bounds := ok.pc
  unfold Replicator.refresh
  dsimp only
  split
  case h_1 sent | h_2 sent =>
    rw [sent] at bounds
    exact ⟨ok.nextIndex, bounds⟩
  case h_3 => exact ok

theorem moves (sound : sv.logs.Sound) (ok : repl.Bounded) (moves : Moves me sv repl repl') :
    repl'.Bounded := by
  cases moves with
  | stays => exact ok
  | advances result => exact ok.advance sound result
  | receives id reply => exact ok.receive id reply
  | renews => exact ok.refresh

end Replicator.Bounded

/-- No replicator of any run is at an index below 0. -/
theorem Cluster.bounded {cfg : Config} {allowed : Cluster α → Label α → Prop}
    {labels : List (Label α)} {s : Cluster α} (run : Run (step cfg) allowed init labels s)
    {i : Nat} {repl : Replicator α} (inside : repl ∈ (s.servers i).repls) : repl.Bounded := by
  refine outcome_invariant (fun _ sv => ∀ repl ∈ sv.repls, repl.Bounded) ?_ ?_ run i repl inside
  · simp [Server.initial]
  · intro _ s label out earlier _ outcome ok repl' inside
    cases up : (s.servers label.server).up with
    | true =>
        rcases Server.act_moves up (outcome_act outcome up) inside with
          ⟨repl, before, moves⟩ | ⟨peer, rfl⟩
        · exact (ok repl before).moves (sound earlier _).memory moves
        · exact .newReplicator _ peer
    | false =>
        obtain ⟨-, made, -⟩ := (outcome_steps outcome).2.restarts up
        obtain ⟨applier, -, -, server⟩ := make_eq_some made
        simp [server] at inside

end GoLab.Raft
