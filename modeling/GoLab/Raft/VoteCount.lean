import Mathlib.Data.List.Dedup
import GoLab.Raft.Census

/-!
# Votes are counted by `VoterID`

The books of a candidate are in order at every moment of every run: the ballots in its
channel and those it has counted are those of different peers that granted it their vote,
and `votes` is one more than the number of `VoterID`s among the counted ones.  Voters that
were candidates or leaders when they took the request all carry `VoterID` 0.
-/

namespace GoLab.Raft

variable {α : Type}
variable {act : Act α} {cd' : Candidate} {ballot : Ballot} {rest : List (Event α)}

/-! ## The books of a candidate -/

/-- The term and the `VoterID` of a `VoteGrantEvent`. -/
def Event.vote? : Event α → Option (Int × Nat)
  | .voteGrant _ term voter => some (term, voter)
  | _ => none

/-- A step that brings no vote and counts none. -/
structure Uncounted (sv sv' : Server α) : Prop where
  roleId : sv'.roleId = sv.roleId
  role : ∀ cd', sv'.role = .candidate cd' →
    ∃ cd, sv.role = .candidate cd ∧ cd' = { cd with polls := cd'.polls } ∧
      cd'.polls.Sublist cd.polls
  events : sv'.evCh.filterMap Event.vote? = sv.evCh.filterMap Event.vote?
  elected : ∀ cd, sv'.role = .candidate cd → sv'.active = true → sv.active = true ∧
    (.transRole .leaderFromCandidate ∈ sv.todo → .transRole .leaderFromCandidate ∈ sv'.todo)

/-- The ballots of a candidate: `voters` and `votes` are those of the `VoterID`s counted, and
the voters are different peers that have granted their vote to this role. -/
structure Booked (cfg : Config) (net : List (Msg α)) (me : Nat) (sv : Server α) (books : Books)
    (cd : Candidate) : Prop where
  events : sv.evCh.filterMap Event.vote? =
    books.waiting.map fun ballot => (cd.args.term, ballot.reply.voterID)
  length : cd.voters.length = cfg.peers
  marks : ∀ voter, cd.voters[voter]? = some true ↔
    voter ∈ books.counted.map fun ballot => ballot.reply.voterID
  votes : cd.votes = 1 + (books.counted.map fun ballot => ballot.reply.voterID).dedup.length
  peers : books.voters.Nodup ∧
    ∀ voter ∈ books.voters, voter < cfg.peers ∧ voter ≠ me ∧ voter ∉ cd.polls
  ballots : ∀ ballot ∈ books.waiting ++ books.counted,
    .requestVoteReply ⟨me, sv.roleId⟩ ballot.voter ballot.reply ∈ net ∧
      ballot.reply.voteStatus = .voteGranted ∧
      ballot.reply.voterID = ballot.role.voterID ballot.voter
  elected : sv.active = true → books.counted ≠ [] → cfg.majorN ≤ cd.votes →
    .transRole .leaderFromCandidate ∈ sv.todo

namespace Booked

variable {cfg : Config} {net : List (Msg α)} {me : Nat} {sv sv' : Server α} {books : Books}
  {cd : Candidate}

theorem frame (ok : Booked cfg net me sv books cd) (uncounted : Uncounted sv sv')
    (candidate : sv.role = .candidate cd) (role : sv'.role = .candidate cd') :
    Booked cfg net me sv' books cd' := by
  obtain ⟨cd₀, candidate₀, same, fewer⟩ := uncounted.role cd' role
  cases candidate.symm.trans candidate₀
  rw [same]
  refine ⟨?_, ok.length, ok.marks, ok.votes, ?_, ?_, ?_⟩
  · rw [uncounted.events]
    exact ok.events
  · refine ⟨ok.peers.1, fun voter arrived => ?_⟩
    obtain ⟨inCluster, other, polled⟩ := ok.peers.2 voter arrived
    exact ⟨inCluster, other, fun waiting => polled (fewer.subset waiting)⟩
  · rw [uncounted.roleId]
    exact ok.ballots
  · intro running some majority
    obtain ⟨running, keeps⟩ := uncounted.elected cd' role running
    exact keeps (ok.elected running some majority)

theorem mono (ok : Booked cfg net me sv books cd) {net' : List (Msg α)} (grows : net ⊆ net') :
    Booked cfg net' me sv books cd where
  events := ok.events
  length := ok.length
  marks := ok.marks
  votes := ok.votes
  peers := ok.peers
  ballots := fun ballot membership =>
    ⟨grows (ok.ballots ballot membership).1, (ok.ballots ballot membership).2⟩
  elected := ok.elected

/-- A new candidate has its own vote only. -/
theorem enter (args : RequestVoteArgs) (polls : List Nat) (drained : sv.evCh = []) :
    Booked cfg net me sv .empty
      { args, votes := 1, voters := List.replicate cfg.peers false, polls } := by
  refine ⟨?_, by simp, ?_, rfl, ⟨.nil, by simp [Books.voters, Books.empty]⟩, ?_, ?_⟩
  · simp [drained, Books.empty]
  · intro voter
    simp [Books.empty, List.getElem?_replicate]
  · simp [Books.empty]
  · intro _ some
    exact (some rfl).elim

section

variable (ok : Booked cfg net me sv books cd)
include ok

/-- A vote arrives. -/
theorem receive (polls : cd.polls.Nodup ∧ ∀ peer ∈ cd.polls, peer < cfg.peers ∧ peer ≠ me)
    (waiting : ballot.voter ∈ cd.polls)
    (sent : .requestVoteReply ⟨me, sv.roleId⟩ ballot.voter ballot.reply ∈ net)
    (granted : ballot.reply.voteStatus = .voteGranted)
    (named : ballot.reply.voterID = ballot.role.voterID ballot.voter)
    (roleId : sv'.roleId = sv.roleId) (active : sv'.active = sv.active) (todo : sv'.todo = sv.todo)
    {role : Nat} (evCh : sv'.evCh = sv.evCh ++ [.voteGrant role cd.args.term ballot.reply.voterID])
     :
    Booked cfg net me sv' { books with waiting := books.waiting ++ [ballot] }
      { cd with polls := cd.polls.erase ballot.voter } := by
  have new : ballot.voter ∉ books.voters :=
    fun already => (ok.peers.2 _ already).2.2 waiting
  have voters (voter : Nat) : voter ∈
      ({ books with waiting := books.waiting ++ [ballot] } : Books).voters ↔
        voter ∈ books.voters ∨ voter = ballot.voter := by
    simp only [Books.voters, List.map_append, List.mem_append, List.map_cons, List.map_nil,
      List.mem_singleton]
    tauto
  refine ⟨?_, ok.length, ok.marks, ok.votes, ⟨?_, ?_⟩, ?_, ?_⟩
  · simp [evCh, ok.events, Event.vote?]
  · have perm : (({ books with waiting := books.waiting ++ [ballot] } : Books).voters).Perm
        (ballot.voter :: books.voters) := by
      simp [Books.voters, List.perm_middle]
    rw [perm.nodup_iff]
    exact List.nodup_cons.mpr ⟨new, ok.peers.1⟩
  · intro voter membership
    rcases (voters voter).mp membership with arrived | rfl
    · obtain ⟨inCluster, other, polled⟩ := ok.peers.2 voter arrived
      exact ⟨inCluster, other, fun still => polled (List.mem_of_mem_erase still)⟩
    · obtain ⟨inCluster, other⟩ := polls.2 _ waiting
      exact ⟨inCluster, other, polls.1.not_mem_erase⟩
  · intro other membership
    simp only [List.append_assoc, List.mem_append, List.mem_singleton] at membership
    rw [roleId]
    rcases membership with earlier | rfl | earlier
    · exact ok.ballots other (List.mem_append_left _ earlier)
    · exact ⟨sent, granted, named⟩
    · exact ok.ballots other (List.mem_append_right _ earlier)
  · rw [active, todo]
    exact ok.elected

/-- The next `VoteGrantEvent` is that of the first ballot. -/
theorem next_ballot {role voter : Nat} {term : Int}
    (next : sv.evCh = .voteGrant role term voter :: rest) :
    ∃ ballot waiting, books.waiting = ballot :: waiting ∧ term = cd.args.term ∧
      voter = ballot.reply.voterID ∧
      rest.filterMap Event.vote? =
        waiting.map fun later => (cd.args.term, later.reply.voterID) := by
  have events := ok.events
  rw [next, List.filterMap_cons] at events
  dsimp only [Event.vote?] at events
  cases isNext : books.waiting with
  | nil => simp [isNext] at events
  | cons ballot waiting =>
      simp only [isNext, List.map_cons, List.cons.injEq, Prod.mk.injEq] at events
      exact ⟨ballot, waiting, rfl, events.1.1, events.1.2, events.2⟩

/-- A ballot of the channel is put with those counted. -/
theorem take {waiting : List Ballot} (isNext : books.waiting = ballot :: waiting)
    (events : sv'.evCh.filterMap Event.vote? =
      waiting.map fun later => (cd.args.term, later.reply.voterID))
    (roleId : sv'.roleId = sv.roleId) (same : cd'.args = cd.args ∧ cd'.polls = cd.polls)
    (length : cd'.voters.length = cd.voters.length)
    (marks : ∀ voter, cd'.voters[voter]? = some true ↔
      voter = ballot.reply.voterID ∨ cd.voters[voter]? = some true)
    (counts : cd'.votes = if cd.voters[ballot.reply.voterID]? = some true then cd.votes
      else cd.votes + 1) (elected : sv'.active = true → cfg.majorN ≤ cd'.votes →
      .transRole .leaderFromCandidate ∈ sv'.todo) :
    Booked cfg net me sv' ⟨waiting, ballot :: books.counted⟩ cd' := by
  have perm : (waiting ++ ballot :: books.counted).Perm (books.waiting ++ books.counted) := by
    simp [isNext, List.perm_middle]
  refine ⟨by rwa [same.1], length.trans ok.length, ?_, ?_, ⟨?_, ?_⟩, ?_,
    fun running _ => elected running⟩
  · intro voter
    rw [marks voter, ok.marks, List.map_cons, List.mem_cons]
  · rw [counts, List.map_cons]
    split
    case isTrue again =>
      rw [List.dedup_cons_of_mem ((ok.marks _).mp again)]
      exact ok.votes
    case isFalse new =>
      rw [List.dedup_cons_of_notMem (fun again => new ((ok.marks _).mpr again)), ok.votes,
        List.length_cons, Nat.add_assoc]
  · exact (perm.map _).nodup_iff.mpr ok.peers.1
  · rw [same.2]
    exact fun voter arrived => ok.peers.2 voter ((perm.map _).mem_iff.mp arrived)
  · rw [roleId]
    exact fun other membership => ok.ballots other (perm.mem_iff.mp membership)

/-- An active candidate counts a vote once for each `VoterID`. -/
theorem count (running : sv.active = true) (candidate : sv.role = .candidate cd)
    (current : sv.term = cd.args.term) {role voter : Nat} {term : Int}
    (next : sv.evCh = .voteGrant role term voter :: rest) {out : Out α}
    (result : Candidate.auditVote cfg { sv with evCh := rest } cd term voter = some out)
    (role' : out.server.role = .candidate cd') :
    Booked cfg net me out.server
      ⟨books.waiting.tail, books.waiting.head?.toList ++ books.counted⟩ cd' := by
  obtain ⟨ballot, waiting, isNext, rfl, rfl, events⟩ := ok.next_ballot next
  simp only [isNext, List.tail_cons, List.head?_cons, Option.toList_some, List.singleton_append]
  unfold Candidate.auditVote at result
  rw [if_pos current, Option.bind_eq_bind, Option.bind_eq_some_iff] at result
  obtain ⟨counted, voterEq, result⟩ := result
  cases counted with
  | true =>
      cases result
      cases candidate.symm.trans role'
      apply ok.take isNext events
      · rfl
      · exact ⟨rfl, rfl⟩
      · rfl
      · intro voter
        constructor
        · exact .inr
        · rintro (rfl | marked)
          · exact voterEq
          · exact marked
      · rw [if_pos voterEq]
      · -- its other ballot was counted without a majority
        intro _ majority
        have some : books.counted ≠ [] := by
          intro none
          have marked := (ok.marks _).mp voterEq
          simp [none] at marked
        exact ok.elected running some majority
  | false =>
      cases result
      cases role'
      obtain ⟨bound, -⟩ := List.getElem?_eq_some_iff.mp voterEq
      apply ok.take isNext events
      · rfl
      · exact ⟨rfl, rfl⟩
      · exact List.length_set
      · intro voter
        rw [List.getElem?_set]
        split
        case isTrue same =>
          subst same
          simp [bound]
        case isFalse other => simp [Ne.symm other]
      · simp [voterEq]
      · intro _ majority
        simp [majority]

/-- A candidate that has been stopped drops the votes that come in. -/
theorem drop (stopped : sv.active = false) {role voter : Nat} {term : Int}
    (next : sv.evCh = .voteGrant role term voter :: rest) :
    Booked cfg net me { sv with evCh := rest } ⟨books.waiting.tail, books.counted⟩ cd := by
  obtain ⟨ballot, waiting, isNext, -, -, events⟩ := ok.next_ballot next
  have fewer : (waiting ++ books.counted).Sublist (books.waiting ++ books.counted) := by
    simp [isNext]
  simp only [isNext, List.tail_cons]
  refine ⟨events, ok.length, ok.marks, ok.votes, ⟨?_, ?_⟩, ?_, ?_⟩
  · exact (fewer.map _).nodup ok.peers.1
  · exact fun voter arrived => ok.peers.2 voter ((fewer.map _).subset arrived)
  · exact fun other membership => ok.ballots other (fewer.subset membership)
  · intro running
    simp [stopped] at running

end

end Booked

/-! ## Steps without a vote -/

namespace Uncounted

variable {cfg : Config} {net : List (Msg α)} {me : Nat} {sv sv' : Server α} {out : Out α}

/-- A step that leaves the role alone and pushes no vote. -/
theorem of_push (role : sv'.role = sv.role) (roleId : sv'.roleId = sv.roleId)
    (active : sv'.active = sv.active ∨ sv'.active = false) (todo : sv'.todo = sv.todo)
    {pushed : List (Event α)} (evCh : sv'.evCh = sv.evCh ++ pushed)
    (noVote : pushed.filterMap Event.vote? = []) : Uncounted sv sv' where
  roleId := roleId
  role := fun cd candidate => ⟨cd, role.symm.trans candidate, rfl, .refl _⟩
  events := by rw [evCh, List.filterMap_append, noVote, List.append_nil]
  elected := by
    intro _ _ running
    rcases active with active | stopped
    · exact ⟨active.symm.trans running, fun due => todo ▸ due⟩
    · simp [stopped] at running

/-- Taking an event other than a vote or a `TransEvent`. -/
theorem handles {ev : Event α} (idle : sv.todo = []) (next : sv.evCh = ev :: rest)
    (noVote : ev.vote? = none) (noTrans : ∀ transFunc, ev ≠ .trans transFunc)
    (handles : Handles cfg me { sv with evCh := rest } ev out) : Uncounted sv out.server := by
  refine ⟨?_, ?_, ?_, ?_⟩
  · cases handles with
    | becameFollower | becameCandidate | becameLeader => exact (noTrans _ rfl).elim
    | _ => rfl
  · cases handles with
    | becameFollower | becameCandidate | becameLeader => exact (noTrans _ rfl).elim
    | confirmed => exact nofun
    | counted => cases noVote
    | _ => exact fun cd candidate => ⟨cd, candidate, rfl, .refl _⟩
  · rw [handles.evCh_eq, next, List.filterMap_cons_none noVote]
  · cases handles with
    | becameFollower | becameCandidate | becameLeader => exact (noTrans _ rfl).elim
    | _ => exact fun _ _ running => ⟨running, by simp [idle]⟩

/-- Going on with a handler; the role a candidate leaves for is stopped at once. -/
theorem executes {op : Op α} {rest : List (Op α)} (next : sv.todo = op :: rest)
    (entering : .setActive ∈ sv.todo → ∃ rc, sv.role = .leader rc)
    (executes : Executes cfg me { sv with todo := rest } op out) : Uncounted sv out.server := by
  have keeps (other : op ≠ .transRole .leaderFromCandidate)
      (due : .transRole .leaderFromCandidate ∈ sv.todo) :
      .transRole .leaderFromCandidate ∈ rest := by
    rw [next] at due
    rcases List.mem_cons.mp due with rfl | later
    · exact (other rfl).elim
    · exact later
  refine ⟨by cases executes <;> rfl, ?_, ?_, ?_⟩
  · cases executes with
    | started => exact nofun
    | _ => exact fun cd candidate => ⟨cd, candidate, rfl, .refl _⟩
  · cases executes with
    | stopped => simp [Event.vote?]
    | _ => rfl
  · intro cd candidate running
    cases executes with
    | stopped => cases running
    | wasStopped stopped => exact (Bool.false_ne_true (stopped.symm.trans running)).elim
    | activated =>
        obtain ⟨rc, leader⟩ := entering (by simp [next])
        cases leader.symm.trans candidate
    | voteGiven | voteDenied =>
        exact ⟨running, fun due => List.mem_append_left _ (keeps (by simp) due)⟩
    | committed => exact ⟨running, fun due => .tail _ (keeps (by simp) due)⟩
    | _ => exact ⟨running, fun due => keeps (by simp) due⟩

/-- The steps of the other goroutines, the arrival of a message apart. -/
theorem steps (steps : Steps cfg me net sv act out) (notPop : act ≠ .pop)
    (notInput : act.isInput = false) (up : out.server.up = true) (wasUp : sv.up = true)
    (entering : .setActive ∈ sv.todo → ∃ rc, sv.role = .leader rc) : Uncounted sv out.server := by
  cases steps with
  | popped => exact (notPop rfl).elim
  | crashed => cases up
  | restarted down => simp [wasUp] at down
  | executed _ next executes => exact Uncounted.executes next entering executes
  | applied _ applies =>
      cases applies <;> exact .of_push rfl rfl (.inl rfl) rfl (List.append_nil _).symm rfl
  | snapshotPushed | steppedDown => exact .of_push rfl rfl (by simp) rfl rfl rfl
  | snapshotCalled | advanced | called | refreshed =>
      exact .of_push rfl rfl (.inl rfl) rfl (List.append_nil _).symm rfl
  | arrived input | polled input | polledEvent input | replied input | repliedEvent input =>
      simp [input] at notInput

end Uncounted

/-! ## The arrival of a vote -/

/-- What can come in from outside: a granted vote for the present candidate, or something
that is none. -/
inductive Incoming (net : List (Msg α)) (me : Nat) (sv : Server α) : Act α → Server α → Prop where
  | vote {msg src : Nat} {reply : RequestVoteReply} {cd : Candidate}
      (found : net[msg]? = some (.requestVoteReply ⟨me, sv.roleId⟩ src reply))
      (granted : reply.voteStatus = .voteGranted) (candidate : sv.role = .candidate cd)
      (waiting : src ∈ cd.polls) :
      Incoming net me sv (.receive msg) { sv with
        role := .candidate { cd with polls := cd.polls.erase src }
        evCh := sv.evCh ++ [.voteGrant sv.roleId cd.args.term reply.voterID] }
  | other {act : Act α} {sv' : Server α} (uncounted : Uncounted sv sv')
      (noVote : ∀ msg caller src reply, act = .receive msg →
        net[msg]? = some (.requestVoteReply caller src reply) →
        reply.voteStatus ≠ .voteGranted) :
      Incoming net me sv act sv'

section

variable {cfg : Config} {net : List (Msg α)} {me : Nat} {sv : Server α}

theorem Uncounted.polled {cd : Candidate} {src : Nat} (candidate : sv.role = .candidate cd)
    {pushed : List (Event α)} (noVote : pushed.filterMap Event.vote? = []) :
    Uncounted sv { sv with
      role := .candidate { cd with polls := cd.polls.erase src }
      evCh := sv.evCh ++ pushed } where
  roleId := rfl
  role := by
    rintro _ ⟨⟩
    exact ⟨cd, candidate, rfl, List.erase_sublist⟩
  events := by simp [noVote]
  elected := fun _ _ running => ⟨running, id⟩

theorem Uncounted.push {ev : Event α} {pushed : Server α} (result : sv.push ev = some pushed)
    (noVote : ev.vote? = none) : Uncounted sv pushed := by
  obtain ⟨-, rfl⟩ := Server.push_eq_some.mp result
  exact .of_push rfl rfl (.inl rfl) rfl rfl (List.filterMap_cons_none noVote)

theorem Uncounted.replReceive {number id : Nat} {reply : AppendEntriesReply} {server : Server α}
    (result : sv.replReceive number id reply = some server) : Uncounted sv server := by
  obtain ⟨repl, repl', ev?, -, receives, -, rfl⟩ := Server.replReceive_eq_some result
  refine .of_push rfl rfl (.inl rfl) rfl rfl ?_
  cases Replicator.receive_receives receives <;> rfl

theorem Server.Takes.incoming {server : Server α} (takes : sv.Takes me net act server) :
    Incoming net me sv act server := by
  cases takes with
  | event arrives noVote pushed =>
      refine .other (.push pushed (by cases arrives <;> rfl)) ?_
      exact fun msg caller src reply isReceive found =>
        absurd found (noVote msg caller src reply isReceive)
  | reply found received =>
      refine .other (.replReceive received) ?_
      rintro _ _ _ _ ⟨⟩ found'
      cases found.symm.trans found'
  | @vote msg _ src reply _ found polled =>
      obtain ⟨cd, candidate, ⟨-, rfl⟩, waiting, -, polls⟩ := votePolled_polls polled
      have other (refused : reply.voteStatus ≠ .voteGranted) (uncounted : Uncounted sv server) :
          Incoming net me sv (.receive msg) server := by
        refine .other uncounted ?_
        rintro _ _ _ _ ⟨⟩ found'
        cases found.symm.trans found'
        exact refused
      cases polls with
      | quiet notGranted =>
          refine other notGranted ?_
          simpa using @Uncounted.polled α sv cd src candidate [] rfl
      | event event =>
          cases event with
          | granted granted => exact .vote found granted candidate waiting
          | other isOther => exact other (by simp [isOther]) (.polled candidate rfl)
          | denied denied => exact other (by simp [denied]) (.polled candidate rfl)

end

/-! ## The books over a run -/

namespace Booked

variable {cfg : Config} {net : List (Msg α)} {me : Nat} {sv sv' : Server α} {books : Books}
  {out : Out α}

theorem uncounted (ok : ∀ cd, sv.role = .candidate cd → Booked cfg net me sv books cd)
    (uncounted : Uncounted sv sv') (role' : sv'.role = .candidate cd') {net' : List (Msg α)}
    (grows : net ⊆ net') : Booked cfg net' me sv' books cd' := by
  obtain ⟨cd, candidate, -⟩ := uncounted.role cd' role'
  exact ((ok cd candidate).frame uncounted candidate role').mono grows

/-- The processor takes an event. -/
theorem pop (ok : ∀ cd, sv.role = .candidate cd → Booked cfg net me sv books cd)
    (current : ∀ cd, sv.role = .candidate cd → sv.active = true → sv.todo = [] →
      sv.term = cd.args.term)
    (isolated : Isolated sv) (result : sv.pop cfg me = some out) (up : out.server.up = true)
    (role' : out.server.role = .candidate cd') (ballot? : Nat → Option Ballot) :
    Booked cfg (net ++ out.msgs) me out.server (books.record sv ballot? .pop) cd' := by
  obtain ⟨ev, rest, idle, next, handled⟩ := Server.pop_eq_some result up
  have handles := processEvent_handles handled
  have grows : net ⊆ net ++ out.msgs := List.subset_append_left ..
  cases ev with
  | trans transFunc =>
      obtain ⟨-, rfl⟩ := isolated.trans_last next
      simp only [Books.record, next]
      cases handles with
      | ignored _ other => exact (other _ rfl).elim
      | becameFollower | becameLeader => cases role'
      | becameCandidate =>
          cases role'
          exact .enter _ _ rfl
  | voteGrant role term voter =>
      simp only [Books.record, next]
      unfold processEvent at handled
      dsimp only at handled
      split at handled
      case isTrue running =>
        obtain ⟨cd, candidate, audited⟩ : ∃ cd, sv.role = .candidate cd ∧
            Candidate.auditVote cfg { sv with evCh := rest } cd term voter = some out := by
          unfold processRole at handled
          split at handled
          case h_1 follower =>
            cases handled
            cases follower.symm.trans role'
          case h_2 cd candidate => exact ⟨cd, candidate, handled⟩
          case h_3 leader =>
            cases handled
            cases leader.symm.trans role'
        rw [if_pos running]
        exact ((ok cd candidate).count running candidate (current cd candidate running idle) next
          audited role').mono grows
      case isFalse stopped =>
        cases handled
        rw [if_neg stopped]
        exact ((ok cd' role').drop (by simpa using stopped) next).mono grows
  | _ =>
      simp only [Books.record, next]
      exact .uncounted ok (.handles idle next rfl (by simp) handles) role' grows

end Booked

namespace Census

variable {cfg : Config} {allowed : Census α → Label α → Prop} {labels : List (Label α)}
  {s : Census α}

theorem ballot?_of_found {msg src : Nat} {caller : Caller} {reply : RequestVoteReply} {role : Role}
    (found : s.cluster.net[msg]? = some (.requestVoteReply caller src reply))
    (origin : s.origins[msg]? = some role) (granted : reply.voteStatus = .voteGranted) :
    s.ballot? msg = some ⟨src, role, reply⟩ := by
  simp [ballot?, found, origin, granted]

theorem ballot?_eq_none {msg : Nat} (noVote : ∀ caller src reply,
    s.cluster.net[msg]? = some (.requestVoteReply caller src reply) →
      reply.voteStatus ≠ .voteGranted) : s.ballot? msg = none := by
  unfold ballot?
  split
  case h_1 caller src reply role found origin => rw [if_neg (noVote caller src reply found)]
  case h_2 => rfl

/-- Something comes in from outside. -/
theorem Named.incoming {i : Nat} {sv' : Server α} (named : s.Named) (input : act.isInput = true)
    (ok : ∀ cd, (s.cluster.servers i).role = .candidate cd →
      Booked cfg s.cluster.net i (s.cluster.servers i) (s.books i) cd)
    (polling : ∀ cd, (s.cluster.servers i).role = .candidate cd →
      cd.polls.Nodup ∧ ∀ peer ∈ cd.polls, peer < cfg.peers ∧ peer ≠ i)
    (incoming : Incoming s.cluster.net i (s.cluster.servers i) act sv')
    (role' : sv'.role = .candidate cd') {net' : List (Msg α)} (grows : s.cluster.net ⊆ net') :
    Booked cfg net' i sv' ((s.books i).record (s.cluster.servers i) s.ballot? act) cd' := by
  cases incoming with
  | @vote msg src reply cd found granted candidate waiting =>
      cases role'
      obtain ⟨role, origin, voterID⟩ := named.messages msg _ src reply found granted
      simp only [Books.record, ballot?_of_found found origin granted, Option.toList_some]
      refine Booked.mono ?_ grows
      apply (ok cd candidate).receive (polling cd candidate)
      · exact waiting
      · exact List.mem_of_getElem? found
      · exact granted
      · exact voterID
      · rfl
      · rfl
      · rfl
      · rfl
  | other uncounted noVote =>
      have same : (s.books i).record (s.cluster.servers i) s.ballot? act = s.books i := by
        cases act with
        | receive msg =>
            have noBallot : s.ballot? msg = none :=
              ballot?_eq_none fun caller src reply => noVote msg caller src reply rfl
            simp [Books.record, noBallot]
        | start | heartBeat | election => rfl
        | _ => cases input
      rw [same]
      exact .uncounted ok uncounted role' grows

/-- Every candidate of every run has its books in order. -/
theorem booked (run : Run (step cfg) allowed init labels s) (i : Nat) (cd : Candidate)
    (up : (s.cluster.servers i).up = true)
    (candidate : (s.cluster.servers i).role = .candidate cd) :
    Booked cfg s.cluster.net i (s.cluster.servers i) (s.books i) cd := by
  refine Run.invariant (fun _ s => ∀ i cd, (s.cluster.servers i).up = true →
    (s.cluster.servers i).role = .candidate cd →
    Booked cfg s.cluster.net i (s.cluster.servers i) (s.books i) cd) ?_ ?_ run i cd up candidate
  · intro i cd _ candidate
    cases candidate
  · intro _ s label _ earlier ok _ taken i cd' up role'
    obtain ⟨out, outcome, rfl⟩ := step_eq_some taken
    obtain ⟨-, steps⟩ := Cluster.outcome_steps outcome
    have grows : s.cluster.net ⊆ s.cluster.net ++ out.msgs := List.subset_append_left ..
    by_cases acting : i = label.server
    · subst acting
      simp only [update, Cluster.update, if_true] at up role' ⊢
      cases wasUp : (s.cluster.servers label.server).up with
      | false =>
          obtain ⟨-, made, -⟩ := steps.restarts wasUp
          obtain ⟨applier, -, -, made⟩ := make_eq_some made
          simp [made] at role'
      | true =>
          have roles := Cluster.roles (run_cluster earlier) label.server wasUp
          have result := Cluster.outcome_act outcome wasUp
          have before := fun cd => ok label.server cd wasUp
          cases act : label.act with
          | pop =>
              rw [act] at result
              have isolated := Cluster.isolated (run_cluster earlier) label.server wasUp
              refine .pop before ?_ isolated result up role' _
              intro cd candidate running idle
              exact (roles.candidate cd candidate running (by simp [Server.steady, idle])).term
          | restart =>
              rw [act] at result
              cases result
          | start | heartBeat | election | receive =>
              rw [act] at result
              have polling := (Cluster.polling (run_cluster earlier)).1 label.server wasUp
              obtain ⟨_, rfl, takes⟩ := Server.act_takes rfl result
              exact (named earlier).incoming rfl before
                (fun cd candidate => (polling.counting cd candidate).polls)
                takes.incoming role' grows
          | _ =>
              exact .uncounted before (.steps steps (by simp [act]) (by simp [act, Act.isInput]) up
                wasUp roles.entering) role' grows
    · simp only [update, Cluster.update, if_neg acting] at up role' ⊢
      exact (ok i cd' up role').mono grows

end Census

/-! ## The count -/

namespace Ballot

theorem voterID_of_anonymous (anonymous : ballot.anonymous = true) :
    ballot.role.voterID ballot.voter = 0 := by
  rcases of_decide_eq_true anonymous with zero | other
  · cases ballot.role <;> simp [Role.voterID, zero]
  · exact Role.voterID_of_ne _ other

theorem voterID_of_named (named : ¬ ballot.anonymous = true) :
    ballot.role.voterID ballot.voter = ballot.voter ∧ ballot.voter ≠ 0 := by
  simp only [anonymous, decide_eq_true_eq, not_or, not_not] at named
  rw [named.2]
  exact ⟨rfl, named.1⟩

/-- Different voters have different `VoterID`s when at most one of them carries 0. -/
theorem nodup_voterID_iff {ballots : List Ballot} (different : (ballots.map voter).Nodup) :
    (ballots.map fun ballot => ballot.role.voterID ballot.voter).Nodup ↔
      (ballots.filter anonymous).length ≤ 1 := by
  induction ballots with
  | nil => simp
  | cons ballot rest ih =>
      obtain ⟨new, different⟩ := List.nodup_cons.mp different
      rw [List.map_cons, List.nodup_cons, ih different, List.filter_cons]
      split
      case isTrue isAnonymous =>
        have zero : (0 ∉ rest.map fun ballot => ballot.role.voterID ballot.voter) ↔
            rest.filter anonymous = [] := by
          rw [List.filter_eq_nil_iff, List.mem_map, not_exists]
          refine forall_congr' fun other => ?_
          rw [not_and]
          refine imp_congr_right fun _ => not_congr ⟨fun isZero => ?_, voterID_of_anonymous⟩
          by_contra named
          obtain ⟨isVoter, positive⟩ := voterID_of_named named
          exact positive (isVoter.symm.trans isZero)
        rw [voterID_of_anonymous isAnonymous, zero, List.length_cons]
        constructor
        · rintro ⟨none, -⟩
          simp [none]
        · intro one
          have none : rest.filter anonymous = [] := List.length_eq_zero_iff.mp (by omega)
          simp [none]
      case isFalse named =>
        obtain ⟨isVoter, positive⟩ := voterID_of_named named
        rw [isVoter, and_iff_right_iff_imp]
        intro _ again
        obtain ⟨other, membership, same⟩ := List.mem_map.mp again
        by_cases isAnonymous : other.anonymous = true
        · exact positive (same.symm.trans (voterID_of_anonymous isAnonymous))
        · rw [(voterID_of_named isAnonymous).1] at same
          exact new (List.mem_map.mpr ⟨other, membership, same⟩)

end Ballot

/-- The votes of a candidate that runs, at every moment of every run.  The ballots it has
processed while it was active are `VOTE_GRANTED` replies of different peers to its own
requests.  Its `votes` is one more than their number exactly when at most one of the voters
is server 0 or was a candidate or a leader when it took the request, and the candidate is
then on its way to become leader as soon as it has a majority. -/
theorem votes_counted {cfg : Config} {allowed : Census α → Label α → Prop}
    {labels : List (Label α)} {s : Census α} (run : Run (Census.step cfg) allowed .init labels s)
    {i : Nat} {cd : Candidate} (up : (s.cluster.servers i).up = true)
    (candidate : (s.cluster.servers i).role = .candidate cd) :
    ((s.books i).counted.map Ballot.voter).Nodup ∧
    (∀ ballot ∈ (s.books i).counted, ballot.voter < cfg.peers ∧ ballot.voter ≠ i ∧
      ballot.reply.voteStatus = .voteGranted ∧
      .requestVoteReply ⟨i, (s.cluster.servers i).roleId⟩ ballot.voter ballot.reply ∈
        s.cluster.net) ∧
    (cd.votes = 1 + (s.books i).counted.length ↔
      ((s.books i).counted.filter Ballot.anonymous).length ≤ 1) ∧
    (((s.books i).counted.filter Ballot.anonymous).length ≤ 1 → 1 < cfg.peers →
      (s.cluster.servers i).active = true → cfg.majorN ≤ 1 + (s.books i).counted.length →
      .transRole .leaderFromCandidate ∈ (s.cluster.servers i).todo) := by
  have booked := Census.booked run i cd up candidate
  generalize s.books i = books at booked ⊢
  have counted : (books.counted.map Ballot.voter).Sublist books.voters :=
    (List.sublist_append_right ..).map _
  have different := counted.nodup booked.peers.1
  have ids : (books.counted.map fun ballot => ballot.reply.voterID) =
      books.counted.map fun ballot => ballot.role.voterID ballot.voter :=
    List.map_congr_left fun ballot membership =>
      (booked.ballots ballot (List.mem_append_right _ membership)).2.2
  have exact_iff : cd.votes = 1 + books.counted.length ↔
      (books.counted.filter Ballot.anonymous).length ≤ 1 := by
    rw [← Ballot.nodup_voterID_iff different, ← ids, ← List.dedup_eq_self, booked.votes]
    constructor
    · intro counts
      refine (List.dedup_sublist _).eq_of_length ?_
      rw [List.length_map]
      omega
    · intro once
      rw [once, List.length_map]
  refine ⟨different, ?_, exact_iff, ?_⟩
  · intro ballot membership
    obtain ⟨inCluster, other, -⟩ :=
      booked.peers.2 _ (counted.subset (List.mem_map_of_mem membership))
    obtain ⟨sent, granted, -⟩ := booked.ballots ballot (List.mem_append_right _ membership)
    exact ⟨inCluster, other, granted, sent⟩
  · intro few several running majority
    refine booked.elected running ?_ (exact_iff.mpr few ▸ majority)
    rintro none
    simp only [none, List.length_nil, Config.majorN] at majority
    omega

/-- Server 0 of three stands for election, and counts the vote of server 1. -/
def firstVote : List (Label Nat) :=
  firstElection ++ Label.all 1 [.pop, .receive 0, .pop, .exec] ++ Label.all 0 [.receive 2, .pop]

theorem votes_counted_firstVote :
    ∃ s, Run (Census.step (Config.doubling 3)) (fun _ _ => True) .init firstVote s ∧
      (s.books 0).counted.map Ballot.voter = [1] ∧
      .transRole .leaderFromCandidate ∈ (s.cluster.servers 0).todo := by
  obtain ⟨s, run, up, running, candidate, ballots⟩ : ∃ s, Run (Census.step (Config.doubling 3))
      (fun _ _ => True) .init firstVote s ∧ (s.cluster.servers 0).up = true ∧
      (s.cluster.servers 0).active = true ∧
      (s.cluster.servers 0).role = .candidate
        { args := ⟨1, 0, ⟨-1, 0⟩⟩, votes := 2, voters := [false, true, false], polls := [2] } ∧
      (s.books 0).counted = [⟨1, .follower,
        { voterID := 1, voteStatus := .voteGranted, responsed := true }⟩] :=
    Run.exists_of_runSteps (by decide +kernel)
  obtain ⟨-, -, -, elected⟩ := votes_counted run up candidate
  rw [ballots] at elected
  exact ⟨s, run, by rw [ballots]; rfl, elected (by decide) (by decide) running (by decide)⟩

/-- Servers 1 and 2 of five stand in term 1, and server 4 in terms 1 and 2.  Both vote for
it in term 2, and it takes both votes. -/
def candidatesVote : List (Label Nat) :=
  Label.all 1 [.pop, .heartBeat, .pop, .exec, .pop] ++
  Label.all 2 [.pop, .heartBeat, .pop, .exec, .pop] ++
  Label.all 4 [.pop, .heartBeat, .pop, .exec, .pop, .election, .pop, .exec, .pop, .heartBeat,
    .pop, .exec, .pop] ++
  Label.all 1 [.receive 13, .pop, .exec, .exec, .exec] ++
  Label.all 2 [.receive 14, .pop, .exec, .exec, .exec] ++
  Label.all 4 [.receive 16, .receive 17, .pop, .pop]

/-- Two candidates that step down for server 4 give it a majority of five; it counts them as
one voter and goes on waiting. -/
theorem candidates_counted_as_one :
    ∃ s, Run (Census.step (Config.doubling 5)) (fun _ _ => True) .init candidatesVote s ∧
      (s.cluster.servers 4).up = true ∧ (s.cluster.servers 4).active = true ∧
      (s.cluster.servers 4).todo = [] ∧ (s.cluster.servers 4).evCh = [] ∧
      (s.cluster.servers 4).role = .candidate {
        args := ⟨2, 4, ⟨-1, 0⟩⟩
        votes := 2
        voters := [true, false, false, false, false]
        polls := [0, 3] } ∧
      (s.books 4).counted.map Ballot.voter = [2, 1] ∧
      (∀ ballot ∈ (s.books 4).counted, ballot.reply.voteStatus = .voteGranted) ∧
      (Config.doubling 5).majorN ≤ 1 + (s.books 4).counted.length :=
  Run.exists_of_runSteps (by decide +kernel)

end GoLab.Raft
