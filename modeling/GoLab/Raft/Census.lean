import GoLab.Raft.Election

/-!
# The votes of an election, voter by voter

A candidate keeps apart the votes it has counted by the `VoterID` each reply carries, and
a reply names its voter only when the voter was a follower when it took the request.
`Census` is the cluster with a record of the voters themselves: for every candidate the
ballots that wait in its channel and those it has counted, each with the peer that cast it
and the role in which that peer took the request.
-/

namespace GoLab.Raft

variable {α : Type}

/-- The `VoterID` server `me` fills in when it takes a request for votes in this role. -/
def Role.voterID : Role → Nat → Nat
  | .follower, me => me
  | _, _ => 0

/-- A granted vote: the peer that granted it, the role in which it took the request, and its
reply. -/
structure Ballot where
  voter : Nat
  role : Role
  reply : RequestVoteReply
  deriving DecidableEq, Repr

/-- The reply of a ballot carries `VoterID` 0. -/
def Ballot.anonymous (ballot : Ballot) : Bool :=
  ballot.voter = 0 ∨ ballot.role ≠ .follower

/-- The ballots of a candidate: in its channel, and processed while it was active. -/
structure Books where
  waiting : List Ballot
  counted : List Ballot
  deriving DecidableEq, Repr

namespace Books

def empty : Books := ⟨[], []⟩

/-- The peers whose vote has arrived. -/
def voters (books : Books) : List Nat :=
  (books.waiting ++ books.counted).map Ballot.voter

/-- What a step of a server does to its books: a granted reply arrives, a `VoteGrantEvent`
is taken, and a new role starts with none. -/
def record (books : Books) (sv : Server α) (ballot? : Nat → Option Ballot) : Act α → Books
  | .receive msg => { books with waiting := books.waiting ++ (ballot? msg).toList }
  | .pop =>
      match sv.evCh with
      | .voteGrant _ _ _ :: _ => {
          waiting := books.waiting.tail
          counted := if sv.active then books.waiting.head?.toList ++ books.counted
            else books.counted }
      | .trans _ :: _ => empty
      | _ => books
  | .restart => empty
  | _ => books

end Books

/-- A cluster with, for every server, the role in which its processor took the event it is
at, the same for every message of the network, and the books of its elections. -/
structure Census (α : Type) where
  cluster : Cluster α
  handling : Nat → Role
  origins : List Role
  books : Nat → Books

namespace Census

def init : Census α where
  cluster := .init
  handling := fun _ => .follower
  origins := []
  books := fun _ => .empty

/-- The ballot a message of the network is. -/
def ballot? (s : Census α) (msg : Nat) : Option Ballot :=
  match s.cluster.net[msg]?, s.origins[msg]? with
  | some (.requestVoteReply _ src reply), some role =>
      if reply.voteStatus = .voteGranted then some ⟨src, role, reply⟩ else none
  | _, _ => none

/-- The role in which the acting server takes or took the event it is at. -/
def taking (s : Census α) (label : Label α) : Role :=
  match label.act with
  | .pop => (s.cluster.servers label.server).role
  | _ => s.handling label.server

/-- Put the outcome of a step in place, and record it. -/
def update (s : Census α) (label : Label α) (out : Out α) : Census α where
  cluster := s.cluster.update label.server out
  handling := fun j => if j = label.server then s.taking label else s.handling j
  origins := s.origins ++ List.replicate out.msgs.length (s.taking label)
  books := fun j =>
    if j = label.server then
      (s.books j).record (s.cluster.servers j) s.ballot? label.act
    else s.books j

/-- One step of the cluster, recorded. -/
def step (cfg : Config) (label : Label α) (s : Census α) : Option (Census α) :=
  (s.cluster.outcome cfg label).map (s.update label)

theorem step_eq_some {cfg : Config} {label : Label α} {s s' : Census α}
    (taken : step cfg label s = some s') :
    ∃ out, s.cluster.outcome cfg label = some out ∧ s' = s.update label out := by
  obtain ⟨out, outcome, rfl⟩ := Option.map_eq_some_iff.mp taken
  exact ⟨out, outcome, rfl⟩

/-- The record leaves the cluster alone. -/
theorem run_cluster {cfg : Config} {allowed : Census α → Label α → Prop}
    {labels : List (Label α)} {s : Census α} (run : Run (step cfg) allowed init labels s) :
    Run (Cluster.step cfg) (fun _ _ => True) .init labels s.cluster := by
  induction run with
  | start => exact .start
  | next _ _ taken ih =>
      obtain ⟨out, outcome, rfl⟩ := step_eq_some taken
      refine ih.next trivial ?_
      rw [Cluster.step, outcome]
      rfl

end Census

/-! ## How a vote names its voter -/

/-- The votes a processor is about to give carry the `VoterID` of the role in which it took
the request. -/
structure Names (me : Nat) (role : Role) (sv : Server α) : Prop where
  grants : ∀ caller args, .grantVote caller args ∈ sv.todo → role ≠ .follower
  replies : ∀ caller args reply, .replyRequestVote caller args reply ∈ sv.todo →
    reply.voteStatus = .voteGranted → reply.voterID = role.voterID me

theorem Role.voterID_of_ne {role : Role} (me : Nat) (other : role ≠ .follower) :
    role.voterID me = 0 := by
  cases role with
  | follower => exact (other rfl).elim
  | candidate | leader => rfl

section

variable {cfg : Config} {me : Nat} {sv : Server α} {caller : Caller} {args : RequestVoteArgs}
  {out : Out α}

variable {args' : RequestVoteArgs} {reply : RequestVoteReply}

theorem Follower.requestVote_voterID (result : Follower.requestVote me sv caller args = some out)
    {caller' : Caller} (due : .replyRequestVote caller' args' reply ∈ out.server.todo) :
    reply.voterID = me := by
  unfold Follower.requestVote at result
  dsimp only at result
  split at result
  case isTrue =>
    cases result
    simp_all
  split at result
  case isTrue =>
    split at result <;> cases result <;> simp_all
  case isFalse =>
    simp only [Option.bind_eq_bind, Option.bind_eq_some_iff] at result
    obtain ⟨raised, -, upToDate, -, result⟩ := result
    cases upToDate <;> cases result <;> simp_all

theorem Candidate.requestVote_voterID (result : Candidate.requestVote me sv caller args = some out)
    {caller' : Caller} (due : .replyRequestVote caller' args' reply ∈ out.server.todo) :
    reply.voterID = 0 := by
  unfold Candidate.requestVote at result
  dsimp only at result
  split at result
  case isTrue =>
    cases result
    simp_all
  split at result
  case isTrue =>
    split at result <;> cases result <;> simp_all
  case isFalse =>
    simp only [Option.bind_eq_bind, Option.bind_eq_some_iff] at result
    obtain ⟨raised, -, result⟩ := result
    cases result
    simp_all

theorem Leader.requestVote_voterID (result : Leader.requestVote sv caller args = some out)
    {caller' : Caller} (due : .replyRequestVote caller' args' reply ∈ out.server.todo) :
    reply.voterID = 0 := by
  unfold Leader.requestVote at result
  split at result
  case isTrue =>
    cases result
    simp_all
  case isFalse =>
    simp only [Option.bind_eq_bind, Option.bind_eq_some_iff] at result
    obtain ⟨raised, -, result⟩ := result
    cases result
    simp_all

theorem Names.processEvent {ev : Event α} (result : processEvent cfg me sv ev = some out)
    (idle : sv.todo = []) : Names me sv.role out.server := by
  have handles := processEvent_handles result
  obtain ⟨grants, replies⟩ := handles.asks idle
  constructor
  · intro caller args due
    cases grants caller args due
    cases handles with
    | ignored => simp [idle] at due
    | voteRefused | voteRepeated | voteGiven | voteDenied => simp at due
    | candidateVote _ candidate => simp [candidate]
    | leaderVote _ leader => simp [leader]
  · intro caller args reply due _
    cases replies caller args reply due
    unfold Raft.processEvent at result
    dsimp only at result
    split at result
    case isTrue =>
      unfold processRole at result
      split at result
      case h_1 follower =>
        rw [follower]
        exact Follower.requestVote_voterID result due
      case h_2 candidate =>
        rw [candidate]
        exact Candidate.requestVote_voterID result due
      case h_3 leader =>
        rw [leader]
        exact Leader.requestVote_voterID result due
    case isFalse =>
      cases result
      simp [discardEv, idle] at due

/-- A step between two events keeps the votes that are due. -/
theorem Names.steps {net : List (Msg α)} {act : Act α} {role : Role}
    (ok : sv.up = true → Names me role sv) (steps : Steps cfg me net sv act out)
    (notPop : act ≠ .pop) (up : out.server.up = true) : Names me role out.server := by
  cases steps with
  | popped => exact (notPop rfl).elim
  | crashed => cases up
  | restarted _ made =>
      obtain ⟨applier, -, -, rfl⟩ := make_eq_some made
      exact ⟨by simp, by simp⟩
  | applied up applies => cases applies <;> exact ⟨(ok up).grants, (ok up).replies⟩
  | @executed op rest _ up next executes =>
      have grants : ∀ caller args, .grantVote caller args ∈ rest → role ≠ .follower :=
        fun caller args due => (ok up).grants caller args (by rw [next]; exact .tail _ due)
      have replies : ∀ caller args reply, .replyRequestVote caller args reply ∈ rest →
          reply.voteStatus = .voteGranted → reply.voterID = role.voterID me :=
        fun caller args reply due =>
          (ok up).replies caller args reply (by rw [next]; exact .tail _ due)
      cases executes with
      | committed => exact ⟨by simpa using grants, by simpa using replies⟩
      | @voteGiven caller args =>
          have other := (ok up).grants caller args (by simp [next])
          refine ⟨by simpa using grants, ?_⟩
          simp only [List.mem_append, List.mem_singleton, Op.replyRequestVote.injEq]
          rintro caller args reply (due | ⟨rfl, rfl, rfl⟩) granted
          · exact replies caller args reply due granted
          · rw [Role.voterID_of_ne me other]
      | voteDenied =>
          refine ⟨by simpa using grants, ?_⟩
          simp only [List.mem_append, List.mem_singleton, Op.replyRequestVote.injEq]
          rintro caller args reply (due | ⟨rfl, rfl, rfl⟩) granted
          · exact replies caller args reply due granted
          · cases granted
      | _ => exact ⟨grants, replies⟩
  | _ => exact ⟨(ok ‹_›).grants, (ok ‹_›).replies⟩

/-- Only the end of a handler sends a vote. -/
theorem Steps.vote_sent {net : List (Msg α)} {act : Act α} {src : Nat}
    (steps : Steps cfg me net sv act out) (sent : .requestVoteReply caller src reply ∈ out.msgs)
    (granted : reply.voteStatus = .voteGranted) :
    act = .exec ∧ sv.up = true ∧ src = me ∧ ∃ args due,
      .replyRequestVote caller args due ∈ sv.todo ∧ reply = { due with responsed := true } := by
  cases steps with
  | popped _ _ _ handles =>
      cases handles with
      | ignored refusal =>
          rcases refusal with rfl | ⟨other, rfl⟩ | ⟨other, rfl⟩
          · simp at sent
          · simp only [List.mem_singleton, Msg.requestVoteReply.injEq] at sent
            obtain ⟨-, -, rfl⟩ := sent
            cases granted
          · simp at sent
      | _ => simp at sent
  | executed up next executes =>
      cases executes with
      | @voteAnswered other args due =>
          simp only [List.mem_singleton, Msg.requestVoteReply.injEq] at sent
          obtain ⟨rfl, rfl, rfl⟩ := sent
          exact ⟨rfl, up, rfl, args, due, by simp [next], rfl⟩
      | _ => simp at sent
  | applied _ applies => cases applies <;> simp at sent
  | _ => simp at sent

end

/-- Every vote under way or sent carries the `VoterID` of the role in which its voter took
the request. -/
structure Census.Named (s : Census α) : Prop where
  servers : ∀ i, (s.cluster.servers i).up = true → Names i (s.handling i) (s.cluster.servers i)
  length : s.origins.length = s.cluster.net.length
  messages : ∀ (msg : Nat) (caller : Caller) (src : Nat) (reply : RequestVoteReply),
    s.cluster.net[msg]? = some (.requestVoteReply caller src reply) →
    reply.voteStatus = .voteGranted →
    ∃ role, s.origins[msg]? = some role ∧ reply.voterID = role.voterID src

/-- The processor takes an event and handles it, or crashes. -/
theorem Server.pop_eq_some {cfg : Config} {me : Nat} {sv : Server α} {out : Out α}
    (result : sv.pop cfg me = some out) (up : out.server.up = true) :
    ∃ ev rest, sv.todo = [] ∧ sv.evCh = ev :: rest ∧
      processEvent cfg me { sv with evCh := rest } ev = some out := by
  unfold Server.pop at result
  split at result
  case h_1 ev rest idle next =>
    cases handled : processEvent cfg me { sv with evCh := rest } ev with
    | none =>
        simp only [handled, Server.orCrash, Option.getD_none, Option.some.injEq] at result
        subst result
        cases up
    | some out' =>
        simp only [handled, Server.orCrash, Option.getD_some, Option.some.injEq] at result
        subst result
        exact ⟨ev, rest, idle, next, handled⟩
  case h_2 => cases result

namespace Census

variable {cfg : Config} {allowed : Census α → Label α → Prop} {labels : List (Label α)}
  {s : Census α}

theorem Named.acting {label : Label α} {out : Out α} (ok : s.Named)
    (outcome : s.cluster.outcome cfg label = some out) (up : out.server.up = true) :
    Names label.server (s.taking label) out.server := by
  obtain ⟨-, steps⟩ := Cluster.outcome_steps outcome
  unfold taking
  split
  case h_1 pop =>
    cases wasUp : (s.cluster.servers label.server).up with
    | false =>
        have restart := (steps.restarts wasUp).1
        rw [pop] at restart
        cases restart
    | true =>
        have result := Cluster.outcome_act outcome wasUp
        rw [pop] at result
        obtain ⟨ev, rest, idle, -, handled⟩ := Server.pop_eq_some result up
        have names := Names.processEvent handled idle
        exact names
  case h_2 notPop => exact .steps (ok.servers _) steps notPop up

theorem named (run : Run (step cfg) allowed init labels s) : s.Named := by
  refine Run.invariant (fun _ s => s.Named) ?_ ?_ run
  · exact ⟨fun _ _ => ⟨by simp [init, Cluster.init, Server.initial],
      by simp [init, Cluster.init, Server.initial]⟩, rfl, by simp [init, Cluster.init]⟩
  · intro _ s label _ _ ok _ taken
    obtain ⟨out, outcome, rfl⟩ := step_eq_some taken
    obtain ⟨-, steps⟩ := Cluster.outcome_steps outcome
    refine ⟨fun i up => ?_, by simp [update, Cluster.update, ok.length], ?_⟩
    · by_cases acting : i = label.server
      · subst acting
        simp only [update, Cluster.update, if_true] at up ⊢
        exact ok.acting outcome up
      · simp only [update, Cluster.update, if_neg acting] at up ⊢
        exact ok.servers i up
    · intro msg caller src reply found granted
      simp only [update, Cluster.update, List.getElem?_append, ok.length] at found ⊢
      split at found
      case isTrue old =>
        rw [if_pos old]
        exact ok.messages msg caller src reply found granted
      case isFalse new =>
        rw [if_neg new]
        obtain ⟨exec, up, rfl, args, due, isDue, rfl⟩ :=
          steps.vote_sent (List.mem_of_getElem? found) granted
        obtain ⟨bound, -⟩ := List.getElem?_eq_some_iff.mp found
        refine ⟨s.taking label, by simp [bound], ?_⟩
        simp only [taking, exec]
        exact (ok.servers _ up).replies caller args due isDue granted

end Census

end GoLab.Raft
