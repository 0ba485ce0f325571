import GoLab.Raft.Election
import GoLab.Raft.LogMatching
import GoLab.Raft.Retention

/-!
# Replies belong to requests

Whatever a server processes was sent to it, and a reply answers a request of the call it
is for.  The calls of a server have different numbers, so that all requests with the
number of a call carry the payload of that call and go to its peer.
-/

namespace GoLab.Raft

variable {α : Type}
variable {cfg : Config} {me : Nat} {allowed : Cluster α → Label α → Prop} {labels : List (Label α)}
  {s : Cluster α} {sv : Server α} {out : Out α} {act : Act α} {net : List (Msg α)}

/-! ## Requests come from the network -/

/-- The requests a server has received or is about to answer were sent to it. -/
structure Addressed (net : List (Msg α)) (i : Nat) (sv : Server α) : Prop where
  requests : ∀ caller args, .appendEntries caller args ∈ sv.evCh →
    .appendEntries caller i args ∈ net
  answers : ∀ caller args reply, .replyAppendEntries caller args reply ∈ sv.todo →
    .appendEntries caller i args ∈ net
  votes : ∀ caller args, .requestVote caller args ∈ sv.evCh → .requestVote caller i args ∈ net
  grants : ∀ caller args, .grantVote caller args ∈ sv.todo → .requestVote caller i args ∈ net

theorem Addressed.mono {net net' : List (Msg α)} {i : Nat} (addressed : Addressed net i sv)
    (grows : net ⊆ net') : Addressed net' i sv where
  requests caller args received := grows (addressed.requests caller args received)
  answers caller args reply due := grows (addressed.answers caller args reply due)
  votes caller args received := grows (addressed.votes caller args received)
  grants caller args due := grows (addressed.grants caller args due)

/-- Where the operations that answer a request come from. -/
theorem Steps.mem_todo (steps : Steps cfg me net sv act out) (stays : out.server.up = true) :
    (∀ caller args reply, .replyAppendEntries caller args reply ∈ out.server.todo →
      sv.up = true ∧ (.replyAppendEntries caller args reply ∈ sv.todo ∨
        .appendEntries caller args ∈ sv.evCh)) ∧
    ∀ caller args, .grantVote caller args ∈ out.server.todo →
      sv.up = true ∧ (.grantVote caller args ∈ sv.todo ∨ .requestVote caller args ∈ sv.evCh) := by
  cases steps with
  | popped up idle next handles =>
      refine ⟨fun caller args reply due => ⟨up, .inr ?_⟩, fun caller args due => ⟨up, .inr ?_⟩⟩
      · obtain ⟨rfl, -⟩ := handles.replies idle due
        simp [next]
      · cases (handles.asks idle).1 caller args due
        simp [next]
  | executed up next executes => cases executes <;> simp_all
  | applied up applies => cases applies <;> simp_all
  | crashed => cases stays
  | restarted _ made =>
      obtain ⟨applier, -, -, rfl⟩ := make_eq_some made
      simp
  | _ => simp_all

/-- A reply `ENTRY_MATCH` is sent with the answer that is recorded. -/
theorem Steps.mem_reply (steps : Steps cfg me net sv act out) {caller : Caller}
    {reply : AppendEntriesReply} (isSent : .appendEntriesReply caller reply ∈ out.msgs)
    (isMatch : reply.entryStatus = .entryMatch) : sv.up = true ∧ ∃ args reply',
      .replyAppendEntries caller args reply' ∈ sv.todo ∧
        .answered me args .entryMatch ∈ out.obs := by
  cases steps with
  | popped _ _ _ handles =>
      cases handles with
      | ignored refusal =>
          rcases refusal with rfl | ⟨_, rfl⟩ | ⟨_, rfl⟩
          · cases isSent
          · simp at isSent
          · cases List.mem_singleton.mp isSent
            cases isMatch
      | _ => simp at isSent
  | executed up next executes =>
      cases executes with
      | @answered _ args reply' =>
          cases List.mem_singleton.mp isSent
          refine ⟨up, args, reply', by simp [next], ?_⟩
          dsimp only at isMatch
          rw [isMatch]
          exact .head _
      | _ => simp at isSent
  | applied _ applies => cases applies <;> simp at isSent
  | _ => simp at isSent

/-- An answer `ENTRY_MATCH` in the network answers a request that was sent. -/
def Msg.Answers (s : Cluster α) : Msg α → Prop
  | .appendEntriesReply caller reply => reply.entryStatus = .entryMatch →
      ∃ dst args, .appendEntries caller dst args ∈ s.net ∧
        .answered dst args .entryMatch ∈ s.obs
  | _ => True

theorem Cluster.addressed (run : Run (step cfg) allowed init labels s) :
    (∀ i, (s.servers i).up = true → Addressed s.net i (s.servers i)) ∧
      ∀ msg ∈ s.net, msg.Answers s := by
  refine global_invariant (fun _ s i sv => sv.up = true → Addressed s.net i sv)
    (fun _ s msg => msg.Answers s) ?_ ?_ ?_ run
  · exact fun _ _ => ⟨by simp [Server.initial], by simp [Server.initial], by simp [Server.initial],
      by simp [Server.initial]⟩
  · intro _ s i _ out _ _
    refine ⟨fun j sv addressed isUp => (addressed isUp).mono (List.subset_append_left ..),
      fun msg answers => ?_⟩
    cases msg with
    | appendEntriesReply caller reply =>
        intro isMatch
        obtain ⟨dst, args, sent, answered⟩ := answers isMatch
        exact ⟨dst, args, List.mem_append_left _ sent, List.mem_append_right _ answered⟩
    | _ => trivial
  · intro _ s i act out earlier before _ _ _ steps
    have onward (up : (s.servers i).up = true) :
        Addressed (s.update i out).net i (s.servers i) :=
      (before i up).mono (List.subset_append_left ..)
    refine ⟨fun stays => ?_, fun msg isSent => ?_⟩
    · cases isUp : (s.servers i).up with
      | false =>
          obtain ⟨-, made, -⟩ := steps.restarts isUp
          obtain ⟨applier, -, -, server⟩ := make_eq_some made
          rw [server]
          exact ⟨by simp, by simp, by simp, by simp⟩
      | true =>
          have addressed := onward isUp
          obtain ⟨answers, grants⟩ := steps.mem_todo stays
          refine ⟨fun caller args received => ?_, fun caller args reply due => ?_,
            fun caller args received => ?_, fun caller args due => ?_⟩
          · exact (steps.mem_evCh rfl received).elim (addressed.requests caller args)
              (List.mem_append_left _)
          · exact (answers caller args reply due).2.elim (addressed.answers caller args reply)
              (addressed.requests caller args)
          · exact (steps.mem_evCh rfl received).elim (addressed.votes caller args)
              (List.mem_append_left _)
          · exact (grants caller args due).2.elim (addressed.grants caller args)
              (addressed.votes caller args)
    · cases msg with
      | appendEntriesReply caller reply =>
          intro isMatch
          obtain ⟨up, args, reply', due, answered⟩ := steps.mem_reply isSent isMatch
          exact ⟨i, args, (onward up).answers caller args reply' due,
            List.mem_append_left _ answered⟩
      | _ => trivial

/-! ## The calls of a server -/

/-- A replicator is in the call it was in, or in none. -/
def Replicator.Continues (repl repl' : Replicator α) : Prop :=
  ∀ call', repl'.calling = some call' → ∃ call, repl.calling = some call ∧ call'.id = call.id ∧
    repl'.peerId = repl.peerId ∧ call'.args.term = call.args.term ∧
    call'.args.snapshot = call.args.snapshot ∧ call'.args.sendEntries = call.args.sendEntries

theorem Replicator.Continues.refl {repl : Replicator α} : repl.Continues repl :=
  fun call calling => ⟨call, calling, rfl, rfl, rfl, rfl, rfl⟩

theorem Replicator.Continues.of_none {repl repl' : Replicator α} (noCall : repl'.pc.call? = none) :
    repl.Continues repl' :=
  fun call calling => by simp [call?_of_calling calling] at noCall

/-- The calls of a server have numbers of their own, and every request with the number of
a call is related to what the call was built with. -/
structure Numbered (same : Nat → AppendEntriesArgs α → Nat → AppendEntriesArgs α → Prop)
    (net : List (Msg α)) (i : Nat) (sv : Server α) : Prop where
  sent : ∀ caller dst args, .appendEntries caller dst args ∈ net → caller.server = i →
    caller.call < sv.nextId
  fresh : ∀ repl ∈ sv.repls, ∀ call, repl.calling = some call → call.id < sv.nextId
  distinct : ∀ (n m : Nat) repl repl' call call', sv.repls[n]? = some repl →
    sv.repls[m]? = some repl' → repl.calling = some call → repl'.calling = some call' →
    call.id = call'.id → n = m
  same : ∀ repl ∈ sv.repls, ∀ call, repl.calling = some call →
    ∀ dst args, .appendEntries ⟨i, call.id⟩ dst args ∈ net → same repl.peerId call.args dst args

/-- A relation of requests that renewing `LeaderCommit` does not touch. -/
def Renewable (same : Nat → AppendEntriesArgs α → Nat → AppendEntriesArgs α → Prop) : Prop :=
  ∀ peer built built' dst args, built'.term = built.term → built'.snapshot = built.snapshot →
    built'.sendEntries = built.sendEntries → same peer built dst args → same peer built' dst args

namespace Numbered

variable {same : Nat → AppendEntriesArgs α → Nat → AppendEntriesArgs α → Prop}
  {net net' : List (Msg α)} {i : Nat} {sv sv' : Server α}

/-- The requests of other servers. -/
theorem foreign (ok : Numbered same net i sv)
    (others : ∀ caller dst args, .appendEntries caller dst args ∈ net' →
      .appendEntries caller dst args ∈ net ∨ caller.server ≠ i) : Numbered same net' i sv where
  sent caller dst args isSent own :=
    ok.sent caller dst args ((others caller dst args isSent).resolve_right (· own)) own
  fresh := ok.fresh
  distinct := ok.distinct
  same repl inside call calling dst args isSent :=
    ok.same repl inside call calling dst args ((others _ dst args isSent).resolve_right (· rfl))

/-- Every call was there before, with its replicator at the same place. -/
theorem shrink (ok : Numbered same net i sv) (renewable : Renewable same)
    (nextId : sv.nextId ≤ sv'.nextId)
    (repls : ∀ (n : Nat) repl', sv'.repls[n]? = some repl' → repl'.calling ≠ none →
      ∃ repl, sv.repls[n]? = some repl ∧ repl.Continues repl') : Numbered same net i sv' where
  sent caller dst args isSent own :=
    Nat.lt_of_lt_of_le (ok.sent caller dst args isSent own) nextId
  fresh repl' inside call' calling' := by
    obtain ⟨n, found'⟩ := List.mem_iff_getElem?.mp inside
    obtain ⟨repl, found, continues⟩ := repls n repl' found' (by simp [calling'])
    obtain ⟨call, calling, id, -⟩ := continues call' calling'
    rw [id]
    exact Nat.lt_of_lt_of_le (ok.fresh repl (List.mem_of_getElem? found) call calling) nextId
  distinct n m first second call call' foundFirst foundSecond callingFirst callingSecond
      isSame := by
    obtain ⟨repl, found, continues⟩ := repls n first foundFirst (by simp [callingFirst])
    obtain ⟨repl', found', continues'⟩ := repls m second foundSecond (by simp [callingSecond])
    obtain ⟨before, calling, id, -⟩ := continues call callingFirst
    obtain ⟨before', calling', id', -⟩ := continues' call' callingSecond
    exact ok.distinct n m repl repl' before before' found found' calling calling' (by omega)
  same repl' inside call' calling' dst args isSent := by
    obtain ⟨n, found'⟩ := List.mem_iff_getElem?.mp inside
    obtain ⟨repl, found, continues⟩ := repls n repl' found' (by simp [calling'])
    obtain ⟨call, calling, id, peerId, term, snapshot, sendEntries⟩ := continues call' calling'
    rw [peerId]
    rw [id] at isSent
    exact renewable _ _ _ _ _ term snapshot sendEntries
      (ok.same repl (List.mem_of_getElem? found) call calling dst args isSent)

/-- A replicator begins a call. -/
theorem begin (ok : Numbered same net i sv) {number : Nat} {repl' : Replicator α} {call : Call α}
    (nextId : sv'.nextId = sv.nextId + 1) (repls : sv'.repls = sv.repls.set number repl')
    (calling : repl'.calling = some call) (id : call.id = sv.nextId) :
    Numbered same net i sv' := by
  have cases_ {n : Nat} {other : Replicator α} {call' : Call α}
      (found' : sv'.repls[n]? = some other) (calling' : other.calling = some call') :
      (n = number ∧ other = repl' ∧ call' = call) ∨ sv.repls[n]? = some other := by
    rw [repls, List.getElem?_set] at found'
    split at found'
    case isTrue same =>
      split at found'
      case isTrue =>
        cases found'
        cases calling.symm.trans calling'
        exact .inl ⟨same.symm, rfl, rfl⟩
      case isFalse => cases found'
    case isFalse => exact .inr found'
  have old {n : Nat} {other : Replicator α} {call' : Call α}
      (found' : sv.repls[n]? = some other) (calling' : other.calling = some call') :
      call'.id < sv.nextId := ok.fresh other (List.mem_of_getElem? found') call' calling'
  constructor
  · intro caller dst args isSent own
    have below := ok.sent caller dst args isSent own
    omega
  · intro other inside call' calling'
    obtain ⟨n, found'⟩ := List.mem_iff_getElem?.mp inside
    rcases cases_ found' calling' with ⟨-, -, rfl⟩ | before
    · omega
    · have below := old before calling'
      omega
  · intro n m first second call₁ call₂ found₁ found₂ calling₁ calling₂ isSame
    rcases cases_ found₁ calling₁ with ⟨rfl, -, rfl⟩ | before₁ <;>
      rcases cases_ found₂ calling₂ with ⟨rfl, -, rfl⟩ | before₂
    · rfl
    · have below := old before₂ calling₂
      omega
    · have below := old before₁ calling₁
      omega
    · exact ok.distinct n m first second call₁ call₂ before₁ before₂ calling₁ calling₂ isSame
  · intro other inside call' calling' dst args isSent
    obtain ⟨n, found'⟩ := List.mem_iff_getElem?.mp inside
    rcases cases_ found' calling' with ⟨-, -, rfl⟩ | before
    · have below := ok.sent _ dst args isSent rfl
      dsimp only at below
      omega
    · exact ok.same other (List.mem_of_getElem? before) call' calling' dst args isSent

/-- A replicator sends a request of its call. -/
theorem send (ok : Numbered same net i sv) {number : Nat} {repl : Replicator α} {call : Call α}
    (found : sv.repls[number]? = some repl) (calling : repl.calling = some call)
    {copy : AppendEntriesArgs α} (copied : same repl.peerId call.args repl.peerId copy) :
    Numbered same (net ++ [.appendEntries ⟨i, call.id⟩ repl.peerId copy]) i sv where
  sent caller dst args isSent own := by
    rcases List.mem_append.mp isSent with before | isNew
    · exact ok.sent caller dst args before own
    · cases List.mem_singleton.mp isNew
      exact ok.fresh repl (List.mem_of_getElem? found) call calling
  fresh := ok.fresh
  distinct := ok.distinct
  same other inside call' calling' dst args isSent := by
    rcases List.mem_append.mp isSent with before | isNew
    · exact ok.same other inside call' calling' dst args before
    · simp only [List.mem_singleton, Msg.appendEntries.injEq, Caller.mk.injEq, true_and] at isNew
      obtain ⟨id, rfl, rfl⟩ := isNew
      obtain ⟨n, found'⟩ := List.mem_iff_getElem?.mp inside
      cases ok.distinct n number other repl call' call found' found calling' calling id
      cases found.symm.trans found'
      cases calling.symm.trans calling'
      exact copied

end Numbered

theorem Receives.continues {repl repl' : Replicator α} {id : Nat} {reply : AppendEntriesReply}
    {ev : Option (Event α)} (receives : Receives sv repl id reply repl' ev) :
    repl.Continues repl' := by
  cases receives with
  | waited => exact .refl
  | moved noCall => exact .of_none noCall
  | @storedProbe _ _ _ _ call sent | @storedLog call sent =>
      rintro _ ⟨⟩
      exact ⟨call, by simp [Replicator.calling, sent], rfl, rfl, rfl, rfl, rfl⟩
  | repeatedProbe | repeatedLog =>
      intro _ impossible
      cases impossible
  | stale | confirmed => exact .of_none rfl

theorem Replicator.refresh_continues (sv : Server α) (repl : Replicator α) :
    repl.Continues (repl.refresh sv) := by
  unfold refresh
  dsimp only
  split
  case h_1 call isProbing | h_2 call isProbing =>
    rintro _ ⟨⟩
    exact ⟨call, by simp [calling, isProbing], rfl, rfl, rfl, rfl, rfl⟩
  case h_3 => exact .refl

/-- Only a replicator in a call sends requests. -/
theorem Steps.requests (steps : Steps cfg me net sv act out) :
    (∀ caller dst args, .appendEntries caller dst args ∉ out.msgs) ∨
      ∃ number repl call, act = .call number ∧ sv.repls[number]? = some repl ∧
        repl.calling = some call ∧ out = {
          server := sv
          msgs := [.appendEntries ⟨me, call.id⟩ repl.peerId (Replicator.copy sv call)] } := by
  cases steps with
  | called _ found calling => exact .inr ⟨_, _, _, rfl, found, calling, rfl⟩
  | popped up idle next handles =>
      refine .inl fun caller dst args isSent => ?_
      obtain ⟨number, _, _, impossible, -⟩ :=
        (Steps.popped up idle next handles : Steps cfg me net sv .pop out).sent isSent
      cases impossible
  | executed up next executes =>
      refine .inl fun caller dst args isSent => ?_
      obtain ⟨number, _, _, impossible, -⟩ :=
        (Steps.executed up next executes : Steps cfg me net sv .exec out).sent isSent
      cases impossible
  | applied up applies =>
      refine .inl fun caller dst args isSent => ?_
      obtain ⟨number, _, _, impossible, -⟩ :=
        (Steps.applied up applies : Steps cfg me net sv .applier out).sent isSent
      cases impossible
  | _ => exact .inl (by simp)

/-- What a step does to the calls of its server, the start of a new one apart. -/
theorem Steps.continues (steps : Steps cfg me net sv act out) :
    (∀ (n : Nat) repl', out.server.repls[n]? = some repl' → repl'.calling ≠ none →
      ∃ repl, sv.repls[n]? = some repl ∧ repl.Continues repl') ∨
    ∃ number repl' call, out.server.nextId = sv.nextId + 1 ∧
      out.server.repls = sv.repls.set number repl' ∧ repl'.calling = some call ∧
      call.id = sv.nextId := by
  have same {sv' : Server α} (repls : sv'.repls = sv.repls) (n : Nat) (repl' : Replicator α)
      (found : sv'.repls[n]? = some repl') (_ : repl'.calling ≠ none) :
      ∃ repl, sv.repls[n]? = some repl ∧ repl.Continues repl' :=
    ⟨repl', repls ▸ found, .refl⟩
  have set {sv' : Server α} {number : Nat} {repl changed : Replicator α}
      (found : sv.repls[number]? = some repl) (repls : sv'.repls = sv.repls.set number changed)
      (continues : repl.Continues changed) (n : Nat) (repl' : Replicator α)
      (found' : sv'.repls[n]? = some repl') (_ : repl'.calling ≠ none) :
      ∃ repl, sv.repls[n]? = some repl ∧ repl.Continues repl' := by
    rw [repls, List.getElem?_set] at found'
    split at found'
    case isTrue isNumber =>
      subst isNumber
      split at found'
      case isTrue =>
        cases found'
        exact ⟨repl, found, continues⟩
      case isFalse => cases found'
    case isFalse => exact ⟨repl', found', .refl⟩
  cases steps with
  | popped _ _ _ handles =>
      cases handles with
      | becameLeader =>
          refine .inl fun n repl' found calling => ?_
          dsimp only at found
          rw [List.getElem?_append] at found
          split at found
          case isTrue => exact ⟨repl', found, .refl⟩
          case isFalse =>
            obtain ⟨peer, -, rfl⟩ := List.mem_map.mp (List.mem_of_getElem? found)
            exact (calling rfl).elim
      | _ => exact .inl (same rfl)
  | executed _ _ executes => exact .inl (same executes.repls_eq)
  | applied _ applies => exact .inl (same applies.repls_eq)
  | replied _ _ found _ receives | repliedEvent _ _ found _ receives =>
      exact .inl (set found rfl receives.continues)
  | advanced _ found advances =>
      cases advances with
      | waited => exact .inl (set found rfl .refl)
      | moved noCall => exact .inl (set found rfl (.of_none noCall))
      | builtProbe | builtLog =>
          refine .inl (set found rfl ?_)
          intro _ impossible
          cases impossible
      | calledProbe | calledLog => exact .inr ⟨_, _, _, rfl, rfl, rfl, rfl⟩
  | steppedDown _ found => exact .inl (set found rfl (.of_none rfl))
  | refreshed _ found => exact .inl (set found rfl (Replicator.refresh_continues _ _))
  | restarted _ made =>
      obtain ⟨applier, -, -, rfl⟩ := make_eq_some made
      exact .inl (by simp)
  | _ => exact .inl (same rfl)

/-- The calls of every server are in order in every run in which the copies that are sent
are related to what was built. -/
theorem Cluster.numbered {same : Nat → AppendEntriesArgs α → Nat → AppendEntriesArgs α → Prop}
    (renewable : Renewable same)
    (copied : ∀ (s : Cluster α) i number repl call, allowed s ⟨i, .call number⟩ →
      (s.servers i).repls[number]? = some repl → repl.calling = some call →
      same repl.peerId call.args repl.peerId (Replicator.copy (s.servers i) call))
    (run : Run (step cfg) allowed init labels s) (i : Nat) :
    Numbered same s.net i (s.servers i) := by
  refine Run.invariant (fun _ s => ∀ i, Numbered same s.net i (s.servers i)) ?_ ?_ run i
  · exact fun _ => ⟨by simp [init], by simp [init, Server.initial], by simp [init, Server.initial],
      by simp [init, Server.initial]⟩
  · intro labels s label s' earlier before ok taken i
    obtain ⟨out, -, steps, rfl⟩ := step_steps taken
    have foreign (caller : Caller) (dst : Nat) (args : AppendEntriesArgs α)
        (isSent : .appendEntries caller dst args ∈ (s.update label.server out).net) :
        .appendEntries caller dst args ∈ s.net ∨ caller.server = label.server := by
      rcases List.mem_append.mp isSent with wasSent | isNew
      · exact .inl wasSent
      · obtain ⟨_, _, call, -, -, -, rfl, -⟩ := steps.sent isNew
        exact .inr rfl
    by_cases other : i = label.server
    · subst other
      simp only [update, if_pos]
      rcases steps.requests with silent | ⟨number, repl, call, isCall, found, calling, rfl⟩
      · have unsent : Numbered same (s.net ++ out.msgs) label.server (s.servers label.server) := by
          refine (before label.server).foreign fun caller dst args isSent => .inl ?_
          exact (List.mem_append.mp isSent).resolve_right (silent caller dst args)
        rcases steps.continues with continues | ⟨number, repl', call, nextId, repls, calling, id⟩
        · exact unsent.shrink renewable steps.nextId_le continues
        · exact unsent.begin nextId repls calling id
      · have permitted : allowed s ⟨label.server, .call number⟩ := by rwa [← isCall]
        exact (before label.server).send found calling
          (copied s label.server number repl call permitted found calling)
    · have unchanged : (s.update label.server out).servers i = s.servers i := if_neg other
      rw [unchanged]
      exact (before i).foreign fun caller dst args isSent =>
        (foreign caller dst args isSent).imp_right fun own same => other (same.symm.trans own)

/-- The request `args` to `dst` is the request `built` for `peer`, `LeaderCommit` apart. -/
def SentAsBuilt (peer : Nat) (built : AppendEntriesArgs α) (dst : Nat)
    (args : AppendEntriesArgs α) : Prop :=
  dst = peer ∧ args.term = built.term ∧ args.snapshot = built.snapshot ∧
    args.sendEntries = built.sendEntries

theorem SentAsBuilt.renewable : Renewable (@SentAsBuilt α) := by
  rintro peer built built' dst args term snapshot sendEntries ⟨rfl, terms, snapshots, sent⟩
  exact ⟨rfl, terms.trans term.symm, snapshots.trans snapshot.symm, sent.trans sendEntries.symm⟩

/-- The calls of every server are in order in every run in which requests are sent as
they were built. -/
theorem Cluster.callsOk (intact : ∀ (s : Cluster α) label, allowed s label → copiesIntact s label)
    (run : Run (step cfg) allowed init labels s) (i : Nat) :
    Numbered SentAsBuilt s.net i (s.servers i) := by
  refine Cluster.numbered SentAsBuilt.renewable ?_ run i
  intro s i number repl call ok found calling
  rw [intact s _ ok repl found call calling]
  exact ⟨rfl, rfl, rfl, rfl⟩

end GoLab.Raft
