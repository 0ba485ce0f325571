import GoLab.Raft.Roles

/-!
# The requests of a leader

A replicator takes the term and the commit index of a request from its server when
it builds the request, and the commit index again whenever it renews it.  It looks
at `ld.active` before and after, not in between.
-/

namespace GoLab.Raft

variable {α : Type}
variable {cfg : Config} {me : Nat} {allowed : Cluster α → Label α → Prop} {labels : List (Label α)}
  {s : Cluster α} {sv : Server α} {out : Out α} {repl : Replicator α}

/-! ## Where requests come from -/

/-- The requests a replicator can build. -/
inductive Builds (me : Nat) (sv : Server α) (repl : Replicator α) : AppendEntriesArgs α → Prop where
  | probe {l r prevLogIndex m mTerm : Int} (building : repl.pc = .probeBuild l r prevLogIndex)
      (found : sv.logs.tryIndexLogTerm m = some (mTerm, true)) :
      Builds me sv repl (probeArgs me sv m mTerm)
  | log {snapshot : Option (Snapshot α)} {sendEntries : Option (SendEntries α)}
      (building : repl.pc = .tick)
      (payload : sv.logs.entriesAfter repl.nextIndex = some (snapshot, sendEntries)) :
      Builds me sv repl (logArgs me sv snapshot sendEntries)

/-- The replicator is about to build a request. -/
def ReplPc.building : ReplPc α → Bool
  | .probeBuild .. | .tick => true
  | _ => false

namespace Builds

variable {args : AppendEntriesArgs α}

theorem building (builds : Builds me sv repl args) : repl.pc.building = true := by
  cases builds with
  | probe building | log building =>
      rw [building]
      rfl

theorem term_eq (builds : Builds me sv repl args) : args.term = sv.term := by
  cases builds <;> rfl

theorem leaderCommit_eq (builds : Builds me sv repl args) : args.leaderCommit = sv.logs.lci := by
  cases builds <;> rfl

end Builds

/-- Every request the replicators of a server have built. -/
def Calls (p : Replicator α → AppendEntriesArgs α → Prop) (sv : Server α) : Prop :=
  ∀ repl ∈ sv.repls, ∀ call ∈ repl.pc.call?, p repl call.args

theorem Handles.mem_repls {ev : Event α} (handles : Handles cfg me sv ev out)
    (membership : repl ∈ out.server.repls) :
    repl ∈ sv.repls ∨ repl.pc.call? = none := by
  cases handles with
  | becameLeader =>
      simp only [List.mem_append, List.mem_map] at membership
      rcases membership with earlier | ⟨peer, -, rfl⟩
      · exact .inl earlier
      · exact .inr rfl
  | _ => exact .inl membership

theorem Executes.repls_eq {op : Op α} (executes : Executes cfg me sv op out) :
    out.server.repls = sv.repls := by
  cases executes <;> rfl

theorem Applies.repls_eq (applies : Applies me sv out) :
    out.server.repls = sv.repls := by
  cases applies <;> rfl

theorem Replicator.call?_of_calling {call : Call α} (calling : repl.calling = some call) :
    repl.pc.call? = some call := by
  unfold Replicator.calling at calling
  split at calling
  case h_1 isProbing => rw [isProbing]; exact calling
  case h_2 isSending => rw [isSending]; exact calling
  case h_3 => cases calling

/-- A reply leaves the request as it is. -/
theorem Receives.call {repl repl' : Replicator α} {id : Nat} {reply : AppendEntriesReply}
    {ev : Option (Event α)} (receives : Receives sv repl id reply repl' ev) {call' : Call α}
    (isCall : call' ∈ repl'.pc.call?) :
    repl' = { repl with pc := repl'.pc } ∧ ∃ call ∈ repl.pc.call?, call'.args = call.args := by
  cases receives with
  | waited => exact ⟨rfl, call', isCall, rfl⟩
  | moved noCall => simp [noCall] at isCall
  | stale | confirmed => cases isCall
  | storedProbe sent | storedLog sent | repeatedProbe sent | repeatedLog sent =>
      cases isCall
      exact ⟨rfl, _, congrArg ReplPc.call? sent, rfl⟩

/-- A step of a replicator leaves the request as it is or builds a new one. -/
theorem Advances.call {repl repl' : Replicator α} (advances : Advances me sv repl repl')
    {call' : Call α} (isCall : call' ∈ repl'.pc.call?) :
    repl' = { repl with pc := repl'.pc } ∧
      ((∃ call ∈ repl.pc.call?, call'.args = call.args) ∨ Builds me sv repl call'.args) := by
  cases advances with
  | waited => exact ⟨rfl, .inl ⟨call', isCall, rfl⟩⟩
  | moved noCall => simp [noCall] at isCall
  | builtProbe building found =>
      cases isCall
      exact ⟨rfl, .inr (.probe building found)⟩
  | builtLog building payload =>
      cases isCall
      exact ⟨rfl, .inr (.log building payload)⟩
  | calledProbe built | calledLog built =>
      cases isCall
      exact ⟨rfl, .inl ⟨_, congrArg ReplPc.call? built, rfl⟩⟩

/-- A renewal changes the commit index of a request under way. -/
theorem Replicator.refresh_call {call' : Call α} (isCall : call' ∈ (repl.refresh sv).pc.call?) :
    repl.refresh sv = { repl with pc := (repl.refresh sv).pc } ∧
      (call' ∈ repl.pc.call? ∨ ∃ call, repl.calling = some call ∧
        call'.args = { call.args with leaderCommit := sv.logs.lci }) := by
  unfold refresh at isCall ⊢
  dsimp only at isCall ⊢
  split at isCall
  case h_1 isProbing | h_2 isSending =>
    cases isCall
    exact ⟨rfl, .inr ⟨_, by simp [calling, *], rfl⟩⟩
  case h_3 => exact ⟨rfl, .inl isCall⟩

namespace Calls

variable {p : Replicator α → AppendEntriesArgs α → Prop} {net : List (Msg α)} {sv sv' : Server α}
  {act : Act α}

theorem same (ok : Calls p sv) (repls : sv'.repls = sv.repls) : Calls p sv' := by
  unfold Calls
  rwa [repls]

theorem set (ok : Calls p sv) {number : Nat} {repl' : Replicator α}
    (repls : sv'.repls = sv.repls.set number repl')
    (changed : ∀ call' ∈ repl'.pc.call?, p repl' call'.args) : Calls p sv' := by
  intro repl membership
  rw [repls] at membership
  rcases List.mem_or_eq_of_mem_set membership with unchanged | rfl
  · exact ok repl unchanged
  · exact changed

/-- What holds of every request when it is built, and is kept when its commit index
is renewed, holds of all requests the replicators hold. -/
theorem steps (ok : Calls p sv)
    (steady : ∀ repl pc args, p repl args → p { repl with pc } args)
    (steps : Steps cfg me net sv act out)
    (built : ∀ number repl args, act = .repl number → sv.up = true →
      sv.repls[number]? = some repl → Builds me sv repl args → p repl args)
    (renewed : ∀ number repl call, act = .refresh number → sv.up = true →
      sv.repls[number]? = some repl → repl.calling = some call → p repl call.args →
      p repl { call.args with leaderCommit := sv.logs.lci }) : Calls p out.server := by
  cases steps with
  | popped _ _ _ handles =>
      intro repl membership call isCall
      rcases handles.mem_repls membership with earlier | noCall
      · exact ok repl earlier call isCall
      · simp [noCall] at isCall
  | executed _ _ executes => exact ok.same executes.repls_eq
  | applied _ applies => exact ok.same applies.repls_eq
  | replied _ _ found _ receives | repliedEvent _ _ found _ receives =>
      refine ok.set rfl fun call' isCall => ?_
      obtain ⟨samePlace, call, wasCall, args⟩ := receives.call isCall
      rw [samePlace, args]
      exact steady _ _ _ (ok _ (List.mem_of_getElem? found) call wasCall)
  | advanced up found advances =>
      refine ok.set rfl fun call' isCall => ?_
      obtain ⟨samePlace, ⟨call, wasCall, args⟩ | builds⟩ := advances.call isCall
      · rw [samePlace, args]
        exact steady _ _ _ (ok _ (List.mem_of_getElem? found) call wasCall)
      · rw [samePlace]
        exact steady _ _ _ (built _ _ _ rfl up found builds)
  | steppedDown => exact ok.set rfl (by simp [ReplPc.call?])
  | refreshed up found =>
      refine ok.set rfl fun call' isCall => ?_
      obtain ⟨samePlace, wasCall | ⟨call, calling, args⟩⟩ := Replicator.refresh_call isCall
      · rw [samePlace]
        exact steady _ _ _ (ok _ (List.mem_of_getElem? found) call' wasCall)
      · rw [samePlace, args]
        have before := ok _ (List.mem_of_getElem? found) call (Replicator.call?_of_calling calling)
        exact steady _ _ _ (renewed _ _ _ rfl up found calling before)
  | restarted _ made =>
      obtain ⟨applier, -, -, rfl⟩ := make_eq_some made
      simp [Calls]
  | _ => exact ok.same rfl

end Calls

/-- A request that is sent is a copy of one a replicator holds. -/
theorem Steps.sent {net : List (Msg α)} {act : Act α} (steps : Steps cfg me net sv act out)
    {caller : Caller} {dst : Nat} {args : AppendEntriesArgs α}
    (isSent : .appendEntries caller dst args ∈ out.msgs) :
    ∃ number repl call, act = .call number ∧ sv.repls[number]? = some repl ∧
      repl.calling = some call ∧ caller = ⟨me, call.id⟩ ∧ dst = repl.peerId ∧
      args = Replicator.copy sv call := by
  cases steps with
  | popped _ _ _ handles =>
      cases handles with
      | ignored refusal =>
          rcases refusal with rfl | ⟨_, rfl⟩ | ⟨_, rfl⟩ <;> simp at isSent
      | _ => simp at isSent
  | executed _ _ executes => cases executes <;> simp at isSent
  | applied _ applies => cases applies <;> simp at isSent
  | called _ found calling =>
      simp only [List.mem_singleton, Msg.appendEntries.injEq] at isSent
      obtain ⟨rfl, rfl, rfl⟩ := isSent
      exact ⟨_, _, _, rfl, found, calling, rfl, rfl, rfl⟩
  | _ => simp at isSent

/-! ## The term of a request -/

/-- The leader role `ld` is present and active, and no handler is about to stop it. -/
def Server.inOffice (sv : Server α) (ld : Nat) : Bool :=
  sv.leading ld && sv.steady

/-- Replicators build requests while their leader is in office only. -/
def buildsInOffice (s : Cluster α) (label : Label α) : Prop :=
  match label.act with
  | .repl number => ∀ repl ∈ (s.servers label.server).repls[number]?,
      repl.pc.building = true → (s.servers label.server).inOffice repl.ld = true
  | _ => True

instance (s : Cluster α) (label : Label α) : Decidable (buildsInOffice s label) := by
  delta buildsInOffice
  rcases label.act <;> infer_instance

theorem Led.append {new history : List (Obs α)} {me role : Nat} {term : Int}
    (led : Led history me role term) : Led (new ++ history) me role term := by
  obtain ⟨log, membership⟩ := led
  exact ⟨log, List.mem_append_right _ membership⟩

theorem Cluster.led_history {i role : Nat} {term : Int} :
    Led (s.history i) i role term ↔ Led s.obs i role term := by
  simp [Led, history, Obs.server]

/-- A server leads in one term under a role. -/
theorem Cluster.led_unique (run : Run (step cfg) allowed init labels s) {i role : Nat}
    {term term' : Int} (led : Led s.obs i role term) (led' : Led s.obs i role term') :
    term = term' := by
  rw [← led_history] at led led'
  exact (leaderships run i).term _ _ _ led led'

/-- A leader in office has been activated in its term. -/
theorem Cluster.led_of_inOffice (run : Run (step cfg) allowed init labels s) {i : Nat}
    (up : (s.servers i).up = true) (found : repl ∈ (s.servers i).repls)
    (office : (s.servers i).inOffice repl.ld = true) :
    (∃ rc, (s.servers i).role = .leader rc) ∧ Led s.obs i repl.ld (s.servers i).term := by
  simp only [Server.inOffice, Server.leading, Bool.and_eq_true, beq_iff_eq] at office
  obtain ⟨⟨active, present⟩, steady⟩ := office
  have ok := roles run i up
  obtain ⟨rc, isLeader⟩ := ok.present repl found present.symm
  refine ⟨⟨rc, isLeader⟩, ?_⟩
  rw [← led_history, ← present]
  exact ok.leader rc isLeader (.inl active) steady

/-- The message of which a server `me` has made an event. -/
def Event.msg (me : Nat) : Event α → Option (Msg α)
  | .appendEntries caller args => some (.appendEntries caller me args)
  | .requestVote caller args => some (.requestVote caller me args)
  | _ => none

/-- Where the requests in the channel of a server come from. -/
theorem Steps.mem_evCh {net : List (Msg α)} {act : Act α} (steps : Steps cfg me net sv act out)
    {ev : Event α} {msg : Msg α} (isMsg : ev.msg me = some msg)
    (membership : ev ∈ out.server.evCh) : ev ∈ sv.evCh ∨ msg ∈ net := by
  cases ev with
  | appendEntries | requestVote =>
      cases isMsg
      cases steps with
      | popped _ _ next handles =>
          rw [handles.evCh_eq] at membership
          exact .inl (next ▸ List.mem_cons_of_mem _ membership)
      | executed _ _ executes => cases executes <;> simp_all
      | applied _ applies => cases applies <;> exact .inl membership
      | arrived _ _ arrives =>
          rcases List.mem_append.mp membership with before | isNew
          · exact .inl before
          · cases arrives <;> simp_all
      | polledEvent _ _ _ _ _ _ _ event => cases event <;> simp_all
      | repliedEvent _ _ _ _ receives => cases receives <;> simp_all
      | restarted _ made =>
          obtain ⟨applier, -, -, rfl⟩ := make_eq_some made
          simp at membership
      | _ => simp_all
  | _ => cases isMsg

/-- The requests a server has received and not processed. -/
def Received (p : Caller → AppendEntriesArgs α → Prop) (sv : Server α) : Prop :=
  ∀ caller args, .appendEntries caller args ∈ sv.evCh → p caller args

section

variable (ok : List (Label α) → Cluster α → Nat → Server α → Prop)
  (good : List (Label α) → Cluster α → Nat → Replicator α → AppendEntriesArgs α → Prop)

/-- The request was built by some replicator of its caller. -/
def Sent (labels : List (Label α)) (s : Cluster α) (caller : Caller)
    (args : AppendEntriesArgs α) : Prop :=
  ∃ repl, good labels s caller.server repl args

/-- An invariant of servers and requests holds in every run if it lasts when the
cluster goes on, if the servers keep it when they process good requests, and if the
requests they build, renew and copy are good. -/
theorem Cluster.served (initially : ∀ i, ok [] init i Server.initial)
    (okLasts : ∀ labels (s : Cluster α) i act out j sv, Run (step cfg) allowed init labels s →
      Steps cfg i s.net (s.servers i) act out → ok labels s j sv →
      ok (labels ++ [⟨i, act⟩]) (s.update i out) j sv)
    (goodLasts : ∀ labels (s : Cluster α) i act out j repl args,
      Run (step cfg) allowed init labels s → Steps cfg i s.net (s.servers i) act out →
      good labels s j repl args → good (labels ++ [⟨i, act⟩]) (s.update i out) j repl args)
    (steady : ∀ labels (s : Cluster α) i repl pc args, good labels s i repl args →
      good labels s i { repl with pc } args)
    (kept : ∀ labels (s : Cluster α) i act out, Run (step cfg) allowed init labels s →
      ok labels s i (s.servers i) → Received (Sent good labels s) (s.servers i) →
      allowed s ⟨i, act⟩ → Steps cfg i s.net (s.servers i) act out →
      ok (labels ++ [⟨i, act⟩]) (s.update i out) i out.server)
    (built : ∀ labels (s : Cluster α) i number repl args, Run (step cfg) allowed init labels s →
      ok labels s i (s.servers i) → allowed s ⟨i, .repl number⟩ → (s.servers i).up = true →
      (s.servers i).repls[number]? = some repl → Builds i (s.servers i) repl args →
      good labels s i repl args) (renewed : ∀ labels (s : Cluster α) i number repl call,
      Run (step cfg) allowed init labels s → ok labels s i (s.servers i) →
      allowed s ⟨i, .refresh number⟩ → (s.servers i).up = true →
      (s.servers i).repls[number]? = some repl → repl.calling = some call →
      good labels s i repl call.args →
      good labels s i repl { call.args with leaderCommit := (s.servers i).logs.lci })
    (copied : ∀ labels (s : Cluster α) i number repl call, allowed s ⟨i, .call number⟩ →
      (s.servers i).repls[number]? = some repl → repl.calling = some call →
      good labels s i repl call.args →
      good labels s i repl (Replicator.copy (s.servers i) call))
    (run : Run (step cfg) allowed init labels s) :
    (∀ i, ok labels s i (s.servers i)) ∧ (∀ i, Received (Sent good labels s) (s.servers i)) ∧
      ∀ caller dst args, .appendEntries caller dst args ∈ s.net →
        Sent good labels s caller args := by
  have lasts {labels s i act out} (earlier : Run (step cfg) allowed init labels s)
      (steps : Steps cfg i s.net (s.servers i) act out) {caller : Caller}
      {args : AppendEntriesArgs α} (sent : Sent good labels s caller args) :
      Sent good (labels ++ [⟨i, act⟩]) (s.update i out) caller args := by
    obtain ⟨repl, isGood⟩ := sent
    exact ⟨repl, goodLasts _ _ _ _ _ _ _ _ earlier steps isGood⟩
  have invariant := global_invariant
    (fun labels s i sv => ok labels s i sv ∧ Calls (good labels s i) sv ∧
      Received (Sent good labels s) sv)
    (fun labels s msg => ∀ caller dst args, msg = .appendEntries caller dst args →
      Sent good labels s caller args) ?_ ?_ ?_ run
  · exact ⟨fun i => (invariant.1 i).1, fun i => (invariant.1 i).2.2,
      fun caller dst args sent => invariant.2 _ sent caller dst args rfl⟩
  · exact fun i => ⟨initially i, by simp [Calls, Server.initial],
      by simp [Received, Server.initial]⟩
  · intro labels s i act out earlier steps
    refine ⟨fun j sv ⟨isOk, calls, received⟩ => ⟨okLasts _ _ _ _ _ _ _ earlier steps isOk,
        fun repl membership call isCall => ?_, fun caller args membership => ?_⟩,
      fun msg sent caller dst args isRequest =>
        lasts earlier steps (sent caller dst args isRequest)⟩
    · exact goodLasts _ _ _ _ _ _ _ _ earlier steps (calls repl membership call isCall)
    · exact lasts earlier steps (received caller args membership)
  · intro labels s i act out earlier servers messages _ isAllowed steps
    obtain ⟨isOk, calls, received⟩ := servers i
    have onward : Calls (good labels s i) out.server := by
      refine calls.steps (steady labels s i) steps ?_ ?_
      · rintro number repl args rfl up found builds
        exact built labels s i number repl args earlier isOk isAllowed up found builds
      · rintro number repl call rfl up found calling before
        exact renewed labels s i number repl call earlier isOk isAllowed up found calling before
    refine ⟨⟨kept _ _ _ _ _ earlier isOk received isAllowed steps,
      fun repl membership call isCall => ?_, fun caller args membership => ?_⟩, ?_⟩
    · exact goodLasts _ _ _ _ _ _ _ _ earlier steps (onward repl membership call isCall)
    · rcases steps.mem_evCh rfl membership with before | sent
      · exact lasts earlier steps (received caller args before)
      · exact lasts earlier steps (messages _ sent caller i args rfl)
    · rintro _ isSent caller dst args rfl
      obtain ⟨number, repl, call, rfl, found, calling, rfl, -, rfl⟩ := steps.sent isSent
      have before := calls repl (List.mem_of_getElem? found) call
        (Replicator.call?_of_calling calling)
      exact ⟨repl, goodLasts _ _ _ _ _ _ _ _ earlier steps
        (copied labels s i number repl call isAllowed found calling before)⟩

end

/-- In every run in which replicators build requests while their leader is in
office only, a request carries a term in which its sender was activated. -/
theorem sender_activated {cfg : Config} {labels : List (Label α)} {s : Cluster α}
    (run : Run (Cluster.step cfg) buildsInOffice Cluster.init labels s) {caller : Caller}
    {dst : Nat} {args : AppendEntriesArgs α} (sent : .appendEntries caller dst args ∈ s.net) :
    Activated s.obs caller.server args.term := by
  have built := (Cluster.served (fun _ _ _ _ => True)
    (fun _ s i repl args => Led s.obs i repl.ld args.term) (fun _ => trivial)
    (fun _ _ _ _ _ _ _ _ _ => id) (fun _ _ _ _ _ _ _ _ _ _ led => led.append)
    (fun _ _ _ _ _ _ led => led) (fun _ _ _ _ _ _ _ _ _ _ => trivial) ?_
    (fun _ _ _ _ _ _ _ _ _ _ _ _ led => led) (fun _ _ _ _ _ _ _ _ _ led => led) run).2.2
      _ _ _ sent
  · obtain ⟨repl, led⟩ := built
    exact ⟨repl.ld, led⟩
  · intro labels s i number repl args earlier _ ok up found builds
    rw [builds.term_eq]
    exact (Cluster.led_of_inOffice earlier up (List.mem_of_getElem? found)
      (ok repl found builds.building)).2

/-- The first request of the leader of term 1. -/
def firstProbe : AppendEntriesArgs Nat where
  id := 0
  term := 1
  leaderCommit := -1
  entryType := .entryTQuery
  snapshot := none
  sendEntries := some { entries := [], prevLogInfo := ⟨0, 1⟩ }

theorem sender_activated_firstCommit :
    ∃ s, Run (Cluster.step (.doubling 3)) buildsInOffice Cluster.init firstCommit s ∧
      .appendEntries ⟨0, 6⟩ 1 firstProbe ∈ s.net ∧ Activated s.obs 0 1 := by
  obtain ⟨s, run, sent⟩ : ∃ s, Run (Cluster.step (.doubling 3)) buildsInOffice Cluster.init
      firstCommit s ∧ .appendEntries ⟨0, 6⟩ 1 firstProbe ∈ s.net :=
    Run.exists_of_runSteps (by decide +kernel)
  exact ⟨s, run, sent, sender_activated run sent⟩

/-- Server 2 asks the leader of term 1 for its vote in term 2 while a replicator is
between its check of `ld.active` and its load of the term. -/
def termRaisedMeanwhile : List (Label Nat) :=
  leaderElected ++
  Label.all 0 [.repl 0, .repl 0] ++
  Label.all 2 [.pop, .heartBeat, .pop, .exec, .pop, .election, .pop, .exec, .pop, .heartBeat,
    .pop, .exec, .pop] ++
  Label.all 0 [.receive 5, .pop, .repl 0, .repl 0, .call 0]

/-- The replicator sends a request of term 2, in which server 0 was never elected:
the term is stored, the role not stopped yet. -/
theorem request_of_foreign_term :
    ∃ s, Run (Cluster.step (.doubling 3)) (fun _ _ => True) Cluster.init termRaisedMeanwhile s ∧
      .appendEntries ⟨0, 6⟩ 1 { firstProbe with term := 2 } ∈ s.net ∧ ¬ Activated s.obs 0 2 :=
  Run.exists_of_runSteps (by decide +kernel)

/-! ## The commit index of a request -/

/-- The server is the active leader of a term. -/
def Server.Presides (sv : Server α) (term : Int) : Prop :=
  sv.active = true ∧ sv.steady = true ∧ sv.role.isLeader = true ∧ sv.term = term

instance (sv : Server α) (term : Int) : Decidable (sv.Presides term) :=
  inferInstanceAs (Decidable (_ ∧ _))

/-- Replicators build requests and renew their commit index while their leader is
in office only. -/
def servesInOffice (s : Cluster α) (label : Label α) : Prop :=
  match label.act with
  | .refresh number => ∀ repl ∈ (s.servers label.server).repls[number]?,
      repl.calling.isSome = true → (s.servers label.server).inOffice repl.ld = true
  | _ => buildsInOffice s label

instance (s : Cluster α) (label : Label α) : Decidable (servesInOffice s label) := by
  delta servesInOffice
  rcases label.act <;> infer_instance

theorem Cluster.presides_of_inOffice (run : Run (step cfg) allowed init labels s) {i : Nat}
    (up : (s.servers i).up = true) (found : repl ∈ (s.servers i).repls)
    (office : (s.servers i).inOffice repl.ld = true) :
    (s.servers i).Presides (s.servers i).term := by
  obtain ⟨⟨rc, isLeader⟩, -⟩ := led_of_inOffice run up found office
  simp only [Server.inOffice, Server.leading, Bool.and_eq_true] at office
  exact ⟨office.1.1, office.2, by rw [isLeader]; rfl, rfl⟩

/-- In every run in which replicators build and renew requests while their leader
is in office only, the commit index of a request is at most the one its sender had
at some moment as the active leader of the request's term. -/
theorem leaderCommit_le {cfg : Config} {labels : List (Label α)} {s : Cluster α}
    (run : Run (Cluster.step cfg) servesInOffice Cluster.init labels s) {caller : Caller}
    {dst : Nat} {args : AppendEntriesArgs α} (sent : .appendEntries caller dst args ∈ s.net) :
    Run.Once (Cluster.step cfg) servesInOffice Cluster.init labels fun earlier =>
      (earlier.servers caller.server).Presides args.term ∧
        args.leaderCommit ≤ (earlier.servers caller.server).logs.lci := by
  have built := (Cluster.served (fun _ _ _ _ => True)
    (fun labels s i repl args => Led s.obs i repl.ld args.term ∧
      Run.Once (Cluster.step cfg) servesInOffice Cluster.init labels fun earlier =>
        (earlier.servers i).Presides args.term ∧
          args.leaderCommit ≤ (earlier.servers i).logs.lci)
    (fun _ => trivial) (fun _ _ _ _ _ _ _ _ _ => id)
    (fun _ _ _ _ _ _ _ _ _ _ ⟨led, once⟩ => ⟨led.append, once.append _⟩)
    (fun _ _ _ _ _ _ before => before) (fun _ _ _ _ _ _ _ _ _ _ => trivial) ?_ ?_
    (fun _ _ _ _ _ _ _ _ _ before => before) run).2.2 _ _ _ sent
  · obtain ⟨repl, -, once⟩ := built
    exact once
  · intro labels s i number repl args earlier _ ok up found builds
    have membership := List.mem_of_getElem? found
    have office := ok repl found builds.building
    rw [builds.term_eq, builds.leaderCommit_eq]
    exact ⟨(Cluster.led_of_inOffice earlier up membership office).2,
      earlier.once ⟨Cluster.presides_of_inOffice earlier up membership office, Int.le_refl _⟩⟩
  · rintro labels s i number repl call earlier _ ok up found calling ⟨led, _⟩
    have membership := List.mem_of_getElem? found
    have office := ok repl found (by rw [calling]; rfl)
    have now := (Cluster.led_of_inOffice earlier up membership office).2
    refine ⟨led, earlier.once ⟨?_, Int.le_refl _⟩⟩
    rw [Cluster.led_unique earlier led now]
    exact Cluster.presides_of_inOffice earlier up membership office

theorem leaderCommit_le_firstCommit :
    ∃ s, Run (Cluster.step (.doubling 3)) servesInOffice Cluster.init firstCommit s ∧
      .appendEntries ⟨0, 6⟩ 1 firstProbe ∈ s.net ∧
      Run.Once (Cluster.step (.doubling 3)) servesInOffice Cluster.init firstCommit fun earlier =>
        (earlier.servers 0).Presides 1 ∧ -1 ≤ (earlier.servers 0).logs.lci := by
  obtain ⟨s, run, sent⟩ : ∃ s, Run (Cluster.step (.doubling 3)) servesInOffice Cluster.init
      firstCommit s ∧ .appendEntries ⟨0, 6⟩ 1 firstProbe ∈ s.net :=
    Run.exists_of_runSteps (by decide +kernel)
  exact ⟨s, run, sent, leaderCommit_le run sent⟩

/-- The leader of term 1 is deposed while a request to server 2 is under way; it
accepts an entry of the leader of term 2 and learns that it is committed. -/
def commitRenewedLate : List (Label Nat) :=
  leaderElected ++
  Label.all 0 [.repl 1, .repl 1, .repl 1, .repl 1, .call 1] ++
  Label.all 2 [.pop, .receive 3, .pop, .exec] ++
  Label.all 0 [.receive 4, .repl 1, .repl 1, .repl 1, .repl 1, .repl 1] ++
  Label.all 1 [.heartBeat, .pop, .exec, .pop] ++
  Label.all 2 [.receive 6, .pop, .exec] ++
  Label.all 1 [.receive 7, .pop, .exec, .pop, .exec, .repl 0, .repl 0, .repl 0, .repl 0,
    .call 0] ++
  Label.all 0 [.receive 8, .pop, .exec, .exec, .exec, .pop] ++
  Label.all 1 [.receive 9, .repl 0, .call 0] ++
  Label.all 0 [.receive 10, .pop, .exec] ++
  Label.all 1 [.receive 11, .repl 0, .repl 0, .repl 0, .repl 0, .repl 0, .call 0] ++
  Label.all 0 [.receive 12, .pop, .exec, .exec, .exec] ++
  Label.all 1 [.receive 13, .pop, .exec, .exec, .repl 0, .repl 0, .repl 0, .call 0] ++
  Label.all 0 [.receive 14, .pop, .exec, .exec, .exec, .refresh 1, .call 1]

/-- The request of term 1 as server 0 sends it in term 2.  Its slice shares the
array of the log, so it shows the entry that has replaced its own. -/
def renewedLate : AppendEntriesArgs Nat where
  id := 0
  term := 1
  leaderCommit := 0
  entryType := .entryTLog
  snapshot := none
  sendEntries := some {
    entries := [{ commandIndex := -1, term := 2, content := none }], prevLogInfo := ⟨-1, -1⟩ }

/-- The request carries a commit index that server 0 never had as the leader of
term 1. -/
theorem commit_of_later_leader :
    ∃ s, Run (Cluster.step (.doubling 3)) (fun _ _ => True) Cluster.init commitRenewedLate s ∧
      .appendEntries ⟨0, 11⟩ 2 renewedLate ∈ s.net ∧
      ¬ Run.Once (Cluster.step (.doubling 3)) (fun _ _ => True) Cluster.init commitRenewedLate
        fun earlier => (earlier.servers 0).Presides 1 ∧
          renewedLate.leaderCommit ≤ (earlier.servers 0).logs.lci := by
  obtain ⟨s, run, sent⟩ : ∃ s, Run (Cluster.step (.doubling 3)) (fun _ _ => True) Cluster.init
      commitRenewedLate s ∧ .appendEntries ⟨0, 11⟩ 2 renewedLate ∈ s.net :=
    Run.exists_of_runSteps (by decide +kernel)
  refine ⟨s, run, sent, ?_⟩
  rintro ⟨earlier, s', before, reached, presided⟩
  have never := Run.of_throughout (p := fun earlier : Cluster Nat =>
    ¬ ((earlier.servers 0).Presides 1 ∧ renewedLate.leaderCommit ≤ (earlier.servers 0).logs.lci))
    (by decide +kernel) before reached
  exact never presided

end GoLab.Raft
