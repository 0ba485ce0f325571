import GoLab.Raft.Replicator

/-!
# The calls of a replicator

What happens to the request a replicator has built: where it comes from, how a
reply and a renewal change it, and which events a reply gives rise to.
-/

namespace GoLab.Raft

variable {α : Type}

/-- The request of a probe for index `m`. -/
def probeArgs (me : Nat) (sv : Server α) (m mTerm : Int) : AppendEntriesArgs α where
  id := me
  term := sv.term
  leaderCommit := sv.logs.lci
  entryType := .entryTQuery
  snapshot := none
  sendEntries := some { entries := [], prevLogInfo := ⟨m, mTerm⟩ }

/-- The request of `start` with a payload of the log. -/
def logArgs (me : Nat) (sv : Server α) (snapshot : Option (Snapshot α))
    (sendEntries : Option (SendEntries α)) : AppendEntriesArgs α where
  id := me
  term := sv.term
  leaderCommit := sv.logs.lci
  entryType := .entryTLog
  snapshot := snapshot
  sendEntries := sendEntries

/-- A step of a replicator of its own. -/
inductive Advances (me : Nat) (sv : Server α) (repl : Replicator α) : Replicator α → Prop where
  | waited : Advances me sv repl repl
  | moved {pc : ReplPc α} {nextIndex : Int} (noCall : pc.call? = none) :
      Advances me sv repl { repl with nextIndex, pc }
  | builtProbe {l r prevLogIndex m mTerm : Int} (building : repl.pc = .probeBuild l r prevLogIndex)
      (found : sv.logs.tryIndexLogTerm m = some (mTerm, true)) :
      Advances me sv repl { repl with
        pc := .probe l r prevLogIndex m ⟨0, probeArgs me sv m mTerm, Slice.nil, none⟩ }
  | builtLog {snapshot : Option (Snapshot α)} {sendEntries : Option (SendEntries α)}
      {view : Slice} (building : repl.pc = .tick)
      (payload : sv.logs.entriesAfter repl.nextIndex = some (snapshot, sendEntries))
      (window : view = if sendEntries.isSome then
          sv.slice.dropFirst (repl.nextIndex - sv.logs.offset).toNat
        else Slice.nil) :
      Advances me sv repl { repl with
        pc := .round ⟨0, logArgs me sv snapshot sendEntries, view, none⟩ }
  | calledProbe {l r prevLogIndex m : Int} {call : Call α}
      (built : repl.pc = .probe l r prevLogIndex m call) (leading : sv.leading repl.ld = true) :
      Advances me sv repl { repl with
        pc := .probing l r prevLogIndex m { call with id := sv.nextId, atomReply := none } }
  | calledLog {call : Call α} (built : repl.pc = .round call)
      (leading : sv.leading repl.ld = true) :
      Advances me sv repl { repl with
        pc := .sending { call with id := sv.nextId, atomReply := none } }

/-- The arrival of a reply at a replicator, with the event it pushes. -/
inductive Receives (sv : Server α) (repl : Replicator α) (id : Nat)
    (reply : AppendEntriesReply) : Replicator α → Option (Event α) → Prop where
  | waited : Receives sv repl id reply repl none
  | moved {pc : ReplPc α} {nextIndex : Int} (noCall : pc.call? = none) :
      Receives sv repl id reply { repl with nextIndex, pc } none
  | storedProbe {l r prevLogIndex m : Int} {call : Call α}
      (sent : repl.pc = .probing l r prevLogIndex m call) :
      Receives sv repl id reply { repl with
        pc := .probing l r prevLogIndex m { call with atomReply := some reply } } none
  | storedLog {call : Call α} (sent : repl.pc = .sending call) :
      Receives sv repl id reply
        { repl with pc := .sending { call with atomReply := some reply } } none
  | repeatedProbe {l r prevLogIndex m : Int} {call : Call α}
      (sent : repl.pc = .probing l r prevLogIndex m call) :
      Receives sv repl id reply { repl with pc := .probe l r prevLogIndex m call } none
  | repeatedLog {call : Call α} (sent : repl.pc = .sending call) :
      Receives sv repl id reply { repl with pc := .round call } none
  | stale {call : Call α} (sent : repl.pc = .sending call) (leading : sv.leading repl.ld = true)
      (stale : reply.entryStatus = .entryStale) :
      Receives sv repl id reply { repl with pc := .returned }
        (some (.staleLeader repl.ld reply.term))
  | confirmed {call : Call α} {sendEntries : SendEntries α} {stop : Int}
      (sent : repl.pc = .sending call) (same : call.id = id) (answered : reply.responsed = true)
      (leading : sv.leading repl.ld = true) (matched : reply.entryStatus = .entryMatch)
      (plain : call.args.snapshot = none) (carried : call.args.sendEntries = some sendEntries)
      (something : sendEntries.entries ≠ [])
      (stopEq : stop = repl.nextIndex + sendEntries.entries.length) :
      Receives sv repl id reply { repl with nextIndex := stop, pc := .head }
        (some (.replConfirm repl.ld repl.peerId repl.nextIndex stop))

namespace Replicator

variable {me : Nat} {sv : Server α} {repl repl' : Replicator α}

theorem buildProbe_advances {l r prevLogIndex : Int}
    (building : repl.pc = .probeBuild l r prevLogIndex)
    (result : repl.buildProbe me sv l r prevLogIndex = some repl') :
    Advances me sv repl repl' := by
  simp only [buildProbe, Option.bind_eq_bind, Option.bind_eq_some_iff] at result
  obtain ⟨⟨mTerm, ok⟩, found, result⟩ := result
  cases ok with
  | false =>
      cases result
      exact .moved rfl
  | true =>
      cases result
      exact .builtProbe building found

theorem buildLog_advances (building : repl.pc = .tick)
    (result : repl.buildLog me sv = some repl') : Advances me sv repl repl' := by
  simp only [buildLog, Option.bind_eq_bind, Option.bind_eq_some_iff] at result
  obtain ⟨⟨snapshot, sendEntries⟩, payload, result⟩ := result
  cases result
  exact .builtLog building payload rfl

theorem advance_advances (result : repl.advance me sv = some repl') :
    Advances me sv repl repl' := by
  unfold advance at result
  split at result
  case h_1 =>
    split at result <;> cases result <;> exact .moved rfl
  case h_2 =>
    split at result <;> cases result <;> exact .moved rfl
  case h_3 building => exact buildProbe_advances building result
  case h_4 built =>
    split at result
    case isTrue leading =>
      cases result
      exact .calledProbe built leading
    case isFalse =>
      cases result
      exact .moved rfl
  case h_5 =>
    cases result
    unfold matched
    split <;> exact .moved rfl
  case h_6 =>
    cases result
    exact .moved rfl
  case h_7 =>
    split at result
    case isTrue =>
      simp only [Option.bind_eq_bind, Option.bind_eq_some_iff] at result
      obtain ⟨_, -, result⟩ := result
      cases result
      exact .moved rfl
    case isFalse =>
      cases result
      exact .moved rfl
  case h_8 building => exact buildLog_advances building result
  case h_9 built =>
    split at result
    case isTrue leading =>
      cases result
      exact .calledLog built leading
    case isFalse =>
      cases result
      exact .moved rfl
  all_goals
    cases result
    exact .waited

theorem answered_receives {call : Call α} {id : Nat} {reply : AppendEntriesReply}
    (sent : repl.pc = .sending call) (same : call.id = id) (answered : reply.responsed = true)
    (leading : sv.leading repl.ld = true) :
    Receives sv repl id reply (repl.answered call reply).1 (repl.answered call reply).2 := by
  unfold Replicator.answered
  split
  case h_1 => exact .repeatedLog sent
  case h_2 => exact .repeatedLog sent
  case h_3 stale => exact .stale sent leading stale
  case h_4 => exact .moved rfl
  case h_5 matched =>
    split
    case h_1 => exact .moved rfl
    case h_2 plain carried =>
      dsimp only
      split
      case isTrue something =>
        exact .confirmed sent same answered leading matched plain carried
          (List.ne_nil_of_length_pos something) rfl
      case isFalse => exact .moved rfl
    case h_3 => exact .moved rfl

theorem probed_receives {l r prevLogIndex m : Int} {call : Call α} {id : Nat}
    {reply : AppendEntriesReply} (sent : repl.pc = .probing l r prevLogIndex m call) :
    Receives sv repl id reply (repl.probed l r prevLogIndex m call reply) none := by
  unfold Replicator.probed
  split
  case h_4 | h_5 => exact .repeatedProbe sent
  all_goals exact .moved rfl

theorem receive_receives {id : Nat} {reply : AppendEntriesReply} {ev : Option (Event α)}
    (result : repl.receive sv id reply = (repl', ev)) :
    Receives sv repl id reply repl' ev := by
  unfold Replicator.receive at result
  split at result
  case h_1 sent =>
    split at result
    case isTrue =>
      split at result
      case isTrue =>
        split at result <;> cases result
        case isTrue => exact probed_receives sent
        case isFalse => exact .moved rfl
      case isFalse =>
        cases result
        exact .storedProbe sent
    case isFalse =>
      cases result
      exact .waited
  case h_2 sent =>
    split at result
    case isTrue matching =>
      split at result
      case isTrue answered =>
        split at result
        case isTrue leading =>
          have receives := answered_receives sent matching.1 answered leading
          rwa [result] at receives
        case isFalse =>
          cases result
          exact .moved rfl
      case isFalse =>
        cases result
        exact .storedLog sent
    case isFalse =>
      cases result
      exact .waited
  case h_3 =>
    cases result
    exact .waited

end Replicator

end GoLab.Raft
