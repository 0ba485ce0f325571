import GoLab.Raft.FullLog
import GoLab.Raft.Roles

/-!
# What a step does to a log

`Edits` lists what a step can do to the log in memory, and `Saves` what it can do to
the log on disk.  An invariant of logs is proved by cases on the two.
-/

namespace GoLab.Raft

variable {α : Type}

/-- Nothing is appended by a leader. -/
structure Quiet (obs : List (Obs α)) : Prop where
  inactive : Inactive obs
  unpushed : ∀ i entry, .pushed i entry ∉ obs

theorem quiet_raiseObs (me : Nat) (sv : Server α) (term : Int) : Quiet (sv.raiseObs me term) := by
  exact ⟨by simp [Inactive], by simp⟩

/-- The persisted state was written by a server with this log and term. -/
def Persister.SavedFrom (persister : Persister α) (logs : Logs α) (term : Int) : Prop :=
  ∃ sv : Server α, sv.logs = logs ∧ sv.term = term ∧ persister.raftstate = some sv.encodeState

namespace Persister.SavedFrom

variable {persister : Persister α} {logs : Logs α} {term : Int}

section

variable (saved : persister.SavedFrom logs term)
include saved

theorem logs_eq :
    ∃ sv : Server α, sv.logs = logs ∧
      persister.logs = sv.encodeState.logs.restore persister.snapshot := by
  obtain ⟨sv, isLogs, -, isState⟩ := saved
  exact ⟨sv, isLogs, by simp [Persister.logs, isState]⟩

theorem full_eq : persister.logs.full = logs.full := by
  obtain ⟨sv, rfl, restored⟩ := saved.logs_eq
  rw [restored, Server.full_restore]

theorem sound (ok : logs.Sound) : persister.logs.Sound := by
  obtain ⟨sv, rfl, restored⟩ := saved.logs_eq
  rw [restored]
  exact ok.restore _

theorem lci_eq : persister.logs.lci = logs.lci := by
  obtain ⟨sv, rfl, restored⟩ := saved.logs_eq
  rw [restored]
  rfl

theorem offset_eq :
    persister.logs.offset = logs.offset := by
  obtain ⟨sv, rfl, restored⟩ := saved.logs_eq
  rw [restored]
  rfl

theorem term_eq : persister.term = term := by
  obtain ⟨sv, -, rfl, isState⟩ := saved
  simp [Persister.term, isState, Server.encodeState]

end

end Persister.SavedFrom

/-- What a step does to the persisted state. -/
inductive Saves (sv sv' : Server α) : Prop where
  | kept (same : sv'.persister = sv.persister)
  | before (isUp : sv.up = true) (saved : sv'.persister.SavedFrom sv.logs sv'.term)
  | after (saved : sv'.persister.SavedFrom sv'.logs sv'.term)

theorem Server.saves_raiseTo (sv : Server α) (term : Int) {sv' : Server α} (isUp : sv.up = true)
    (persister : sv'.persister = (sv.raiseTo term).persister)
    (isTerm : sv'.term = (sv.raiseTo term).term) : Saves sv sv' := by
  by_cases larger : sv.term < term
  · refine .before isUp ⟨{ sv with term, voteFor := none }, rfl, ?_, ?_⟩
    · simp [isTerm, raiseTo, larger]
    · simp [persister, raiseTo, larger, persistState]
  · refine .kept ?_
    rw [persister, raiseTo_of_le (Int.not_lt.mp larger)]

/-- A follower processes a request of its term or a later one. -/
structure Follows (sv : Server α) (act : Act α) (caller : Caller) (args : AppendEntriesArgs α)
    (sv' : Server α) : Prop where
  isPop : act = .pop
  isUp : sv.up = true
  idle : sv.todo = []
  isNext : ∃ rest, sv.evCh = .appendEntries caller args :: rest
  running : sv.active = true
  follower : sv.role = .follower
  current : sv.term ≤ args.term
  term : sv'.term = args.term
  persister : sv'.persister = (sv.raiseTo args.term).persister

theorem Follows.mem {sv sv' : Server α} {act : Act α} {caller : Caller}
    {args : AppendEntriesArgs α} (follows : Follows sv act caller args sv') :
    .appendEntries caller args ∈ sv.evCh := by
  obtain ⟨rest, isNext⟩ := follows.isNext
  simp [isNext]

/-- What a step does to the log in memory. -/
inductive Edits (sv : Server α) (act : Act α) (out : Out α) : Prop where
  | kept (isUp : sv.up = true) (logs : out.server.logs = sv.logs)
  | installed {caller : Caller} {args : AppendEntriesArgs α} {snapshot : Snapshot α}
      (follows : Follows sv act caller args out.server) (carried : args.snapshot = some snapshot)
      (logs : out.server.logs = sv.logs.followerInstallSnapshot snapshot)
      (todo : out.server.todo = [.apply (.snapshot snapshot), .persist,
        .replyAppendEntries caller args { entryStatus := .entryMatch }])
  | appended {caller : Caller} {args : AppendEntriesArgs α} {sendEntries : SendEntries α}
      {status : EntryStatus} {appended : Bool} (follows : Follows sv act caller args out.server)
      (plain : args.snapshot = none) (carried : args.sendEntries = some sendEntries)
      (result : sv.logs.followerAppendEntries sendEntries =
        some (out.server.logs, status, appended))
      (todo : out.server.todo = (if appended then [.persistState] else []) ++
        (if status = .entryMatch ∧ args.entryType = .entryTLog then
          [.updateCommit args.leaderCommit] else []) ++
        [.replyAppendEntries caller args { entryStatus := status }])
  | pushed {et : LogEntry α} {commandIndex : Int} (isUp : sv.up = true)
      (pushed : sv.logs.pushEntry et = (out.server.logs, commandIndex)) (term : et.term = sv.term)
      (loud : ¬ Quiet out.obs)
  | taken {index : Int} {bytes : List UInt8} {rest : List (Event α)} (isUp : sv.up = true)
      (isNext : sv.evCh = .snapshot index bytes :: rest)
      (taken : sv.logs.takeSnapshot index bytes = some out.server.logs)
  | committed {leaderCommit : Int} {item : ApplyEntry α} {rest : List (Op α)} (isUp : sv.up = true)
      (isNext : sv.todo = .updateCommit leaderCommit :: rest)
      (result : sv.logs.updateCommit leaderCommit = some (out.server.logs, some item))
  | applied {snapshot : Snapshot α} (isUp : sv.up = true) (isNext : sv.hand = .applied snapshot)
      (logs : out.server.logs = { sv.logs with lai := snapshot.lastIncludeIndex })
  | restored (down : sv.up = false) (logs : out.server.logs = sv.persister.logs)
      (term : out.server.term = sv.persister.term) (todo : out.server.todo = [])

section

variable {cfg : Config} {me : Nat} {net : List (Msg α)} {sv : Server α} {act : Act α} {out : Out α}

theorem Server.raiseTo_term_eq {term : Int} (current : sv.term ≤ term) :
    (sv.raiseTo term).term = term := by
  unfold raiseTo
  dsimp only
  split <;> omega

theorem Steps.edits (steps : Steps cfg me net sv act out) : Edits sv act out := by
  cases isUp : sv.up with
  | false =>
      obtain ⟨-, made, -⟩ := steps.restarts isUp
      obtain ⟨applier, -, -, server⟩ := make_eq_some made
      exact .restored isUp (by rw [server]) (by rw [server]) (by rw [server])
  | true =>
      cases steps with
      | popped _ idle next handles =>
          cases handles with
          | installed running follower current carried =>
              exact .installed ⟨rfl, isUp, idle, ⟨_, next⟩, running, follower, current,
                Server.raiseTo_term_eq current, rfl⟩ carried rfl rfl
          | appended running follower current plain carried result =>
              exact .appended ⟨rfl, isUp, idle, ⟨_, next⟩, running, follower, current,
                Server.raiseTo_term_eq current, rfl⟩ plain carried result rfl
          | started _ _ pushed =>
              exact .pushed isUp pushed rfl fun quiet => quiet.unpushed _ _ (.head _)
          | becameLeader _ pushed =>
              exact .pushed isUp pushed rfl fun quiet => quiet.inactive _ _ _ _ (.head _)
          | snapshotTaken _ taken => exact .taken isUp next taken
          | _ => exact .kept isUp rfl
      | executed _ next executes =>
          cases executes with
          | committed result => exact .committed isUp next result
          | _ => exact .kept isUp rfl
      | applied _ applies =>
          cases applies with
          | snapshotApplied next => exact .applied isUp next rfl
          | _ => exact .kept isUp rfl
      | restarted down => simp [isUp] at down
      | _ => exact .kept isUp rfl

/-- Terms never go back while a server runs. -/
theorem Steps.term_le (steps : Steps cfg me net sv act out) (isUp : sv.up = true) :
    sv.term ≤ out.server.term := by
  have raise (term : Int) : sv.term ≤ if sv.term < term then term else sv.term := by
    split <;> omega
  cases steps with
  | popped _ _ _ handles =>
      cases handles with
      | installed | appended | candidateHold | voteGiven | voteDenied | candidateVote
      | staleCandidate => exact raise _
      | leaderVote _ _ larger | leaderHold _ _ larger | staleLeader _ _ larger =>
          exact Int.le_of_lt larger
      | becameCandidate => exact Int.le_add_one (Int.le_refl _)
      | _ => exact Int.le_refl _
  | executed _ _ executes => cases executes <;> exact Int.le_refl _
  | applied _ applies => cases applies <;> exact Int.le_refl _
  | restarted down => simp [isUp] at down
  | _ => exact Int.le_refl _

theorem Steps.saves (steps : Steps cfg me net sv act out) : Saves sv out.server := by
  cases steps with
  | popped up _ _ handles =>
      cases handles with
      | installed | appended | candidateHold | voteGiven | voteDenied | candidateVote
      | staleCandidate => exact Server.saves_raiseTo _ _ up rfl rfl
      | becameLeader => exact .after ⟨_, rfl, rfl, rfl⟩
      | snapshotTaken => exact .after ⟨_, rfl, rfl, rfl⟩
      | _ => exact .kept rfl
  | executed _ _ executes =>
      cases executes with
      | persistState | persist => exact .after ⟨_, rfl, rfl, rfl⟩
      | _ => exact .kept rfl
  | applied _ applies =>
      cases applies with
      | snapshotApplied => exact .after ⟨_, rfl, rfl, rfl⟩
      | _ => exact .kept rfl
  | restarted _ made =>
      obtain ⟨applier, -, -, rfl⟩ := make_eq_some made
      exact .kept rfl
  | _ => exact .kept rfl

end

end GoLab.Raft
