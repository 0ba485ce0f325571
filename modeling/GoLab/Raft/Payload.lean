import GoLab.Raft.Edits
import GoLab.Raft.Replication

/-!
# What requests carry

A request carries an end of the sender's log or its snapshot, and the snapshots
themselves are taken at commands the service has received.  The fields of every log
and of every snapshot are therefore those of their entries, in every run.
-/

namespace GoLab.Raft

variable {α : Type}
variable {cfg : Config} {allowed : Cluster α → Label α → Prop} {labels : List (Label α)}
  {s : Cluster α}

/-- The compacted prefix is a prefix of the log. -/
theorem Logs.compacted_front {logs : Logs α} {snapshot : Snapshot α}
    (isSnapshot : logs.snapshot = some snapshot) : snapshot.compacted <+: logs.full := by
  unfold Logs.full
  simp [Logs.compacted, isSnapshot]

/-! ## The payload of requests -/

/-- The entries of a request are the end of a log. -/
structure SendEntries.EndOf (sent : SendEntries α) (whole : List (LogEntry α)) : Prop where
  prev : -1 ≤ sent.prevLogInfo.index
  length : (whole.length : Int) = sent.prevLogInfo.index + 1 + sent.entries.length
  entries : sent.entries = whole.drop (sent.prevLogInfo.index + 1).toNat
  term : 0 ≤ sent.prevLogInfo.index →
    whole[sent.prevLogInfo.index.toNat]?.map LogEntry.term = some sent.prevLogInfo.term

theorem Builds.payload {me : Nat} {sv : Server α} {repl : Replicator α}
    {args : AppendEntriesArgs α} (ok : sv.logs.Sound) (builds : Builds me sv repl args) :
    (∀ snapshot ∈ args.snapshot, sv.logs.snapshot = some snapshot) ∧
      ∀ sent ∈ args.sendEntries, ∃ whole, whole <+: sv.logs.full ∧ sent.EndOf whole := by
  cases builds with
  | @probe l r prevLogIndex m mTerm _ found =>
      obtain ⟨nonneg, isTerm⟩ := ok.tryIndexLogTerm found
      obtain ⟨entry, isEntry, rfl⟩ := Option.map_eq_some_iff.mp isTerm
      have inBounds := (List.getElem?_eq_some_iff.mp isEntry).1
      refine ⟨nofun, ?_⟩
      rintro _ ⟨⟩
      refine ⟨sv.logs.full.take (m + 1).toNat, List.take_prefix .., ?_⟩
      exact {
        prev := by simp only; omega
        length := by simp only [List.length_take, List.length_nil]; omega
        entries := by simp
        term := fun _ => by
          rw [List.getElem?_take_of_lt (by simp only; omega), isTerm] }
  | log _ payload =>
      rcases ok.entriesAfter payload with ⟨rfl, rfl⟩ | ⟨sent, rfl, rfl, nonneg, prev, inside, facts⟩
      · exact ⟨fun snapshot carried => carried, nofun⟩
      · obtain ⟨entries, term⟩ := facts
        refine ⟨nofun, ?_⟩
        rintro _ ⟨⟩
        refine ⟨sv.logs.full, List.prefix_rfl, ?_⟩
        exact {
          prev := by omega
          length := by rw [entries, List.length_drop]; omega
          entries := by rw [entries, prev]
          term := fun positive => by
            have := term (by omega)
            rwa [show _ - 1 = sent.prevLogInfo.index by omega] at this }

/-! ## The commands the service asks snapshots for -/

/-- Every command index the service has received or asks a snapshot for. -/
structure Requested (q : Int → Prop) (sv : Server α) : Prop where
  received : ∀ index ∈ sv.received, q index
  service : ∀ index snapshot,
    sv.service = .calling index snapshot ∨ sv.service = .waiting index snapshot → q index
  event : ∀ index snapshot, .snapshot index snapshot ∈ sv.evCh → q index

namespace Requested

variable {q : Int → Prop} {sv sv' : Server α}

theorem mono {q' : Int → Prop} (ok : Requested q sv) (weaker : ∀ index, q index → q' index) :
    Requested q' sv where
  received index received := weaker index (ok.received index received)
  service index snapshot asked := weaker index (ok.service index snapshot asked)
  event index snapshot pushed := weaker index (ok.event index snapshot pushed)

theorem frame (ok : Requested q sv) (received : sv'.received = sv.received)
    (service : sv'.service = sv.service)
    (event : ∀ index snapshot, .snapshot index snapshot ∈ sv'.evCh →
      .snapshot index snapshot ∈ sv.evCh) : Requested q sv' where
  received := received ▸ ok.received
  service := service ▸ ok.service
  event index snapshot pushed := ok.event index snapshot (event index snapshot pushed)

/-- What holds of every command that is delivered holds of every command a snapshot
is asked for. -/
theorem steps {me : Nat} {net : List (Msg α)} {act : Act α} {out : Out α} (ok : Requested q sv)
    (steps : Steps cfg me net sv act out)
    (delivered : ∀ entry rest, sv.hand = .log (entry :: rest) → entry.commandIndex ≠ noopIndex →
      q entry.commandIndex) : Requested q out.server := by
  cases steps with
  | popped _ _ next handles =>
      refine ok.frame handles.received_eq handles.service_eq fun _ _ pushed => ?_
      rw [handles.evCh_eq] at pushed
      exact next ▸ List.mem_cons_of_mem _ pushed
  | executed _ _ executes =>
      cases executes with
      | snapshotAnswered released again =>
          refine ⟨ok.received, ?_, ok.event⟩
          rintro index snapshot (calling | waiting)
          · exact ok.service index snapshot (again index snapshot calling)
          · exact (released index snapshot waiting).elim
      | _ => exact ok.frame rfl rfl (by simp)
  | applied _ applies =>
      cases applies with
      | delivered next command =>
          refine ⟨?_, ok.service, ok.event⟩
          simp only [List.mem_cons, forall_eq_or_imp]
          exact ⟨delivered _ _ next command, ok.received⟩
      | _ => exact ok.frame rfl rfl fun _ _ => id
  | snapshotCalled _ _ received =>
      refine ⟨ok.received, ?_, ok.event⟩
      rintro index snapshot (calling | waiting)
      · cases calling
        exact ok.received _ received
      · cases waiting
  | snapshotPushed _ calling =>
      have asked := ok.service _ _ (.inl calling)
      refine ⟨ok.received, ?_, ?_⟩
      · rintro index snapshot (calling | waiting)
        · cases calling
        · cases waiting
          exact asked
      · intro index snapshot pushed
        rcases List.mem_append.mp pushed with before | isNew
        · exact ok.event index snapshot before
        · cases List.mem_singleton.mp isNew
          exact asked
  | arrived _ _ arrives => cases arrives <;> exact ok.frame rfl rfl (by simp)
  | polledEvent _ _ _ _ _ _ _ event => cases event <;> exact ok.frame rfl rfl (by simp)
  | repliedEvent _ _ _ _ receives => cases receives <;> exact ok.frame rfl rfl (by simp)
  | steppedDown => exact ok.frame rfl rfl (by simp)
  | restarted _ made =>
      obtain ⟨applier, -, -, rfl⟩ := make_eq_some made
      exact ⟨by simp, by simp, by simp⟩
  | _ => exact ok.frame rfl rfl fun _ _ => id

end Requested

/-- Snapshots are asked for commands. -/
theorem Cluster.requested (run : Run (step cfg) allowed init labels s) (i : Nat) :
    Requested (· ≠ noopIndex) (s.servers i) := by
  refine local_invariant (fun _ sv _ => Requested (· ≠ noopIndex) sv) ?_ ?_ run i
  · exact fun _ => ⟨by simp [Server.initial], by simp [Server.initial], by simp [Server.initial]⟩
  · intro _ s i act out _ ok _ steps
    exact ok.steps steps fun _ _ _ command => command

/-! ## The fields of every log -/

structure Server.Sound (sv : Server α) : Prop where
  memory : sv.logs.Sound
  disk : sv.persister.logs.Sound

/-- The log a step leaves in memory. -/
theorem Server.Sound.edits {i : Nat} {act : Act α} {out : Out α}
    (run : Run (Cluster.step cfg) allowed Cluster.init labels s) (sound : (s.servers i).Sound)
    (received : Received (fun _ args => ∀ snapshot ∈ args.snapshot, snapshot.Ok) (s.servers i))
    (steps : Steps cfg i s.net (s.servers i) act out) : out.server.logs.Sound := by
  cases steps.edits with
  | kept _ logs => exact logs ▸ sound.memory
  | installed follows carried logs =>
      exact logs ▸ .followerInstallSnapshot _ (received _ _ follows.mem _ carried)
  | appended _ _ _ result =>
      exact sound.memory.appends
        (Logs.followerAppendEntries_appends sound.memory.cursors result)
  | pushed _ pushed => exact sound.memory.pushEntry pushed
  | taken _ isNext taken =>
      have command := (Cluster.requested run i).event _ _ (by rw [isNext]; exact .head _)
      exact sound.memory.takeSnapshot command taken
  | committed _ _ result => exact sound.memory.updateCommit result
  | applied isUp isNext logs =>
      have compacted := (Cluster.cursorsOk run i).pending isUp (.inr (.inl ⟨_, .inr isNext⟩))
      exact logs ▸ sound.memory.applied compacted _
  | restored _ logs => exact logs ▸ sound.disk

/-- The fields of every log are those of its entries, in every run. -/
theorem Cluster.sound (run : Run (step cfg) allowed init labels s) (i : Nat) :
    (s.servers i).Sound := by
  refine (served (fun _ _ _ sv => sv.Sound)
    (fun _ _ _ _ args => ∀ snapshot ∈ args.snapshot, snapshot.Ok) ?_ (fun _ _ _ _ _ _ _ _ _ => id)
    (fun _ _ _ _ _ _ _ _ _ _ => id) (fun _ _ _ _ _ _ => id) ?_ ?_
    (fun _ _ _ _ _ _ _ _ _ _ _ _ => id) (fun _ _ _ _ _ _ _ _ _ => id) run).1 i
  · exact fun _ => ⟨Logs.empty_sound, Logs.empty_sound⟩
  · intro labels s i act out run sound received _ steps
    have memory := sound.edits run (fun caller args membership => ?_) steps
    · refine ⟨memory, ?_⟩
      cases steps.saves with
      | kept same => exact same ▸ sound.disk
      | before _ saved => exact saved.sound sound.memory
      | after saved => exact saved.sound memory
    · obtain ⟨repl, snapshots⟩ := received caller args membership
      exact snapshots
  · intro labels s i number repl args _ sound _ _ _ builds snapshot carried
    exact sound.memory.snapshot snapshot ((builds.payload sound.memory).1 snapshot carried)

end GoLab.Raft
