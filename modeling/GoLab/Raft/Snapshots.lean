import GoLab.Raft.LogOps
import GoLab.Raft.Payload

/-!
# Snapshots of delivered commands

The service asks for a snapshot of a command it has received, and the processor handles
the request at some later moment.  `takeSnapshot` searches the log in memory for the
command; the request is carried out exactly if the entry is still there.
-/

namespace GoLab.Raft

variable {α : Type}

/-- `takeSnapshot` of a command returns exactly if an entry of it is in the log. -/
theorem Logs.Anchored.takeSnapshot_iff {logs : Logs α} (anchored : logs.Anchored) {cmdIndex : Int}
    (command : cmdIndex ≠ noopIndex) (bytes : List UInt8) :
    (logs.takeSnapshot cmdIndex bytes).isSome ↔
      ∃ entry ∈ logs.entries, entry.commandIndex = cmdIndex := by
  constructor
  · intro returned
    obtain ⟨logs', taken⟩ := Option.isSome_iff_exists.mp returned
    obtain ⟨kept, entry, -, -, found, isCommand, -⟩ := takeSnapshot_spec taken
    exact ⟨entry, List.mem_of_getElem? found, isCommand⟩
  · rintro ⟨entry, membership, isCommand⟩
    obtain ⟨k, found⟩ := List.mem_iff_getElem?.mp membership
    obtain ⟨logs', taken, -⟩ := anchored.takeSnapshot_isSome found isCommand command bytes
    exact Option.isSome_of_eq_some taken

/-- Whether the processor is still up after it has handled a `SnapshotEvent`. -/
theorem Server.pop_snapshot (cfg : Config) (me : Nat) {sv : Server α} {index : Int}
    {bytes : List UInt8} {rest : List (Event α)} (up : sv.up = true) (idle : sv.todo = [])
    (isNext : sv.evCh = .snapshot index bytes :: rest) :
    ∃ out, sv.pop cfg me = some out ∧
      (out.server.up = true ↔
        (sv.active = true → (sv.logs.takeSnapshot index bytes).isSome)) := by
  unfold pop
  rw [idle, isNext]
  refine ⟨_, rfl, ?_⟩
  unfold processEvent orCrash
  dsimp only
  split
  case isTrue isActive =>
    cases taken : sv.logs.takeSnapshot index bytes with
    | none => simp [crashed, isActive]
    | some logs => simp [up]
  case isFalse notActive => simp [up, notActive]

/-- In every run, a server survives the `SnapshotEvent` for a command its service has
received exactly if the role it has is stopped or an entry of the command is still in its
log. -/
theorem snapshot_survives_iff {cfg : Config} {labels : List (Label α)} {s : Cluster α}
    (run : Run (Cluster.step cfg) (fun _ _ => True) Cluster.init labels s) {i : Nat}
    (isPeer : i < cfg.peers) (up : (s.servers i).up = true) (idle : (s.servers i).todo = [])
    {index : Int} {bytes : List UInt8} {rest : List (Event α)}
    (isNext : (s.servers i).evCh = .snapshot index bytes :: rest) :
    ∃ s', Cluster.step cfg ⟨i, .pop⟩ s = some s' ∧
      ((s'.servers i).up = true ↔ ((s.servers i).active = true →
        ∃ entry ∈ (s.servers i).logs.entries, entry.commandIndex = index)) := by
  have command : index ≠ noopIndex :=
    (Cluster.requested run i).event index bytes (isNext ▸ List.mem_cons_self)
  have anchored := (Cluster.sound run i).memory.cursors.anchored
  obtain ⟨out, popped, survives⟩ := Server.pop_snapshot cfg i up idle isNext
  refine ⟨s.update i out, ?_, ?_⟩
  · simp [Cluster.step, Cluster.outcome, isPeer, up, Server.act, popped]
  · rw [← anchored.takeSnapshot_iff command bytes]
    simpa [Cluster.update] using survives

/-- The service of the first leader asks for a snapshot of the first command. -/
def snapshotAsked : List (Label Nat) :=
  firstCommit ++ Label.all 0 [.snapshotCall 1 [1], .snapshotPush]

theorem snapshot_survives_snapshotAsked :
    ∃ s s', Run (Cluster.step (.doubling 3)) (fun _ _ => True) Cluster.init snapshotAsked s ∧
      Cluster.step (.doubling 3) ⟨0, .pop⟩ s = some s' ∧ (s'.servers 0).up = true := by
  obtain ⟨s, run, up, idle, isNext, inLog⟩ :
      ∃ s, Run (Cluster.step (.doubling 3)) (fun _ _ => True) Cluster.init snapshotAsked s ∧
        (s.servers 0).up = true ∧ (s.servers 0).todo = [] ∧
        (s.servers 0).evCh = [.snapshot 1 [1]] ∧
        ∃ entry ∈ (s.servers 0).logs.entries, entry.commandIndex = 1 :=
    Run.exists_of_runSteps (by decide +kernel)
  obtain ⟨s', taken, survives⟩ := snapshot_survives_iff run (by decide) up idle isNext
  exact ⟨s, s', run, taken, survives.mpr fun _ => inLog⟩

/-- The leader commits a second command with server 2, compacts it, and sends the snapshot
to server 1; the service of server 1 asks for a snapshot of the first command while the
request is waiting. -/
def snapshotOvertaken : List (Label Nat) :=
  followerDelivers ++ Label.all 1 [.exec] ++
  Label.all 0 [.start (some 8), .pop, .exec, .exec, .repl 1, .repl 1, .repl 1, .repl 1,
    .call 1] ++
  Label.all 2 [.pop, .receive 9, .pop, .exec] ++
  Label.all 0 [.receive 10, .repl 1, .repl 1, .repl 1, .call 1] ++
  Label.all 2 [.receive 11, .pop, .exec] ++
  Label.all 0 [.receive 12, .repl 1, .repl 1, .repl 1, .repl 1, .repl 1, .call 1] ++
  Label.all 2 [.receive 13, .pop, .exec, .exec, .exec, .exec] ++
  Label.all 0 [.receive 14, .pop, .exec, .exec, .applier, .applier, .applier,
    .snapshotCall 2 [1], .snapshotPush, .pop, .exec] ++
  Label.all 0 [.receive 8, .repl 0, .repl 0, .repl 0, .call 0] ++
  Label.all 1 [.receive 15, .snapshotCall 1 [1], .snapshotPush, .pop, .exec, .exec, .exec]

/-- Server 1 has delivered command 1, and crashes on the `SnapshotEvent` for it. -/
theorem snapshot_of_compacted_crashes :
    ∃ s, Run (Cluster.step (.doubling 3)) (fun _ _ => True) Cluster.init snapshotOvertaken s ∧
      .delivered 1 (.command 1 (some 7)) ∈ s.obs ∧ (s.servers 1).up = true ∧
      (s.servers 1).evCh = [.snapshot 1 [1]] ∧
      ∃ s' ∈ Cluster.step (.doubling 3) ⟨1, .pop⟩ s, (s'.servers 1).up = false :=
  Run.exists_of_runSteps (by decide +kernel)

end GoLab.Raft
