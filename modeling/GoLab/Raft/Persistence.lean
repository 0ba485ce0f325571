import GoLab.Raft.Cursors

/-!
# What the persister knows

Between two saves the memory of a server runs ahead of its persister.  A handler
that saves leaves nothing behind when it ends, with two exceptions: the term of
an election and a granted vote are written to memory only, and reach the
persister with the next save for some other reason.
-/

namespace GoLab.Raft

variable {α : Type}

/-- Whether the server has saved its state since its last election or vote, by
its history, latest first. -/
def voteSaved : List (Obs α) → Bool
  | [] => true
  | .saved _ :: _ | .restarted .. :: _ => true
  | .selfVote .. :: _ | .voted .. :: _ => false
  | _ :: rest => voteSaved rest

/-- The state `Make` would restore is the one in memory. -/
structure SameState (made sv : Server α) : Prop where
  term : made.term = sv.term
  voteFor : made.voteFor = sv.voteFor
  entries : made.logs.entries = sv.logs.entries
  lli : made.logs.lli = sv.logs.lli
  lci : made.logs.lci = sv.logs.lci
  noopCount : made.logs.noopCount = sv.logs.noopCount
  offset : made.logs.offset = sv.logs.offset
  snapshot : made.logs.snapshot = sv.logs.snapshot

namespace Server

/-- A crash at this moment would lose nothing. -/
def Durable (sv : Server α) : Prop :=
  ∃ made, make sv.persister sv.nextId = some made ∧ SameState made sv

/-- The handler the processor is in still has to save. -/
def saveDue (sv : Server α) : Prop :=
  .persistState ∈ sv.todo ∨ .persist ∈ sv.todo

/-- The persisted state is the one in memory, the bytes of the snapshot apart. -/
structure Synced (sv : Server α) : Prop where
  term : sv.persister.term = sv.term
  voteFor : sv.persister.voteFor = sv.voteFor
  logs : sv.persister.logs = { sv.logs with
    snapshot := sv.logs.snapshot.map ({ · with snapshot := sv.persister.snapshot }) }

/-- The persisted bytes are those of the snapshot in memory. -/
def BytesSynced (sv : Server α) : Prop :=
  sv.persister.snapshot = (sv.logs.snapshot.map Snapshot.snapshot).getD []

/-- The persister has not seen the present term or vote. -/
def Behind (sv : Server α) : Prop :=
  sv.persister.term < sv.term ∨ sv.persister.voteFor ≠ sv.voteFor

/-- The persister knows of no vote in the present term. -/
def Unvoted (sv : Server α) : Prop :=
  sv.persister.term < sv.term ∨ sv.persister.voteFor = none

end Server

/-- A persister without a snapshot has no bytes of one. -/
def Persister.NoBytes (persister : Persister α) : Prop :=
  persister.logs.snapshot = none → persister.snapshot = []

/-- A vote that is still to be given is the only one, and is given with nothing
but `fresh` on disk, counting the saves before it. -/
def GrantsFresh (fresh : Prop) : List (Op α) → Prop
  | [] => True
  | .persistState :: rest | .persist :: rest => GrantsFresh True rest
  | .grantVote .. :: rest => fresh ∧ ∀ caller args, .grantVote caller args ∉ rest
  | _ :: rest => GrantsFresh fresh rest

theorem GrantsFresh.imp {fresh fresh' : Prop} {todo : List (Op α)}
    (grants : GrantsFresh fresh todo)
    (weaker : (∃ caller args, .grantVote caller args ∈ todo) → fresh → fresh') :
    GrantsFresh fresh' todo := by
  induction todo with
  | nil => trivial
  | cons op rest ih =>
      have later : (∃ caller args, .grantVote caller args ∈ rest) → fresh → fresh' :=
        fun ⟨caller, args, membership⟩ => weaker ⟨caller, args, .tail _ membership⟩
      cases op with
      | persistState | persist => exact grants
      | grantVote caller args => exact ⟨weaker ⟨caller, args, .head _⟩ grants.1, grants.2⟩
      | _ => exact ih grants later

theorem GrantsFresh.of_not_mem {fresh : Prop} {todo : List (Op α)}
    (noGrant : ∀ caller args, .grantVote caller args ∉ todo) : GrantsFresh fresh todo := by
  induction todo with
  | nil => trivial
  | cons op rest ih =>
      have later : ∀ caller args, .grantVote caller args ∉ rest :=
        fun caller args membership => noGrant caller args (.tail _ membership)
      cases op with
      | persistState | persist =>
          have saved : GrantsFresh True rest := (ih later).imp fun _ _ => trivial
          exact saved
      | grantVote caller args => exact (noGrant caller args (.head _)).elim
      | _ => exact ih later

/-- What the persister knows while a server runs. -/
structure PersistOk (sv : Server α) (history : List (Obs α)) : Prop where
  state : voteSaved history = true → sv.Synced ∨ sv.saveDue
  bytes : sv.BytesSynced ∨ .persist ∈ sv.todo
  noBytes : sv.logs.snapshot = none → sv.persister.snapshot = []
  disk : sv.persister.NoBytes
  behind : voteSaved history = false → sv.Behind
  termLe : sv.persister.term ≤ sv.term
  voteFree : ∀ caller args, .grantVote caller args ∈ sv.todo → sv.voteFor = none
  grants : GrantsFresh sv.Unvoted sv.todo

namespace Server

theorem persistState_synced (sv : Server α) : sv.persistState.Synced where
  term := rfl
  voteFor := rfl
  logs := by
    simp [Persister.logs, persistState, encodeState, PersistentLogs.restore, Function.comp_def]

theorem persist_synced (sv : Server α) : sv.persist.Synced where
  term := rfl
  voteFor := rfl
  logs := by
    simp [Persister.logs, persist, encodeState, PersistentLogs.restore, Function.comp_def]

theorem Synced.noBytes {sv : Server α} (synced : sv.Synced)
    (noBytes : sv.logs.snapshot = none → sv.persister.snapshot = []) :
    sv.persister.NoBytes := by
  intro isNone
  apply noBytes
  simpa [synced.logs] using isNone

end Server

namespace PersistOk

variable {sv sv' : Server α} {history history' : List (Obs α)}

/-- A step that neither saves nor touches the term or the vote: what it writes to
the log is still to be saved. -/
theorem frame (ok : PersistOk sv history) (persister : sv'.persister = sv.persister)
    (term : sv'.term = sv.term) (voteFor : sv'.voteFor = sv.voteFor)
    (logs : sv'.logs = sv.logs ∨ sv'.saveDue)
    (snapshot : sv'.logs.snapshot = sv.logs.snapshot ∨
      .persist ∈ sv'.todo ∧ sv'.logs.snapshot.isSome)
    (due : sv.saveDue → sv'.saveDue) (persistDue : .persist ∈ sv.todo → .persist ∈ sv'.todo)
    (granting : ∀ caller args, .grantVote caller args ∈ sv'.todo →
      .grantVote caller args ∈ sv.todo)
    (grants : GrantsFresh sv.Unvoted sv'.todo)
    (saved : voteSaved history' = voteSaved history) : PersistOk sv' history' where
  state := by
    intro isSaved
    rcases logs with same | due'
    · rcases ok.state (saved ▸ isSaved) with synced | wasDue
      · refine .inl ⟨?_, ?_, ?_⟩
        · rw [persister, term, synced.term]
        · rw [persister, voteFor, synced.voteFor]
        · rw [persister, same, synced.logs]
      · exact .inr (due wasDue)
    · exact .inr due'
  bytes := by
    rcases snapshot with same | ⟨due', -⟩
    · rcases ok.bytes with synced | wasDue
      · exact .inl (by rw [Server.BytesSynced, persister, same, synced])
      · exact .inr (persistDue wasDue)
    · exact .inr due'
  noBytes := by
    intro isNone
    rcases snapshot with same | ⟨-, isSome⟩
    · rw [persister, ok.noBytes (same ▸ isNone)]
    · simp [isNone] at isSome
  disk := persister ▸ ok.disk
  behind := by
    intro notSaved
    rw [Server.Behind, persister, term, voteFor]
    exact ok.behind (saved ▸ notSaved)
  termLe := by
    rw [persister, term]
    exact ok.termLe
  voteFree := by
    intro caller args membership
    rw [voteFor]
    exact ok.voteFree caller args (granting caller args membership)
  grants := by
    refine grants.imp fun _ unvoted => ?_
    rwa [Server.Unvoted, persister, term]

/-- The processor starts a handler that has neither saved nor voted so far. -/
theorem next (ok : PersistOk sv history) (idle : sv.todo = [])
    (persister : sv'.persister = sv.persister) (term : sv'.term = sv.term)
    (voteFor : sv'.voteFor = sv.voteFor) (logs : sv'.logs = sv.logs ∨ sv'.saveDue)
    (snapshot : sv'.logs.snapshot = sv.logs.snapshot ∨
      .persist ∈ sv'.todo ∧ sv'.logs.snapshot.isSome)
    (noGrant : ∀ caller args, .grantVote caller args ∉ sv'.todo)
    (saved : voteSaved history' = voteSaved history) : PersistOk sv' history' :=
  ok.frame persister term voteFor logs snapshot (by simp [Server.saveDue, idle]) (by simp [idle])
    (fun caller args membership => (noGrant caller args membership).elim)
    (.of_not_mem noGrant) saved

theorem bytesSynced (ok : PersistOk sv history) (idle : sv.todo = []) : sv.BytesSynced := by
  simpa [idle] using ok.bytes

/-- The state has just been saved. -/
theorem of_synced (synced : sv.Synced) (saved : voteSaved history = true)
    (bytes : sv.BytesSynced ∨ .persist ∈ sv.todo)
    (noBytes : sv.logs.snapshot = none → sv.persister.snapshot = [])
    (voteFree : ∀ caller args, .grantVote caller args ∈ sv.todo → sv.voteFor = none)
    (grants : GrantsFresh True sv.todo) : PersistOk sv history where
  state _ := .inl synced
  bytes := bytes
  noBytes := noBytes
  disk := synced.noBytes noBytes
  behind notSaved := by simp [saved] at notSaved
  termLe := Int.le_of_eq synced.term
  voteFree := voteFree
  grants := by
    refine grants.imp fun ⟨caller, args, membership⟩ _ => .inr ?_
    rw [synced.voteFor, voteFree caller args membership]

/-- The term of another server is adopted and saved. -/
theorem raiseTo (ok : PersistOk sv history) (idle : sv.todo = []) (me : Nat) (term : Int) :
    PersistOk (sv.raiseTo term) (sv.raiseObs me term ++ history) := by
  by_cases larger : sv.term < term
  · rw [Server.raiseTo_of_lt larger, Server.raiseObs_of_lt larger]
    exact of_synced (Server.persistState_synced _) rfl ok.bytes ok.noBytes (by simp)
      (.of_not_mem (by simp [idle]))
  · rw [Server.raiseTo_of_le (Int.not_lt.mp larger)]
    simpa [Server.raiseObs, larger] using ok

/-- A leader has stored a larger term and saves next. -/
theorem storeTerm (ok : PersistOk sv history) (idle : sv.todo = []) {term : Int}
    (larger : sv.term < term) {rest : List (Op α)} (grants : GrantsFresh True rest) :
    PersistOk { sv with term, voteFor := none, todo := .persistState :: rest } history where
  state _ := .inr (.inl (.head _))
  bytes := .inl (ok.bytesSynced idle)
  noBytes := ok.noBytes
  disk := ok.disk
  behind _ := .inl (Int.lt_of_le_of_lt ok.termLe larger)
  termLe := Int.le_of_lt (Int.lt_of_le_of_lt ok.termLe larger)
  voteFree _ _ _ := rfl
  grants := grants

theorem handles {cfg : Config} {me : Nat} {ev : Event α} {out : Out α}
    (ok : PersistOk sv history) (handles : Handles cfg me sv ev out) (idle : sv.todo = [])
    (cursors : sv.logs.Ok) : PersistOk out.server (out.obs ++ history) := by
  have raised (term : Int) := ok.raiseTo idle me term
  have bytes := ok.bytesSynced idle
  cases handles with
  | ignored => exact ok
  | installed =>
      exact (raised _).next idle rfl rfl rfl (.inr (.inr (by simp))) (.inr ⟨by simp, rfl⟩)
        (by simp) rfl
  | appended _ _ _ _ _ result =>
      have appends := Logs.followerAppendEntries_appends cursors result
      refine (raised _).next idle rfl rfl rfl ?_ (.inl appends.snapshot_eq) ?_ rfl
      · cases appends with
        | below | unmatched | held => exact .inl rfl
        | appended => exact .inr (.inl (by simp))
      · intro caller args
        simp only [List.mem_append, List.mem_singleton, reduceCtorEq, or_false]
        split <;> split <;> simp
  | @voteGiven _ args _ _ _ larger =>
      have disk := (raised args.term).disk
      rw [Server.raiseTo_of_lt larger] at disk ⊢
      exact {
        state := by simp [voteSaved]
        bytes := .inl bytes
        noBytes := ok.noBytes
        disk := disk
        behind _ := .inr nofun
        termLe := Int.le_refl _
        voteFree := by simp
        grants := .of_not_mem (by simp) }
  | @voteDenied _ args _ _ _ larger =>
      have raised := raised args.term
      rw [Server.raiseObs_of_lt larger] at raised
      exact raised.next idle rfl rfl rfl (.inl rfl) (.inl rfl) (by simp) rfl
  | candidateVote _ _ larger =>
      rw [Server.raiseTo_of_lt larger]
      exact of_synced ⟨rfl, rfl, (Server.persistState_synced _).logs⟩ rfl (.inl bytes) ok.noBytes
        (fun _ _ _ => rfl) (by simp [GrantsFresh])
  | candidateHold | staleCandidate =>
      exact (raised _).next idle rfl rfl rfl (.inl rfl) (.inl rfl) (by simp) rfl
  | leaderVote _ _ larger => exact ok.storeTerm idle larger (by simp [GrantsFresh])
  | leaderHold _ _ larger | staleLeader _ _ larger =>
      exact ok.storeTerm idle larger (.of_not_mem (by simp))
  | started _ _ pushed =>
      exact ok.next idle rfl rfl rfl (.inr (.inl (by simp)))
        (.inl (by rw [Logs.pushEntry_spec pushed])) (by simp) rfl
  | becameFollower => exact ok.next idle rfl rfl rfl (.inl rfl) (.inl rfl) (by simp [idle]) rfl
  | becameCandidate =>
      have larger := Int.lt_add_one_of_le ok.termLe
      exact {
        state := by simp [voteSaved]
        bytes := .inl bytes
        noBytes := ok.noBytes
        disk := ok.disk
        behind _ := .inl larger
        termLe := Int.le_of_lt larger
        voteFree := by simp [idle]
        grants := .of_not_mem (by simp [idle]) }
  | becameLeader _ pushed =>
      rw [Logs.pushEntry_spec pushed]
      exact of_synced ⟨rfl, rfl, (Server.persistState_synced _).logs⟩ rfl (.inl bytes) ok.noBytes
        (by simp) (.of_not_mem (by simp))
  | snapshotTaken _ taken =>
      obtain ⟨_, _, _, _, -, -, -, -, rfl⟩ := Logs.takeSnapshot_spec taken
      exact of_synced ⟨rfl, rfl, (Server.persist_synced _).logs⟩ rfl (.inl rfl) nofun (by simp)
        (.of_not_mem (by simp))
  | counted =>
      refine ok.next idle rfl rfl rfl (.inl rfl) (.inl rfl) ?_ rfl
      intro caller args
      dsimp only
      split <;> simp
  | _ => exact ok.next idle rfl rfl rfl (.inl rfl) (.inl rfl) (by simp) rfl

theorem executes {cfg : Config} {me : Nat} {op : Op α} {rest : List (Op α)} {out : Out α}
    (ok : PersistOk sv history) (next : sv.todo = op :: rest)
    (executes : Executes cfg me { sv with todo := rest } op out) :
    PersistOk out.server (out.obs ++ history) := by
  have grants := next ▸ ok.grants
  have voteFree (caller : Caller) (args : RequestVoteArgs)
      (membership : .grantVote caller args ∈ rest) : sv.voteFor = none :=
    ok.voteFree caller args (next ▸ .tail _ membership)
  have bytes (notPersist : op ≠ .persist) : sv.BytesSynced ∨ .persist ∈ rest := by
    simpa [next, notPersist.symm] using ok.bytes
  cases executes with
  | persistState =>
      exact of_synced (Server.persistState_synced _) rfl (bytes nofun) ok.noBytes voteFree grants
  | persist =>
      refine of_synced (Server.persist_synced _) rfl (.inl rfl) (fun isNone => ?_) voteFree grants
      have isNone : sv.logs.snapshot = none := isNone
      simp [Server.persist, isNone]
  | committed result =>
      obtain ⟨commit, batch, -, -, -, rfl, rfl⟩ := Logs.updateCommit_spec result
      refine ok.frame rfl rfl rfl (.inr (.inl (.head _))) (.inl rfl) (fun _ => .inl (.head _))
        (by simp [next]) (by simp [next]) ?_ rfl
      have later : GrantsFresh True rest := GrantsFresh.imp grants fun _ _ => trivial
      exact later
  | voteGiven =>
      obtain ⟨unvoted, single⟩ := grants
      exact {
        state := by simp [voteSaved]
        bytes := (bytes nofun).imp id (List.mem_append_left _)
        noBytes := ok.noBytes
        disk := ok.disk
        behind _ := by
          rcases unvoted with older | noVote
          · exact .inl older
          · exact .inr (by simp [noVote])
        termLe := ok.termLe
        voteFree := by simp [single]
        grants := .of_not_mem (by simp [single]) }
  | voteDenied =>
      exact ok.frame rfl rfl rfl (.inl rfl) (.inl rfl) (by simp [Server.saveDue, next])
        (by simp [next]) (by simp [grants.2]) (.of_not_mem (by simp [grants.2])) rfl
  | voteAnswered =>
      exact ok.frame rfl rfl rfl (.inl rfl) (.inl rfl) (by simp [Server.saveDue, next])
        (by simp [next]) (by simp [next]) grants (by dsimp only; split <;> rfl)
  | _ =>
      exact ok.frame rfl rfl rfl (.inl rfl) (.inl rfl) (by simp [Server.saveDue, next])
        (by simp [next]) (by simp [next]) grants rfl

theorem applies {me : Nat} {out : Out α} (ok : PersistOk sv history)
    (applies : Applies me sv out) : PersistOk out.server (out.obs ++ history) := by
  cases applies with
  | snapshotApplied =>
      exact of_synced (Server.persistState_synced _) rfl ok.bytes ok.noBytes ok.voteFree
        (ok.grants.imp fun _ _ => trivial)
  | _ => exact ok.frame rfl rfl rfl (.inl rfl) (.inl rfl) id id (fun _ _ => id) ok.grants rfl

end PersistOk

theorem Persister.logs_bytes (persister : Persister α) :
    persister.logs.snapshot.map ({ · with snapshot := persister.snapshot }) =
      persister.logs.snapshot := by
  unfold Persister.logs
  cases persister.raftstate with
  | none => rfl
  | some state => simp [PersistentLogs.restore, Function.comp_def]

theorem PersistOk.make {persister : Persister α} {nextId : Nat} {sv : Server α}
    {history : List (Obs α)} (noBytes : persister.NoBytes)
    (made : make persister nextId = some sv) (saved : voteSaved history = true) :
    PersistOk sv history := by
  obtain ⟨applier, -, -, rfl⟩ := make_eq_some made
  have bytes := persister.logs_bytes
  refine of_synced ⟨rfl, rfl, ?_⟩ saved (.inl ?_) noBytes nofun trivial
  · simp only [bytes]
  · unfold Server.BytesSynced
    cases isSnapshot : persister.logs.snapshot with
    | none => simp [noBytes isSnapshot]
    | some snapshot =>
        rw [isSnapshot, Option.map_some, Option.some.injEq] at bytes
        exact congrArg Snapshot.snapshot bytes

theorem voteSaved_restarted (me : Nat) (base : Int) (queue : List (ApplyEntry α))
    (history : List (Obs α)) :
    voteSaved (queue.map (.queued me) ++ [.restarted me base] ++ history) = true := by
  induction queue with
  | nil => rfl
  | cons item rest ih => exact ih

/-- The persister of a server that runs is in order in every run, and that of a
server that is down can be restored from. -/
theorem Cluster.persistOk {cfg : Config} {allowed : Cluster α → Label α → Prop}
    {labels : List (Label α)} {s : Cluster α} (run : Run (step cfg) allowed init labels s)
    (i : Nat) : (s.servers i).persister.NoBytes ∧
      ((s.servers i).up = true → PersistOk (s.servers i) (s.history i)) := by
  refine local_invariant (fun _ sv history => sv.persister.NoBytes ∧
    (sv.up = true → PersistOk sv history)) ?_ ?_ run i
  · refine fun _ => ⟨fun _ => rfl, fun _ => ?_⟩
    exact PersistOk.make (fun _ => rfl) make_fresh rfl
  · intro _ s i act out earlier before _ steps
    have cursors := (cursorsOk earlier i).memory
    have known : ∀ {sv : Server α} {history}, PersistOk sv history →
        sv.persister.NoBytes ∧ (sv.up = true → PersistOk sv history) :=
      fun ok => ⟨ok.disk, fun _ => ok⟩
    cases steps with
    | popped up idle _ handles =>
        refine known (PersistOk.handles ?_ handles idle cursors)
        exact (before.2 up).next idle rfl rfl rfl (.inl rfl) (.inl rfl) (by simp [idle]) rfl
    | executed up next executes => exact known ((before.2 up).executes next executes)
    | applied up applies => exact known ((before.2 up).applies applies)
    | crashed => exact ⟨before.1, nofun⟩
    | restarted _ made =>
        exact known (PersistOk.make before.1 made (voteSaved_restarted ..))
    | _ =>
        exact known ((before.2 ‹_›).frame rfl rfl rfl (.inl rfl) (.inl rfl) id id (fun _ _ => id)
          (before.2 ‹_›).grants rfl)

theorem Server.Durable.term_eq {sv : Server α} (durable : sv.Durable) :
    sv.persister.term = sv.term := by
  obtain ⟨made, isMade, same⟩ := durable
  obtain ⟨applier, -, -, rfl⟩ := make_eq_some isMade
  exact same.term

/-- A server that is in step with its persister can be restored from it. -/
theorem PersistOk.durable {sv : Server α} {history : List (Obs α)} (ok : PersistOk sv history)
    (cursors : sv.persister.CursorsOk) (synced : sv.Synced) (bytes : sv.BytesSynced)
    (notEmpty : ∀ snapshot ∈ sv.logs.snapshot, snapshot.snapshot ≠ []) : sv.Durable := by
  have sameBytes : ∀ snapshot ∈ sv.logs.snapshot, sv.persister.snapshot = snapshot.snapshot := by
    intro snapshot isSnapshot
    rw [bytes, Option.mem_def.mp isSnapshot]
    rfl
  have bytesOk : sv.persister.BytesOk := by
    refine ⟨fun isNone => ok.disk (by simp [Persister.logs, isNone, Logs.empty]), ?_⟩
    rw [synced.logs, Option.isSome_map]
    intro compacted
    obtain ⟨snapshot, isSnapshot⟩ := Option.isSome_iff_exists.mp compacted
    rw [sameBytes snapshot isSnapshot]
    exact notEmpty snapshot isSnapshot
  obtain ⟨applier, queued⟩ := cursors.logs_ok.unfinished
  obtain ⟨made, isMade⟩ := make_isSome sv.nextId bytesOk queued
  refine ⟨made, isMade, ?_⟩
  obtain ⟨applier, -, -, rfl⟩ := make_eq_some isMade
  have snapshotEq : sv.logs.snapshot.map ({ · with snapshot := sv.persister.snapshot }) =
      sv.logs.snapshot := by
    cases isSnapshot : sv.logs.snapshot with
    | none => rfl
    | some snapshot => rw [Option.map_some, sameBytes snapshot isSnapshot]
  exact {
    term := synced.term
    voteFor := synced.voteFor
    entries := by simp only [synced.logs]
    lli := by simp only [synced.logs]
    lci := by simp only [synced.logs]
    noopCount := by simp only [synced.logs]
    offset := by simp only [synced.logs]
    snapshot := by simp only [synced.logs, snapshotEq] }

/-- A server that can be restored has saved its last vote, and its snapshot is
not empty. -/
theorem PersistOk.of_durable {sv : Server α} {history : List (Obs α)} (ok : PersistOk sv history)
    (durable : sv.Durable) : voteSaved history = true ∧
      ∀ snapshot ∈ sv.logs.snapshot, snapshot.snapshot ≠ [] := by
  obtain ⟨made, isMade, same⟩ := id durable
  obtain ⟨applier, bytesOk, -, rfl⟩ := make_eq_some isMade
  have snapshotEq := same.snapshot
  refine ⟨?_, ?_⟩
  · cases saved : voteSaved history with
    | true => rfl
    | false =>
        rcases ok.behind saved with older | otherVote
        · exact absurd durable.term_eq (Int.ne_of_lt older)
        · exact absurd same.voteFor otherVote
  · intro snapshot isSnapshot
    have bytes := sv.persister.logs_bytes
    have isPersisted : sv.persister.logs.snapshot = some snapshot := by
      rw [snapshotEq, Option.mem_def.mp isSnapshot]
    rw [isPersisted, Option.map_some, Option.some.injEq] at bytes
    rw [← bytes]
    exact bytesOk.2 (Option.isSome_of_eq_some isPersisted)

/-- Once a handler has done its saves, what `Make` would restore is the state in
memory, unless an election or a vote has not been saved yet or the service made
an empty snapshot. -/
theorem durable_iff {cfg : Config} {labels : List (Label α)} {s : Cluster α}
    (run : Run (Cluster.step cfg) (fun _ _ => True) .init labels s) (i : Nat)
    (up : (s.servers i).up = true) (settled : ¬ (s.servers i).saveDue) :
    (s.servers i).Durable ↔ voteSaved (s.history i) = true ∧
      ∀ snapshot ∈ (s.servers i).logs.snapshot, snapshot.snapshot ≠ [] := by
  have ok := (Cluster.persistOk run i).2 up
  constructor
  · exact ok.of_durable
  · rintro ⟨saved, notEmpty⟩
    have synced := (ok.state saved).resolve_right settled
    have bytes := ok.bytes.resolve_right fun due => settled (.inr due)
    exact ok.durable (Cluster.cursorsOk run i).disk synced bytes notEmpty

/-- An election is announced to the peers with a term the persister has never
seen. -/
theorem startElection_not_durable :
    ∃ s, Run (Cluster.step (.doubling 3)) (fun _ _ => True) .init firstElection s ∧
      (s.servers 0).up = true ∧ (s.servers 0).todo = [] ∧
      .requestVote ⟨0, 1⟩ 1 ⟨1, 0, ⟨-1, 0⟩⟩ ∈ s.net ∧ ¬ (s.servers 0).Durable := by
  have reached : ∃ s, Run (Cluster.step (.doubling 3)) (fun _ _ => True) .init firstElection s ∧
      (s.servers 0).up = true ∧ (s.servers 0).todo = [] ∧
      .requestVote ⟨0, 1⟩ 1 ⟨1, 0, ⟨-1, 0⟩⟩ ∈ s.net ∧
      (s.servers 0).persister.term ≠ (s.servers 0).term :=
    Run.exists_of_runSteps (by decide +kernel)
  obtain ⟨s, run, up, idle, sent, older⟩ := reached
  exact ⟨s, run, up, idle, sent, fun durable => older durable.term_eq⟩

/-- The two sides of `durable_iff` in the state after that election. -/
theorem durable_iff_firstElection :
    ∃ s, Run (Cluster.step (.doubling 3)) (fun _ _ => True) .init firstElection s ∧
      ((s.servers 0).Durable ↔ voteSaved (s.history 0) = true ∧
        ∀ snapshot ∈ (s.servers 0).logs.snapshot, snapshot.snapshot ≠ []) := by
  have reached : ∃ s, Run (Cluster.step (.doubling 3)) (fun _ _ => True) .init firstElection s ∧
      (s.servers 0).up = true ∧ (s.servers 0).todo = [] :=
    Run.exists_of_runSteps (by decide +kernel)
  obtain ⟨s, run, up, idle⟩ := reached
  exact ⟨s, run, durable_iff run 0 up (by simp [Server.saveDue, idle])⟩

end GoLab.Raft
