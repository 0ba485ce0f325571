import GoLab.Raft.History

/-!
# Events stay with the role they were pushed for

While a role is stopped nothing is pushed behind its `TransEvent`, so the next
role starts with an empty channel: it never sees an event that was meant for an
earlier one.
-/

namespace GoLab.Raft

variable {α : Type}

/-- The channel of a stopped role: its `TransEvent` at the end, or nothing when
the next role is about to be activated. -/
inductive Stopped (sv : Server α) : Prop where
  | leaving {before : List (Event α)} {transFunc : Option TransFunc}
      (last : sv.evCh = before ++ [.trans transFunc])
      (only : ∀ earlier, .trans earlier ∉ before) (notYet : .setActive ∉ sv.todo)
  | entering (next : sv.todo = [.setActive]) (empty : sv.evCh = [])

/-- The channel of a running server. -/
structure Isolated (sv : Server α) : Prop where
  running : sv.active = true → (∀ transFunc, .trans transFunc ∉ sv.evCh) ∧ .setActive ∉ sv.todo
  stopped : sv.active = false → Stopped sv
  owned : ∀ ev ∈ sv.evCh, ∀ role ∈ ev.owner, role = sv.roleId

namespace Isolated

variable {sv sv' : Server α}

/-- The next role finds an empty channel. -/
theorem trans_last {transFunc : Option TransFunc} {rest : List (Event α)} (ok : Isolated sv)
    (next : sv.evCh = .trans transFunc :: rest) : sv.active = false ∧ rest = [] := by
  cases active : sv.active with
  | true => exact ((ok.running active).1 transFunc (by simp [next])).elim
  | false =>
      refine ⟨rfl, ?_⟩
      cases ok.stopped active with
      | entering _ empty => simp [empty] at next
      | @leaving before _ last only _ =>
          rw [next] at last
          cases before with
          | nil => exact (List.cons.inj last).2
          | cons first before =>
              simp only [List.cons_append, List.cons.injEq] at last
              exact (only transFunc (by simp [last.1])).elim

/-- A leader about to be activated finds an empty channel. -/
theorem entering (ok : Isolated sv) (due : .setActive ∈ sv.todo) :
    sv.active = false ∧ sv.todo = [.setActive] ∧ sv.evCh = [] := by
  cases active : sv.active with
  | true => exact ((ok.running active).2 due).elim
  | false =>
      cases ok.stopped active with
      | leaving _ _ notYet => exact (notYet due).elim
      | entering next empty => exact ⟨rfl, next, empty⟩

/-- A step that leaves the channel and the role alone. -/
theorem frame (ok : Isolated sv) (evCh : sv'.evCh = sv.evCh) (active : sv'.active = sv.active)
    (roleId : sv'.roleId = sv.roleId) (todo : .setActive ∈ sv'.todo ↔ .setActive ∈ sv.todo)
    (entering : sv.todo = [.setActive] → sv'.todo = [.setActive]) : Isolated sv' where
  running isActive := by
    rw [evCh, todo]
    exact ok.running (active ▸ isActive)
  stopped notActive := by
    cases ok.stopped (active ▸ notActive) with
    | leaving last only notYet => exact .leaving (evCh ▸ last) only (by rwa [todo])
    | entering next empty => exact .entering (entering next) (evCh ▸ empty)
  owned := by
    rw [evCh, roleId]
    exact ok.owned

/-- An event is pushed for the present role. -/
theorem push (ok : Isolated sv) (running : sv.active = true) {ev : Event α}
    (evCh : sv'.evCh = sv.evCh ++ [ev]) (active : sv'.active = sv.active)
    (roleId : sv'.roleId = sv.roleId) (todo : sv'.todo = sv.todo)
    (other : ∀ transFunc, ev ≠ .trans transFunc) (owner : ∀ role ∈ ev.owner, role = sv.roleId) :
    Isolated sv' where
  running _ := by
    obtain ⟨noTrans, notYet⟩ := ok.running running
    refine ⟨fun transFunc membership => ?_, todo ▸ notYet⟩
    rw [evCh, List.mem_append, List.mem_singleton] at membership
    rcases membership with earlier | last
    · exact noTrans transFunc earlier
    · exact other transFunc last.symm
  stopped notActive := by simp [active, running] at notActive
  owned := by
    rw [evCh, roleId]
    intro pushed membership role isOwner
    rw [List.mem_append, List.mem_singleton] at membership
    rcases membership with earlier | rfl
    · exact ok.owned pushed earlier role isOwner
    · exact owner role isOwner

/-- The role is stopped and its `TransEvent` pushed. -/
theorem leave (ok : Isolated sv) (running : sv.active = true) {transFunc : Option TransFunc}
    (evCh : sv'.evCh = sv.evCh ++ [.trans transFunc]) (active : sv'.active = false)
    (roleId : sv'.roleId = sv.roleId) (todo : .setActive ∈ sv'.todo → .setActive ∈ sv.todo) :
    Isolated sv' where
  running isActive := by simp [active] at isActive
  stopped _ := by
    obtain ⟨noTrans, notYet⟩ := ok.running running
    exact .leaving evCh noTrans fun due => notYet (todo due)
  owned := by
    rw [evCh, roleId]
    intro pushed membership role isOwner
    rw [List.mem_append, List.mem_singleton] at membership
    rcases membership with earlier | rfl
    · exact ok.owned pushed earlier role isOwner
    · cases isOwner

/-- A handler of the present role is started. -/
theorem next {ev : Event α} {rest : List (Event α)} (ok : Isolated sv)
    (next : sv.evCh = ev :: rest) (idle : sv.todo = []) (evCh : sv'.evCh = rest)
    (active : sv'.active = sv.active) (roleId : sv'.roleId = sv.roleId)
    (notYet : .setActive ∉ sv'.todo) (other : ∀ transFunc, ev ≠ .trans transFunc) :
    Isolated sv' where
  running isActive := by
    obtain ⟨noTrans, -⟩ := ok.running (active ▸ isActive)
    refine ⟨fun transFunc membership => noTrans transFunc ?_, notYet⟩
    rw [next, ← evCh]
    exact .tail _ membership
  stopped notActive := by
    cases ok.stopped (active ▸ notActive) with
    | entering due => simp [idle] at due
    | @leaving before transFunc last only _ =>
        rw [next] at last
        cases before with
        | nil => exact (other transFunc (by simpa using (List.cons.inj last).1)).elim
        | cons first before =>
            have isLast : sv'.evCh = before ++ [.trans transFunc] := by
              rw [evCh]
              exact (List.cons.inj last).2
            exact .leaving isLast (fun earlier membership => only earlier (.tail _ membership))
              notYet
  owned := by
    rw [evCh, roleId]
    intro pushed membership
    exact ok.owned pushed (by rw [next]; exact .tail _ membership)

/-- A new role is in place, on an empty channel. -/
theorem of_empty (evCh : sv.evCh = []) (entered : sv.active = true ∧ .setActive ∉ sv.todo ∨
    sv.active = false ∧ sv.todo = [.setActive]) : Isolated sv where
  running isActive := by
    refine ⟨by simp [evCh], ?_⟩
    rcases entered with ⟨-, notYet⟩ | ⟨notActive, -⟩
    · exact notYet
    · simp [isActive] at notActive
  stopped notActive := by
    rcases entered with ⟨isActive, -⟩ | ⟨-, due⟩
    · simp [isActive] at notActive
    · exact .entering due evCh
  owned := by simp [evCh]

theorem handles {cfg : Config} {me : Nat} {ev : Event α} {rest : List (Event α)} {out : Out α}
    (ok : Isolated sv) (idle : sv.todo = []) (isNext : sv.evCh = ev :: rest)
    (handles : Handles cfg me { sv with evCh := rest } ev out) : Isolated out.server := by
  cases handles with
  | becameFollower =>
      obtain ⟨-, rfl⟩ := ok.trans_last isNext
      exact of_empty rfl (.inl ⟨rfl, by simp [idle]⟩)
  | becameCandidate =>
      obtain ⟨-, rfl⟩ := ok.trans_last isNext
      exact of_empty rfl (.inl ⟨rfl, by simp [idle]⟩)
  | becameLeader =>
      obtain ⟨notActive, rfl⟩ := ok.trans_last isNext
      exact of_empty rfl (.inr ⟨notActive, rfl⟩)
  | ignored _ other => exact ok.next isNext idle rfl rfl rfl (by simp [idle]) other
  | appended =>
      refine ok.next isNext idle rfl rfl rfl ?_ nofun
      simp only [List.mem_append, List.mem_singleton, reduceCtorEq, or_false]
      split <;> split <;> simp
  | counted =>
      refine ok.next isNext idle rfl rfl rfl ?_ nofun
      dsimp only
      split <;> simp
  | _ => exact ok.next isNext idle rfl rfl rfl (by simp) nofun

theorem executes {cfg : Config} {me : Nat} {op : Op α} {rest : List (Op α)} {out : Out α}
    (ok : Isolated sv) (next : sv.todo = op :: rest)
    (executes : Executes cfg me { sv with todo := rest } op out) : Isolated out.server := by
  cases executes with
  | activated =>
      obtain ⟨-, due, empty⟩ := ok.entering (by simp [next])
      rw [next] at due
      exact of_empty empty (.inl ⟨rfl, by simp [(List.cons.inj due).2]⟩)
  | stopped running => exact ok.leave running rfl rfl rfl (by simp [next])
  | _ => exact ok.frame rfl rfl rfl (by simp [next]) (by simp [next])

theorem make {persister : Persister α} {nextId : Nat}
    (made : make persister nextId = some sv) : Isolated sv := by
  obtain ⟨applier, -, -, rfl⟩ := make_eq_some made
  exact {
    running := nofun
    stopped := fun _ => .leaving (List.nil_append _).symm (by simp) (by simp)
    owned := by simp [Event.owner] }

end Isolated

/-- The event a replicator pushes belongs to its own role, which is the present
one. -/
theorem Receives.owner {sv : Server α} {repl repl' : Replicator α} {id : Nat}
    {reply : AppendEntriesReply} {ev : Event α}
    (receives : Receives sv repl id reply repl' (some ev)) :
    ev.owner = some sv.roleId ∧ ∀ transFunc, ev ≠ .trans transFunc := by
  have present {role : Nat} (leading : sv.leading role = true) : role = sv.roleId := by
    simp only [Server.leading, Bool.and_eq_true, beq_iff_eq] at leading
    exact leading.2.symm
  cases receives with
  | stale _ leading => exact ⟨congrArg some (present leading), by simp⟩
  | confirmed _ _ _ leading => exact ⟨congrArg some (present leading), by simp⟩

/-- Channels are isolated in every run. -/
theorem Cluster.isolated {cfg : Config} {allowed : Cluster α → Label α → Prop}
    {labels : List (Label α)} {s : Cluster α} (run : Run (step cfg) allowed init labels s)
    (i : Nat) (up : (s.servers i).up = true) : Isolated (s.servers i) := by
  refine local_invariant (fun _ sv _ => sv.up = true → Isolated sv) ?_ ?_ run i up
  · exact fun _ _ => .make make_fresh
  · intro _ s i act out _ before _ steps isUp
    cases steps with
    | popped up idle next handles => exact (before up).handles idle next handles
    | executed up next executes => exact (before up).executes next executes
    | applied up applies =>
        cases applies <;> exact (before up).frame rfl rfl rfl .rfl id
    | snapshotPushed up _ running => exact (before up).push running rfl rfl rfl rfl nofun nofun
    | arrived _ up arrives running =>
        refine (before up).push running rfl rfl rfl rfl ?_ ?_
        · cases arrives <;> exact nofun
        · cases arrives <;> simp [Event.owner]
    | polledEvent _ up _ running _ _ _ event =>
        refine (before up).push running rfl rfl rfl rfl ?_ ?_
        · cases event <;> exact nofun
        · cases event <;> simp [Event.owner]
    | repliedEvent _ up _ _ receives running =>
        obtain ⟨owner, other⟩ := receives.owner
        exact (before up).push running rfl rfl rfl rfl other (by simp [owner])
    | steppedDown up _ _ running => exact (before up).leave running rfl rfl rfl id
    | crashed => cases isUp
    | restarted _ made => exact .make made
    | _ => exact (before ‹_›).frame rfl rfl rfl .rfl id

end GoLab.Raft
