/-!
# Items in custody

Items wait in a queue, are held by one of several holders, or are done with.  Taking an
item from the queue, giving it back and finishing it leave each item in exactly one of
these places.
-/

namespace GoLab

universe u v

/-- Where items are. -/
structure Custody (α : Type u) (β : Type v) where
  queue : List α
  held : β → Option α
  done : List α

namespace Custody

variable {α : Type u} {β : Type v} [DecidableEq α]

/-- The item is once in the queue, or with one holder, or once among those that are done. -/
inductive InOnePlace (c : Custody α β) (item : α) : Prop where
  | queued (once : c.queue.count item = 1) (notHeld : ∀ holder, c.held holder ≠ some item)
      (notDone : item ∉ c.done)
  | held {holder : β} (holds : c.held holder = some item)
      (only : ∀ other, c.held other = some item → other = holder) (notQueued : item ∉ c.queue)
      (notDone : item ∉ c.done)
  | done (once : c.done.count item = 1) (notQueued : item ∉ c.queue)
      (notHeld : ∀ holder, c.held holder ≠ some item)

/-- The item is somewhere. -/
inductive Exists (c : Custody α β) (item : α) : Prop where
  | queued (inside : item ∈ c.queue)
  | held {holder : β} (holds : c.held holder = some item)
  | done (inside : item ∈ c.done)

/-- There are these items and no others, each in one place. -/
structure Conserves (c : Custody α β) (items : List α) : Prop where
  placed : ∀ item ∈ items, InOnePlace c item
  known : ∀ item, Exists c item → item ∈ items

/-- How many of some items are not done. -/
def unfinished (items done : List α) : Nat :=
  items.countP (· ∉ done)

section

variable {c : Custody α β} {items : List α} {item : α} {holder : β}

/-- A held item is nowhere else. -/
theorem InOnePlace.of_held (place : InOnePlace c item) (holds : c.held holder = some item) :
    (∀ other, c.held other = some item → other = holder) ∧ item ∉ c.queue ∧ item ∉ c.done := by
  cases place with
  | queued _ notHeld _ => exact (notHeld holder holds).elim
  | held _ only notQueued notDone =>
      exact ⟨fun other same => (only other same).trans (only holder holds).symm, notQueued, notDone⟩
  | done _ _ notHeld => exact (notHeld holder holds).elim

/-- An item that is done is nowhere else. -/
theorem InOnePlace.of_done (place : InOnePlace c item) (inside : item ∈ c.done) :
    item ∉ c.queue ∧ ∀ holder, c.held holder ≠ some item := by
  cases place with
  | queued _ _ notDone => exact (notDone inside).elim
  | held _ _ _ notDone => exact (notDone inside).elim
  | done _ notQueued notHeld => exact ⟨notQueued, notHeld⟩

/-- Nothing is done twice. -/
theorem Conserves.nodup_done (conserves : Conserves c items) : c.done.Nodup := by
  rw [List.nodup_iff_count]
  intro item
  by_cases inside : item ∈ c.done
  · cases conserves.placed item (conserves.known item (.done inside)) with
    | queued _ _ notDone => exact (notDone inside).elim
    | held _ _ _ notDone => exact (notDone inside).elim
    | done once _ _ => exact Nat.le_of_eq once
  · rw [List.count_eq_zero_of_not_mem inside]
    exact Nat.zero_le 1

/-- An item in the queue is nowhere else. -/
theorem InOnePlace.of_queued (place : InOnePlace c item) (inside : item ∈ c.queue) :
    c.queue.count item = 1 ∧ (∀ holder, c.held holder ≠ some item) ∧ item ∉ c.done := by
  cases place with
  | queued once notHeld notDone => exact ⟨once, notHeld, notDone⟩
  | held _ _ notQueued _ => exact (notQueued inside).elim
  | done _ notQueued _ => exact (notQueued inside).elim

/-- An item that is not done waits or is held. -/
theorem InOnePlace.of_not_done (place : InOnePlace c item) (notDone : item ∉ c.done) :
    item ∈ c.queue ∨ ∃ holder, c.held holder = some item := by
  cases place with
  | queued once _ _ => exact .inl (List.count_pos_iff.mp (by omega))
  | held holds _ _ _ => exact .inr ⟨_, holds⟩
  | done once _ _ => exact absurd (List.count_pos_iff.mp (by omega)) notDone

/-- Items that are nowhere. -/
theorem conserves_nil : Conserves (⟨[], fun _ => none, []⟩ : Custody α β) [] where
  placed := nofun
  known := by
    intro item place
    cases place with
    | queued inside => cases inside
    | held holds => cases holds
    | done inside => cases inside

theorem count_append_of_ne {list : List α} {other : α} (differs : other ≠ item) :
    (list ++ [item]).count other = list.count other := by
  simp [List.count_append, Ne.symm differs]

theorem count_append_self {list : List α} (absent : item ∉ list) :
    (list ++ [item]).count item = 1 := by
  simp [List.count_append, List.count_eq_zero_of_not_mem absent]

/-- New items come into the queue. -/
theorem Conserves.release (conserves : Conserves c items) {new : List α}
    (fresh : ∀ item ∈ new, item ∉ items) (nodup : new.Nodup) :
    Conserves { c with queue := c.queue ++ new } (items ++ new) where
  placed := fun item inside => by
    rcases List.mem_append.mp inside with old | isNew
    · have notNew : item ∉ new := fun isNew => fresh item isNew old
      cases conserves.placed item old with
      | queued once notHeld notDone =>
          refine .queued ?_ notHeld notDone
          rw [List.count_append, once, List.count_eq_zero_of_not_mem notNew]
      | held holds only notQueued notDone =>
          exact .held holds only (by simp [notQueued, notNew]) notDone
      | done once notQueued notHeld => exact .done once (by simp [notQueued, notNew]) notHeld
    · have nowhere (place : Exists c item) : False := fresh item isNew (conserves.known item place)
      refine .queued ?_ (fun holder holds => nowhere (.held holds)) fun done => nowhere (.done done)
      rw [List.count_append, List.count_eq_zero_of_not_mem fun queued => nowhere (.queued queued),
        nodup.count, if_pos isNew]
  known := fun item place => by
    cases place with
    | queued inside =>
        rcases List.mem_append.mp inside with old | isNew
        · exact List.mem_append_left _ (conserves.known item (.queued old))
        · exact List.mem_append_right _ isNew
    | held holds => exact List.mem_append_left _ (conserves.known item (.held holds))
    | done inside => exact List.mem_append_left _ (conserves.known item (.done inside))

end

section

variable {items done : List α} {item : α}

/-- All are done when none is left. -/
theorem done_of_unfinished (none : unfinished items done = 0) (inside : item ∈ items) :
    item ∈ done := by
  have all := List.countP_eq_zero.mp none item inside
  simpa using all

theorem unfinished_nil : unfinished items [] = items.length := by
  simp [unfinished]

theorem unfinished_of_done (all : ∀ item ∈ items, item ∈ done) : unfinished items done = 0 := by
  simpa [unfinished, List.countP_eq_zero] using all

theorem exists_of_unfinished (some : unfinished items done ≠ 0) : ∃ item ∈ items, item ∉ done := by
  have positive := List.countP_pos_iff.mp (Nat.pos_of_ne_zero some)
  simpa using positive

/-- The items that are not done and those that are make up all of them. -/
theorem unfinished_add_done (nodup : items.Nodup) (once : done.Nodup) :
    unfinished items done + done.countP (· ∈ items) = items.length := by
  have same : (done.filter (· ∈ items)).Perm (items.filter (· ∈ done)) := by
    rw [List.perm_ext_iff_of_nodup (once.filter _) (nodup.filter _)]
    intro item
    simp [and_comm]
  have split := List.length_eq_countP_add_countP (fun item => decide (item ∈ done)) (l := items)
  rw [split, List.countP_eq_length_filter (p := fun item => decide (item ∈ items)),
    same.length_eq, ← List.countP_eq_length_filter, Nat.add_comm]
  simp [unfinished]

/-- Another item is done. -/
theorem unfinished_other (other : item ∉ items) :
    unfinished items (done ++ [item]) = unfinished items done := by
  refine List.countP_congr fun first inside => ?_
  have differs : first ≠ item := fun same => other (same ▸ inside)
  simp [differs]

/-- One more item is done. -/
theorem unfinished_done (nodup : items.Nodup) (inside : item ∈ items) (notDone : item ∉ done) :
    unfinished items (done ++ [item]) + 1 = unfinished items done := by
  induction items with
  | nil => cases inside
  | cons first rest ih =>
      obtain ⟨notInRest, restNodup⟩ := List.nodup_cons.mp nodup
      by_cases isFirst : first = item
      · subst isFirst
        have same : unfinished rest (done ++ [first]) = unfinished rest done :=
          unfinished_other notInRest
        unfold unfinished at same ⊢
        rw [List.countP_cons, List.countP_cons, same]
        simp [notDone]
      · have inRest := (List.mem_cons.mp inside).resolve_left (Ne.symm isFirst)
        have fewer := ih restNodup inRest
        unfold unfinished at fewer ⊢
        rw [List.countP_cons, List.countP_cons, ← fewer]
        simp only [List.mem_append, List.mem_singleton, isFirst, or_false]
        omega

end

section

variable [DecidableEq β] {c : Custody α β} {items : List α} {item : α} {holder : β}

/-- What the holders hold after one of them got or gave away an item. -/
def update (c : Custody α β) (holder : β) (now : Option α) : β → Option α :=
  fun other => if other = holder then now else c.held other

omit [DecidableEq α] in
theorem update_of_ne {now : Option α} {other : β} (differs : other ≠ holder) :
    c.update holder now other = c.held other :=
  if_neg differs

omit [DecidableEq α] in
/-- A holder without an item gives none away. -/
theorem update_none (free : c.held holder = none) : c.update holder none = c.held := by
  funext other
  by_cases same : other = holder
  · rw [same, update, if_pos rfl, free]
  · exact update_of_ne same

omit [DecidableEq α] in
theorem update_self {now : Option α} : c.update holder now holder = now :=
  if_pos rfl

omit [DecidableEq α] in
/-- Who holds an item that has not been moved. -/
theorem update_eq_some_iff {now : Option α} {other : β} (notNow : now ≠ some item)
    (notBefore : c.held holder ≠ some item) :
    c.update holder now other = some item ↔ c.held other = some item := by
  by_cases same : other = holder
  · rw [same, update_self]
    exact ⟨fun isNow => (notNow isNow).elim, fun before => (notBefore before).elim⟩
  · rw [update_of_ne same]

/-- An item that is not moved stays where it is. -/
theorem InOnePlace.other (place : InOnePlace c item) {now : Option α} {queue done : List α}
    (notNow : now ≠ some item) (notBefore : c.held holder ≠ some item)
    (sameQueue : queue.count item = c.queue.count item)
    (sameDone : done.count item = c.done.count item) :
    InOnePlace ⟨queue, c.update holder now, done⟩ item := by
  have inQueue : item ∈ queue ↔ item ∈ c.queue := by
    rw [← List.count_pos_iff, sameQueue, List.count_pos_iff]
  have inDone : item ∈ done ↔ item ∈ c.done := by
    rw [← List.count_pos_iff, sameDone, List.count_pos_iff]
  have held (other : β) : c.update holder now other = some item ↔ c.held other = some item :=
    update_eq_some_iff notNow notBefore
  cases place with
  | queued once notHeld notDone =>
      exact .queued (sameQueue.trans once) (fun other => mt (held other).mp (notHeld other))
        (mt inDone.mp notDone)
  | held holds only notQueued notDone =>
      exact .held ((held _).mpr holds) (fun other same => only other ((held other).mp same))
        (mt inQueue.mp notQueued) (mt inDone.mp notDone)
  | done once notQueued notHeld =>
      exact .done (sameDone.trans once) (mt inQueue.mp notQueued)
        (fun other => mt (held other).mp (notHeld other))

/-- An item that has been held by nobody is taken from the queue. -/
theorem Conserves.take (conserves : Conserves c items) {rest : List α}
    (first : c.queue = item :: rest) (free : c.held holder = none) :
    Conserves ⟨rest, c.update holder (some item), c.done⟩ items where
  placed := fun other inside => by
    by_cases same : other = item
    · subst same
      obtain ⟨once, notHeld, notDone⟩ := (conserves.placed other inside).of_queued
        (first ▸ List.mem_cons_self ..)
      rw [first, List.count_cons_self] at once
      refine .held update_self (fun holder' holds => ?_) (List.count_eq_zero.mp (Nat.succ.inj once))
        notDone
      exact Decidable.byContradiction fun differs =>
        notHeld holder' ((update_of_ne differs).symm.trans holds)
    · refine (conserves.placed other inside).other (fun isNow => ?_) (by simp [free]) ?_ rfl
      · exact same (Option.some.inj isNow).symm
      · rw [first, List.count_cons_of_ne (Ne.symm same)]
  known := fun other place => by
    have queued : item ∈ items := conserves.known item (.queued (first ▸ List.mem_cons_self ..))
    cases place with
    | queued inside =>
        exact conserves.known other (.queued (first ▸ List.mem_cons_of_mem _ inside))
    | @held holder' holds =>
        by_cases same : holder' = holder
        · rw [same] at holds
          cases update_self.symm.trans holds
          exact queued
        · exact conserves.known other (.held ((update_of_ne same).symm.trans holds))
    | done inside => exact conserves.known other (.done inside)

section

variable (conserves : Conserves c items) (holds : c.held holder = some item)
include conserves holds

/-- A held item leaves its holder for the queue, or is done. -/
theorem Conserves.leave {queue done : List α}
    (sameQueue : ∀ other, other ≠ item → queue.count other = c.queue.count other)
    (sameDone : ∀ other, other ≠ item → done.count other = c.done.count other)
    (place : item ∉ c.queue → item ∉ c.done →
      queue.count item = 1 ∧ item ∉ done ∨ done.count item = 1 ∧ item ∉ queue) :
    Conserves ⟨queue, c.update holder none, done⟩ items where
  placed := fun other inside => by
    by_cases same : other = item
    · subst same
      obtain ⟨only, notQueued, notDone⟩ := (conserves.placed other inside).of_held holds
      have free (holder' : β) : c.update holder none holder' ≠ some other := by
        by_cases isHolder : holder' = holder
        · rw [isHolder, update_self]
          exact nofun
        · rw [update_of_ne isHolder]
          exact fun holds' => isHolder (only holder' holds')
      rcases place notQueued notDone with ⟨once, nowhere⟩ | ⟨once, nowhere⟩
      · exact .queued once free nowhere
      · exact .done once nowhere free
    · refine (conserves.placed other inside).other nofun (fun held => ?_) (sameQueue other same)
        (sameDone other same)
      exact same (Option.some.inj (held.symm.trans holds))
  known := fun other place => by
    by_cases same : other = item
    · exact same ▸ conserves.known item (.held holds)
    · cases place with
      | queued inside =>
          rw [← List.count_pos_iff, sameQueue other same, List.count_pos_iff] at inside
          exact conserves.known other (.queued inside)
      | @held holder' holds' =>
          by_cases isHolder : holder' = holder
          · rw [isHolder] at holds'
            cases update_self.symm.trans holds'
          · exact conserves.known other (.held ((update_of_ne isHolder).symm.trans holds'))
      | done inside =>
          rw [← List.count_pos_iff, sameDone other same, List.count_pos_iff] at inside
          exact conserves.known other (.done inside)

/-- A held item is lost. -/
theorem Conserves.drop :
    Conserves ⟨c.queue, c.update holder none, c.done⟩ (items.filter (· ≠ item)) where
  placed := fun other inside => by
    rw [List.mem_filter, decide_eq_true_eq] at inside
    refine (conserves.placed other inside.1).other nofun (fun held => ?_) rfl rfl
    exact inside.2 (Option.some.inj (held.symm.trans holds))
  known := fun other place => by
    have only := (conserves.placed item (conserves.known item (.held holds))).of_held holds
    rw [List.mem_filter, decide_eq_true_eq]
    cases place with
    | queued inside =>
        exact ⟨conserves.known other (.queued inside), fun same => only.2.1 (same ▸ inside)⟩
    | @held holder' holds' =>
        by_cases isHolder : holder' = holder
        · rw [isHolder] at holds'
          cases update_self.symm.trans holds'
        · have before := (update_of_ne isHolder).symm.trans holds'
          exact ⟨conserves.known other (.held before),
            fun same => isHolder (only.1 holder' (same ▸ before))⟩
    | done inside =>
        exact ⟨conserves.known other (.done inside), fun same => only.2.2 (same ▸ inside)⟩

/-- A holder gives its item back. -/
theorem Conserves.giveBack :
    Conserves ⟨c.queue ++ [item], c.update holder none, c.done⟩ items :=
  conserves.leave holds (fun _ differs => count_append_of_ne differs) (fun _ _ => rfl)
    (fun notQueued notDone => .inl ⟨count_append_self notQueued, notDone⟩)

/-- A holder finishes its item. -/
theorem Conserves.finish :
    Conserves ⟨c.queue, c.update holder none, c.done ++ [item]⟩ items :=
  conserves.leave holds (fun _ _ => rfl) (fun _ differs => count_append_of_ne differs)
    (fun notQueued notDone => .inr ⟨count_append_self notDone, notQueued⟩)

end

end

end Custody

end GoLab
