import Mathlib.Data.List.Dedup
import Mathlib.Data.List.Perm.Basic

/-!
# Grouping items by their keys

A sorted list is cut into runs of equal keys, and something is made of each run.  What is
made of a list in this way depends only on the items in it, and is the same when the list
is first distributed over several parts by key.
-/

namespace GoLab

universe u v w

variable {α : Type u} {κ : Type v}

/-- A list cut into its longest runs of items with equal keys. -/
inductive Grouped (key : α → κ) : List α → List (κ × List α) → Prop where
  | nil : Grouped key [] []
  | cons {k : κ} {first : α} {group rest : List α} {groups : List (κ × List α)}
      (isKey : ∀ item ∈ first :: group, key item = k)
      (stops : ∀ item ∈ rest.head?, key item ≠ k) (others : Grouped key rest groups) :
      Grouped key (first :: group ++ rest) ((k, first :: group) :: groups)

section

variable {key : α → κ} {items : List α} {groups : List (κ × List α)}

/-- The keys of the groups are the keys of the items. -/
theorem Grouped.mem_keys (grouped : Grouped key items groups) (k : κ) :
    k ∈ groups.map Prod.fst ↔ k ∈ items.map key := by
  induction grouped with
  | nil => exact Iff.rfl
  | @cons own first group rest groups isKey _ _ ih =>
      rw [List.map_cons, List.mem_cons, ih, List.map_append, List.mem_append]
      refine or_congr_left ⟨?_, ?_⟩
      · rintro rfl
        exact List.mem_map.mpr ⟨first, List.mem_cons_self .., isKey first (List.mem_cons_self ..)⟩
      · intro inside
        obtain ⟨item, isItem, rfl⟩ := List.mem_map.mp inside
        exact isKey item isItem

variable {le : κ → κ → Prop}

/-- In a sorted list the items after a run have other keys. -/
theorem Grouped.other_keys (antisymm : ∀ x y, le x y → le y x → x = y) {k : κ} {first : α}
    {group rest : List α} (isKey : ∀ item ∈ first :: group, key item = k)
    (stops : ∀ item ∈ rest.head?, key item ≠ k)
    (sorted : (first :: group ++ rest).Pairwise fun a b => le (key a) (key b)) :
    ∀ item ∈ rest, key item ≠ k := by
  obtain ⟨-, restSorted, across⟩ := List.pairwise_append.mp sorted
  have firstKey := isKey first (List.mem_cons_self ..)
  cases rest with
  | nil => exact nofun
  | cons next rest =>
      have differs := stops next rfl
      intro item inside isSame
      rcases List.mem_cons.mp inside with rfl | later
      · exact differs isSame
      · have upper := (List.pairwise_cons.mp restSorted).1 item later
        have lower := across first (List.mem_cons_self ..) next (List.mem_cons_self ..)
        rw [isSame] at upper
        rw [firstKey] at lower
        exact differs (antisymm _ _ upper lower)

variable [DecidableEq κ]

/-- The groups of a sorted list have different keys, and each has all items of its key. -/
theorem Grouped.of_sorted (antisymm : ∀ x y, le x y → le y x → x = y)
    (grouped : Grouped key items groups)
    (sorted : items.Pairwise fun a b => le (key a) (key b)) :
    (groups.map Prod.fst).Nodup ∧ ∀ group ∈ groups, group.2 = items.filter (key · = group.1) := by
  induction grouped with
  | nil => exact ⟨List.nodup_nil, nofun⟩
  | @cons k first group rest groups isKey stops others ih =>
      have otherKeys := Grouped.other_keys antisymm isKey stops sorted
      obtain ⟨nodup, groupsEq⟩ := ih (List.pairwise_append.mp sorted).2.1
      have notKey (group : κ × List α) (inside : group ∈ groups) : group.1 ≠ k := by
        have isKey := (others.mem_keys group.1).mp (List.mem_map_of_mem inside)
        obtain ⟨item, isItem, same⟩ := List.mem_map.mp isKey
        exact same ▸ otherKeys item isItem
      refine ⟨?_, fun other inside => ?_⟩
      · rw [List.map_cons, List.nodup_cons]
        refine ⟨fun inside => ?_, nodup⟩
        obtain ⟨group, isGroup, same⟩ := List.mem_map.mp inside
        exact notKey group isGroup same
      · rw [List.filter_append]
        rcases List.mem_cons.mp inside with rfl | isOther
        · have all : (first :: group).filter (key · = k) = first :: group :=
            List.filter_eq_self.mpr fun item isItem => decide_eq_true (isKey item isItem)
          have none : rest.filter (key · = k) = [] :=
            List.filter_eq_nil_iff.mpr fun item isItem => by simpa using otherKeys item isItem
          rw [all, none, List.append_nil]
        · have none : (first :: group).filter (key · = other.1) = [] :=
            List.filter_eq_nil_iff.mpr fun item isItem => by
              simpa [isKey item isItem] using (notKey other isOther).symm
          rw [none, List.nil_append]
          exact groupsEq other isOther

end

/-! ## What is made of the groups -/

section

variable {β : Type w} [DecidableEq κ] (key : α → κ) (make : κ → List α → β)

/-- For each key of the items, what is made of the items with that key. -/
def collate (items : List α) : List β :=
  (items.map key).dedup.map fun k => make k (items.filter (key · = k))

variable {key make} {items other : List α} {groups : List (κ × List α)}

/-- What is made of a group does not depend on the order of its items. -/
def Unordered (make : κ → List α → β) : Prop :=
  ∀ k items other, items.Perm other → make k items = make k other

/-- The groups of a sorted permutation. -/
theorem Grouped.perm_collate {le : κ → κ → Prop} (antisymm : ∀ x y, le x y → le y x → x = y)
    (unordered : Unordered make) (grouped : Grouped key other groups)
    (sorted : other.Pairwise fun a b => le (key a) (key b)) (perm : other.Perm items) :
    (groups.map fun group => make group.1 group.2).Perm (collate key make items) := by
  obtain ⟨nodup, groupsEq⟩ := grouped.of_sorted antisymm sorted
  have keys : (groups.map Prod.fst).Perm (items.map key).dedup := by
    rw [List.perm_ext_iff_of_nodup nodup (List.nodup_dedup _)]
    intro k
    rw [grouped.mem_keys, List.mem_dedup]
    exact (perm.map key).mem_iff
  have made : (groups.map fun group => make group.1 group.2) =
      (groups.map Prod.fst).map fun k => make k (items.filter (key · = k)) := by
    rw [List.map_map]
    refine List.map_congr_left fun group inside => ?_
    rw [groupsEq group inside]
    exact unordered _ _ _ (perm.filter _)
  rw [made]
  exact keys.map _

end

/-! ## Distributing items -/

section

variable {ι : Type w} [DecidableEq ι] {parts : List ι} {items : List α} {part : α → ι}

/-- Items that are distributed over parts are together the items. -/
theorem flatMap_filter_perm (nodup : parts.Nodup) (covered : ∀ item ∈ items, part item ∈ parts) :
    (parts.flatMap fun i => items.filter (part · = i)).Perm items := by
  induction items with
  | nil => simp
  | cons first rest ih =>
      obtain ⟨before, after, rfl⟩ := List.append_of_mem (covered first (List.mem_cons_self ..))
      have others := ih fun item inside => covered item (List.mem_cons_of_mem _ inside)
      obtain ⟨-, afterNodup, apart⟩ := List.nodup_append.mp nodup
      have notAfter := (List.nodup_cons.mp afterNodup).1
      have skip (i : ι) (differs : i ≠ part first) :
          (first :: rest).filter (part · = i) = rest.filter (part · = i) :=
        List.filter_cons_of_neg (by simpa using differs.symm)
      have skipBefore : (before.flatMap fun i => (first :: rest).filter (part · = i)) =
          before.flatMap fun i => rest.filter (part · = i) :=
        List.flatMap_congr fun i inside =>
          skip i fun same => apart i inside _ (List.mem_cons_self ..) same
      have skipAfter : (after.flatMap fun i => (first :: rest).filter (part · = i)) =
          after.flatMap fun i => rest.filter (part · = i) :=
        List.flatMap_congr fun i inside => skip i fun same => notAfter (same ▸ inside)
      rw [List.flatMap_append, List.flatMap_cons] at others ⊢
      rw [skipBefore, skipAfter, List.filter_cons_of_pos (by simp), List.cons_append]
      exact List.perm_middle.trans (others.cons first)

variable {κ : Type v} {β : Type u} [DecidableEq κ] {key : α → κ} {make : κ → List α → β}

/-- Grouping part by part, when the parts go by the key. -/
theorem collate_parts (place : κ → ι) (nodup : parts.Nodup)
    (covered : ∀ item ∈ items, place (key item) ∈ parts) :
    (parts.flatMap fun i => collate key make (items.filter fun item => place (key item) = i)).Perm
      (collate key make items) := by
  have each (i : ι) : (collate key make (items.filter fun item => place (key item) = i)).Perm
      ((((items.map key).dedup).filter (place · = i)).map
        fun k => make k (items.filter (key · = k))) := by
    have keys : ((items.filter fun item => place (key item) = i).map key).dedup.Perm
        ((items.map key).dedup.filter (place · = i)) := by
      rw [List.perm_ext_iff_of_nodup (List.nodup_dedup _) ((List.nodup_dedup _).filter _)]
      intro k
      simp only [List.mem_dedup, List.mem_map, List.mem_filter, decide_eq_true_eq]
      constructor
      · rintro ⟨item, ⟨inside, isPart⟩, rfl⟩
        exact ⟨⟨item, inside, rfl⟩, isPart⟩
      · rintro ⟨⟨item, inside, rfl⟩, isPart⟩
        exact ⟨item, ⟨inside, isPart⟩, rfl⟩
    refine (keys.map _).trans (List.Perm.of_eq ?_)
    refine List.map_congr_left fun k inside => ?_
    have isPart : place k = i := by simpa using (List.mem_filter.mp inside).2
    rw [List.filter_filter]
    refine congrArg (make k) (List.filter_congr fun item _ => ?_)
    by_cases same : key item = k
    · simp [same, isPart]
    · simp [same]
  refine (List.Perm.flatMap_left parts fun i _ => each i).trans ?_
  rw [← List.map_flatMap]
  refine (flatMap_filter_perm nodup fun k inside => ?_).map _
  obtain ⟨item, isItem, rfl⟩ := List.mem_map.mp (List.mem_dedup.mp inside)
  exact covered item isItem

end

end GoLab
