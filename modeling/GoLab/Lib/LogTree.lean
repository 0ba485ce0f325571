/-!
# Trees of logs

A log is a list of entries, each of which belongs to a term.  Every term has at
most one branch, the log of whoever wrote that term.  A log is on the tree if
each of its entries stands, with everything before it, on the branch of its term.

Two logs on the tree that agree on the term of one entry agree up to that entry.
-/

namespace GoLab

universe u v

variable {ε : Type u} {τ : Type v} {term : ε → τ} {branch branch' : τ → List ε → Prop}

theorem getElem?_snoc {log : List ε} {last entry : ε} {k : Nat} :
    (log ++ [last])[k]? = some entry ↔ log[k]? = some entry ∨ k = log.length ∧ last = entry := by
  rcases Nat.lt_trichotomy k log.length with inBounds | rfl | outOfBounds
  · rw [List.getElem?_append_left inBounds]
    simp [Nat.ne_of_lt inBounds]
  · simp
  · rw [List.getElem?_eq_none (by simp; omega), List.getElem?_eq_none (by omega)]
    simp [Nat.ne_of_gt outOfBounds]

theorem getElem?_extend {log whole : List ε} (front : log <+: whole) {k : Nat} {entry : ε}
    (found : log[k]? = some entry) : whole[k]? = some entry := by
  obtain ⟨rest, rfl⟩ := front
  rwa [List.getElem?_append_left (List.getElem?_eq_some_iff.mp found).1]

/-- At most one log is the branch of a term. -/
def UniqueBranch (branch : τ → List ε → Prop) : Prop :=
  ∀ t whole whole', branch t whole → branch t whole' → whole = whole'

/-- Every entry of the log is on the branch of its term, with what precedes it. -/
def OnTree (term : ε → τ) (branch : τ → List ε → Prop) (log : List ε) : Prop :=
  ∀ k entry, log[k]? = some entry →
    ∃ whole, branch (term entry) whole ∧ log.take (k + 1) <+: whole

namespace OnTree

variable {log log' : List ε}

theorem nil : OnTree term branch [] := by
  simp [OnTree]

theorem cut (onTree : OnTree term branch log) (front : log' <+: log) :
    OnTree term branch log' := by
  obtain ⟨rest, rfl⟩ := front
  intro k entry found
  have inBounds : k < log'.length := (List.getElem?_eq_some_iff.mp found).1
  have := onTree k entry (getElem?_extend (List.prefix_append ..) found)
  rwa [List.take_append_of_le_length inBounds] at this

/-- The branches may grow. -/
theorem mono (onTree : OnTree term branch log)
    (grows : ∀ t whole, branch t whole → ∃ longer, branch' t longer ∧ whole <+: longer) :
    OnTree term branch' log := by
  intro k entry found
  obtain ⟨whole, isBranch, onBranch⟩ := onTree k entry found
  obtain ⟨longer, isLonger, extends_⟩ := grows _ whole isBranch
  exact ⟨longer, isLonger, onBranch.trans extends_⟩

/-- A log may be continued by what is next on a branch. -/
theorem snoc {entry : ε} (onTree : OnTree term branch log) {whole : List ε}
    (isBranch : branch (term entry) whole) (onBranch : log ++ [entry] <+: whole) :
    OnTree term branch (log ++ [entry]) := by
  intro k found isFound
  rcases getElem?_snoc.mp isFound with earlier | ⟨rfl, rfl⟩
  · have inBounds : k < log.length := (List.getElem?_eq_some_iff.mp earlier).1
    rw [List.take_append_of_le_length inBounds]
    exact onTree k found earlier
  · exact ⟨whole, isBranch, ( List.take_prefix ..).trans onBranch⟩

/-- A log is on the branch of its last entry. -/
theorem whole {last : ε} (onTree : OnTree term branch log) (isLast : log.getLast? = some last) :
    ∃ whole, branch (term last) whole ∧ log <+: whole := by
  rw [List.getLast?_eq_getElem?] at isLast
  obtain ⟨whole, isBranch, onBranch⟩ := onTree _ last isLast
  rw [List.take_of_length_le (by omega)] at onBranch
  exact ⟨whole, isBranch, onBranch⟩

section

variable (unique : UniqueBranch branch) (onTree : OnTree term branch log)
  (onTree' : OnTree term branch log') {t : τ}
include unique onTree onTree'

/-- Logs that agree on the term of an entry agree up to that entry. -/
theorem matching {k : Nat} (found : log[k]?.map term = some t)
    (found' : log'[k]?.map term = some t) : log.take (k + 1) = log'.take (k + 1) := by
  obtain ⟨entry, isEntry, rfl⟩ := Option.map_eq_some_iff.mp found
  obtain ⟨entry', isEntry', same⟩ := Option.map_eq_some_iff.mp found'
  obtain ⟨whole, isBranch, onBranch⟩ := onTree k entry isEntry
  obtain ⟨whole', isBranch', onBranch'⟩ := onTree' k entry' isEntry'
  rw [same] at isBranch'
  cases unique _ _ _ isBranch isBranch'
  have inBounds : k < log.length := (List.getElem?_eq_some_iff.mp isEntry).1
  have inBounds' : k < log'.length := (List.getElem?_eq_some_iff.mp isEntry').1
  exact (List.prefix_of_prefix_length_le onBranch onBranch' (by simp; omega)).eq_of_length
    (by simp; omega)

theorem getElem?_eq {k n : Nat} (found : log[k]?.map term = some t)
    (found' : log'[k]?.map term = some t) (atMost : n ≤ k) : log[n]? = log'[n]? := by
  have within : n < k + 1 := Nat.lt_succ_of_le atMost
  calc log[n]? = (log.take (k + 1))[n]? := (List.getElem?_take_of_lt within).symm
    _ = (log'.take (k + 1))[n]? := by rw [matching unique onTree onTree' found found']
    _ = log'[n]? := List.getElem?_take_of_lt within

/-- Where a log agrees with another at an entry, replacing what comes after that
entry gives the other log. -/
theorem splice {k : Nat} (found : log[k]?.map term = some t) (found' : log'[k]?.map term = some t) :
    log.take (k + 1) ++ log'.drop (k + 1) = log' := by
  rw [matching unique onTree onTree' found found', List.take_append_drop]

end

end OnTree

end GoLab
