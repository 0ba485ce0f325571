/-!
# Maps to cells

A map that gives each key its own cell, once and for all: a key that is found can be
looked up again by its cell, while other keys come in.  A value changes only in its cell.
-/

namespace GoLab

universe u v

/-- Keys with their cells, and the values in the cells. -/
structure CellMap (κ : Type u) (ν : Type v) where
  cells : κ → Option Nat
  values : List ν
  inside : ∀ key cell, cells key = some cell → cell < values.length
  separate : ∀ key other cell, cells key = some cell → cells other = some cell → key = other

namespace CellMap

variable {κ : Type u} {ν : Type v}

/-- What the keys stand for. -/
def contents (map : CellMap κ ν) (key : κ) : Option ν :=
  (map.cells key).bind (map.values[·]?)

def empty : CellMap κ ν where
  cells := fun _ => none
  values := []
  inside := nofun
  separate := nofun

/-- A new value in a cell. -/
def write (map : CellMap κ ν) (cell : Nat) (value : ν) : CellMap κ ν where
  cells := map.cells
  values := map.values.set cell value
  inside := fun key cell found => by
    rw [List.length_set]
    exact map.inside key cell found
  separate := map.separate

variable [DecidableEq κ]

/-- A cell for a key that has none. -/
def insert (map : CellMap κ ν) (key : κ) (value : ν) : CellMap κ ν where
  cells := fun other => if other = key then some map.values.length else map.cells other
  values := map.values ++ [value]
  inside := fun other cell found => by
    rw [List.length_append, List.length_singleton]
    split at found
    case isTrue =>
      cases found
      exact Nat.lt_succ_self _
    case isFalse => exact Nat.lt_succ_of_lt (map.inside other cell found)
  separate := fun first second cell foundFirst foundSecond => by
    split at foundFirst <;> split at foundSecond
    case isTrue.isTrue isFirst isSecond => exact isFirst.trans isSecond.symm
    case isTrue.isFalse =>
      cases foundFirst
      exact absurd (map.inside second _ foundSecond) (Nat.lt_irrefl _)
    case isFalse.isTrue =>
      cases foundSecond
      exact absurd (map.inside first _ foundFirst) (Nat.lt_irrefl _)
    case isFalse.isFalse => exact map.separate first second cell foundFirst foundSecond

variable {map : CellMap κ ν} {key other : κ} {cell : Nat} {value : ν}

omit [DecidableEq κ] in
/-- A key that has a cell has the value in it. -/
theorem contents_of_cells (found : map.cells key = some cell) :
    map.contents key = map.values[cell]? := by
  simp [contents, found]

theorem contents_write (found : map.cells key = some cell) :
    (map.write cell value).contents =
      fun other => if other = key then some value else map.contents other := by
  funext other
  have inside := map.inside key cell found
  by_cases same : other = key
  · subst same
    simp [contents, write, found, inside]
  · rw [if_neg same]
    cases isCell : map.cells other with
    | none => simp [contents, write, isCell]
    | some otherCell =>
        have differs : cell ≠ otherCell := by
          rintro rfl
          exact same (map.separate other key _ isCell found)
        simp [contents, write, isCell, differs]

theorem contents_insert (missing : map.cells key = none) :
    (map.insert key value).contents =
      fun other => if other = key then some value else map.contents other := by
  funext other
  by_cases same : other = key
  · subst same
    simp [contents, insert]
  · rw [if_neg same]
    cases isCell : map.cells other with
    | none => simp [contents, insert, isCell, same]
    | some otherCell =>
        have inside := map.inside other otherCell isCell
        simp [contents, insert, isCell, same, List.getElem?_append_left inside]

/-- A key keeps its cell when another one gets its own. -/
theorem cells_insert (missing : map.cells key = none) (found : map.cells other = some cell) :
    (map.insert key value).cells other = some cell := by
  have differs : other ≠ key := by
    rintro rfl
    cases missing.symm.trans found
  simp [insert, differs, found]

end CellMap

end GoLab
