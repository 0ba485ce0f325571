import Mathlib.Logic.Function.Basic

/-!
# What one thread does to its locks

A computation of one thread, with the operations on read-write locks it makes on its way.
A thread that asks for a lock it has taken for writing waits for itself: the request is not
carried out.  A computation restores the locks if all its requests are carried out and it
gives back what it took.
-/

namespace GoLab

universe u

inductive LockOp (μ : Type u) where
  | lock (mutex : μ)
  | unlock (mutex : μ)
  | rLock (mutex : μ)
  | rUnlock (mutex : μ)
  deriving DecidableEq, Repr

/-- What a thread holds of one lock. -/
structure Holding where
  write : Bool := false
  reads : Nat := 0
  deriving DecidableEq, Repr

variable {μ : Type u} {β γ : Type}

section

variable [DecidableEq μ]

/-- One operation; `none` if the thread waits for itself or gives back what it does not
hold. -/
def LockOp.perform (held : μ → Holding) : LockOp μ → Option (μ → Holding)
  | lock mutex =>
      if (held mutex).write then none
      else some (Function.update held mutex { held mutex with write := true })
  | unlock mutex =>
      if (held mutex).write then
        some (Function.update held mutex { held mutex with write := false })
      else none
  | rLock mutex =>
      if (held mutex).write then none
      else some (Function.update held mutex { held mutex with reads := (held mutex).reads + 1 })
  | rUnlock mutex =>
      if 0 < (held mutex).reads then
        some (Function.update held mutex { held mutex with reads := (held mutex).reads - 1 })
      else none

/-- The operations one after another. -/
def LockOp.performAll : List (LockOp μ) → (μ → Holding) → Option (μ → Holding)
  | [], held => some held
  | op :: rest, held => (op.perform held).bind (performAll rest)

theorem LockOp.performAll_append {first second : List (LockOp μ)} {held : μ → Holding} :
    performAll (first ++ second) held = (performAll first held).bind (performAll second) := by
  induction first generalizing held with
  | nil => rfl
  | cons op rest ih =>
      rw [List.cons_append, performAll, performAll, Option.bind_assoc]
      congr 1
      funext held'
      exact ih

end

/-- A computation with its operations on locks; the value is `none` when it panics. -/
structure Traced (μ : Type u) (β : Type) where
  ops : List (LockOp μ)
  value : Option β
  deriving DecidableEq, Repr

namespace Traced

instance : Monad (Traced μ) where
  pure value := ⟨[], some value⟩
  bind first next :=
    match first.value with
    | none => ⟨first.ops, none⟩
    | some value => ⟨first.ops ++ (next value).ops, (next value).value⟩

/-- A step that takes no lock. -/
def ofOption (value : Option β) : Traced μ β :=
  ⟨[], value⟩

/-- `Lock`, with a deferred `Unlock`, which a panic runs as well. -/
def locked (mutex : μ) (body : Traced μ β) : Traced μ β :=
  ⟨.lock mutex :: (body.ops ++ [.unlock mutex]), body.value⟩

/-- `RLock`, with a deferred `RUnlock`. -/
def rLocked (mutex : μ) (body : Traced μ β) : Traced μ β :=
  ⟨.rLock mutex :: (body.ops ++ [.rUnlock mutex]), body.value⟩

section Values

variable {first : Traced μ β} {next : β → Traced μ γ}

@[simp]
theorem value_pure (value : β) : (pure value : Traced μ β).value = some value :=
  rfl

@[simp]
theorem value_bind : (first >>= next).value = first.value.bind fun value => (next value).value := by
  change (match first.value with
    | none => (⟨first.ops, none⟩ : Traced μ γ)
    | some value => ⟨first.ops ++ (next value).ops, (next value).value⟩).value = _
  cases first.value with
  | none => rfl
  | some value => rfl

@[simp]
theorem value_ofOption (value : Option β) : (ofOption value : Traced μ β).value = value :=
  rfl

@[simp]
theorem value_rLocked (mutex : μ) : (rLocked mutex first).value = first.value :=
  rfl

theorem bind_of_value {value : β} (returned : first.value = some value) :
    (first >>= next).ops = first.ops ++ (next value).ops := by
  change (match first.value with
    | none => (⟨first.ops, none⟩ : Traced μ γ)
    | some value => ⟨first.ops ++ (next value).ops, (next value).value⟩).ops = _
  rw [returned]

theorem bind_of_panic (panics : first.value = none) : (first >>= next).ops = first.ops := by
  change (match first.value with
    | none => (⟨first.ops, none⟩ : Traced μ γ)
    | some value => ⟨first.ops ++ (next value).ops, (next value).value⟩).ops = _
  rw [panics]

end Values

variable [DecidableEq μ]

/-- All requests are carried out, and what was held is held again. -/
def Restores (held : μ → Holding) (body : Traced μ β) : Prop :=
  LockOp.performAll body.ops held = some held

/-- A request is not carried out. -/
def Stuck (held : μ → Holding) (body : Traced μ β) : Prop :=
  LockOp.performAll body.ops held = none

/-- The computation restores the locks of a thread that holds none. -/
def Orderly (body : Traced μ β) : Prop :=
  body.Restores fun _ => {}

variable {held : μ → Holding} {mutex : μ} {first : Traced μ β} {next : β → Traced μ γ}

theorem Stuck.not_restores (stuck : first.Stuck held) : ¬first.Restores held := by
  intro restores
  exact nomatch restores.symm.trans stuck

theorem restores_pure (value : β) : (pure value : Traced μ β).Restores held :=
  rfl

theorem restores_ofOption (value : Option β) : (ofOption value : Traced μ β).Restores held :=
  rfl

theorem Restores.ite {p : Prop} [Decidable p] {second : Traced μ β}
    (restores : p → first.Restores held) (restores' : ¬p → second.Restores held) :
    (if p then first else second).Restores held := by
  split
  case isTrue holds => exact restores holds
  case isFalse fails => exact restores' fails

theorem Restores.bind (restores : first.Restores held)
    (goesOn : ∀ value, first.value = some value → (next value).Restores held) :
    (first >>= next).Restores held := by
  unfold Restores at restores ⊢
  cases returned : first.value with
  | none =>
      rw [bind_of_panic returned]
      exact restores
  | some value =>
      rw [bind_of_value returned, LockOp.performAll_append, restores]
      exact goesOn value returned

theorem Restores.bind_stuck (restores : first.Restores held) {value : β}
    (returned : first.value = some value) (stuck : (next value).Stuck held) :
    (first >>= next).Stuck held := by
  unfold Restores at restores
  unfold Stuck
  rw [bind_of_value returned, LockOp.performAll_append, restores]
  exact stuck

theorem Stuck.bind (stuck : first.Stuck held) : (first >>= next).Stuck held := by
  unfold Stuck at stuck ⊢
  cases returned : first.value with
  | none =>
      rw [bind_of_panic returned]
      exact stuck
  | some value => rw [bind_of_value returned, LockOp.performAll_append, stuck, Option.bind_none]

theorem Restores.locked (free : (held mutex).write = false)
    (inside : first.Restores (Function.update held mutex { held mutex with write := true })) :
    (first.locked mutex).Restores held := by
  unfold Restores at inside ⊢
  unfold Traced.locked
  rw [LockOp.performAll, LockOp.perform, if_neg (by rw [free]; exact Bool.false_ne_true),
    Option.bind_some, LockOp.performAll_append, inside, Option.bind_some]
  simp only [LockOp.performAll, LockOp.perform, Function.update_self, if_true, Option.bind_some,
    Function.update_idem]
  rw [← free, Function.update_eq_self]

theorem Restores.rLocked (free : (held mutex).write = false)
    (inside : first.Restores
      (Function.update held mutex { held mutex with reads := (held mutex).reads + 1 })) :
    (first.rLocked mutex).Restores held := by
  unfold Restores at inside ⊢
  unfold Traced.rLocked
  rw [LockOp.performAll, LockOp.perform, if_neg (by rw [free]; exact Bool.false_ne_true),
    Option.bind_some, LockOp.performAll_append, inside, Option.bind_some]
  simp only [LockOp.performAll, LockOp.perform, Function.update_self, Nat.succ_pos, if_true,
    Option.bind_some, Function.update_idem, Nat.add_sub_cancel, Function.update_eq_self]

/-- A section in which the thread waits for itself is never left. -/
theorem Stuck.locked
    (stuck : first.Stuck (Function.update held mutex { held mutex with write := true })) :
    (first.locked mutex).Stuck held := by
  unfold Stuck at stuck ⊢
  unfold Traced.locked
  rw [LockOp.performAll, LockOp.perform]
  split
  case isTrue => rfl
  case isFalse => rw [Option.bind_some, LockOp.performAll_append, stuck, Option.bind_none]

theorem stuck_rLocked (taken : (held mutex).write = true) : (first.rLocked mutex).Stuck held := by
  unfold Stuck Traced.rLocked
  rw [LockOp.performAll, LockOp.perform, if_pos taken, Option.bind_none]

end Traced

end GoLab
