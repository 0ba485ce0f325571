import Mathlib.Algebra.GroupWithZero.Nat

/-!
# A read-write lock and the threads that use it

A writer first announces itself, which keeps new readers out, and gets the lock
when the readers that were there have left.  `total` adds up what the threads of a
system hold, so that an invariant can say that something is held once.
-/

namespace GoLab

universe u

/-- What the writers of a lock have got to. -/
inductive Writer where
  | free
  | announced
  | held
  deriving DecidableEq, Repr

/-- A read-write lock: nobody reads while it is held. -/
structure RWLock where
  readers : Nat
  writer : Writer
  exclusive : writer = .held → readers = 0
  deriving DecidableEq, Repr

namespace RWLock

/-- A lock that has been taken by a writer. -/
def locked : RWLock where
  readers := 0
  writer := .held
  exclusive := fun _ => rfl

/-- A reader gets in when no writer has announced itself. -/
def rLock (lock : RWLock) : Option RWLock :=
  if lock.writer = .free then
    some { readers := lock.readers + 1, writer := .free, exclusive := nofun }
  else
    none

def rUnlock (lock : RWLock) : RWLock where
  readers := lock.readers - 1
  writer := lock.writer
  exclusive := fun held => by rw [lock.exclusive held]

/-- The first half of `Lock`. -/
def announce (lock : RWLock) : Option RWLock :=
  if lock.writer = .free then
    some { readers := lock.readers, writer := .announced, exclusive := nofun }
  else
    none

/-- The second half of `Lock`. -/
def acquire (lock : RWLock) : Option RWLock :=
  if lock.writer = .announced ∧ lock.readers = 0 then some locked else none

/-- `Unlock`; `none` when the lock is not held. -/
def unlock (lock : RWLock) : Option RWLock :=
  if lock.writer = .held then
    some { readers := lock.readers, writer := .free, exclusive := nofun }
  else
    none

variable {lock lock' : RWLock}

theorem rLock_eq_some (result : lock.rLock = some lock') :
    lock.writer = .free ∧ lock'.writer = .free ∧ lock'.readers = lock.readers + 1 := by
  unfold rLock at result
  split at result
  case isTrue free =>
    cases result
    exact ⟨free, rfl, rfl⟩
  case isFalse => cases result

theorem announce_eq_some (result : lock.announce = some lock') :
    lock.writer = .free ∧ lock'.writer = .announced ∧ lock'.readers = lock.readers := by
  unfold announce at result
  split at result
  case isTrue free =>
    cases result
    exact ⟨free, rfl, rfl⟩
  case isFalse => cases result

theorem acquire_eq_some (result : lock.acquire = some lock') :
    lock.writer = .announced ∧ lock'.writer = .held ∧ lock'.readers = 0 ∧ lock.readers = 0 := by
  unfold acquire at result
  split at result
  case isTrue ready =>
    cases result
    exact ⟨ready.1, rfl, rfl, ready.2⟩
  case isFalse => cases result

theorem unlock_eq_some (result : lock.unlock = some lock') :
    lock.writer = .held ∧ lock'.writer = .free ∧ lock'.readers = lock.readers := by
  unfold unlock at result
  split at result
  case isTrue held =>
    cases result
    exact ⟨held, rfl, rfl⟩
  case isFalse => cases result

end RWLock

/-- What the threads of a system hold together. -/
def total {τ : Type u} (weight : τ → Nat) (threads : List τ) : Nat :=
  (threads.map weight).sum

section

variable {τ : Type u} (weight : τ → Nat) {threads : List τ} {thread : τ} {i : Nat}

theorem total_append :
    total weight (threads ++ [thread]) = total weight threads + weight thread := by
  simp [total]

/-- A step of one thread changes what that thread holds. -/
theorem total_set (thread' : τ) (found : threads[i]? = some thread) :
    total weight (threads.set i thread') + weight thread =
      total weight threads + weight thread' := by
  induction threads generalizing i with
  | nil => cases found
  | cons first rest ih =>
      cases i with
      | zero =>
          cases found
          simp only [total, List.set_cons_zero, List.map_cons, List.sum_cons]
          omega
      | succ i =>
          have onward := ih found
          simp only [total, List.set_cons_succ, List.map_cons, List.sum_cons] at onward ⊢
          omega

theorem total_mono {weight weight' : τ → Nat} (le : ∀ thread, weight thread ≤ weight' thread) :
    total weight threads ≤ total weight' threads := by
  induction threads with
  | nil => exact Nat.le_refl _
  | cons first rest ih =>
      have here := le first
      simp only [total, List.map_cons, List.sum_cons] at ih ⊢
      omega

theorem weight_le_total (found : thread ∈ threads) : weight thread ≤ total weight threads := by
  induction threads with
  | nil => cases found
  | cons first rest ih =>
      simp only [total, List.map_cons, List.sum_cons] at ih ⊢
      rcases List.mem_cons.mp found with rfl | later
      · omega
      · have onward := ih later
        omega

end

end GoLab
