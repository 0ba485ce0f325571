/-!
# Linearizable histories

A history lists the calls of a concurrent object and their answers as they happen.  It is
linearizable when the calls, or those of them that have taken effect, can be put in an
order in which a sequential object gives the same answers, and which has every call that
was answered before another was made before that one.

The rules below build the order along a run: a call enters it at the moment at which it
takes effect.
-/

namespace GoLab

universe u v w

/-- A call is made, or answered. -/
inductive CallEvent (Op : Type v) (Reply : Type w) where
  | invoke (id : Nat) (op : Op)
  | respond (id : Nat) (reply : Reply)

/-- A call that has taken effect, with its answer. -/
structure CallEffect (Op : Type v) (Reply : Type w) where
  id : Nat
  op : Op
  reply : Reply

variable {σ : Type u} {Op : Type v} {Reply : Type w}

/-- The sequential object carries out calls one at a time. -/
inductive Sequential (apply : σ → Op → Option (σ × Reply)) (start : σ) :
    List (CallEffect Op Reply) → σ → Prop where
  | start : Sequential apply start [] start
  | next {order : List (CallEffect Op Reply)} {s s' : σ} {effect : CallEffect Op Reply} :
      Sequential apply start order s → apply s effect.op = some (s', effect.reply) →
      Sequential apply start (order ++ [effect]) s'

/-- The call `id` was answered before the call `other` was made. -/
def Precedes (history : List (CallEvent Op Reply)) (id other : Nat) : Prop :=
  ∃ early late reply op, history = early ++ late ∧ .respond id reply ∈ early ∧
    .invoke other op ∈ late

/-- The calls in the order in which they have taken effect. -/
def inEffect (order : List (CallEffect Op Reply)) : List Nat :=
  order.map CallEffect.id

/-- The order explains the history and leads the sequential object from `start` to `final`. -/
structure Linearizes (apply : σ → Op → Option (σ × Reply)) (start : σ)
    (history : List (CallEvent Op Reply)) (order : List (CallEffect Op Reply)) (final : σ) :
    Prop where
  sequential : Sequential apply start order final
  once : (inEffect order).Nodup
  invoked : ∀ effect ∈ order, .invoke effect.id effect.op ∈ history
  answered : ∀ id reply, .respond id reply ∈ history → ∃ op, ⟨id, op, reply⟩ ∈ order
  realTime : ∀ id other, Precedes history id other → other ∈ inEffect order →
    [id, other].Sublist (inEffect order)

section

variable {history : List (CallEvent Op Reply)} {event : CallEvent Op Reply} {id other : Nat}
  {order : List (CallEffect Op Reply)} {effect : CallEffect Op Reply}

theorem mem_inEffect : id ∈ inEffect order ↔ ∃ effect ∈ order, effect.id = id := by
  simp [inEffect]

theorem inEffect_append : inEffect (order ++ [effect]) = inEffect order ++ [effect.id] := by
  simp [inEffect]

/-- What precedes what after one more event. -/
theorem Precedes.of_append (precedes : Precedes (history ++ [event]) id other) :
    Precedes history id other ∨
      ∃ op reply, event = .invoke other op ∧ .respond id reply ∈ history := by
  obtain ⟨early, late, reply, op, whole, responded, invoked⟩ := precedes
  rcases List.eq_nil_or_concat late with rfl | ⟨late, last, rfl⟩
  · cases invoked
  · rw [List.concat_eq_append] at whole invoked
    rw [← List.append_assoc] at whole
    obtain ⟨rfl, isLast⟩ := List.append_inj' whole rfl
    cases isLast
    rcases List.mem_append.mp invoked with inside | isNew
    · exact .inl ⟨early, late, reply, op, rfl, responded, inside⟩
    · exact .inr ⟨op, reply, (List.mem_singleton.mp isNew).symm, List.mem_append_left _ responded⟩

theorem Precedes.responded (precedes : Precedes history id other) :
    ∃ reply, .respond id reply ∈ history := by
  obtain ⟨early, late, reply, _, rfl, responded, -⟩ := precedes
  exact ⟨reply, List.mem_append_left _ responded⟩

end

namespace Linearizes

variable {apply : σ → Op → Option (σ × Reply)} {start final final' : σ}
  {history : List (CallEvent Op Reply)} {order : List (CallEffect Op Reply)} {id : Nat} {op : Op}
  {reply : Reply}

theorem nil : Linearizes apply start [] [] start where
  sequential := .start
  once := List.nodup_nil
  invoked := nofun
  answered := nofun
  realTime := nofun

/-- A call is made. -/
theorem invoke (linearizes : Linearizes apply start history order final)
    (new : id ∉ inEffect order) :
    Linearizes apply start (history ++ [.invoke id op]) order final where
  sequential := linearizes.sequential
  once := linearizes.once
  invoked := fun effect inside => List.mem_append_left _ (linearizes.invoked effect inside)
  answered := fun id reply responded => by
    simp only [List.mem_append, List.mem_singleton, reduceCtorEq, or_false] at responded
    exact linearizes.answered id reply responded
  realTime := fun first second precedes inside => by
    rcases precedes.of_append with before | ⟨_, _, isLast, -⟩
    · exact linearizes.realTime first second before inside
    · cases isLast
      exact (new inside).elim

/-- A call takes effect. -/
theorem commit (linearizes : Linearizes apply start history order final) (new : id ∉ inEffect order)
    (invoked : .invoke id op ∈ history) (applied : apply final op = some (final', reply)) :
    Linearizes apply start history (order ++ [⟨id, op, reply⟩]) final' where
  sequential := .next linearizes.sequential applied
  once := by
    rw [inEffect_append, List.nodup_append]
    refine ⟨linearizes.once, List.nodup_cons.mpr ⟨nofun, List.nodup_nil⟩, ?_⟩
    intro other inside last isLast same
    rw [same, List.mem_singleton.mp isLast] at inside
    exact new inside
  invoked := fun effect inside => by
    rcases List.mem_append.mp inside with earlier | isNew
    · exact linearizes.invoked effect earlier
    · rw [List.mem_singleton.mp isNew]
      exact invoked
  answered := fun other reply responded => by
    obtain ⟨op, inside⟩ := linearizes.answered other reply responded
    exact ⟨op, List.mem_append_left _ inside⟩
  realTime := fun first second precedes inside => by
    rw [inEffect_append] at inside ⊢
    rcases List.mem_append.mp inside with earlier | isNew
    · exact (linearizes.realTime first second precedes earlier).trans
        (List.sublist_append_left ..)
    · obtain ⟨reply, responded⟩ := precedes.responded
      obtain ⟨op, inOrder⟩ := linearizes.answered first reply responded
      have firstInside : [first].Sublist (inEffect order) :=
        List.singleton_sublist.mpr (mem_inEffect.mpr ⟨_, inOrder, rfl⟩)
      rw [List.mem_singleton.mp isNew]
      exact firstInside.append (List.Sublist.refl [id])

/-- A call that has taken effect is answered. -/
theorem respond (linearizes : Linearizes apply start history order final)
    (effective : ⟨id, op, reply⟩ ∈ order) :
    Linearizes apply start (history ++ [.respond id reply]) order final where
  sequential := linearizes.sequential
  once := linearizes.once
  invoked := fun effect inside => List.mem_append_left _ (linearizes.invoked effect inside)
  answered := fun other reply' responded => by
    rcases List.mem_append.mp responded with earlier | isNew
    · exact linearizes.answered other reply' earlier
    · cases List.mem_singleton.mp isNew
      exact ⟨op, effective⟩
  realTime := fun first second precedes inside => by
    rcases precedes.of_append with before | ⟨_, _, isLast, -⟩
    · exact linearizes.realTime first second before inside
    · cases isLast

end Linearizes

end GoLab
