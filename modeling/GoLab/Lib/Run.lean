/-!
# Runs of a system given by a partial step function

`Run allowed` are the runs from an initial state in which every step, looked at
with the state it starts from, is allowed.  A run remembers its steps, so a
statement about an earlier moment is a statement about a shorter run.
-/

namespace GoLab

universe u v

variable {σ : Type u} {ι : Type v}

/-- Carry out a list of steps; `none` when one of them is not allowed or not
enabled. -/
def runSteps (step : ι → σ → Option σ) (allowed : σ → ι → Prop)
    [∀ s label, Decidable (allowed s label)] : List ι → σ → Option σ
  | [], s => some s
  | label :: rest, s =>
      if allowed s label then (step label s).bind (runSteps step allowed rest) else none

/-- Whether `p` holds in `s` and after each of the steps that can be carried out. -/
def throughout (step : ι → σ → Option σ) (p : σ → Prop) [DecidablePred p] : List ι → σ → Bool
  | [], s => decide (p s)
  | label :: rest, s =>
      decide (p s) && (step label s).all (throughout step p rest)

/-- A run from `init`: the steps taken and the state reached. -/
inductive Run (step : ι → σ → Option σ) (allowed : σ → ι → Prop) (init : σ) :
    List ι → σ → Prop where
  | start : Run step allowed init [] init
  | next {labels : List ι} {s s' : σ} {label : ι} :
      Run step allowed init labels s → allowed s label → step label s = some s' →
      Run step allowed init (labels ++ [label]) s'

namespace Run

variable {step : ι → σ → Option σ} {allowed : σ → ι → Prop} {init : σ}

/-- What holds initially and is kept by every allowed step holds in every state
of every run.  What is already known of runs can be used at each step. -/
theorem invariant (inv : List ι → σ → Prop) (initially : inv [] init)
    (kept : ∀ labels s label s', Run step allowed init labels s → inv labels s →
      allowed s label → step label s = some s' → inv (labels ++ [label]) s')
    {labels : List ι} {s : σ} (run : Run step allowed init labels s) : inv labels s := by
  induction run with
  | start => exact initially
  | next before ok taken ih => exact kept _ _ _ _ before ih ok taken

/-- Fewer allowed steps give fewer runs. -/
theorem mono {stricter : σ → ι → Prop} (weaker : ∀ s label, stricter s label → allowed s label)
    {labels : List ι} {s : σ} (run : Run step stricter init labels s) :
    Run step allowed init labels s := by
  induction run with
  | start => exact .start
  | next _ ok taken ih => exact .next ih (weaker _ _ ok) taken

/-- A run goes on from where another one ends. -/
theorem append {middle : σ} {before labels : List ι} {s : σ}
    (first : Run step allowed init before middle) (rest : Run step allowed middle labels s) :
    Run step allowed init (before ++ labels) s := by
  induction rest with
  | start => simpa using first
  | next _ ok taken ih =>
      rw [← List.append_assoc]
      exact ih.next ok taken

/-- At some moment of the run that takes the steps `labels`. -/
def Once (step : ι → σ → Option σ) (allowed : σ → ι → Prop) (init : σ) (labels : List ι)
    (p : σ → Prop) : Prop :=
  ∃ earlier s, earlier <+: labels ∧ Run step allowed init earlier s ∧ p s

theorem once {p : σ → Prop} {labels : List ι} {s : σ} (run : Run step allowed init labels s)
    (holds : p s) : Once step allowed init labels p :=
  ⟨labels, s, List.prefix_rfl, run, holds⟩

theorem Once.append {p : σ → Prop} {labels : List ι} (once : Once step allowed init labels p)
    (later : List ι) : Once step allowed init (labels ++ later) p := by
  obtain ⟨earlier, s, before, run, holds⟩ := once
  exact ⟨earlier, s, before.trans (List.prefix_append ..), run, holds⟩

section

variable {p : σ → Prop} [DecidablePred p]

theorem throughout_append {labels rest : List ι} {s : σ} (run : Run step allowed init labels s)
    (always : throughout step p (labels ++ rest) init = true) :
    throughout step p rest s = true := by
  induction run generalizing rest with
  | start => exact always
  | next _ _ taken ih =>
      rw [List.append_assoc] at always
      have onward := ih always
      simp only [List.singleton_append, throughout, taken, Option.all_some,
        Bool.and_eq_true] at onward
      exact onward.2

/-- What holds throughout a list of steps holds at every moment of the run. -/
theorem of_throughout {labels earlier : List ι} {s : σ}
    (always : throughout step p labels init = true) (before : earlier <+: labels)
    (run : Run step allowed init earlier s) : p s := by
  obtain ⟨rest, rfl⟩ := before
  have now := run.throughout_append always
  cases rest with
  | nil => exact of_decide_eq_true now
  | cons label rest =>
      simp only [throughout, Bool.and_eq_true] at now
      exact of_decide_eq_true now.1

end

section

variable [∀ s label, Decidable (allowed s label)]

/-- Steps that can be carried out extend a run. -/
theorem append_runSteps {before labels : List ι} {s s' : σ}
    (run : Run step allowed init before s)
    (taken : runSteps step allowed labels s = some s') :
    Run step allowed init (before ++ labels) s' := by
  induction labels generalizing before s with
  | nil =>
      cases taken
      simpa using run
  | cons label rest ih =>
      unfold runSteps at taken
      split at taken
      case isTrue ok =>
        obtain ⟨middle, first, others⟩ := Option.bind_eq_some_iff.mp taken
        simpa using ih (run.next ok first) others
      case isFalse => cases taken

/-- Carrying out a list of steps is a run to the state reached. -/
theorem exists_of_runSteps {goal : σ → Prop} {labels : List ι}
    (reached : ∃ s ∈ runSteps step allowed labels init, goal s) :
    ∃ s, Run step allowed init labels s ∧ goal s := by
  obtain ⟨s, taken, holds⟩ := reached
  have run := append_runSteps (.start : Run step allowed init [] init) taken
  exact ⟨s, by simpa using run, holds⟩

end

end Run

end GoLab
