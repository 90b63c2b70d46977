import Mathlib

/-!
# `FrostMpcTss.Lib.Transition`: runs of a labelled step function

A component is a partial step function `σ → ι → Option σ`: the label
says which event happens, and `none` says that the event cannot
happen in that state. `Reach step G s₀` collects the states of every
run from `s₀` whose steps all meet the guard `G`, a condition on the
state before the step and its label. `Always` is the trivial guard.

`Reach.invariant` is the induction every safety proof goes through.
`run` executes a list of labels, so that a concrete run is found by
evaluation and turned into a reachable state by `reach_of_run`;
`runIf` and `reach_of_runIf` do the same for a guard that is a test.
-/

set_option autoImplicit false

namespace FrostMpcTss.Lib

variable {σ ι : Type}

/-- The guard that every step meets. -/
def Always (_ : σ) (_ : ι) : Prop := True

/-- The states reached from `s₀` by steps that meet the guard. -/
inductive Reach (step : σ → ι → Option σ) (G : σ → ι → Prop) (s₀ : σ) : σ → Prop
  | start : Reach step G s₀ s₀
  | next {s s' : σ} (l : ι) :
      Reach step G s₀ s → G s l → step s l = some s' → Reach step G s₀ s'

/-- What holds at the start and is kept by every guarded step holds
in every state reached. -/
theorem Reach.invariant {step : σ → ι → Option σ} {G : σ → ι → Prop} {s₀ s : σ}
    {I : σ → Prop} (h : Reach step G s₀ s) (hstart : I s₀)
    (hstep : ∀ s l s', I s → G s l → step s l = some s' → I s') : I s := by
  induction h with
  | start => exact hstart
  | next l _ hG hs ih => exact hstep _ l _ ih hG hs

/-- Execute the labels in order. -/
def run (step : σ → ι → Option σ) (s : σ) : List ι → Option σ
  | [] => some s
  | l :: ls => (step s l).bind fun s' => run step s' ls

/-- A run in two parts. -/
theorem run_append (step : σ → ι → Option σ) (ls ls' : List ι) :
    ∀ s : σ, run step s (ls ++ ls') = (run step s ls).bind fun s' => run step s' ls' := by
  induction ls with
  | nil => exact fun _ => rfl
  | cons l ls ih =>
      intro s
      cases hs : step s l with
      | none => simp [run, hs]
      | some s' => simpa [run, hs] using ih s'

/-- The last label of a run acts on the state before it. -/
theorem run_concat (step : σ → ι → Option σ) (ls : List ι) (l : ι) (s : σ) :
    run step s (ls ++ [l]) = (run step s ls).bind fun s' => step s' l := by
  rw [run_append]
  refine congrArg (Option.bind (run step s ls)) (funext fun s' => ?_)
  cases hs : step s' l <;> simp [run, hs]

/-- An executed run reaches its last state, whatever came before it. -/
theorem Reach.run {step : σ → ι → Option σ} {s₀ : σ} (ls : List ι) :
    ∀ {s s' : σ}, Reach step Always s₀ s → run step s ls = some s' →
      Reach step Always s₀ s' := by
  induction ls with
  | nil =>
      intro s s' h hrun
      cases hrun
      exact h
  | cons l ls ih =>
      intro s s' h hrun
      obtain ⟨s₁, hs₁, hrun⟩ := Option.bind_eq_some_iff.mp hrun
      exact ih (h.next l trivial hs₁) hrun

/-- The run from the start. -/
theorem reach_of_run {step : σ → ι → Option σ} {s₀ s : σ} (ls : List ι)
    (h : run step s₀ ls = some s) : Reach step Always s₀ s :=
  Reach.run ls .start h

/-- Execute the labels in order, as long as each passes the check. -/
def runIf (step : σ → ι → Option σ) (check : σ → ι → Bool) (s : σ) : List ι → Option σ
  | [] => some s
  | l :: ls =>
      if check s l then (step s l).bind fun s' => runIf step check s' ls else none

/-- An executed run with a checked guard reaches its last state. -/
theorem Reach.runIf {step : σ → ι → Option σ} {check : σ → ι → Bool} {s₀ : σ} (ls : List ι) :
    ∀ {s s' : σ}, Reach step (fun s l => check s l = true) s₀ s →
      runIf step check s ls = some s' → Reach step (fun s l => check s l = true) s₀ s' := by
  induction ls with
  | nil =>
      intro s s' h hrun
      cases hrun
      exact h
  | cons l ls ih =>
      intro s s' h hrun
      by_cases hcheck : check s l = true
      · simp only [Lib.runIf, hcheck, if_true] at hrun
        obtain ⟨s₁, hs₁, hrun⟩ := Option.bind_eq_some_iff.mp hrun
        exact ih (h.next l hcheck hs₁) hrun
      · simp only [Lib.runIf, hcheck] at hrun
        cases hrun

/-- The checked run from the start. -/
theorem reach_of_runIf {step : σ → ι → Option σ} {check : σ → ι → Bool} {s₀ s : σ}
    (ls : List ι) (h : runIf step check s₀ ls = some s) :
    Reach step (fun s l => check s l = true) s₀ s :=
  Reach.runIf ls .start h

end FrostMpcTss.Lib
