import Mathlib.Data.Option.Basic

/-!
# Runs of a partial step

A system takes one action after the other; an action that is not possible ends it.

* `Run.keeps`: what every step keeps, a run keeps.
* `Run.keeps_of`: what the actions of a run keep, it keeps.
* `Run.reach_step`: a state that is reached, and one step more.
-/
namespace Run

variable {σ α : Type*} {step : σ → α → Option σ} {s s' : σ} {actions : List α}

/-- The first step, and the rest. -/
theorem cons_some {action : α} (h : (action :: actions).foldlM step s = some s') :
    ∃ next, step s action = some next ∧ actions.foldlM step next = some s' := by
  rw [List.foldlM_cons] at h
  exact Option.bind_eq_some_iff.1 h

/-- What the actions of a run keep, it keeps. -/
theorem keeps_of {P : σ → Prop}
    (hstep : ∀ s, ∀ action ∈ actions, ∀ s', P s → step s action = some s' → P s')
    (h : P s) (hrun : actions.foldlM step s = some s') : P s' := by
  induction actions generalizing s with
  | nil =>
    cases hrun
    exact h
  | cons action actions ih =>
    obtain ⟨next, hnext, hrun⟩ := cons_some hrun
    exact ih (fun s other hother => hstep s other (List.mem_cons_of_mem _ hother))
      (hstep s action List.mem_cons_self next h hnext) hrun

/-- What every step keeps, a run keeps. -/
theorem keeps {P : σ → Prop} (hstep : ∀ s action s', P s → step s action = some s' → P s')
    (h : P s) (hrun : actions.foldlM step s = some s') : P s' :=
  keeps_of (fun s action _ => hstep s action) h hrun

/-- One run after another. -/
theorem append {middle : σ} {more : List α} (h : actions.foldlM step s = some middle)
    (hmore : more.foldlM step middle = some s') : (actions ++ more).foldlM step s = some s' := by
  rw [List.foldlM_append, h]
  exact hmore

/-- A state that is reached, and one step more. -/
theorem reach_step {middle : σ} {action : α} (h : ∃ actions : List α, actions.foldlM step s = some middle)
    (hs : step middle action = some s') : ∃ actions : List α, actions.foldlM step s = some s' := by
  obtain ⟨actions, hrun⟩ := h
  refine ⟨actions ++ [action], append hrun ?_⟩
  rw [List.foldlM_cons, hs]
  rfl

end Run
