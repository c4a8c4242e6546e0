import Mathlib.Data.List.Induction
import Mathlib.Tactic.Common

/-!
# What happened since

Facts about the past of a list of events, the oldest first.

* `Since P Q xs`: an event with `P` happened, and everything after it has `Q`. `P`
  also sees what came before the event, so that facts about the past nest.
* `since_append_singleton`: how one more event changes such a fact, by which it is
  shown to be what a state says, event by event.
-/
namespace History

variable {α : Type}

/-- An event with `P` happened, and every event after it has `Q`. -/
def Since (P : List α → α → Prop) (Q : α → Prop) (xs : List α) : Prop :=
  ∃ before x after, xs = before ++ x :: after ∧ P before x ∧ ∀ y ∈ after, Q y

variable {P : List α → α → Prop} {Q : α → Prop} {xs : List α} {x : α}

@[simp] theorem not_since_nil : ¬ Since P Q [] := by
  intro h
  obtain ⟨before, x, after, hxs, -, -⟩ := h
  exact absurd hxs.symm (by simp)

/-- **One more event**: it is the one, or it lets the fact stand. -/
theorem since_append_singleton : Since P Q (xs ++ [x]) ↔ P xs x ∨ Q x ∧ Since P Q xs := by
  constructor
  · intro h
    obtain ⟨before, y, after, hxs, hy, hafter⟩ := h
    cases after using List.reverseRecOn with
    | nil =>
      obtain ⟨rfl, hxy⟩ := List.append_inj' hxs rfl
      cases hxy
      exact .inl hy
    | append_singleton after z =>
      have hxs : xs ++ [x] = (before ++ y :: after) ++ [z] := by simpa using hxs
      obtain ⟨rfl, hxz⟩ := List.append_inj' hxs rfl
      cases hxz
      exact .inr ⟨hafter _ (by simp), before, y, after, rfl, hy, fun w hw => hafter w (by simp [hw])⟩
  · intro h
    rcases h with hx | ⟨hx, before, y, after, rfl, hy, hafter⟩
    · exact ⟨xs, x, [], rfl, hx, by simp⟩
    · refine ⟨before, y, after ++ [x], by simp, hy, fun w hw => ?_⟩
      rcases List.mem_append.1 hw with hw | hw
      · exact hafter w hw
      · rw [List.mem_singleton.1 hw]
        exact hx

end History
