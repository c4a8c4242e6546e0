import Mathlib.Data.Finset.Erase
import Mathlib.Data.Finset.Image
import Mathlib.Data.Finset.Insert
import Mathlib.Data.List.Basic

/-!
# Logs of changes to a set

A consumer that keeps a set up to date from a log of insertions and removals.

* `replay s log`: the set after the log, from `s`. Inserting what is there, or
  removing what is not, is refused.
* `Records log P`: from nothing, the log is never refused and leaves exactly the
  elements with `P`. `Records.inserted` and `Records.removed` add one change.
* `replay_map`: a log under other names.
-/
namespace ChangeLog

inductive Change (α : Type*) where
  | add (a : α)
  | drop (a : α)
  deriving DecidableEq, Repr

variable {α : Type*} [DecidableEq α]

def Change.run (s : Finset α) : Change α → Option (Finset α)
  | .add a => if a ∈ s then none else some (insert a s)
  | .drop a => if a ∈ s then some (s.erase a) else none

def replay (s : Finset α) (log : List (Change α)) : Option (Finset α) := log.foldlM Change.run s

/-- The log, from nothing, leaves exactly the elements with `P`. -/
def Records (log : List (Change α)) (P : α → Prop) : Prop :=
  ∃ s, replay ∅ log = some s ∧ ∀ a, a ∈ s ↔ P a

section
variable {log : List (Change α)} {s u : Finset α} {a : α} {P Q : α → Prop}

theorem replay_concat {c : Change α} (h : replay s log = some u) :
    replay s (log ++ [c]) = c.run u := by
  unfold replay at *
  rw [List.foldlM_append, h]
  simp

theorem Records.nil (h : ∀ a, ¬ P a) : Records [] P := ⟨∅, rfl, by simpa using h⟩

theorem Records.congr (h : Records log P) (hpq : ∀ a, P a ↔ Q a) : Records log Q := by
  obtain ⟨s, hs, hmem⟩ := h
  exact ⟨s, hs, fun a => (hmem a).trans (hpq a)⟩

/-- An element that was not there comes in. -/
theorem Records.inserted (h : Records log P) (ha : ¬ P a) :
    Records (log ++ [.add a]) (fun b => P b ∨ b = a) := by
  obtain ⟨s, hs, hmem⟩ := h
  have hnot : a ∉ s := fun hin => ha ((hmem a).1 hin)
  refine ⟨insert a s, ?_, fun b => ?_⟩
  · rw [replay_concat hs]
    simp [Change.run, hnot]
  · simp [hmem, or_comm]

/-- An element that was there goes. -/
theorem Records.removed (h : Records log P) (ha : P a) :
    Records (log ++ [.drop a]) (fun b => P b ∧ b ≠ a) := by
  obtain ⟨s, hs, hmem⟩ := h
  have hin : a ∈ s := (hmem a).2 ha
  refine ⟨s.erase a, ?_, fun b => ?_⟩
  · rw [replay_concat hs]
    simp [Change.run, hin]
  · simp [hmem, and_comm]

end

/-! ## Elements under other names -/

section
variable {β : Type*} [DecidableEq β] {f : α → β} {s u : Finset α} {log : List (Change α)}

def Change.map {γ δ : Type*} (f : γ → δ) : Change γ → Change δ
  | .add a => .add (f a)
  | .drop a => .drop (f a)

theorem Change.run_map (hf : Function.Injective f) {c : Change α} (h : c.run s = some u) :
    (c.map f).run (s.image f) = some (u.image f) := by
  have hmem : ∀ a, f a ∈ s.image f ↔ a ∈ s := fun a => by
    simp [hf.eq_iff]
  cases c with
  | add a =>
    simp only [Change.run, Change.map, hmem] at h ⊢
    split at h
    · cases h
    · rename_i ha
      cases h
      rw [if_neg ha, Finset.image_insert]
  | drop a =>
    simp only [Change.run, Change.map, hmem] at h ⊢
    split at h
    · rename_i ha
      cases h
      rw [if_pos ha, Finset.image_erase hf]
    · cases h

/-- A log under other names leaves the same elements under these names. -/
theorem replay_map (hf : Function.Injective f) (h : replay s log = some u) :
    replay (s.image f) (log.map (Change.map f)) = some (u.image f) := by
  unfold replay at *
  induction log generalizing s with
  | nil =>
    cases h
    rfl
  | cons c log ih =>
    rw [List.foldlM_cons] at h
    obtain ⟨v, hc, h⟩ := Option.bind_eq_some_iff.1 h
    rw [List.map_cons, List.foldlM_cons, Change.run_map hf hc]
    exact ih h

end

end ChangeLog
