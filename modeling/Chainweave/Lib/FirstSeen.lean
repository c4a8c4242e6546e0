import Mathlib.Data.List.Sort
import Mathlib.Tactic.Common

/-!
# Streams with repeats

A consumer drops what it has seen before: `firstSeen key seen s` keeps the first
element of `s` for every key that is not in `seen`.

* `firstSeen_eq`: of a stream whose keys never go down, it is the ascending list of
  the stream's elements.
* `filter_isPrefix`: what holds of all elements before one that it holds of, holds of
  a prefix.
-/
namespace FirstSeen

variable {α κ : Type*}

/-- A property that each element hands back to those before it holds of a prefix. -/
theorem filter_isPrefix {P : α → Bool} {l : List α}
    (h : l.Pairwise fun a b => P b = true → P a = true) : l.filter P <+: l := by
  induction l with
  | nil => exact List.prefix_rfl
  | cons a l ih =>
    obtain ⟨hhead, htail⟩ := List.pairwise_cons.1 h
    by_cases ha : P a = true
    · rw [List.filter_cons_of_pos ha]
      exact (List.prefix_cons_inj a).2 (ih htail)
    · have hnone : l.filter P = [] :=
        List.filter_eq_nil_iff.2 fun b hb hp => ha (hhead b hb hp)
      rw [List.filter_cons_of_neg ha, hnone]
      exact List.nil_prefix

section
variable [DecidableEq κ] (key : α → κ)

def firstSeen : List κ → List α → List α
  | _, [] => []
  | seen, a :: s => if key a ∈ seen then firstSeen seen s else a :: firstSeen (key a :: seen) s

variable {key} {seen : List κ} {s : List α} {a : α}

theorem mem_of_firstSeen (h : a ∈ firstSeen key seen s) : a ∈ s ∧ key a ∉ seen := by
  induction s generalizing seen with
  | nil => cases h
  | cons b s ih =>
    unfold firstSeen at h
    split at h
    · obtain ⟨hmem, hnot⟩ := ih h
      exact ⟨List.mem_cons_of_mem b hmem, hnot⟩
    · rename_i hb
      cases List.mem_cons.1 h with
      | inl heq =>
        subst heq
        exact ⟨List.mem_cons_self, hb⟩
      | inr h =>
        obtain ⟨hmem, hnot⟩ := ih h
        exact ⟨List.mem_cons_of_mem b hmem, fun hseen => hnot (List.mem_cons_of_mem _ hseen)⟩

theorem exists_firstSeen (h : a ∈ s) (hnot : key a ∉ seen) :
    ∃ b ∈ firstSeen key seen s, key b = key a := by
  induction s generalizing seen with
  | nil => cases h
  | cons b s ih =>
    unfold firstSeen
    by_cases heq : key b = key a
    · rw [if_neg (heq ▸ hnot)]
      exact ⟨b, List.mem_cons_self, heq⟩
    have htail : a ∈ s := by
      cases List.mem_cons.1 h with
      | inl hab => exact absurd (congrArg key hab.symm) heq
      | inr h => exact h
    split
    · exact ih htail hnot
    · obtain ⟨c, hc, hkey⟩ := ih htail  (by
        rw [List.mem_cons, not_or]
        exact ⟨fun hab => heq hab.symm, hnot⟩)
      exact ⟨c, List.mem_cons_of_mem b hc, hkey⟩

end

section
variable [LinearOrder κ] {key : α → κ} {s o : List α}

theorem firstSeen_ascending {seen : List κ} (h : s.Pairwise fun a b => key a ≤ key b) :
    (firstSeen key seen s).Pairwise fun a b => key a < key b := by
  induction s generalizing seen with
  | nil => exact .nil
  | cons a s ih =>
    obtain ⟨hhead, htail⟩ := List.pairwise_cons.1 h
    unfold firstSeen
    split
    · exact ih htail
    · refine List.pairwise_cons.2 ⟨fun b hb => ?_, ih htail⟩
      obtain ⟨hmem, hnot⟩ := mem_of_firstSeen hb
      have hne : key a ≠ key b := fun heq => hnot (heq ▸ List.mem_cons_self)
      exact lt_of_le_of_ne (hhead b hmem) hne

/-- **The consumer's view** of a stream with the elements of `o`, repeats and all. -/
theorem firstSeen_eq (ho : o.Pairwise fun a b => key a < key b)
    (hs : s.Pairwise fun a b => key a ≤ key b) (hmem : ∀ a, a ∈ s ↔ a ∈ o) :
    firstSeen key [] s = o := by
  have hirrefl : Std.Irrefl fun a b : α => key a < key b := ⟨fun _ => lt_irrefl _⟩
  have hanti : Std.Antisymm fun a b : α => key a < key b :=
    ⟨fun _ _ h1 h2 => absurd h1 (lt_asymm h2)⟩
  refine (firstSeen_ascending hs).eq_of_mem_iff ho fun a => Iff.intro (fun h => ?_) fun h => ?_
  · exact (hmem a).1 (mem_of_firstSeen h).1
  · obtain ⟨b, hb, hkey⟩ := exists_firstSeen ((hmem a).2 h) (List.not_mem_nil (a := key a))
    have hbo : b ∈ o := (hmem b).1 (mem_of_firstSeen hb).1
    have hnodup : (o.map key).Nodup := List.pairwise_map.2 (ho.imp fun hlt => ne_of_lt hlt)
    have heq : b = a := List.inj_on_of_nodup_map hnodup hbo h hkey
    exact heq ▸ hb

end

end FirstSeen
