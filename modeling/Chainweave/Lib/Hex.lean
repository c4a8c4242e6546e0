import Mathlib

/-!
# Hexadecimal texts

Digits of either case, and the number that a text of them stands for.

* `value_lt`: a text of `k` digits is below `16 ^ k`.
* `value_toDigits`: a number reads back from its digits.
* `toDigits_shortest`: no shorter text stands for it.
* `value_eq_iff`: two texts of one length stand for one number exactly if they differ in case only.
-/
namespace Hex

/-- The value of a digit. -/
def digit (c : Char) : Option Nat :=
  if '0' ≤ c ∧ c ≤ '9' then some (c.toNat - '0'.toNat)
  else if 'a' ≤ c ∧ c ≤ 'f' then some (c.toNat - 'a'.toNat + 10)
  else if 'A' ≤ c ∧ c ≤ 'F' then some (c.toNat - 'A'.toNat + 10)
  else none

/-- Digits only. -/
def IsHex (text : List Char) : Prop := ∀ c ∈ text, (digit c).isSome = true

instance (text : List Char) : Decidable (IsHex text) :=
  List.decidableBAll (fun c => (digit c).isSome = true) text

/-- The number read on from `n`. -/
def valueFrom (n : Nat) (text : List Char) : Nat :=
  text.foldl (fun n c => 16 * n + (digit c).getD 0) n

def value (text : List Char) : Nat := valueFrom 0 text

@[simp] theorem valueFrom_nil (n : Nat) : valueFrom n [] = n := rfl

@[simp] theorem valueFrom_cons (n : Nat) (c : Char) (text : List Char) :
    valueFrom n (c :: text) = valueFrom (16 * n + (digit c).getD 0) text := rfl

/-- The text behind an `0x`, or all of one that has none. -/
def strip0x (text : List Char) : List Char :=
  if ['0', 'x'] <+: text then text.drop 2 else text

theorem isHex_cons {c : Char} {text : List Char} :
    IsHex (c :: text) ↔ (digit c).isSome = true ∧ IsHex text := List.forall_mem_cons

/-! ## Digits -/

theorem char_le_iff {a b : Char} : a ≤ b ↔ a.toNat ≤ b.toNat := Iff.rfl

/-- Digits are ASCII. -/
theorem toNat_lt {c : Char} (h : (digit c).isSome = true) : c.toNat < 128 := by
  by_contra hge
  have hnone : digit c = none := by
    simp only [digit, char_le_iff]
    rw [if_neg, if_neg, if_neg] <;> simp <;> omega
  rw [hnone] at h
  cases h

/-- A text of digits has no marker. -/
theorem strip0x_digits {text : List Char} (h : IsHex text) : strip0x text = text := by
  unfold strip0x
  refine if_neg fun hprefix => ?_
  obtain ⟨rest, rfl⟩ := hprefix
  exact absurd (h 'x' (by simp)) (by decide)

@[simp] theorem strip0x_marked (text : List Char) : strip0x ('0' :: 'x' :: text) = text := by
  simp [strip0x]

/-- What holds of the ASCII characters holds of a digit. -/
theorem digit_ascii {P : Char → Nat → Prop} {c : Char} {d : Nat} (h : digit c = some d)
    (hall : ∀ n : Fin 128, ∀ d ∈ digit (Char.ofNat n), P (Char.ofNat n) d) : P c d := by
  have hlt := toNat_lt (c := c) (by rw [h]; rfl)
  have hc := hall ⟨c.toNat, hlt⟩ d
  simp only [Char.ofNat_toNat] at hc
  exact hc h

theorem digit_lt {c : Char} {d : Nat} (h : digit c = some d) : d < 16 :=
  digit_ascii (P := fun _ d => d < 16) h (by decide)

theorem digit_getD_lt (c : Char) : (digit c).getD 0 < 16 := by
  cases h : digit c with
  | none => decide
  | some d => exact digit_lt h

theorem digit_digitChar {d : Nat} (h : d < 16) : digit d.digitChar = some d := by
  have hall : ∀ d : Fin 16, digit (Nat.digitChar d) = some d.val := by decide
  exact hall ⟨d, h⟩

/-- The digit of a character, whatever its case. -/
theorem digitChar_digit {c : Char} {d : Nat} (h : digit c = some d) : d.digitChar = c.toLower :=
  digit_ascii (P := fun c d => d.digitChar = c.toLower) h (by decide)

theorem digitChar_inj {d e : Nat} (hd : d < 16) (he : e < 16) :
    d.digitChar = e.digitChar ↔ d = e := by
  refine ⟨fun h => ?_, congrArg _⟩
  have hsome := congrArg digit h
  rw [digit_digitChar hd, digit_digitChar he] at hsome
  exact Option.some.inj hsome

/-! ## Numbers -/

theorem valueFrom_append (n : Nat) (a b : List Char) :
    valueFrom n (a ++ b) = valueFrom (valueFrom n a) b := List.foldl_append

theorem valueFrom_eq (n : Nat) (text : List Char) :
    valueFrom n text = 16 ^ text.length * n + value text := by
  induction text generalizing n with
  | nil => simp [value]
  | cons c text ih =>
    rw [value, valueFrom_cons, valueFrom_cons, ih, ih (16 * 0 + _), List.length_cons, Nat.pow_succ]
    ring

theorem value_cons (c : Char) (text : List Char) :
    value (c :: text) = 16 ^ text.length * (digit c).getD 0 + value text := by
  rw [value, valueFrom_cons, Nat.mul_zero, Nat.zero_add, valueFrom_eq]

theorem le_valueFrom (n : Nat) (text : List Char) : n ≤ valueFrom n text := by
  rw [valueFrom_eq]
  have := Nat.mul_le_mul_right n (Nat.one_le_pow text.length 16 (by decide))
  omega

theorem value_lt (text : List Char) : value text < 16 ^ text.length := by
  induction text with
  | nil => decide
  | cons c text ih =>
    have hdigit := Nat.mul_le_mul_left (16 ^ text.length) (Nat.le_of_lt_succ (digit_getD_lt c))
    rw [value_cons, List.length_cons, Nat.pow_succ]
    omega

/-- A number reads back from its digits. -/
theorem value_toDigits (n : Nat) : value (Nat.toDigits 16 n) = n ∧ IsHex (Nat.toDigits 16 n) := by
  induction n using Nat.strongRecOn with
  | ind n ih =>
    rw [Nat.toDigits_eq_if (by decide)]
    split
    · rename_i hlt
      have hdigit := digit_digitChar hlt
      exact ⟨by simp [value, hdigit], by simp [IsHex, hdigit]⟩
    · obtain ⟨hvalue, hhex⟩ := ih (n / 16) (by omega)
      have hdigit := digit_digitChar (Nat.mod_lt n (by decide : 0 < 16))
      constructor
      · rw [value, valueFrom_append, ← value, hvalue, valueFrom_cons, hdigit, valueFrom_nil,
          Option.getD_some, Nat.div_add_mod]
      · intro c hc
        cases List.mem_append.1 hc with
        | inl hmem => exact hhex c hmem
        | inr hmem =>
          rw [List.mem_singleton.1 hmem, hdigit]
          rfl

/-- No shorter text stands for the number. -/
theorem toDigits_shortest {text : List Char} (h : text ≠ []) :
    (Nat.toDigits 16 (value text)).length ≤ text.length :=
  (Nat.length_toDigits_le_iff (by decide) (List.length_pos_iff.2 h)).2 (value_lt text)

/-- Texts of one length stand for one number if they differ in case only. -/
theorem value_eq_iff {a b : List Char} (ha : IsHex a) (hb : IsHex b) (hlength : a.length = b.length) :
    value a = value b ↔ a.map Char.toLower = b.map Char.toLower := by
  induction a generalizing b with
  | nil =>
    rw [List.eq_nil_of_length_eq_zero hlength.symm]
    exact ⟨fun _ => rfl, fun _ => rfl⟩
  | cons x a ih =>
    cases b with
    | nil => cases hlength
    | cons y b =>
      obtain ⟨hx, ha⟩ := isHex_cons.1 ha
      obtain ⟨hy, hb⟩ := isHex_cons.1 hb
      obtain ⟨d, hd⟩ := Option.isSome_iff_exists.1 hx
      obtain ⟨e, he⟩ := Option.isSome_iff_exists.1 hy
      have hlen : a.length = b.length := Nat.succ.inj hlength
      have hblt := value_lt b
      have halt := value_lt a
      rw [hlen] at halt
      rw [value_cons, value_cons, List.map_cons, List.map_cons, List.cons.injEq, ← ih ha hb hlen,
        ← digitChar_digit hd, ← digitChar_digit he, digitChar_inj (digit_lt hd) (digit_lt he), hd, he,
        hlen, Option.getD_some, Option.getD_some]
      refine ⟨fun heq => ?_, fun ⟨hdigit, hvalue⟩ => by rw [hdigit, hvalue]⟩
      have hdigit : d = e := by
        have hdiv := congrArg (· / 16 ^ b.length) heq
        simpa [Nat.mul_add_div (Nat.pow_pos (by decide : 0 < 16)), Nat.div_eq_of_lt halt,
          Nat.div_eq_of_lt hblt] using hdiv
      subst hdigit
      exact ⟨rfl, Nat.add_left_cancel heq⟩

end Hex
