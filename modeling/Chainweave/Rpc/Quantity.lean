import Chainweave.Lib.Hex
import Chainweave.Lib.Serde

/-!
# Quantities

`crates/chainweave-rpc/src/client.rs`: heights, timestamps and indices come as JSON
numbers or as hexadecimal texts, and a request for logs sends heights as such texts.

* `checkedLoop_iff`: the loop of `from_str_radix` gives the number that the digits stand
  for if it is below `2 ^ 64`.
* `quantity_exact`: which JSON values are read as a number, and that a number reads back
  from its text, which is the shortest.
-/
namespace Chainweave.Rpc

open Serde

/-! ## The source -/

/-- `core::num::IntErrorKind`, as far as it occurs. -/
inductive ParseIntError where
  | empty
  | invalidDigit
  | posOverflow
  deriving DecidableEq, Repr

def ParseIntError.message : ParseIntError → String
  | .empty => "cannot parse integer from empty string"
  | .invalidDigit => "invalid digit found in string"
  | .posOverflow => "number too large to fit in target type"

/-- The loop of `u64::from_str_radix`, with its checked operations. -/
def checkedLoop (result : Nat) : List Char → Except ParseIntError Nat
  | [] => .ok result
  | c :: digits =>
    match Hex.digit c with
    | none => .error .invalidDigit
    | some digit =>
      if 2 ^ 64 ≤ result * 16 then .error .posOverflow
      else if 2 ^ 64 ≤ result * 16 + digit then .error .posOverflow
      else checkedLoop (result * 16 + digit) digits

/-- `u64::from_str_radix(.., 16)`: a plus sign may stand in front, and not alone. -/
def fromStrRadix16 : List Char → Except ParseIntError Nat
  | [] => .error .empty
  | c :: digits =>
    if c = '+' then
      if digits = [] then .error .invalidDigit else checkedLoop 0 digits
    else checkedLoop 0 (c :: digits)

/-- mirrors crates/chainweave-rpc/src/client.rs:718-727 -/
def parseQuantity (value : Value) : Except String Nat :=
  match value.asU64 with
  | some number => .ok number
  | none =>
    match value.asStr with
    | none => .error "quantity must be a hex string or unsigned integer"
    | some hex =>
      match fromStrRadix16 (Hex.strip0x hex.toList) with
      | .ok number => .ok number
      | .error error => .error error.message

/-- A field that may be missing.
mirrors crates/chainweave-rpc/src/client.rs:708-716 -/
def deserializeOptionalQuantity : Option Value → Except String (Option Nat)
  | none => .ok none
  | some .null => .ok none
  | some value => (parseQuantity value).map some

/-- mirrors crates/chainweave-rpc/src/client.rs:729-731 -/
def formatQuantity (value : Nat) : String :=
  "0x" ++ String.ofList (Nat.toDigits 16 value)

/-! ## Reading -/

/-- What the loop gives. -/
theorem checkedLoop_iff {result n : Nat} {digits : List Char} (hresult : result < 2 ^ 64) :
    checkedLoop result digits = .ok n ↔
      Hex.IsHex digits ∧ Hex.valueFrom result digits = n ∧ n < 2 ^ 64 := by
  induction digits generalizing result with
  | nil =>
    simp only [checkedLoop, Except.ok.injEq, Hex.valueFrom_nil]
    refine ⟨fun h => ⟨by simp [Hex.IsHex], h, h ▸ hresult⟩, fun h => h.2.1⟩
  | cons c digits ih =>
    rw [Hex.isHex_cons, Hex.valueFrom_cons]
    cases hdigit : Hex.digit c with
    | none => simp [checkedLoop, hdigit]
    | some digit =>
      have hle := Hex.le_valueFrom (16 * result + digit) digits
      simp only [checkedLoop, hdigit, Option.isSome_some, true_and, Option.getD_some]
      split
      · refine ⟨fun h => (by cases h), fun h => ?_⟩
        have hvalue := h.2.1
        have hlt := h.2.2
        omega
      · split
        · refine ⟨fun h => (by cases h), fun h => ?_⟩
          have hvalue := h.2.1
          have hlt := h.2.2
          omega
        · rw [ih (by omega), Nat.mul_comm result 16]

/-- The texts of a number: digits, maybe with a plus sign in front. -/
theorem fromStrRadix16_iff {text : List Char} {n : Nat} :
    fromStrRadix16 text = .ok n ↔ n < 2 ^ 64 ∧ ∃ digits, digits ≠ [] ∧ Hex.IsHex digits ∧
      Hex.value digits = n ∧ (text = digits ∨ text = '+' :: digits) := by
  have hplus : ∀ {digits : List Char}, ¬ Hex.IsHex ('+' :: digits) := fun h =>
    absurd (Hex.isHex_cons.1 h).1 (by decide)
  cases text with
  | nil =>
    refine ⟨fun h => (by cases h), fun ⟨_, digits, hne, _, _, htext⟩ => ?_⟩
    cases htext with
    | inl h => exact absurd h.symm hne
    | inr h => cases h
  | cons c rest =>
    simp only [fromStrRadix16]
    split
    · rename_i hc
      subst hc
      split
      · rename_i hnil
        subst hnil
        refine ⟨fun h => (by cases h), fun ⟨_, digits, hne, hhex, _, htext⟩ => ?_⟩
        cases htext with
        | inl h => exact absurd (h ▸ hhex) hplus
        | inr h => exact absurd (List.cons.inj h).2.symm hne
      · rename_i hne
        rw [checkedLoop_iff (by decide)]
        refine ⟨fun ⟨hhex, hvalue, hlt⟩ => ⟨hlt, rest, hne, hhex, hvalue, .inr rfl⟩,
          fun ⟨hlt, digits, _, hhex, hvalue, htext⟩ => ?_⟩
        cases htext with
        | inl h => exact absurd (h ▸ hhex) hplus
        | inr h =>
          obtain rfl := (List.cons.inj h).2
          exact ⟨hhex, hvalue, hlt⟩
    · rename_i hc
      rw [checkedLoop_iff (by decide)]
      refine ⟨fun ⟨hhex, hvalue, hlt⟩ => ⟨hlt, c :: rest, List.cons_ne_nil _ _, hhex, hvalue, .inl rfl⟩,
        fun ⟨hlt, digits, _, hhex, hvalue, htext⟩ => ?_⟩
      cases htext with
      | inl h =>
        subst h
        exact ⟨hhex, hvalue, hlt⟩
      | inr h => exact absurd (List.cons.inj h).1 hc

/-- The text is read behind an `0x`, if there is one. -/
theorem strip0x_iff {text digits : List Char} (hdigits : Hex.IsHex digits) :
    (Hex.strip0x text = digits ∨ Hex.strip0x text = '+' :: digits) ↔
      ∃ mark ∈ [[], ['0', 'x']], ∃ sign ∈ [[], ['+']], text = mark ++ sign ++ digits := by
  constructor
  · intro h
    by_cases hmark : ['0', 'x'] <+: text
    · obtain ⟨rest, rfl⟩ := hmark
      rw [List.cons_append, List.cons_append, List.nil_append, Hex.strip0x_marked] at h
      refine ⟨['0', 'x'], by simp, ?_⟩
      cases h with
      | inl h => exact ⟨[], by simp, by rw [h]; rfl⟩
      | inr h => exact ⟨['+'], by simp, by rw [h]; rfl⟩
    · rw [Hex.strip0x, if_neg hmark] at h
      refine ⟨[], by simp, ?_⟩
      cases h with
      | inl h => exact ⟨[], by simp, h⟩
      | inr h => exact ⟨['+'], by simp, h⟩
  · rintro ⟨mark, hmark, sign, hsign, rfl⟩
    simp only [List.mem_cons, List.not_mem_nil, or_false] at hmark hsign
    obtain rfl | rfl := hmark
    · obtain rfl | rfl := hsign
      · exact .inl (Hex.strip0x_digits hdigits)
      · exact .inr (if_neg (by simp))
    · obtain rfl | rfl := hsign
      · exact .inl (Hex.strip0x_marked digits)
      · exact .inr (Hex.strip0x_marked ('+' :: digits))

/-- Which values are read as a number. -/
theorem parseQuantity_iff {value : Value} {n : Nat} :
    parseQuantity value = .ok n ↔ (∃ number : UInt64, value = .number (.posInt number) ∧ number.toNat = n) ∨
      n < 2 ^ 64 ∧ ∃ text digits, value = .string text ∧ digits ≠ [] ∧ Hex.IsHex digits ∧
        Hex.value digits = n ∧
        ∃ mark ∈ [[], ['0', 'x']], ∃ sign ∈ [[], ['+']], text.toList = mark ++ sign ++ digits := by
  cases value with
  | string text =>
    have hread : parseQuantity (.string text) = .ok n ↔
        fromStrRadix16 (Hex.strip0x text.toList) = .ok n := by
      simp only [parseQuantity, Value.asU64, Value.asStr]
      cases fromStrRadix16 (Hex.strip0x text.toList) <;> simp
    rw [hread, fromStrRadix16_iff]
    constructor
    · rintro ⟨hlt, digits, hne, hhex, hvalue, htext⟩
      exact .inr ⟨hlt, text, digits, rfl, hne, hhex, hvalue, (strip0x_iff hhex).1 htext⟩
    · rintro (⟨number, h, _⟩ | ⟨hlt, text, digits, h, hne, hhex, hvalue, htext⟩)
      · cases h
      · cases h
        exact ⟨hlt, digits, hne, hhex, hvalue, (strip0x_iff hhex).2 htext⟩
  | number number =>
    cases number with
    | posInt number => simp [parseQuantity, Value.asU64]
    | negInt number => simp [parseQuantity, Value.asU64, Value.asStr]
    | float text => simp [parseQuantity, Value.asU64, Value.asStr]
  | null => simp [parseQuantity, Value.asU64, Value.asStr]
  | bool => simp [parseQuantity, Value.asU64, Value.asStr]
  | array => simp [parseQuantity, Value.asU64, Value.asStr]
  | object => simp [parseQuantity, Value.asU64, Value.asStr]

/-- A field has a number exactly if its value does; a `null` is no field. -/
theorem deserializeOptionalQuantity_iff {field : Option Value} {n : Nat} :
    deserializeOptionalQuantity field = .ok (some n) ↔
      ∃ value, field = some value ∧ parseQuantity value = .ok n := by
  unfold deserializeOptionalQuantity
  split
  · simp
  · refine ⟨fun h => (by cases h), fun ⟨value, hvalue, hread⟩ => ?_⟩
    cases hvalue
    cases hread
  · rename_i value _
    cases hread : parseQuantity value <;> simp [Except.map, hread]

/-- **Quantities.** Exactly these JSON values are read as the number `n`: the number itself, and a
text of one or more digits that stand for it, in any case and with any leading zeros, behind an
optional `0x` and an optional plus sign. From `2 ^ 64` on nothing is read. An optional field has the
number exactly if its value is read so. A number below reads back from the text that a request sends
for it, and no shorter text with an `0x` is read as it. -/
theorem quantity_exact (n : Nat) :
    (∀ value, parseQuantity value = .ok n ↔
      (∃ number : UInt64, value = .number (.posInt number) ∧ number.toNat = n) ∨
      n < 2 ^ 64 ∧ ∃ text digits, value = .string text ∧ digits ≠ [] ∧ Hex.IsHex digits ∧
        Hex.value digits = n ∧
        ∃ mark ∈ [[], ['0', 'x']], ∃ sign ∈ [[], ['+']], text.toList = mark ++ sign ++ digits) ∧
    (∀ field, deserializeOptionalQuantity field = .ok (some n) ↔
      ∃ value, field = some value ∧ parseQuantity value = .ok n) ∧
    (n < 2 ^ 64 → parseQuantity (.string (formatQuantity n)) = .ok n) ∧
    ∀ text, parseQuantity (.string ("0x" ++ text)) = .ok n →
      (formatQuantity n).length ≤ ("0x" ++ text).length := by
  refine ⟨fun value => parseQuantity_iff, fun field => deserializeOptionalQuantity_iff, fun hlt => ?_,
    fun text h => ?_⟩
  · obtain ⟨hvalue, hhex⟩ := Hex.value_toDigits n
    refine parseQuantity_iff.2 (.inr ⟨hlt, formatQuantity n, Nat.toDigits 16 n, rfl,
      Nat.toDigits_ne_nil, hhex, hvalue, ['0', 'x'], by simp, [], by simp, ?_⟩)
    simp [formatQuantity]
  · obtain ⟨number, h, _⟩ | ⟨_, _, digits, h, hne, hhex, hvalue, htext⟩ := parseQuantity_iff.1 h
    · cases h
    · cases h
      have hstrip := (strip0x_iff hhex).2 htext
      have hbehind : Hex.strip0x ("0x" ++ text).toList = text.toList := by simp
      rw [hbehind] at hstrip
      have hlength : digits.length ≤ text.toList.length := by
        cases hstrip with
        | inl h => rw [h]
        | inr h => rw [h, List.length_cons]; exact Nat.le_succ _
      have hshort := Hex.toDigits_shortest hne
      rw [hvalue] at hshort
      simp only [formatQuantity, String.length_append, String.length_ofList]
      exact Nat.add_le_add_left (Nat.le_trans hshort hlength) _

/-- A text with a sign and zeros is a quantity; a number too large is none. -/
example : parseQuantity (.string "0x+00fF") = .ok 255 ∧
    parseQuantity (.string "0x10000000000000000") = .error "number too large to fit in target type" := by
  decide +kernel

end Chainweave.Rpc
