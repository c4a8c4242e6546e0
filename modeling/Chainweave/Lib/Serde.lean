import Mathlib

/-!
# JSON values

JSON as a program has it in memory: `serde_json::Value`, with the accessors that answer
nothing for a value of another kind. Of an object only the value at each key counts.

* `asU64_ofNat`, `asI64_ofInt`: a number reads back.
* `ofFields_injective`: an object tells the fields it was made of.
* `ofOption_injective`: an optional value tells what it was made of.
-/
namespace Serde

/-- `serde_json::Number`. -/
inductive Number where
  | posInt (value : UInt64)
  /-- below zero -/
  | negInt (value : Int64)
  | float (text : String)
  deriving DecidableEq, Repr

/-- `serde_json::Value`. -/
inductive Value where
  | null
  | bool (value : Bool)
  | number (value : Number)
  | string (value : String)
  | array (values : List Value)
  | object (fields : String → Option Value)

namespace Value

def asU64 : Value → Option Nat
  | .number (.posInt value) => some value.toNat
  | _ => none

def asI64 : Value → Option Int
  | .number (.posInt value) => if value.toNat < 2 ^ 63 then some value.toNat else none
  | .number (.negInt value) => some value.toInt
  | _ => none

def asStr : Value → Option String
  | .string value => some value
  | _ => none

def asArray : Value → Option (List Value)
  | .array values => some values
  | _ => none

def isNull : Value → Bool
  | .null => true
  | _ => false

/-- A field of an object. -/
def get (key : String) : Value → Option Value
  | .object fields => fields key
  | _ => none

/-! ## Making values -/

/-- An unsigned number of at most 64 bits. -/
def ofNat (n : Nat) : Value := .number (.posInt (UInt64.ofNat n))

/-- A signed number of 64 bits. -/
def ofInt (n : Int) : Value :=
  if n < 0 then .number (.negInt (Int64.ofInt n)) else ofNat n.toNat

/-- An object, field by field. -/
def ofFields (fields : List (String × Value)) : Value := .object fun key => fields.lookup key

/-- `Option` as `serde` writes it. -/
def ofOption {α : Type} (write : α → Value) : Option α → Value
  | none => .null
  | some a => write a

@[simp] theorem asU64_ofNat {n : Nat} (h : n < 2 ^ 64) : (ofNat n).asU64 = some n := by
  simp only [ofNat, asU64, Option.some.injEq]
  exact UInt64.toNat_ofNat_of_lt h

@[simp] theorem asI64_ofInt {n : Int} (hlow : -2 ^ 63 ≤ n) (hhigh : n < 2 ^ 63) :
    (ofInt n).asI64 = some n := by
  unfold ofInt
  split
  · simp only [asI64, Option.some.injEq]
    exact Int64.toInt_ofInt_of_le hlow hhigh
  · rename_i hneg
    have hlt : n.toNat < 2 ^ 63 := by omega
    have hread : (UInt64.ofNat n.toNat).toNat = n.toNat :=
      UInt64.toNat_ofNat_of_lt (Nat.lt_trans hlt (by decide))
    simp only [ofNat, asI64, hread]
    rw [if_pos hlt, Int.toNat_of_nonneg (by omega)]

theorem ofNat_injective {m n : Nat} (hm : m < 2 ^ 64) (hn : n < 2 ^ 64) (h : ofNat m = ofNat n) :
    m = n := by
  have hread := congrArg asU64 h
  rw [asU64_ofNat hm, asU64_ofNat hn] at hread
  exact Option.some.inj hread

@[simp] theorem get_ofFields (key : String) (fields : List (String × Value)) :
    (ofFields fields).get key = fields.lookup key := rfl

theorem lookup_eq_none {key : String} {fields : List (String × Value)}
    (h : key ∉ fields.map (·.1)) : fields.lookup key = none := by
  rw [List.lookup_eq_none_iff]
  intro field hmem
  exact bne_iff_ne.2 fun heq => h (List.mem_map.2 ⟨field, hmem, heq.symm⟩)

/-- Two lists with the same keys, each key once, that look up alike. -/
theorem lookup_injective {fields fields' : List (String × Value)}
    (hkeys : fields.map (·.1) = fields'.map (·.1)) (hnodup : (fields.map (·.1)).Nodup)
    (h : ∀ key, fields.lookup key = fields'.lookup key) : fields = fields' := by
  induction fields generalizing fields' with
  | nil => exact (List.map_eq_nil_iff.1 hkeys.symm).symm
  | cons field fields ih =>
    cases fields' with
    | nil => cases hkeys
    | cons field' fields' =>
      obtain ⟨key, value⟩ := field
      obtain ⟨key', value'⟩ := field'
      obtain ⟨hkey, hrestKeys⟩ := List.cons.inj hkeys
      obtain ⟨hfresh, hnodup⟩ := List.nodup_cons.1 hnodup
      dsimp only at hkey hfresh
      subst hkey
      have hvalue := h key
      simp only [List.lookup_cons_self, Option.some.injEq] at hvalue
      have hrest : ∀ other, fields.lookup other = fields'.lookup other := by
        intro other
        by_cases hother : other = key
        · subst hother
          have hfresh' : other ∉ fields'.map (·.1) := hrestKeys ▸ hfresh
          rw [lookup_eq_none hfresh, lookup_eq_none hfresh']
        · have hlookup := h other
          rwa [List.lookup_cons, List.lookup_cons, beq_false_of_ne hother] at hlookup
      rw [hvalue, ih hrestKeys hnodup hrest]

theorem ofFields_injective {fields fields' : List (String × Value)} (h : ofFields fields = ofFields fields')
    (hkeys : fields.map (·.1) = fields'.map (·.1)) (hnodup : (fields.map (·.1)).Nodup) :
    fields = fields' :=
  lookup_injective hkeys hnodup fun key => congrArg (get key) h

theorem ofOption_injective {α : Type} {write : α → Value} {a b : Option α}
    (hnull : ∀ x, write x ≠ .null) (hwrite : ∀ x ∈ a, ∀ y ∈ b, write x = write y → x = y)
    (h : ofOption write a = ofOption write b) : a = b := by
  cases a with
  | none =>
    cases b with
    | none => rfl
    | some y => exact absurd h.symm (hnull y)
  | some x =>
    cases b with
    | none => exact absurd h (hnull x)
    | some y => rw [hwrite x rfl y rfl h]

end Value

end Serde
