import Mathlib.Data.Set.Function
import Mathlib.Data.Finset.Max
import Mathlib.Data.List.Chain
import Mathlib.Data.List.Sort
import Mathlib.Tactic.Common

/-!
# Hash-linked blocks

Blocks of any type that carry a hash, the hash of their parent and a height.

* `IsChild c p`: `c` names `p` as its parent and is one higher.
* `Path x xs a`: walking down from `x` through the parents visits `xs` (`x`
  first) and arrives at `a`, which is not in `xs`.
* `Linked L`: `L` is one chain, lowest block first.
* `HashId V`: inside `V` a hash names one block.
* `Line V`: a chain of `V` by height, from 0 up.
* `Tree`: blocks that all walk down to one root; `Tree.IsFork K x a`: `a` is the
  highest block of the chain `K` below `x`.

Under `HashId` the walk down from a block is unique (`Path.initial`), so a block
of a linked chain is reached from its top by exactly the blocks above it
(`Linked.path_eq`).
-/
namespace HashLink

/-- What a block carries. -/
class Block (β : Type*) (η : outParam (Type*)) where
  hash : β → η
  parentHash : β → η
  height : β → ℕ

open Block

variable {β η : Type*} [Block β η]

/-- `c` is a child of `p`, by hash and by height. -/
def IsChild (c p : β) : Prop := parentHash c = hash p ∧ height c = height p + 1

instance [DecidableEq η] (c p : β) : Decidable (IsChild c p) :=
  inferInstanceAs (Decidable (_ ∧ _))

/-- Inside `V` a hash names one block. -/
abbrev HashId (V : Set β) : Prop := Set.InjOn (hash : β → η) V

theorem IsChild.parent_unique {V : Set β} (hV : HashId V) {c p q : β} (hp : p ∈ V) (hq : q ∈ V)
    (h : IsChild c p) (h' : IsChild c q) : p = q :=
  hV hp hq (h.1.symm.trans h'.1)

/-! ## Walking down -/

/-- From `x`, through the parents `xs` (`x` first), down to `a`. -/
inductive Path : β → List β → β → Prop
  | nil (a : β) : Path a [] a
  | cons {x y a : β} {xs : List β} : IsChild x y → Path y xs a → Path x (x :: xs) a

namespace Path

variable {x y a b : β} {xs ys : List β}

theorem start_mem (h : Path x xs a) : x ∈ xs ∨ x = a := by
  cases h with
  | nil => exact .inr rfl
  | cons => exact .inl (by simp)

theorem height_eq (h : Path x xs a) : height x = height a + xs.length := by
  induction h with
  | nil => rfl
  | cons hc _ ih => rw [hc.2, ih, List.length_cons, Nat.add_assoc]

/-- Every block walked through lies above the one arrived at. -/
theorem height_mem (h : Path x xs a) {z : β} (hz : z ∈ xs) :
    height a < height z ∧ height z ≤ height x := by
  induction h with
  | nil => cases hz
  | cons hc hp ih =>
    have hx := hc.2
    have hy := hp.height_eq
    rcases List.mem_cons.1 hz with rfl | hz
    · omega
    · have := ih hz; omega

theorem append (h : Path x xs y) (h' : Path y ys a) : Path x (xs ++ ys) a := by
  induction h with
  | nil => exact h'
  | cons hc _ ih => exact .cons hc (ih h')

theorem split (h : Path x (xs ++ ys) a) : ∃ y, Path x xs y ∧ Path y ys a := by
  induction xs generalizing x with
  | nil => exact ⟨x, .nil x, h⟩
  | cons z xs ih =>
    cases h with
    | cons hc hp =>
      obtain ⟨y, h1, h2⟩ := ih hp
      exact ⟨y, .cons hc h1, h2⟩

/-- The walk of no step stays where it is. -/
theorem eq_of_nil (h : Path x [] a) : a = x := by cases h; rfl

/-- A walk of at least one step starts with the block it starts from. -/
theorem head_eq {z : β} (h : Path x (z :: xs) a) : z = x := by cases h; rfl

theorem head?_eq (h : Path x xs a) (hne : xs ≠ []) : xs.head? = some x := by
  cases h with
  | nil => exact absurd rfl hne
  | cons => rfl

/-- The last block walked through is a child of the one arrived at. -/
theorem last_child (h : Path x xs a) {z : β} (hz : xs.getLast? = some z) : IsChild z a := by
  induction h with
  | nil => cases hz
  | cons hc hp ih =>
    cases hp with
    | nil =>
      simp only [List.getLast?_singleton, Option.some.injEq] at hz
      exact hz ▸ hc
    | cons hc' hp' =>
      rw [List.getLast?_cons_cons] at hz
      exact ih hz

/-- Each next block walked through is the parent of the one before. -/
theorem isChild_chain (h : Path x xs a) : xs.IsChain IsChild := by
  induction h with
  | nil => exact .nil
  | cons hc hp ih =>
    cases hp with
    | nil => exact .singleton _
    | cons hc' hp' => exact .cons_cons hc ih

/-- A walk one step longer at the bottom. -/
theorem snoc (h : Path x xs y) (hc : IsChild y a) : Path x (xs ++ [y]) a :=
  h.append (.cons hc (.nil a))

section
variable {V : Set β} (hV : HashId V)

include hV in
/-- The shorter of two walks from one block is the beginning of the longer. -/
theorem initial (h : Path x xs a) (h' : Path x ys b) (hx : ∀ z ∈ xs, z ∈ V) (hy : ∀ z ∈ ys, z ∈ V)
    (ha : a ∈ V) (hb : b ∈ V) (hle : xs.length ≤ ys.length) :
    ∃ zs, ys = xs ++ zs ∧ Path a zs b := by
  induction h generalizing ys with
  | nil => exact ⟨ys, rfl, h'⟩
  | cons hc hp ih =>
    cases h' with
    | nil => simp at hle
    | @cons _ y' _ ys hc' hp' =>
      rename_i x y _ xs
      have hyV : y ∈ V := by
        cases hp with
        | nil => exact ha
        | cons => exact hx _ (by simp)
      have hyV' : y' ∈ V := by
        cases hp' with
        | nil => exact hb
        | cons => exact hy _ (by simp)
      obtain rfl := IsChild.parent_unique hV hyV hyV' hc hc'
      obtain ⟨zs, rfl, hz⟩ := ih hp' (fun z hz => hx z (List.mem_cons_of_mem _ hz))
        (fun z hz => hy z (List.mem_cons_of_mem _ hz)) ha (by simpa using hle)
      exact ⟨zs, rfl, hz⟩

include hV in
/-- Two walks from one block to one height are the same. -/
theorem unique (h : Path x xs a) (h' : Path x ys b) (hx : ∀ z ∈ xs, z ∈ V) (hy : ∀ z ∈ ys, z ∈ V)
    (ha : a ∈ V) (hb : b ∈ V) (hh : height a = height b) : xs = ys ∧ a = b := by
  have h1 := h.height_eq
  have h2 := h'.height_eq
  obtain ⟨zs, rfl, hz⟩ := Path.initial hV h h' hx hy ha hb (by omega)
  have h3 := hz.height_eq
  obtain rfl : zs = [] := List.eq_nil_of_length_eq_zero (by omega)
  exact ⟨by simp, hz.eq_of_nil.symm⟩

end

end Path

/-! ## Chains -/

/-- One chain, lowest block first: each next block is a child of the one before. -/
def Linked (L : List β) : Prop := L.IsChain fun p c => IsChild c p

instance [DecidableEq η] (L : List β) : Decidable (Linked L) :=
  inferInstanceAs (Decidable (List.IsChain _ L))

theorem Path.linked {x a : β} {xs : List β} (h : Path x xs a) : Linked (a :: xs.reverse) := by
  induction h with
  | nil => exact .singleton _
  | @cons x y a xs hc hp ih =>
    rw [List.reverse_cons, ← List.cons_append]
    refine List.isChain_append.2 ⟨ih, .singleton _, ?_⟩
    intro z hz w hw
    simp only [List.head?_cons, Option.mem_def, Option.some.injEq] at hw
    subst hw
    have hzy : z = y := by
      cases hp with
      | nil => simpa using hz.symm
      | cons _ _ => rw [List.getLast?_cons] at hz; simpa using hz.symm
    exact hzy ▸ hc

/-- From the top of a chain the walk goes down to its lowest block. -/
theorem Linked.path_down {suf : List β} {top a : β} (h : Linked (a :: suf))
    (ht : (a :: suf).getLast? = some top) : Path top suf.reverse a := by
  induction suf generalizing a with
  | nil =>
    simp only [List.getLast?_singleton, Option.some.injEq] at ht
    exact ht ▸ .nil a
  | cons b suf ih =>
    have hb := ih (List.isChain_cons_cons.1 h).2 (by simpa using ht)
    rw [List.reverse_cons]
    exact hb.snoc (List.isChain_cons_cons.1 h).1

/-- A block of a linked chain: what lies above it is the walk down from the top. -/
theorem Linked.path {L : List β} {top a : β} (h : Linked L) (ht : L.getLast? = some top)
    (ha : a ∈ L) : ∃ pre xs, L = pre ++ a :: xs.reverse ∧ Path top xs a := by
  obtain ⟨pre, suf, rfl⟩ := List.append_of_mem ha
  refine ⟨pre, suf.reverse, by rw [List.reverse_reverse], ?_⟩
  have hl : Linked (a :: suf) := (List.isChain_append.1 h).2.1
  refine hl.path_down ?_
  rwa [List.getLast?_append_of_ne_nil _ (by simp)] at ht

theorem Linked.pairwise {L : List β} (h : Linked L) : L.Pairwise (height · < height ·) := by
  refine List.IsChain.pairwise (R := fun p c => height p < height c) ?_ |>.imp (fun h => h)
  exact h.imp fun _ _ hc => by rw [hc.2]; exact Nat.lt_succ_self _

/-- A chain has one block at a height. -/
theorem Linked.eq_of_height {L : List β} (h : Linked L) {a b : β} (ha : a ∈ L) (hb : b ∈ L)
    (hh : height a = height b) : a = b := by
  obtain ⟨pre, suf, rfl⟩ := List.append_of_mem ha
  have hp := List.pairwise_append.1 h.pairwise
  rcases List.mem_append.1 hb with hb | hb
  · have := hp.2.2 b hb a (by simp); omega
  · rcases List.mem_cons.1 hb with rfl | hb
    · rfl
    · have := (List.pairwise_cons.1 hp.2.1).1 b hb; omega

/-- No block of a chain is higher than its top. -/
theorem Linked.height_le {L : List β} {top a : β} (h : Linked L) (ht : L.getLast? = some top)
    (ha : a ∈ L) : height a ≤ height top := by
  obtain ⟨_, xs, -, hp⟩ := h.path ht ha
  rw [hp.height_eq]; exact Nat.le_add_right _ _

/-- A chain has a block at every height between two of its blocks. -/
theorem Linked.exists_height {L : List β} (h : Linked L) {a b : β} (ha : a ∈ L) (hb : b ∈ L) {n : ℕ}
    (han : height a ≤ n) (hnb : n ≤ height b) : ∃ c ∈ L, height c = n := by
  induction L generalizing a with
  | nil => cases ha
  | cons x L ih =>
    by_cases hx : height x = n
    · exact ⟨x, by simp, hx⟩
    -- The block looked for lies above `x`, so `b` does.
    have hlow : ∀ y ∈ L, height x < height y := (List.pairwise_cons.1 h.pairwise).1
    have hxa : height x ≤ height a := by
      cases List.mem_cons.1 ha with
      | inl heq => rw [heq]
      | inr ha => exact Nat.le_of_lt (hlow a ha)
    cases List.mem_cons.1 hb with
    | inl heq =>
      subst heq
      omega
    | inr hb =>
      cases L with
      | nil => cases hb
      | cons y L =>
        have hy : height y = height x + 1 := (List.isChain_cons_cons.1 h).1.2
        obtain ⟨c, hc, hn⟩ := ih (List.isChain_cons_cons.1 h).2 (List.mem_cons_self (a := y)) hb (by omega)
        exact ⟨c, List.mem_cons_of_mem _ hc, hn⟩

/-- Blocks of a chain at adjacent heights are linked. -/
theorem Linked.isChild {L : List β} (h : Linked L) {a b : β} (ha : a ∈ L) (hb : b ∈ L)
    (hh : height b = height a + 1) : IsChild b a := by
  obtain ⟨pre, suf, rfl⟩ := List.append_of_mem ha
  have hl : Linked (a :: suf) := (List.isChain_append.1 h).2.1
  have hlow := (List.pairwise_append.1 h.pairwise).2.2
  cases List.mem_append.1 hb with
  | inl hb =>
    have := hlow b hb a (by simp)
    omega
  | inr hb =>
    cases suf with
    | nil =>
      obtain rfl := List.mem_singleton.1 hb
      omega
    | cons c suf =>
      have hc := (List.isChain_cons_cons.1 hl).1
      have heq : b = c := h.eq_of_height (List.mem_append_right _ hb) (by simp) (by rw [hh, hc.2])
      exact heq ▸ hc

/-- A chain is given by its blocks. -/
theorem Linked.ext {L M : List β} (h : Linked L) (h' : Linked M) (hm : ∀ z, z ∈ L ↔ z ∈ M) :
    L = M := by
  have hlt : Std.Irrefl fun a b : β => height a < height b := ⟨fun _ => Nat.lt_irrefl _⟩
  have hanti : Std.Antisymm fun a b : β => height a < height b :=
    ⟨fun _ _ h1 h2 => absurd h1 (Nat.lt_asymm h2)⟩
  exact h.pairwise.eq_of_mem_iff h'.pairwise hm

theorem Linked.append {pre ys : List β} {a : β} (h : Linked (pre ++ [a])) (h' : Linked (a :: ys)) :
    Linked (pre ++ a :: ys) := by
  unfold Linked at *
  rw [List.isChain_append] at *
  exact ⟨h.1, h', fun x hx y hy => h.2.2 x hx y (by simpa using hy)⟩

theorem Linked.left {pre ys : List β} (h : Linked (pre ++ ys)) : Linked pre :=
  (List.isChain_append.1 h).1

theorem Linked.right {pre ys : List β} (h : Linked (pre ++ ys)) : Linked ys :=
  (List.isChain_append.1 h).2.1

theorem Linked.tail {L : List β} {a : β} (h : Linked (a :: L)) : Linked L := by
  have h' : Linked ([a] ++ L) := h
  exact h'.right

/-- Under `HashId`, a walk from the top of a chain to a block of it visits exactly the blocks
above it. -/
theorem Linked.path_eq {V : Set β} (hV : HashId V) {L xs : List β} {top a : β} (h : Linked L)
    (hL : ∀ z ∈ L, z ∈ V) (ht : L.getLast? = some top) (ha : a ∈ L) (hp : Path top xs a)
    (hx : ∀ z ∈ xs, z ∈ V) : ∃ pre, L = pre ++ a :: xs.reverse := by
  obtain ⟨pre, ys, rfl, hy⟩ := h.path ht ha
  obtain ⟨rfl, -⟩ := Path.unique hV hp hy hx (fun z hz => hL z (by simp [hz])) (hL a ha) (hL a ha) rfl
  exact ⟨pre, rfl⟩

/-! ## Trees -/

/-- A tree of blocks: every block but the root has its parent, one height below. -/
structure Tree (β : Type*) {η : Type*} [Block β η] where
  blocks : Set β
  root : β
  root_mem : root ∈ blocks
  hashId : HashId blocks
  parent : ∀ b ∈ blocks, b ≠ root → ∃ p ∈ blocks, IsChild b p

namespace Tree

variable (T : Tree β) {K : List β} {x a : β}

/-- Walking down from `x` inside the tree arrives at `a`. -/
def Ancestor (a x : β) : Prop :=
  a ∈ T.blocks ∧ ∃ xs, Path x xs a ∧ ∀ z ∈ xs, z ∈ T.blocks

theorem root_ancestor (hx : x ∈ T.blocks) : T.Ancestor T.root x := by
  refine ⟨T.root_mem, ?_⟩
  induction hh : height x generalizing x with
  | zero =>
    by_cases hr : x = T.root
    · exact ⟨[], hr ▸ .nil x, by simp⟩
    · obtain ⟨p, -, hc⟩ := T.parent x hx hr
      have := hc.2
      omega
  | succ n ih =>
    by_cases hr : x = T.root
    · exact ⟨[], hr ▸ .nil x, by simp⟩
    · obtain ⟨p, hp, hc⟩ := T.parent x hx hr
      have hph : height p = n := by have := hc.2; omega
      obtain ⟨xs, hpath, hmem⟩ := ih hp hph
      exact ⟨x :: xs, .cons hc hpath, by simpa using ⟨hx, hmem⟩⟩

/-- `a` is the highest block of `K` that is `x` or an ancestor of it. -/
structure IsFork (K : List β) (x a : β) : Prop where
  mem : a ∈ K
  ancestor : T.Ancestor a x
  highest : ∀ b ∈ K, T.Ancestor b x → height b ≤ height a

variable {T}

/-- Nothing of `K` lies on the way down to the fork. -/
theorem IsFork.path (h : T.IsFork K x a) :
    ∃ xs, Path x xs a ∧ ∀ z ∈ xs, z ∈ T.blocks ∧ z ∉ K := by
  obtain ⟨-, xs, hp, hmem⟩ := h.ancestor
  refine ⟨xs, hp, fun z hz => ⟨hmem z hz, fun hzK => ?_⟩⟩
  obtain ⟨ys, zs, rfl⟩ := List.append_of_mem hz
  obtain ⟨y, h1, h2⟩ := hp.split
  obtain rfl := h2.head_eq
  have hle := h.highest z hzK ⟨hmem z hz, ys, h1, fun w hw => hmem w (by simp [hw])⟩
  have hlt := (hp.height_mem hz).1
  omega

end Tree

/-! ## Chains from height zero -/

/-- A chain of `V` given by height, from 0 up to `top`. -/
structure Line {β : Type*} {η : Type*} [Block β η] (V : Set β) where
  top : ℕ
  blockAt : ℕ → β
  mem : ∀ n ≤ top, blockAt n ∈ V
  height_eq : ∀ n ≤ top, height (blockAt n) = n
  linked : ∀ n < top, IsChild (blockAt (n + 1)) (blockAt n)

namespace Line

variable {V : Set β} (c : Line V) {x y : β} {L : List β}

/-- `x` is a block of the chain. -/
def Has (x : β) : Prop := height x ≤ c.top ∧ c.blockAt (height x) = x

instance [DecidableEq β] (x : β) : Decidable (c.Has x) := inferInstanceAs (Decidable (_ ∧ _))

variable {c}

theorem has_blockAt {n : ℕ} (h : n ≤ c.top) : c.Has (c.blockAt n) := by
  unfold Has
  rw [c.height_eq n h]
  exact ⟨h, rfl⟩

theorem Has.mem (h : c.Has x) : x ∈ V := h.2 ▸ c.mem _ h.1

/-- The parent of a block of the chain is on it. -/
theorem Has.parent (hV : HashId V) (h : c.Has x) (hy : y ∈ V) (hc : IsChild x y) : c.Has y := by
  have hh : height x = height y + 1 := hc.2
  have hlt : height y < c.top := by have := h.1; omega
  have hx : IsChild x (c.blockAt (height y)) := by
    have hl := c.linked (height y) hlt
    rwa [← hh, h.2] at hl
  exact ⟨hlt.le, IsChild.parent_unique hV (c.mem _ hlt.le) hy hx hc⟩

/-- A child on the chain has its parent below it. -/
theorem Has.isChild {n : ℕ} (h : c.Has x) (hn : height x = n + 1) : IsChild x (c.blockAt n) := by
  have hlt : n < c.top := by have := h.1; omega
  have hl := c.linked n hlt
  rwa [← hn, h.2] at hl

theorem Has.path (hV : HashId V) {xs : List β} {a : β} (h : c.Has x) (hp : Path x xs a)
    (hx : ∀ z ∈ xs, z ∈ V) (ha : a ∈ V) : c.Has a ∧ ∀ z ∈ xs, c.Has z := by
  induction hp with
  | nil => exact ⟨h, by simp⟩
  | @cons x y a xs hc hp ih =>
    have hyV : y ∈ V := by
      cases hp with
      | nil => exact ha
      | cons => exact hx _ (by simp)
    obtain ⟨h1, h2⟩ := ih (h.parent hV hyV hc) (fun z hz => hx z (List.mem_cons_of_mem _ hz)) ha
    exact ⟨h1, by simpa using ⟨h, h2⟩⟩

/-- A chain below a block of the line is on the line. -/
theorem has_of_top (hV : HashId V) (hl : Linked L) (hL : ∀ z ∈ L, z ∈ V) {t : β}
    (ht : L.getLast? = some t) (h : c.Has t) : ∀ z ∈ L, c.Has z := by
  intro z hz
  obtain ⟨pre, xs, rfl, hp⟩ := hl.path ht hz
  exact (h.path hV hp (fun w hw => hL w (by simp [hw])) (hL z hz)).1

/-- Walking down the line. -/
theorem exists_path {n m : ℕ} (hnm : n ≤ m) (hm : m ≤ c.top) :
    ∃ xs, Path (c.blockAt m) xs (c.blockAt n) ∧ (∀ z ∈ xs, c.Has z ∧ n < height z) := by
  induction m, hnm using Nat.le_induction with
  | base => exact ⟨[], .nil _, by simp⟩
  | succ m hnm ih =>
    obtain ⟨xs, hp, hx⟩ := ih (by omega)
    refine ⟨c.blockAt (m + 1) :: xs, .cons (c.linked m (by omega)) hp, ?_⟩
    intro z hz
    rcases List.mem_cons.1 hz with rfl | hz
    · refine ⟨has_blockAt hm, ?_⟩
      rw [c.height_eq _ hm]
      omega
    · exact hx z hz

/-- A chain on the line is a stretch of it. -/
theorem eq_range {b t : β} (hl : Linked (b :: L)) (hL : ∀ z ∈ b :: L, c.Has z)
    (ht : (b :: L).getLast? = some t) :
    L = (List.range' (height b + 1) (height t - height b)).map c.blockAt := by
  induction L generalizing b with
  | nil =>
    obtain rfl : b = t := by simpa using ht
    simp
  | cons x L ih =>
    have hc : IsChild x b := (List.isChain_cons_cons.1 hl).1
    have hh : height x = height b + 1 := hc.2
    have hl' : Linked (x :: L) := (List.isChain_cons_cons.1 hl).2
    have ht' : (x :: L).getLast? = some t := by simpa using ht
    have hle : height x ≤ height t := hl'.height_le ht' (by simp)
    have hx : c.blockAt (height b + 1) = x := hh ▸ (hL x (by simp)).2
    have hn : height t - height b = (height t - height x) + 1 := by omega
    have hrest := ih hl' (fun z hz => hL z (List.mem_cons_of_mem _ hz)) ht'
    rw [hn, List.range'_succ, List.map_cons, hx, ← hh, ← hrest]

/-- A stretch of the line is a chain. -/
theorem linked_range (c : Line V) {n k : ℕ} (h : n + k ≤ c.top + 1) :
    Linked ((List.range' n k).map c.blockAt) := by
  induction k generalizing n with
  | zero => exact .nil
  | succ k ih =>
    rw [List.range'_succ, List.map_cons]
    cases k with
    | zero => exact .singleton _
    | succ k =>
      have hrest := ih (n := n + 1) (by omega)
      rw [List.range'_succ, List.map_cons] at hrest ⊢
      exact List.isChain_cons_cons.2 ⟨c.linked n (by omega), hrest⟩

end Line

end HashLink
