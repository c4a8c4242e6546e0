import Mathlib.Data.List.Forall2
import Mathlib.Logic.Basic
import Mathlib.Tactic.Common

/-!
# Stateful programs that may fail

`Prog σ ε α` is a program over a state `σ` that returns an `α` or fails with
an `ε`; a failure keeps the state reached when it was raised, as a failed call
through a mutable reference does.

* `exec x s`: the outcome of `x` from `s` and the state it leaves.
* `wp x Q E s`: from `s`, `x` returns with `Q` or fails with `E`. The rules
  (`wp_bind`, `wp_mono`, ...) push it through a program.
* `Gives I x r`: from every state that satisfies `I`, the outcome of `x` is `r`
  and `I` still holds: `x` is a function of what `I` fixes.
* `Keeps I x`: `I` holds after `x` if it held before, however `x` ends.
* `Returns P x`: what `x` returns, from any state, satisfies `P`.
* `Related R x y`: from states related by `R`, both have one outcome and leave related
  states. `Erases f x y`: `y` does on `f t` what `x` does on `t`, so what `f` forgets
  is a ghost.
-/
namespace Stateful

/-- A bind of pure computations that returns. -/
theorem ok_bind {ε α β : Type} {x : Except ε α} {f : α → Except ε β} {b : β} :
    (x >>= f) = .ok b ↔ ∃ a, x = .ok a ∧ f a = .ok b := by
  cases x with
  | error e =>
    constructor
    · intro h; cases h
    · intro hex
      rcases hex with ⟨_, h, -⟩
      cases h
  | ok a =>
    constructor
    · intro h; exact ⟨a, rfl, h⟩
    · intro hex
      rcases hex with ⟨_, h, hf⟩
      cases h
      exact hf

/-- A bind of pure computations that fails. -/
theorem error_bind {ε α β : Type} {x : Except ε α} {f : α → Except ε β} {e : ε}
    (h : (x >>= f) = .error e) : x = .error e ∨ ∃ a, x = .ok a ∧ f a = .error e := by
  cases x with
  | error e' => exact .inl (by cases h; rfl)
  | ok a => exact .inr ⟨a, rfl, h⟩

theorem map_ok {ε α β : Type} {x : Except ε α} {f : α → β} {b : β} :
    x.map f = .ok b ↔ ∃ a, x = .ok a ∧ f a = b := by
  cases x <;> simp [Except.map]

theorem mapError_ok {ε ε' α : Type} {x : Except ε α} {f : ε → ε'} {a : α} :
    x.mapError f = .ok a ↔ x = .ok a := by
  cases x <;> simp [Except.mapError]

theorem mapError_error {ε ε' α : Type} {x : Except ε α} {f : ε → ε'} {e' : ε'} :
    x.mapError f = .error e' ↔ ∃ e, x = .error e ∧ f e = e' := by
  cases x <;> simp [Except.mapError]

/-- A `mapM` of which every element returns. -/
theorem mapM_ok {ε α β : Type} {f : α → Except ε β} {g : α → β} {l : List α}
    (h : ∀ a ∈ l, f a = .ok (g a)) : l.mapM f = .ok (l.map g) := by
  induction l with
  | nil => rfl
  | cons a l ih =>
    rw [List.mapM_cons, h a List.mem_cons_self, ih fun b hb => h b (List.mem_cons_of_mem _ hb)]
    rfl

/-- The error of a `mapM` is one of its elements'. -/
theorem mapM_error {ε α β : Type} {f : α → Except ε β} {l : List α} {e : ε}
    (h : l.mapM f = .error e) : ∃ a ∈ l, f a = .error e := by
  induction l with
  | nil => cases h
  | cons a l ih =>
    rw [List.mapM_cons] at h
    cases ha : f a with
    | error e' =>
      rw [ha] at h
      cases h
      exact ⟨a, by simp, ha⟩
    | ok b =>
      cases hl : l.mapM f with
      | error e' =>
        rw [ha, hl] at h
        cases h
        obtain ⟨a', hmem, ha'⟩ := ih hl
        exact ⟨a', by simp [hmem], ha'⟩
      | ok bs => rw [ha, hl] at h; cases h

/-- A `mapM` of the elements with a property gives the results with the same one. -/
theorem mapM_filter {ε α β : Type} {f : α → Except ε β} {p : α → Bool} {q : β → Bool} {l : List α}
    {out : List β} (h : l.mapM f = .ok out) (hpq : ∀ a b, f a = .ok b → p a = q b) :
    (l.filter p).mapM f = .ok (out.filter q) := by
  induction l generalizing out with
  | nil => cases h; rfl
  | cons a l ih =>
    rw [List.mapM_cons, ok_bind] at h
    obtain ⟨b, hb, h⟩ := h
    obtain ⟨bs, hbs, h⟩ := ok_bind.1 h
    cases h
    have hrest := ih hbs
    cases hq : q b with
    | true =>
      rw [List.filter_cons_of_pos (by rw [hpq a b hb, hq]), List.filter_cons_of_pos hq,
        List.mapM_cons, hb, hrest]
      rfl
    | false =>
      rw [List.filter_cons_of_neg (by rw [hpq a b hb, hq]; simp),
        List.filter_cons_of_neg (by rw [hq]; simp)]
      exact hrest

/-- What a `mapM` returns comes from its elements. -/
theorem mapM_mem {ε α β : Type} {f : α → Except ε β} {l : List α} {out : List β}
    (h : l.mapM f = .ok out) {b : β} (hb : b ∈ out) : ∃ a ∈ l, f a = .ok b := by
  induction l generalizing out with
  | nil => cases h; cases hb
  | cons a l ih =>
    rw [List.mapM_cons, ok_bind] at h
    obtain ⟨b', hb', h⟩ := h
    obtain ⟨bs, hbs, h⟩ := ok_bind.1 h
    cases h
    cases List.mem_cons.1 hb with
    | inl he => exact ⟨a, by simp, he ▸ hb'⟩
    | inr hmem =>
      obtain ⟨a', hmem', ha'⟩ := ih hbs hmem
      exact ⟨a', by simp [hmem'], ha'⟩

/-- Every element of a `mapM` that returns has its result there. -/
theorem mapM_mem_left {ε α β : Type} {f : α → Except ε β} {l : List α} {out : List β}
    (h : l.mapM f = .ok out) {a : α} (ha : a ∈ l) : ∃ b ∈ out, f a = .ok b := by
  induction l generalizing out with
  | nil => cases ha
  | cons a' l ih =>
    rw [List.mapM_cons, ok_bind] at h
    obtain ⟨b, hb, h⟩ := h
    obtain ⟨bs, hbs, h⟩ := ok_bind.1 h
    cases h
    cases List.mem_cons.1 ha with
    | inl he => exact ⟨b, by simp, he ▸ hb⟩
    | inr hmem =>
      obtain ⟨b', hmem', hb'⟩ := ih hbs hmem
      exact ⟨b', by simp [hmem'], hb'⟩

/-- A `mapM` whose elements all return does. -/
theorem mapM_exists {ε α β : Type} {f : α → Except ε β} {l : List α}
    (h : ∀ a ∈ l, ∃ b, f a = .ok b) : ∃ out, l.mapM f = .ok out := by
  cases hmap : l.mapM f with
  | ok out => exact ⟨out, rfl⟩
  | error e =>
    obtain ⟨a, ha, herror⟩ := mapM_error hmap
    obtain ⟨b, hb⟩ := h a ha
    rw [herror] at hb
    cases hb

/-- A `mapM` that returns relates the elements to the results. -/
theorem mapM_forall₂ {ε α β : Type} {f : α → Except ε β} {R : α → β → Prop} {l : List α}
    {out : List β} (h : l.mapM f = .ok out) (hR : ∀ a b, f a = .ok b → R a b) :
    List.Forall₂ R l out := by
  induction l generalizing out with
  | nil => cases h; exact .nil
  | cons a l ih =>
    rw [List.mapM_cons, ok_bind] at h
    obtain ⟨b, hb, h⟩ := h
    obtain ⟨bs, hbs, h⟩ := ok_bind.1 h
    cases h
    exact .cons (hR a b hb) (ih hbs)

theorem forall₂_mem_left {α β : Type} {R : α → β → Prop} {l : List α} {m : List β}
    (h : List.Forall₂ R l m) {a : α} (ha : a ∈ l) : ∃ b ∈ m, R a b := by
  induction h with
  | nil => cases ha
  | cons hab _ ih =>
    cases List.mem_cons.1 ha with
    | inl he => exact ⟨_, List.mem_cons_self, he ▸ hab⟩
    | inr hmem =>
      obtain ⟨b, hb, hab⟩ := ih hmem
      exact ⟨b, List.mem_cons_of_mem _ hb, hab⟩

theorem forall₂_mem_right {α β : Type} {R : α → β → Prop} {l : List α} {m : List β}
    (h : List.Forall₂ R l m) {b : β} (hb : b ∈ m) : ∃ a ∈ l, R a b :=
  forall₂_mem_left h.flip hb

/-- A program over `σ` that may fail with `ε`. -/
abbrev Prog (σ ε α : Type) := ExceptT ε (StateM σ) α

variable {σ τ ρ ε ε' α β : Type}

/-- Run `x` from `s`. -/
def exec (x : Prog σ ε α) (s : σ) : Except ε α × σ := x.run.run s

theorem exec_mk (f : σ → Except ε α × σ) (s : σ) : exec (ExceptT.mk f : Prog σ ε α) s = f s := rfl

@[simp] theorem exec_pure (a : α) (s : σ) : exec (pure a : Prog σ ε α) s = (.ok a, s) := rfl

@[simp] theorem exec_throw (e : ε) (s : σ) :
    exec (throw e : Prog σ ε α) s = (.error e, s) := rfl

@[simp] theorem exec_get (s : σ) : exec (get : Prog σ ε σ) s = (.ok s, s) := rfl

@[simp] theorem exec_modify (f : σ → σ) (s : σ) :
    exec (modify f : Prog σ ε PUnit) s = (.ok ⟨⟩, f s) := rfl

theorem exec_bind (x : Prog σ ε α) (f : α → Prog σ ε β) (s : σ) :
    exec (x >>= f) s = match exec x s with
      | (.ok a, s') => exec (f a) s'
      | (.error e, s') => (.error e, s') := by
  show (match x s with | (r, s') => ExceptT.bindCont f r s') = match x s with
    | (.ok a, s') => f a s'
    | (.error e, s') => (.error e, s')
  cases x s with
  | mk r s' => cases r <;> rfl

/-- The outcome of `x` as a value; the enclosing program does not fail. -/
def attempt (x : Prog σ ε α) : Prog σ ε' (Except ε α) :=
  ExceptT.mk fun s => (.ok (exec x s).1, (exec x s).2)

@[simp] theorem exec_attempt (x : Prog σ ε α) (s : σ) :
    exec (attempt x : Prog σ ε' (Except ε α)) s = (.ok (exec x s).1, (exec x s).2) := rfl

/-- Convert the error of `x`. -/
def mapError (f : ε → ε') (x : Prog σ ε α) : Prog σ ε' α :=
  ExceptT.mk fun s => ((exec x s).1.mapError f, (exec x s).2)

@[simp] theorem exec_mapError (f : ε → ε') (x : Prog σ ε α) (s : σ) :
    exec (mapError f x) s = ((exec x s).1.mapError f, (exec x s).2) := rfl

/-- Run `x` on a part of a larger state. -/
def zoom (part : τ → σ) (put : σ → τ → τ) (x : Prog σ ε α) : Prog τ ε α :=
  ExceptT.mk fun t => ((exec x (part t)).1, put (exec x (part t)).2 t)

@[simp] theorem exec_zoom (part : τ → σ) (put : σ → τ → τ) (x : Prog σ ε α) (t : τ) :
    exec (zoom part put x) t = ((exec x (part t)).1, put (exec x (part t)).2 t) := rfl

/-- Run `x` with a local variable beside the state, and return its last value. -/
def withLocal (c : τ) (x : Prog (τ × σ) ε α) : Prog σ ε (α × τ) :=
  ExceptT.mk fun s =>
    ((exec x (c, s)).1.map fun a => (a, (exec x (c, s)).2.1), (exec x (c, s)).2.2)

@[simp] theorem exec_withLocal (c : τ) (x : Prog (τ × σ) ε α) (s : σ) :
    exec (withLocal c x) s =
      ((exec x (c, s)).1.map fun a => (a, (exec x (c, s)).2.1), (exec x (c, s)).2.2) := rfl

/-- A pure computation that may fail, as a program. -/
def lift : Except ε α → Prog σ ε α
  | .ok a => pure a
  | .error e => throw e

@[simp] theorem exec_lift (r : Except ε α) (s : σ) : exec (lift r : Prog σ ε α) s = (r, s) := by
  cases r <;> rfl

/-! ## Weakest preconditions -/

/-- From `s`, `x` returns with `Q` or fails with `E`. -/
def wp (x : Prog σ ε α) (Q : α → σ → Prop) (E : ε → σ → Prop) (s : σ) : Prop :=
  match exec x s with
  | (.ok a, s') => Q a s'
  | (.error e, s') => E e s'

section
variable {x : Prog σ ε α} {Q Q' : α → σ → Prop} {E E' : ε → σ → Prop} {s : σ}

theorem wp_of_eq {r : Except ε α} {t : σ} (h : exec x s = (r, t))
    (hq : ∀ a, r = .ok a → Q a t) (he : ∀ e, r = .error e → E e t) : wp x Q E s := by
  unfold wp
  rw [h]
  cases r with
  | ok a => exact hq a rfl
  | error e => exact he e rfl

theorem wp_ok (h : wp x Q E s) {a : α} {s' : σ} (hx : exec x s = (.ok a, s')) : Q a s' := by
  unfold wp at h; rw [hx] at h; exact h

theorem wp_error (h : wp x Q E s) {e : ε} {s' : σ} (hx : exec x s = (.error e, s')) : E e s' := by
  unfold wp at h; rw [hx] at h; exact h

/-- A run that was seen to return. -/
theorem exec_ok_of_isSome (h : (exec x s).1.toOption.isSome = true) :
    ∃ a s', exec x s = (.ok a, s') := by
  cases hx : exec x s with
  | mk r s' =>
    cases r with
    | ok a => exact ⟨a, s', rfl⟩
    | error e => rw [hx] at h; cases h

/-- A program that cannot fail returns. -/
theorem wp_returns (h : wp x Q (fun _ _ => False) s) : ∃ a s', exec x s = (.ok a, s') ∧ Q a s' := by
  unfold wp at h
  split at h
  · exact ⟨_, _, ‹_›, h⟩
  · exact h.elim

/-- What a program returns and leaves, decided by its triple. -/
theorem wp_iff {G : α → σ → Prop} {P : Prop} (h : wp x (fun a s' => G a s' ↔ P) (fun _ _ => ¬ P) s) :
    (∃ a, (exec x s).1 = .ok a ∧ G a (exec x s).2) ↔ P := by
  cases hx : exec x s with
  | mk result s' =>
    cases result with
    | ok a =>
      rw [← wp_ok h hx]
      constructor
      · intro hG
        obtain ⟨b, hb, hG⟩ := hG
        cases hb
        exact hG
      · intro hG
        exact ⟨a, rfl, hG⟩
    | error e =>
      refine iff_of_false (fun hG => ?_) (wp_error h hx)
      obtain ⟨a, ha, -⟩ := hG
      cases ha

/-- Consequence. -/
theorem wp_mono (h : wp x Q E s) (hq : ∀ a s', Q a s' → Q' a s')
    (he : ∀ e s', E e s' → E' e s') : wp x Q' E' s := by
  unfold wp at *
  split at h
  · exact hq _ _ h
  · exact he _ _ h

/-- Two facts about one program. -/
theorem wp_and (h : wp x Q E s) (h' : wp x Q' E' s) :
    wp x (fun a t => Q a t ∧ Q' a t) (fun e t => E e t ∧ E' e t) s := by
  unfold wp at *
  split at h
  · next hx =>
    rw [hx] at h'
    exact ⟨h, h'⟩
  · next hx =>
    rw [hx] at h'
    exact ⟨h, h'⟩

/-- What holds anyway holds of what a program returns. -/
theorem wp_const {P : Prop} (hP : P) : wp x (fun _ _ => P) (fun _ _ => True) s := by
  unfold wp
  split
  · exact hP
  · trivial

@[simp] theorem wp_pure (a : α) : wp (pure a : Prog σ ε α) Q E s ↔ Q a s := Iff.rfl

@[simp] theorem wp_throw (e : ε) : wp (throw e : Prog σ ε α) Q E s ↔ E e s := Iff.rfl

@[simp] theorem wp_get {Q : σ → σ → Prop} : wp (get : Prog σ ε σ) Q E s ↔ Q s s := Iff.rfl

@[simp] theorem wp_modify {Q : PUnit → σ → Prop} (f : σ → σ) :
    wp (modify f : Prog σ ε PUnit) Q E s ↔ Q ⟨⟩ (f s) := Iff.rfl

@[simp] theorem wp_bind {f : α → Prog σ ε β} {Q : β → σ → Prop} :
    wp (x >>= f) Q E s ↔ wp x (fun a => wp (f a) Q E) E s := by
  unfold wp
  rw [exec_bind]
  cases hx : exec x s with
  | mk r s' => cases r <;> rfl

@[simp] theorem wp_lift (r : Except ε α) :
    wp (lift r : Prog σ ε α) Q E s ↔ (∀ a, r = .ok a → Q a s) ∧ (∀ e, r = .error e → E e s) := by
  cases r <;> simp [lift]

/-- A step that is taken first or left out. -/
theorem wp_first {c : Prop} [Decidable c] {I : σ → Prop} {first : Prog σ ε PUnit}
    (hfirst : c → wp first (fun _ => I) E s) (hnone : ¬ c → I s) (hrest : ∀ s, I s → wp x Q E s) :
    wp (if c then first >>= fun _ => x else x) Q E s := by
  split
  · rename_i hc
    rw [wp_bind]
    exact wp_mono (hfirst hc) (fun _ => hrest) fun _ _ h => h
  · rename_i hc
    exact hrest s (hnone hc)

theorem wp_attempt {Q : Except ε α → σ → Prop} {E : ε' → σ → Prop}
    (h : wp x (fun a => Q (.ok a)) (fun e => Q (.error e)) s) :
    wp (attempt x : Prog σ ε' (Except ε α)) Q E s := by
  unfold wp at *
  rw [exec_attempt]
  cases hx : exec x s with
  | mk r s' => rw [hx] at h; cases r <;> exact h

theorem wp_mapError {f : ε → ε'} {E : ε' → σ → Prop} (h : wp x Q (fun e => E (f e)) s) :
    wp (mapError f x) Q E s := by
  unfold wp at *
  rw [exec_mapError]
  cases hx : exec x s with
  | mk r s' => rw [hx] at h; cases r <;> exact h

theorem wp_zoom {part : τ → σ} {put : σ → τ → τ} {Q : α → τ → Prop} {E : ε → τ → Prop} {t : τ}
    (h : wp x (fun a s' => Q a (put s' t)) (fun e s' => E e (put s' t)) (part t)) :
    wp (zoom part put x) Q E t := by
  unfold wp at *
  rw [exec_zoom]
  cases hx : exec x (part t) with
  | mk r s' => rw [hx] at h; cases r <;> exact h

theorem wp_withLocal {c : τ} {x : Prog (τ × σ) ε α} {Q : α × τ → σ → Prop}
    (h : wp x (fun a t => Q (a, t.1) t.2) (fun e t => E e t.2) (c, s)) :
    wp (withLocal c x) Q E s := by
  unfold wp at *
  rw [exec_withLocal]
  cases hx : exec x (c, s) with
  | mk r t => rw [hx] at h; cases r <;> exact h

end

/-! ## Programs determined by an invariant -/

/-- From every state with `I`, the outcome of `x` is `r`, and `I` is kept. -/
def Gives (I : σ → Prop) (x : Prog σ ε α) (r : Except ε α) : Prop :=
  ∀ s, I s → (exec x s).1 = r ∧ I (exec x s).2

section
variable {I : σ → Prop} {x : Prog σ ε α} {f : α → Prog σ ε β}

theorem Gives.pure (a : α) : Gives I (Pure.pure a : Prog σ ε α) (.ok a) := fun _ h => ⟨rfl, h⟩

theorem Gives.throw (e : ε) : Gives I (MonadExcept.throw e : Prog σ ε α) (.error e) :=
  fun _ h => ⟨rfl, h⟩

theorem Gives.lift (r : Except ε α) : Gives I (lift r : Prog σ ε α) r := fun s h => by
  rw [exec_lift]; exact ⟨rfl, h⟩

theorem Gives.bind {a : α} {r : Except ε β} (hx : Gives I x (.ok a)) (hf : Gives I (f a) r) :
    Gives I (x >>= f) r := by
  intro s hs
  obtain ⟨h1, h2⟩ := hx s hs
  rw [exec_bind]
  cases h : exec x s with
  | mk r' s' =>
    rw [h] at h1 h2
    cases h1
    exact hf s' h2

theorem Gives.bind_error {e : ε} (hx : Gives I x (.error e)) :
    Gives I (x >>= f) (.error e) := by
  intro s hs
  obtain ⟨h1, h2⟩ := hx s hs
  rw [exec_bind]
  cases h : exec x s with
  | mk r' s' =>
    rw [h] at h1 h2
    cases h1
    exact ⟨rfl, h2⟩

theorem Gives.mapError {g : ε → ε'} {r : Except ε α} (hx : Gives I x r) :
    Gives I (Stateful.mapError g x) (r.mapError g) := by
  intro s hs
  obtain ⟨h1, h2⟩ := hx s hs
  rw [exec_mapError]
  exact ⟨by rw [h1], h2⟩

/-- The outcome after a determined step. -/
theorem Gives.outcome_bind {a : α} {r : Except ε β} {s : σ} (hx : Gives I x (.ok a)) (hs : I s)
    (hf : ∀ s', I s' → (exec (f a) s').1 = r) : (exec (x >>= f) s).1 = r := by
  obtain ⟨h1, h2⟩ := hx s hs
  rw [exec_bind]
  cases h : exec x s with
  | mk r' s' =>
    rw [h] at h1 h2
    cases h1
    exact hf s' h2

theorem Gives.zoom {J : τ → Prop} {part : τ → σ} {put : σ → τ → τ} {r : Except ε α}
    (hx : Gives I x r) (hpart : ∀ t, J t → I (part t)) (hput : ∀ s t, I s → J t → J (put s t)) :
    Gives J (Stateful.zoom part put x) r := by
  intro t ht
  obtain ⟨h1, h2⟩ := hx (part t) (hpart t ht)
  rw [exec_zoom]
  exact ⟨h1, hput _ t h2 ht⟩

/-- A determined program, as a weakest precondition. -/
theorem Gives.wp {r : Except ε α} (hx : Gives I x r) {s : σ} (hs : I s) {Q : α → σ → Prop}
    {E : ε → σ → Prop} (hq : ∀ a, r = .ok a → ∀ s', I s' → Q a s')
    (he : ∀ e, r = .error e → ∀ s', I s' → E e s') : wp x Q E s := by
  obtain ⟨h1, h2⟩ := hx s hs
  have h : exec x s = (r, (exec x s).2) := by rw [← h1]
  exact wp_of_eq h (fun a h => hq a h _ h2) (fun e h => he e h _ h2)

end

/-! ## Invariants -/

/-- `x` keeps `I`, whether it returns or fails. -/
def Keeps (I : σ → Prop) (x : Prog σ ε α) : Prop := ∀ s, I s → I (exec x s).2

section
variable {I : σ → Prop} {x : Prog σ ε α} {f : α → Prog σ ε β}

theorem Keeps.pure (a : α) : Keeps I (Pure.pure a : Prog σ ε α) := fun _ h => h

theorem Keeps.throw (e : ε) : Keeps I (MonadExcept.throw e : Prog σ ε α) := fun _ h => h

theorem Keeps.get : Keeps I (MonadState.get : Prog σ ε σ) := fun _ h => h

theorem Keeps.modify {f : σ → σ} (h : ∀ s, I s → I (f s)) :
    Keeps I (modify f : Prog σ ε PUnit) := h

theorem Keeps.lift (r : Except ε α) : Keeps I (Stateful.lift r : Prog σ ε α) := fun s h => by
  rw [exec_lift]; exact h

theorem Keeps.bind (hx : Keeps I x) (hf : ∀ a, Keeps I (f a)) : Keeps I (x >>= f) := by
  intro s hs
  have hx := hx s hs
  rw [exec_bind]
  cases h : exec x s with
  | mk r s' =>
    rw [h] at hx
    cases r with
    | ok a => exact hf a s' hx
    | error e => exact hx

theorem Keeps.map {g : α → β} (hx : Keeps I x) : Keeps I (g <$> x) := by
  rw [map_eq_pure_bind]
  exact hx.bind fun a => .pure (g a)

theorem Keeps.mapError {g : ε → ε'} (hx : Keeps I x) : Keeps I (Stateful.mapError g x) := hx

theorem Keeps.attempt (hx : Keeps I x) : Keeps I (attempt x : Prog σ ε' (Except ε α)) := hx

theorem Keeps.zoom {J : τ → Prop} {part : τ → σ} {put : σ → τ → τ} (hx : Keeps I x)
    (hpart : ∀ t, J t → I (part t)) (hput : ∀ s t, I s → J t → J (put s t)) :
    Keeps J (Stateful.zoom part put x) := fun t ht => hput _ t (hx _ (hpart t ht)) ht

theorem Keeps.withLocal {c : τ} {x : Prog (τ × σ) ε α} (hx : Keeps (fun s => I s.2) x) :
    Keeps I (withLocal c x) := fun s hs => hx (c, s) hs

theorem Keeps.of_wp (h : ∀ s, I s → Stateful.wp x (fun _ s' => I s') (fun _ s' => I s') s) :
    Keeps I x := by
  intro s hs
  have h := h s hs
  unfold Stateful.wp at h
  split at h <;> simp_all

/-- An invariant, as a weakest precondition. -/
theorem Keeps.wp (hx : Keeps I x) {s : σ} (hs : I s) : wp x (fun _ s' => I s') (fun _ s' => I s') s := by
  unfold Stateful.wp
  have h := hx s hs
  split <;> simp_all

end

/-! ## Answers -/

/-- What `x` returns satisfies `P`, from any state. -/
def Returns (P : α → Prop) (x : Prog σ ε α) : Prop :=
  ∀ s, wp x (fun a _ => P a) (fun _ _ => True) s

section
variable {P : α → Prop} {Q : β → Prop} {x : Prog σ ε α} {f : α → Prog σ ε β}

theorem Returns.ok (h : Returns P x) {s s' : σ} {a : α} (hx : exec x s = (.ok a, s')) : P a :=
  wp_ok (h s) hx

theorem Returns.any : Returns (fun _ => True) x := fun _ => wp_const trivial

theorem Returns.pure {a : α} (h : P a) : Returns P (Pure.pure a : Prog σ ε α) := fun _ => h

theorem Returns.throw (e : ε) : Returns P (MonadExcept.throw e : Prog σ ε α) := fun _ => trivial

theorem Returns.lift {r : Except ε α} (h : ∀ a, r = .ok a → P a) :
    Returns P (lift r : Prog σ ε α) := fun s => by
  rw [wp_lift]; exact ⟨h, fun _ _ => trivial⟩

theorem Returns.bind (hx : Returns P x) (hf : ∀ a, P a → Returns Q (f a)) :
    Returns Q (x >>= f) := by
  intro s
  rw [wp_bind]
  exact wp_mono (hx s) (fun a t ha => hf a ha t) fun _ _ h => h

theorem Returns.mapError {g : ε → ε'} (hx : Returns P x) : Returns P (Stateful.mapError g x) :=
  fun s => wp_mapError (hx s)

theorem Returns.attempt (hx : Returns P x) :
    Returns (fun r => ∀ a, r = .ok a → P a) (attempt x : Prog σ ε' (Except ε α)) := by
  intro s
  refine wp_attempt (wp_mono (hx s) (fun a _ ha b hb => ?_) fun e _ _ b hb => ?_)
  · cases hb; exact ha
  · cases hb

theorem Returns.zoom {part : τ → σ} {put : σ → τ → τ} (hx : Returns P x) :
    Returns P (Stateful.zoom part put x) := fun t => wp_zoom (hx (part t))

end

/-! ## Two programs -/

/-- From related states, `x` and `y` have one outcome, and leave related states. -/
def Related (R : τ → σ → Prop) (x : Prog τ ε α) (y : Prog σ ε α) : Prop :=
  ∀ t s, R t s → (exec y s).1 = (exec x t).1 ∧ R (exec x t).2 (exec y s).2

/-- Related states, with the same value beside them. -/
structure Beside (R : τ → σ → Prop) (t : ρ × τ) (s : ρ × σ) : Prop where
  fst : s.1 = t.1
  snd : R t.2 s.2

section
variable {R : τ → σ → Prop} {x : Prog τ ε α} {y : Prog σ ε α}

theorem Related.congr {R' : τ → σ → Prop} (hR : ∀ t s, R t s ↔ R' t s) (hx : Related R x y) :
    Related R' x y := by
  intro t s h
  obtain ⟨h1, h2⟩ := hx t s ((hR t s).2 h)
  exact ⟨h1, (hR _ _).1 h2⟩

theorem Related.pure (a : α) : Related R (Pure.pure a : Prog τ ε α) (Pure.pure a) :=
  fun _ _ h => ⟨rfl, h⟩

theorem Related.throw (e : ε) :
    Related R (MonadExcept.throw e : Prog τ ε α) (MonadExcept.throw e) := fun _ _ h => ⟨rfl, h⟩

theorem Related.lift (r : Except ε α) :
    Related R (Stateful.lift r : Prog τ ε α) (Stateful.lift r) := by
  intro t s h
  rw [exec_lift, exec_lift]
  exact ⟨rfl, h⟩

theorem Related.modify {g : τ → τ} {g' : σ → σ} (h : ∀ t s, R t s → R (g t) (g' s)) :
    Related R (modify g : Prog τ ε PUnit) (modify g') := fun t s hts => ⟨rfl, h t s hts⟩

theorem Related.bind {k : α → Prog τ ε β} {k' : α → Prog σ ε β} (hx : Related R x y)
    (hk : ∀ a, Related R (k a) (k' a)) : Related R (x >>= k) (y >>= k') := by
  intro t s h
  obtain ⟨h1, h2⟩ := hx t s h
  rw [exec_bind, exec_bind]
  cases hxt : exec x t with
  | mk r t' =>
    cases hys : exec y s with
    | mk r' s' =>
      rw [hxt, hys] at h1 h2
      cases h1
      cases r with
      | ok a => exact hk a t' s' h2
      | error e => exact ⟨rfl, h2⟩

theorem Related.get_bind {k : τ → Prog τ ε β} {k' : σ → Prog σ ε β}
    (hk : ∀ t s, R t s → Related R (k t) (k' s)) : Related R (get >>= k) (get >>= k') := by
  intro t s h
  rw [exec_bind, exec_bind, exec_get, exec_get]
  exact hk t s h t s h

theorem Related.mapError {g : ε → ε'} (hx : Related R x y) :
    Related R (Stateful.mapError g x) (Stateful.mapError g y) := by
  intro t s h
  obtain ⟨h1, h2⟩ := hx t s h
  rw [exec_mapError, exec_mapError, h1]
  exact ⟨rfl, h2⟩

theorem Related.attempt (hx : Related R x y) :
    Related R (attempt x : Prog τ ε' (Except ε α)) (attempt y) := by
  intro t s h
  obtain ⟨h1, h2⟩ := hx t s h
  rw [exec_attempt, exec_attempt, h1]
  exact ⟨rfl, h2⟩

/-- The two parts are put back into states that stay related. -/
theorem Related.zoom {τ' σ' : Type} {R' : τ' → σ' → Prop} {part : τ' → τ} {put : τ → τ' → τ'}
    {part' : σ' → σ} {put' : σ → σ' → σ'}
    (hx : ∀ t s, R' t s → Related (fun a b => R' (put a t) (put' b s)) x y)
    (hput : ∀ t, put (part t) t = t) (hput' : ∀ s, put' (part' s) s = s) :
    Related R' (Stateful.zoom part put x) (Stateful.zoom part' put' y) := by
  intro t s h
  rw [exec_zoom, exec_zoom]
  refine hx t s h _ _ ?_
  show R' (put (part t) t) (put' (part' s) s)
  rw [hput, hput']
  exact h

theorem Related.beside (hx : Related R x y) :
    Related (Beside (ρ := ρ) R) (Stateful.zoom Prod.snd (fun a t => (t.1, a)) x)
      (Stateful.zoom Prod.snd (fun b s => (s.1, b)) y) := by
  intro t s h
  rw [exec_zoom, exec_zoom]
  obtain ⟨h1, h2⟩ := hx _ _ h.snd
  exact ⟨h1, h.fst, h2⟩

theorem Related.withLocal {c : ρ} {x : Prog (ρ × τ) ε α} {y : Prog (ρ × σ) ε α}
    (hx : Related (Beside R) x y) : Related R (withLocal c x) (withLocal c y) := by
  intro t s h
  obtain ⟨h1, h2⟩ := hx (c, t) (c, s) ⟨rfl, h⟩
  rw [exec_withLocal, exec_withLocal, h1, h2.fst]
  exact ⟨rfl, h2.snd⟩

/-- An invariant is a relation of the states to themselves. -/
theorem Related.keeps {I : σ → Prop} {R : σ → σ → Prop} {x : Prog σ ε α} (hx : Related R x x)
    (hI : ∀ s, R s s ↔ I s) : Keeps I x := fun s hs => (hI _).1 (hx s s ((hI s).2 hs)).2

theorem Keeps.related {I : σ → Prop} {x : Prog σ ε α} (hx : Keeps I x) :
    Related (fun t s => s = t ∧ I t) x x := by
  intro t s h
  obtain ⟨rfl, ht⟩ := h
  exact ⟨rfl, rfl, hx _ ht⟩

end

/-! ## Ghost state -/

/-- `y` is `x` without what `f` forgets. -/
def Erases (f : τ → σ) (x : Prog τ ε α) (y : Prog σ ε α) : Prop :=
  ∀ t, exec y (f t) = ((exec x t).1, f (exec x t).2)

/-- What `f` forgets relates the states. -/
theorem erases_iff {f : τ → σ} {x : Prog τ ε α} {y : Prog σ ε α} :
    Erases f x y ↔ Related (fun t s => s = f t) x y := by
  constructor
  · intro h t s hs
    cases hs
    rw [h t]
    exact ⟨rfl, rfl⟩
  · intro h t
    obtain ⟨h1, h2⟩ := h t (f t) rfl
    exact Prod.ext h1 h2

end Stateful
