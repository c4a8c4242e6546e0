import Mathlib.Logic.Basic
import Mathlib.Tactic.Common

/-!
# The wakeup channel

`crates/chainweave-rpc/src/subscription.rs`: a sender that drops a wakeup where
one is unread, and the channel of capacity 1 behind it.

The channel itself is a parameter, `Mpsc`; `Mpsc.Documented` is what the callers
rely on. `slot` is a channel with one place.
-/
namespace Chainweave.Rpc

/-- What a `try_send` that takes nothing answers. -/
inductive TrySendError where
  | full | closed
  deriving DecidableEq, Repr

/-- A channel of capacity 1 that carries units, over its own state `χ`. -/
structure Mpsc (χ : Type) where
  /-- `mpsc::channel(1)` -/
  channel : χ
  /-- `Sender::try_send(())` -/
  trySend : χ → Except TrySendError Unit × χ
  /-- `Receiver::recv`: the channel after an item was taken, `none` while there is none -/
  recv : χ → Option χ
  /-- the receiver is dropped -/
  dropReceiver : χ → χ
  /-- `Receiver::len` -/
  len : χ → Nat
  /-- `Sender::is_closed` -/
  isClosed : χ → Bool

/-- What the channel's documentation promises. -/
structure Mpsc.Documented {χ : Type} (mpsc : Mpsc χ) : Prop where
  starts_open : mpsc.isClosed mpsc.channel = false
  /-- an item that was sent is unread -/
  sent : ∀ c, (mpsc.trySend c).1 = .ok () → 0 < mpsc.len (mpsc.trySend c).2
  /-- a channel is full only while an unread item is in it -/
  full : ∀ c, (mpsc.trySend c).1 = .error .full → 0 < mpsc.len (mpsc.trySend c).2
  /-- a channel is closed only by its receiver -/
  closed : ∀ c, (mpsc.trySend c).1 = .error .closed → mpsc.isClosed c = true
  send_closes_nothing : ∀ c, mpsc.isClosed (mpsc.trySend c).2 = mpsc.isClosed c
  recv_closes_nothing : ∀ c c', mpsc.recv c = some c' → mpsc.isClosed c' = mpsc.isClosed c

namespace NewHeadWakeupSender

variable {χ : Type} (mpsc : Mpsc χ)

/-- mirrors crates/chainweave-rpc/src/subscription.rs:26-31 -/
def tryWake (c : χ) : Bool × χ :=
  match mpsc.trySend c with
  | (.ok (), c) => (true, c)
  | (.error .full, c) => (false, c)
  | (.error .closed, c) => (false, c)

theorem tryWake_channel (c : χ) : (tryWake mpsc c).2 = (mpsc.trySend c).2 := by
  unfold tryWake
  split
  · next h => rw [h]
  · next h => rw [h]
  · next h => rw [h]

variable {mpsc}

/-- Queued or not, a wakeup is unread after the call. -/
theorem tryWake_unread (h : mpsc.Documented) {c : χ} (hopen : mpsc.isClosed c = false) :
    0 < mpsc.len (tryWake mpsc c).2 := by
  rw [tryWake_channel]
  cases hsent : (mpsc.trySend c).1 with
  | ok _ => exact h.sent c hsent
  | error e =>
    cases e with
    | full => exact h.full c hsent
    | closed =>
      have hclosed := h.closed c hsent
      rw [hopen] at hclosed
      cases hclosed

theorem tryWake_isClosed (h : mpsc.Documented) (c : χ) :
    mpsc.isClosed (tryWake mpsc c).2 = mpsc.isClosed c := by
  rw [tryWake_channel, h.send_closes_nothing]

end NewHeadWakeupSender

/-! ## A channel with one place -/

/-- Whether the place is taken, and whether the receiver is gone. -/
structure Slot where
  taken : Bool
  gone : Bool
  deriving DecidableEq, Repr

def slot : Mpsc Slot where
  channel := { taken := false, gone := false }
  trySend c :=
    if c.gone then (.error .closed, c)
    else if c.taken then (.error .full, c)
    else (.ok (), { c with taken := true })
  recv c := if c.taken then some { c with taken := false } else none
  dropReceiver c := { c with gone := true }
  len c := if c.taken then 1 else 0
  isClosed c := c.gone

theorem slot_documented : slot.Documented where
  starts_open := rfl
  sent c h := by
    cases hgone : c.gone <;> cases htaken : c.taken <;> simp [slot, hgone, htaken] at h ⊢
  full c h := by
    cases hgone : c.gone <;> cases htaken : c.taken <;> simp [slot, hgone, htaken] at h ⊢
  closed c h := by
    cases hgone : c.gone <;> cases htaken : c.taken <;> simp [slot, hgone, htaken] at h ⊢
  send_closes_nothing c := by
    cases hgone : c.gone <;> cases htaken : c.taken <;> simp [slot, hgone, htaken]
  recv_closes_nothing c c' h := by
    simp only [slot, Option.ite_none_right_eq_some] at h
    obtain ⟨-, h⟩ := h
    cases h
    rfl

/-- mirrors crates/chainweave-rpc/src/subscription.rs:75-84 -/
example :
    let first := NewHeadWakeupSender.tryWake slot slot.channel
    let second := NewHeadWakeupSender.tryWake slot first.2
    first.1 = true ∧ second.1 = false ∧
      (slot.recv second.2).map (NewHeadWakeupSender.tryWake slot · |>.1) = some true := by
  decide

end Chainweave.Rpc
