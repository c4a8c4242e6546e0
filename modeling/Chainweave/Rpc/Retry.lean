import Chainweave.Rpc.Client

/-!
# Retrying a request

`crates/chainweave-rpc/src/retry.rs`: `retry_rpc_request`, the loop behind every
request of live tracking. The loop recurses on the attempts left: the policy gives up
at the last one.

Time is part of the state, read and slept through by a `Clock`.
-/
namespace Chainweave.Rpc

open Stateful Chainweave.Backfill

variable {σ α : Type}

/-- Time over a state `σ`, in nanoseconds; nobody is woken early. -/
structure Clock (σ : Type) where
  now : σ → Nat
  sleep : Nat → σ → σ
  sleep_le : ∀ delay s, now s + delay ≤ now (sleep delay s)

section
variable (clock : Clock σ) (policy : RetryPolicy) (timeoutError : RpcError)
  (operation : Prog σ CallError α)

/-- One round of the loop, `again` the rest of it.
mirrors crates/chainweave-rpc/src/retry.rs:51-67 -/
def retryOnce (attempts : Nat) (again : Prog σ RpcError α) : Prog σ RpcError α := do
  match ← attempt operation with
  | .ok value => pure value
  | .error (.rpc error) =>
    match policy.decision (classifyRpcError error) attempts with
    | .retryAfter delay => do
      modify (clock.sleep delay)
      again
    | .giveUp => throw error
  | .error .timedOut =>
    match policy.decision .timeout attempts with
    | .retryAfter delay => do
      modify (clock.sleep delay)
      again
    | .giveUp => throw timeoutError

/-- The loop, `left` attempts after this one. With none left the policy gives up, so what stands
for the rest is not run. -/
def retryLoop : Nat → Nat → Prog σ RpcError α
  | 0, attempts => retryOnce clock policy timeoutError operation attempts (throw timeoutError)
  | left + 1, attempts =>
    retryOnce clock policy timeoutError operation attempts (retryLoop left (attempts + 1))

/-- mirrors crates/chainweave-rpc/src/retry.rs:39-69 -/
def retryRpcRequest : Prog σ RpcError α :=
  retryLoop clock policy timeoutError operation (policy.maxAttempts - 1) 1

end

variable {clock : Clock σ} {policy : RetryPolicy} {timeoutError : RpcError}
  {operation : Prog σ CallError α} {P : α → Prop}

theorem retryOnce_returns (hoperation : Returns P operation) {attempts : Nat}
    {again : Prog σ RpcError α} (hagain : Returns P again) :
    Returns P (retryOnce clock policy timeoutError operation attempts again) := by
  refine .bind (.attempt hoperation) fun answer hanswer => ?_
  cases answer with
  | ok value => exact .pure (hanswer value rfl)
  | error failure =>
    cases failure with
    | timedOut =>
      dsimp only
      split
      · exact .bind .any fun _ _ => hagain
      · exact .throw _
    | rpc error =>
      dsimp only
      split
      · exact .bind .any fun _ _ => hagain
      · exact .throw _

/-- What comes back is an answer of the operation. -/
theorem retryRpcRequest_returns (hoperation : Returns P operation) :
    Returns P (retryRpcRequest clock policy timeoutError operation) := by
  have hloop : ∀ left attempts,
      Returns P (retryLoop clock policy timeoutError operation left attempts) := by
    intro left
    induction left with
    | zero => exact fun attempts => retryOnce_returns hoperation (.throw _)
    | succ left ih => exact fun attempts => retryOnce_returns hoperation (ih _)
  exact hloop _ _

end Chainweave.Rpc
