import Chainweave.Rpc.Retry

/-!
# How often a request is made

`retry_rpc_request` against an operation whose every outcome is given beforehand.
What the loop does is on a `Tape`: the calls it made and the sleeps between them.

* `retryLoop_exec`: the loop stops at the first outcome that is not worth another
  attempt, or at the last attempt; its sleeps are the policy's backoffs, in order.
* `retries_bounded`: the bounds that follow for a policy accepted by `new`.
-/
namespace Chainweave.Rpc

open Stateful Chainweave.Chain Chainweave.Backfill Chainweave.Postgres

variable {α : Type}

/-- The calls made so far, and the sleeps between them. -/
structure Tape where
  calls : Nat := 0
  sleeps : List Nat := []

/-- Time passes in the sleeps only. -/
def tapeClock : Clock Tape where
  now tape := tape.sleeps.sum
  sleep delay tape := { tape with sleeps := tape.sleeps ++ [delay] }
  sleep_le := by simp

/-- The operation whose calls end in `outcomes 0`, `outcomes 1`, ... -/
def scripted (outcomes : Nat → Except CallError α) : Prog Tape CallError α :=
  ExceptT.mk fun tape => (outcomes tape.calls, { tape with calls := tape.calls + 1 })

/-- What the policy is asked about. -/
def failureOf : CallError → RpcFailure
  | .timedOut => .timeout
  | .rpc error => classifyRpcError error

/-- What the caller gets from the last call. -/
def answerOf (timeoutError : RpcError) : Except CallError α → Except RpcError α
  | .ok value => .ok value
  | .error .timedOut => .error timeoutError
  | .error (.rpc error) => .error error

/-- A failure that is worth another attempt. -/
def Retryable (outcome : Except CallError α) : Prop :=
  ∃ failure, outcome = .error failure ∧ failureOf failure ≠ .permanent

/-! ## The policy -/

/-- No classification carries a `retry_after`. -/
theorem failureOf_ne (failure : CallError) (delay : Nat) :
    failureOf failure ≠ .rateLimited (some delay) := by
  have hmessage : ∀ message,
      RpcFailure.fromRpcMessage message ≠ .rateLimited (some delay) := by
    intro message
    unfold RpcFailure.fromRpcMessage
    dsimp only
    repeat' split
    all_goals simp
  cases failure with
  | timedOut => simp [failureOf]
  | rpc error =>
    cases error with
    | request message =>
      show classifyRpcError (.request message) ≠ _
      unfold classifyRpcError
      dsimp only
      split
      · simp
      split
      · simp
      · exact hmessage message
    | _ => simp [failureOf, classifyRpcError]

theorem retryPolicy_new {maxAttempts baseDelay maxDelay jitter : Nat} {policy : RetryPolicy}
    (h : RetryPolicy.new maxAttempts baseDelay maxDelay jitter = .ok policy) :
    policy.maxAttempts = maxAttempts ∧ policy.maxDelay = maxDelay := by
  unfold RetryPolicy.new at h
  split at h
  · cases h
  split at h
  · cases h
  split at h
  · cases h
  · cases h
    exact ⟨rfl, rfl⟩

theorem decision_retry {policy : RetryPolicy} {failure : CallError} {attempts : Nat}
    (hfailure : failureOf failure ≠ .permanent) (hleft : attempts < policy.maxAttempts) :
    policy.decision (failureOf failure) attempts = .retryAfter (policy.backoff attempts) := by
  unfold RetryPolicy.decision
  rw [if_neg (by rw [not_or]; exact ⟨hfailure, by omega⟩)]
  split
  · rename_i delay heq
    exact absurd heq (failureOf_ne failure delay)
  · rfl

theorem decision_giveUp {policy : RetryPolicy} {failure : RpcFailure} {attempts : Nat}
    (h : failure = .permanent ∨ policy.maxAttempts ≤ attempts) :
    policy.decision failure attempts = .giveUp := by
  unfold RetryPolicy.decision
  rw [if_pos h]

/-- A backoff is a real pause, and a bounded one. -/
theorem backoff_bounds (policy : RetryPolicy) (attempts : Nat) :
    0 < policy.backoff attempts ∧ policy.backoff attempts ≤ policy.maxDelay := by
  have hbase := policy.baseDelay_pos
  have hmax := policy.baseDelay_le
  have hscaled : 0 < policy.baseDelay * 2 ^ min (attempts - 1) 31 :=
    Nat.mul_pos hbase (Nat.two_pow_pos _)
  unfold RetryPolicy.backoff
  dsimp only
  omega

/-! ## The loop -/

section
variable {policy : RetryPolicy} {timeoutError : RpcError} {outcomes : Nat → Except CallError α}
  {attempts : Nat} {again : Prog Tape RpcError α} {tape : Tape}

/-- A round whose outcome is not tried again. -/
theorem retryOnce_stop
    (h : Retryable (outcomes tape.calls) → policy.maxAttempts ≤ attempts) :
    exec (retryOnce tapeClock policy timeoutError (scripted outcomes) attempts again) tape =
      (answerOf timeoutError (outcomes tape.calls), { tape with calls := tape.calls + 1 }) := by
  unfold retryOnce
  rw [exec_bind, exec_attempt, scripted, exec_mk]
  cases ho : outcomes tape.calls with
  | ok value => rfl
  | error failure =>
    rw [ho] at h
    have hgive : policy.decision (failureOf failure) attempts = .giveUp := by
      refine decision_giveUp ?_
      by_cases hp : failureOf failure = .permanent
      · exact .inl hp
      · exact .inr (h ⟨failure, rfl, hp⟩)
    cases failure with
    | timedOut =>
      rw [failureOf] at hgive
      simp only [hgive]
      rfl
    | rpc error =>
      rw [failureOf] at hgive
      simp only [hgive]
      rfl

/-- A round that is followed by another one. -/
theorem retryOnce_again (h : Retryable (outcomes tape.calls)) (hleft : attempts < policy.maxAttempts) :
    exec (retryOnce tapeClock policy timeoutError (scripted outcomes) attempts again) tape =
      exec again ⟨tape.calls + 1, tape.sleeps ++ [policy.backoff attempts]⟩ := by
  obtain ⟨failure, ho, hp⟩ := h
  have hretry := decision_retry hp hleft
  unfold retryOnce
  rw [exec_bind, exec_attempt, scripted, exec_mk, ho]
  cases failure with
  | timedOut =>
    rw [failureOf] at hretry
    simp only [hretry]
    rfl
  | rpc error =>
    rw [failureOf] at hretry
    simp only [hretry]
    rfl

/-- **The loop**, by induction on the attempts left: `k` rounds that are tried again, and one that is
the last. -/
theorem retryLoop_exec {left : Nat} (hleft : attempts + left = policy.maxAttempts) :
    ∃ k ≤ left, (∀ i < k, Retryable (outcomes (tape.calls + i))) ∧
      (k < left → ¬ Retryable (outcomes (tape.calls + k))) ∧
      exec (retryLoop tapeClock policy timeoutError (scripted outcomes) left attempts) tape =
        (answerOf timeoutError (outcomes (tape.calls + k)),
          ⟨tape.calls + k + 1, tape.sleeps ++ (List.range' attempts k).map policy.backoff⟩) := by
  induction left generalizing attempts tape with
  | zero =>
    refine ⟨0, Nat.le_refl _, by simp, by simp, ?_⟩
    rw [retryLoop, retryOnce_stop fun _ => by omega]
    simp
  | succ left ih =>
    rw [retryLoop]
    by_cases h : Retryable (outcomes tape.calls)
    · obtain ⟨k, hk, hretried, hlast, hexec⟩ :=
        @ih (attempts + 1) ⟨tape.calls + 1, tape.sleeps ++ [policy.backoff attempts]⟩ (by omega)
      have hshift : ∀ i, tape.calls + 1 + i = tape.calls + (i + 1) := fun i => by omega
      simp only [hshift] at hretried hlast hexec
      refine ⟨k + 1, by omega, ?_, fun hlt => hlast (by omega), ?_⟩
      · intro i hi
        cases i with
        | zero => exact h
        | succ i => exact hretried i (by omega)
      · rw [retryOnce_again h (by omega), hexec, List.range'_succ]
        simp
    · refine ⟨0, by omega, by simp, fun _ => h, ?_⟩
      rw [retryOnce_stop fun h' => absurd h' h]
      simp

end

/-! ## Hash-anchored logs -/

/-- `contains` of a text that ends so. -/
theorem toLower_append {front message text : List Char}
    (h : text <:+: message.map Char.toLower) : text <:+: (front ++ message).map Char.toLower := by
  rw [List.map_append]
  exact h.trans (List.suffix_append _ _).isInfix

/-- What `block_hash_log_error` makes of a message about a missing block is recognised. -/
theorem blockHashLogError_notFound {blockHash : BlockHash} {message : String}
    (h : "block not found".toList <:+: message.toList.map Char.toLower) :
    classifyRpcError (blockHashLogError blockHash (.request message)) = .permanent := by
  have hshown : ∀ text : String, text.toList <:+: "eth_getlogs blockhash ".toList →
      text.toList <:+: (("eth_getLogs blockHash " ++ hexHash blockHash ++ " failed: " ++
        message).toList).map Char.toLower := by
    intro text htext
    simp only [String.toList_append, List.map_append, List.append_assoc]
    exact htext.trans (List.prefix_append _ _).isInfix
  have hnot : "block not found".toList <:+: (("eth_getLogs blockHash " ++ hexHash blockHash ++
      " failed: " ++ message).toList).map Char.toLower := by
    rw [String.toList_append]
    exact toLower_append h
  have hrecognised : isHashAnchoredLogBlockNotFound
      ("eth_getLogs blockHash " ++ hexHash blockHash ++ " failed: " ++ message) = true := by
    unfold isHashAnchoredLogBlockNotFound
    simp only [Bool.and_eq_true, Bool.or_eq_true, decide_eq_true_eq]
    exact ⟨⟨hshown "eth_getlogs" (by decide), .inl (hshown "blockhash" (by decide))⟩, hnot⟩
  unfold blockHashLogError classifyRpcError
  dsimp only
  rw [if_pos hrecognised]

/-! ## The bounds -/

/-- **Bounded retries.** The operation is called between once and `max_attempts` times; the answer is
that of the last call, the first that succeeded, failed for good or was the last one allowed. Every
sleep is longer than zero and at most `max_delay`. A missing block under a log request by hash is not
tried again.

From `u64::MAX` milliseconds of jitter on, `jitter_ms + 1` overflows. -/
theorem retries_bounded {maxAttempts baseDelay maxDelay jitter : Nat} {policy : RetryPolicy}
    (hnew : RetryPolicy.new maxAttempts baseDelay maxDelay jitter = .ok policy)
    (_hjitter : jitter < u64Max * RetryPolicy.millisecond) (timeoutError : RpcError)
    (outcomes : Nat → Except CallError α) :
    let run := exec (retryRpcRequest tapeClock policy timeoutError (scripted outcomes)) {}
    let k := run.2.calls
    1 ≤ k ∧ k ≤ maxAttempts ∧ run.1 = answerOf timeoutError (outcomes (k - 1)) ∧
      (∀ i < k, ∀ value, outcomes i = .ok value → i + 1 = k ∧ run.1 = .ok value) ∧
      ((∀ i < k, ∀ value, outcomes i ≠ .ok value) →
        ∃ failure, outcomes (k - 1) = .error failure ∧
          (failureOf failure = .permanent ∨ k = maxAttempts)) ∧
      (∀ i, i + 1 < k → ∀ failure, outcomes i = .error failure → failureOf failure ≠ .permanent) ∧
      (run.2.sleeps.length = k - 1 ∧ ∀ delay ∈ run.2.sleeps, 0 < delay ∧ delay ≤ maxDelay) ∧
      (∀ i < k, ∀ message, outcomes i = .error (.rpc (.request message)) →
        isHashAnchoredLogBlockNotFound message → i + 1 = k) ∧
      ∀ i < k, ∀ blockHash message,
        outcomes i = .error (.rpc (blockHashLogError blockHash (.request message))) →
          "block not found".toList <:+: message.toList.map Char.toLower → i + 1 = k := by
  intro run k
  obtain ⟨hattempts, hmax⟩ := retryPolicy_new hnew
  have hpos := policy.maxAttempts_pos
  obtain ⟨n, hn, hretried, hlast, hexec⟩ := @retryLoop_exec _ policy timeoutError outcomes 1 {}
    (policy.maxAttempts - 1) (by omega)
  simp only [Nat.zero_add, List.nil_append] at hretried hlast hexec
  have hrun : run = _ := hexec
  have hk : k = n + 1 := by
    show run.2.calls = _
    rw [hrun]
  have hanswer : run.1 = answerOf timeoutError (outcomes n) := by rw [hrun]
  have hsleeps : run.2.sleeps = (List.range' 1 n).map policy.backoff := by rw [hrun]
  clear_value run k
  subst hk
  -- A failure that is not worth another attempt ends the loop.
  have hfinal : ∀ i < n + 1, ¬ Retryable (outcomes i) → i + 1 = n + 1 := by
    intro i hi hnot
    by_contra hne
    exact hnot (hretried i (by omega))
  have hpermanent : ∀ i < n + 1, ∀ failure, outcomes i = .error failure →
      failureOf failure = .permanent → i + 1 = n + 1 := by
    intro i hi failure ho hp
    refine hfinal i hi fun h => ?_
    obtain ⟨failure', ho', hne⟩ := h
    rw [ho] at ho'
    cases ho'
    exact hne hp
  refine ⟨by omega, by omega, hanswer, ?_, ?_, ?_, ⟨?_, ?_⟩, ?_, ?_⟩
  · intro i hi value ho
    have hend := hfinal i hi fun h => by
      obtain ⟨failure, ho', -⟩ := h
      rw [ho] at ho'
      cases ho'
    obtain rfl : i = n := by omega
    exact ⟨rfl, by rw [hanswer, ho]; rfl⟩
  · intro hfail
    cases ho : outcomes n with
    | ok value => exact absurd ho (hfail n (by omega) value)
    | error failure =>
      refine ⟨failure, ho, ?_⟩
      by_cases hp : failureOf failure = .permanent
      · exact .inl hp
      · have : ¬ n < policy.maxAttempts - 1 := fun hlt => hlast hlt ⟨failure, ho, hp⟩
        omega
  · intro i hi failure ho hp
    have := hpermanent i (by omega) failure ho hp
    omega
  · rw [hsleeps]
    simp
  · intro delay hdelay
    rw [hsleeps, List.mem_map] at hdelay
    obtain ⟨attempt, -, rfl⟩ := hdelay
    exact hmax ▸ backoff_bounds policy attempt
  · intro i hi message ho hanchored
    refine hpermanent i hi _ ho ?_
    show classifyRpcError (.request message) = .permanent
    unfold classifyRpcError
    dsimp only
    rw [if_pos hanchored]
  · intro i hi blockHash message ho hmissing
    refine hpermanent i hi _ ho ?_
    rw [failureOf]
    exact blockHashLogError_notFound hmissing

/-- A request that times out, is refused and then answered. -/
def answeredThird : Nat → Except CallError Nat
  | 0 => .error .timedOut
  | 1 => .error (.rpc (.request "HTTP status 429 Too Many Requests"))
  | _ => .ok 7

/-- `retries_bounded` where the third and last attempt succeeds. -/
theorem retries_bounded_third :
    ∃ policy, RetryPolicy.new 3 250000000 5000000000 100000000 = .ok policy ∧
      let run := exec (retryRpcRequest tapeClock policy (.request "timed out") (scripted answeredThird)) {}
      run.2.calls = 3 ∧ run.1.toOption = some 7 ∧
        ∀ delay ∈ run.2.sleeps, 0 < delay ∧ delay ≤ 5000000000 := by
  have hnew : ∃ policy, RetryPolicy.new 3 250000000 5000000000 100000000 = .ok policy := ⟨_, rfl⟩
  obtain ⟨policy, hnew⟩ := hnew
  have hbounds := retries_bounded hnew (by decide) (.request "timed out") answeredThird
  refine ⟨policy, hnew, ?_, ?_, hbounds.2.2.2.2.2.2.1.2⟩
  · cases hnew
    decide +kernel
  · cases hnew
    decide +kernel

end Chainweave.Rpc
