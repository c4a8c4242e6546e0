import Chainweave.Cli.Fetch
import Chainweave.Core.Coordinator
import Chainweave.Sink.Payload

/-!
# Rules for a fetch

* `withRetry_wp`: the rule of the retry loop. What holds before every attempt is kept
  by a failed one, unless its error is permanent, which ends the loop.
* `anchored_ok`: what a converted log still says of its block.
* `attachLogs_ok`: each block gets the logs of its height, decoded.
-/
namespace Chainweave.Fetch

open Stateful Chainweave.Chain Chainweave.Backfill Chainweave.Postgres Chainweave.Rpc

variable {σ α : Type}

/-- The range an error names. -/
def FetchRangeError.range? : FetchRangeError → Option BackfillRange
  | .rpc range _ => some range
  | .providerLimit range _ => some range
  | .timeout range _ => some range
  | _ => none

/-- Any range it names is this one. -/
def FetchRangeError.About (range : BackfillRange) (e : FetchRangeError) : Prop :=
  ∀ r ∈ e.range?, r = range

/-! ## Retries -/

section
variable {J : σ → Prop} {range : BackfillRange}

theorem record_wp {method : RpcMethod} {costUnits : Nat} {s : Shared σ} (h : J s.node) :
    wp (record method costUnits) (fun _ s => J s.node) (fun e _ => e.About range) s := by
  cases hb : s.budget with
  | none =>
    refine wp_of_eq (r := .error .budgetPoisoned) (t := s) ?_ (by simp) ?_
    · simp only [record, exec_mk, hb]
    · intro e he r hr
      cases he
      cases hr
  | some budget =>
    cases hrecord : budget.record method costUnits with
    | ok budget' =>
      refine wp_of_eq (r := .ok ()) (t := { s with budget := some budget' }) ?_ (fun _ _ => h)
        (by simp)
      simp only [record, exec_mk, hb, hrecord]
    | error e =>
      refine wp_of_eq (r := .error (.backfill e)) (t := s) ?_ (by simp) ?_
      · simp only [record, exec_mk, hb, hrecord]
      · intro e he r hr
        cases he
        cases hr

theorem recordEach_wp {method : RpcMethod} {n : Nat} {s : Shared σ} (h : J s.node) :
    wp (recordEach method n) (fun _ s => J s.node) (fun e _ => e.About range) s := by
  induction n generalizing s with
  | zero => exact h
  | succ n ih =>
    unfold recordEach
    rw [wp_bind]
    exact wp_mono (record_wp h) (fun _ _ h => ih h) fun _ _ h => h

section
variable {policy : RetryPolicy} {phase : String} {spend : Prog (Shared σ) FetchRangeError Unit}
  {call : Prog σ CallError α} {stop : RpcFailure → Bool} {Q : α → σ → Prop} {attempts : Nat}

theorem tryOnce_wp
    (hspend : ∀ s : Shared σ, J s.node → wp spend (fun _ s => J s.node) (fun e _ => e.About range) s)
    (hcall : ∀ node, J node → wp call Q (fun e node' =>
      (∀ error, e = .rpc error → classifyRpcError error ≠ .permanent) → J node') node)
    {again : Prog (Shared σ) FetchRangeError α}
    (hagain : ∀ s : Shared σ, J s.node →
      wp again (fun a s => Q a s.node) (fun e _ => e.About range) s)
    {s : Shared σ} (h : J s.node) :
    wp (tryOnce policy range phase spend call stop attempts again) (fun a s => Q a s.node)
      (fun e _ => e.About range) s := by
  unfold tryOnce
  rw [wp_bind]
  refine wp_mono (hspend s h) (fun _ s hs => ?_) fun _ _ h => h
  rw [wp_bind]
  refine wp_attempt (wp_zoom (wp_mono (hcall s.node hs) (fun a _ ha => ha) fun e node' hJ => ?_))
  cases e with
  | timedOut =>
    dsimp only
    split
    · exact hagain _ (hJ (by simp))
    · intro r hr
      exact (Option.some.inj hr).symm
  | rpc error =>
    dsimp only
    split
    · intro r hr
      exact (Option.some.inj hr).symm
    split
    · rename_i hdecision
      refine hagain _ (hJ fun error' he hpermanent => ?_)
      cases he
      unfold RetryPolicy.decision at hdecision
      rw [if_pos (.inl hpermanent)] at hdecision
      cases hdecision
    · intro r hr
      exact (Option.some.inj hr).symm

/-- **The rule of the retry loop.** `J` holds of the node before every attempt. -/
theorem withRetry_wp
    (hspend : ∀ s : Shared σ, J s.node → wp spend (fun _ s => J s.node) (fun e _ => e.About range) s)
    (hcall : ∀ node, J node → wp call Q (fun e node' =>
      (∀ error, e = .rpc error → classifyRpcError error ≠ .permanent) → J node') node)
    {left : Nat} {s : Shared σ} (h : J s.node) :
    wp (withRetry policy range phase spend call stop left attempts) (fun a s => Q a s.node)
      (fun e _ => e.About range) s := by
  induction left generalizing attempts s with
  | zero =>
    refine tryOnce_wp hspend hcall (fun s _ => ?_) h
    intro r hr
    exact (Option.some.inj hr).symm
  | succ left ih => exact tryOnce_wp hspend hcall (fun s hs => ih hs) h

end

end

/-! ## Logs -/

theorem requiredField_ok {β : Type} {value : Option β} {field : String} {b : β} :
    requiredField value field = .ok b ↔ value = some b := by
  cases value <;> simp [requiredField]

/-- What is left of a log's block in the converted one. -/
theorem anchored_ok {range : BackfillRange} {log : RpcLog} {anchored : AnchoredRawLog}
    (h : anchoredRawLogFromRpc range log = .ok anchored) :
    log.blockNumber = some anchored.blockNumber ∧ log.blockHash = some anchored.blockHash ∧
      anchored.raw.decodedEvent = none ∧ anchored.raw.decoderVersion = none := by
  unfold anchoredRawLogFromRpc at h
  split at h
  · cases h
  obtain ⟨number, hnumber, h⟩ := ok_bind.1 h
  split at h
  · cases h
  obtain ⟨_, -, h⟩ := ok_bind.1 h
  obtain ⟨_, -, h⟩ := ok_bind.1 h
  obtain ⟨hash, hhash, h⟩ := ok_bind.1 h
  obtain ⟨_, -, h⟩ := ok_bind.1 h
  cases h
  exact ⟨requiredField_ok.1 hnumber, requiredField_ok.1 hhash, rfl, rfl⟩

theorem requiredField_permanent {β : Type} {value : Option β} {field : String} {e : RpcError}
    (h : requiredField value field = .error e) : classifyRpcError e = .permanent := by
  cases value with
  | none => cases h; rfl
  | some b => cases h

theorem requiredU32_permanent {value : Option Nat} {field : String} {e : RpcError}
    (h : requiredU32 value field = .error e) : classifyRpcError e = .permanent := by
  unfold requiredU32 at h
  split at h
  · cases h; rfl
  · split at h <;> cases h
    rfl

/-- Only a removed log is worth another try. -/
theorem anchored_permanent {range : BackfillRange} {log : RpcLog} {e : RpcError}
    (hremoved : log.removed = false) (h : anchoredRawLogFromRpc range log = .error e) :
    classifyRpcError e = .permanent := by
  unfold anchoredRawLogFromRpc at h
  rw [if_neg (by simp [hremoved])] at h
  obtain hnumber | ⟨number, -, h⟩ := error_bind h
  · exact requiredField_permanent hnumber
  split at h
  · cases h; rfl
  obtain hindex | ⟨_, -, h⟩ := error_bind h
  · exact requiredU32_permanent hindex
  obtain hindex | ⟨_, -, h⟩ := error_bind h
  · exact requiredU32_permanent hindex
  obtain hhash | ⟨_, -, h⟩ := error_bind h
  · exact requiredField_permanent hhash
  obtain htx | ⟨_, -, h⟩ := error_bind h
  · exact requiredField_permanent htx
  cases h

theorem requireBlocks_permanent {height : Nat} {blocks : List (Option RpcBlock)} {e : RpcError}
    (h : requireBlocks height blocks = .error e) : classifyRpcError e = .permanent := by
  induction blocks generalizing height with
  | nil => cases h
  | cons block blocks ih =>
    cases block with
    | none => cases h; rfl
    | some block =>
      obtain hrest | ⟨_, -, h⟩ := error_bind h
      · exact ih hrest
      · cases h

theorem requireBlocks_ok {height : Nat} {blocks : List (Option RpcBlock)} {out : List RpcBlock}
    (h : requireBlocks height blocks = .ok out) : blocks = out.map some := by
  induction blocks generalizing height out with
  | nil => cases h; rfl
  | cons block blocks ih =>
    cases block with
    | none => cases h
    | some block =>
      obtain ⟨rest, hrest, h⟩ := ok_bind.1 h
      cases h
      rw [ih hrest]
      rfl

theorem indexedBlock_permanent {block : RpcBlock} {logs : List RawLog} {e : RpcError}
    (h : indexedBlockFromRpc block logs = .error e) : classifyRpcError e = .permanent := by
  unfold indexedBlockFromRpc at h
  split at h
  · cases h; rfl
  · cases h

theorem indexedBlock_header {block : RpcBlock} {logs : List RawLog} {indexed : IndexedBlock}
    (h : indexedBlockFromRpc block logs = .ok indexed) : indexed.header = blockHeader block := by
  unfold indexedBlockFromRpc at h
  split at h <;> cases h
  rfl

theorem indexedBlocks_ok {blocks : List RpcBlock} {out : List IndexedBlock}
    (h : blocks.mapM (indexedBlockFromRpc · []) = .ok out) :
    out.map (·.header) = blocks.map blockHeader := by
  have hall := (mapM_forall₂ h fun _ _ hb => (indexedBlock_header hb).symm).flip
  rw [← List.forall₂_eq_eq_eq, List.forall₂_map_left_iff, List.forall₂_map_right_iff]
  exact hall.imp fun _ _ hheader => Eq.symm hheader

/-! ## Attaching -/

/-- Of all elements' lists, what is one element's own is its list. -/
theorem filter_flatMap_own {α β : Type} {l : List α} {f : α → List β} {p : β → Bool} {a : α}
    (hnodup : l.Nodup) (hmem : a ∈ l) (hown : ∀ x ∈ l, ∀ b ∈ f x, p b = true ↔ x = a) :
    (l.flatMap f).filter p = f a := by
  induction l with
  | nil => cases hmem
  | cons x l ih =>
    obtain ⟨hx, hnodup⟩ := List.nodup_cons.1 hnodup
    rw [List.flatMap_cons, List.filter_append]
    by_cases heq : x = a
    · subst heq
      have hself : (f x).filter p = f x :=
        List.filter_eq_self.2 fun b hb => (hown x (by simp) b hb).2 rfl
      have hrest : (l.flatMap f).filter p = [] := by
        refine List.filter_eq_nil_iff.2 fun b hb hp => ?_
        obtain ⟨y, hy, hb⟩ := List.mem_flatMap.1 hb
        exact hx ((hown y (List.mem_cons_of_mem _ hy) b hb).1 hp ▸ hy)
      rw [hself, hrest, List.append_nil]
    · have hother : (f x).filter p = [] :=
        List.filter_eq_nil_iff.2 fun b hb hp => heq ((hown x (by simp) b hb).1 hp)
      rw [hother, List.nil_append]
      exact ih hnodup ((List.mem_cons.1 hmem).resolve_left (Ne.symm heq))
        fun y hy => hown y (List.mem_cons_of_mem _ hy)

theorem mem_heights {range : BackfillRange} {height : Nat} :
    height ∈ range.heights ↔ range.contains height := by
  unfold BackfillRange.contains
  rw [mem_heights_iff, decide_eq_true_iff]

/-- The logs grouped below a height are those that name it, in order. -/
theorem getElem?_logsByHeight (logs : List AnchoredRawLog) (height : Nat) :
    (logsByHeight logs)[height]?.getD [] = logs.filter (·.blockNumber = height) := by
  have hfold : ∀ grouped : Std.TreeMap Nat (List AnchoredRawLog),
      (logs.foldl (fun grouped log =>
          grouped.insert log.blockNumber (grouped[log.blockNumber]?.getD [] ++ [log]))
        grouped)[height]?.getD [] =
        grouped[height]?.getD [] ++ logs.filter (·.blockNumber = height) := by
    induction logs with
    | nil => intro grouped; simp
    | cons log logs ih =>
      intro grouped
      rw [List.foldl_cons, ih, Std.TreeMap.getElem?_insert]
      by_cases heq : log.blockNumber = height
      · subst heq
        simp
      · rw [if_neg (by simpa using heq)]
        simp [heq]
  unfold logsByHeight
  rw [hfold]
  simp

theorem decodeLogs_raw (registry : Option AbiRegistry) (logs : List RawLog) :
    (decodeLogs registry logs).map RawLog.raw = logs.map RawLog.raw := by
  unfold decodeLogs
  cases registry with
  | none => rfl
  | some registry =>
    show (logs.map registry.decodeLogInPlace).map RawLog.raw = _
    rw [List.map_map]
    refine List.map_congr_left fun log _ => ?_
    show (registry.decodeLogInPlace log).raw = log.raw
    unfold AbiRegistry.decodeLogInPlace
    split <;> rfl

/-- A block with the logs grouped below its height. -/
def attached (registry : Option AbiRegistry) (grouped : Std.TreeMap Nat (List AnchoredRawLog))
    (block : IndexedBlock) : IndexedBlock :=
  { block with
    logs := decodeLogs registry ((grouped[block.header.height]?.getD []).map (·.raw)) }

/-- Blocks of different heights each get the logs of theirs, all of the block's own hash. -/
theorem attachLogs_ok {registry : Option AbiRegistry} {blocks out : List IndexedBlock}
    {grouped : Std.TreeMap Nat (List AnchoredRawLog)}
    (hnodup : (blocks.map (·.header.height)).Nodup)
    (h : attachLogs registry blocks grouped = .ok out) :
    out = blocks.map (attached registry grouped) ∧ ∀ block ∈ blocks,
      ∀ log ∈ grouped[block.header.height]?.getD [], log.blockHash = block.header.hash := by
  induction blocks generalizing grouped out with
  | nil => cases h; exact ⟨rfl, by simp⟩
  | cons block blocks ih =>
    rw [List.map_cons, List.nodup_cons] at hnodup
    unfold attachLogs at h
    dsimp only at h
    split at h
    · cases h
    rename_i hhash
    obtain ⟨rest, hrest, h⟩ := ok_bind.1 h
    cases h
    obtain ⟨hout, hown⟩ := ih hnodup.2 hrest
    -- What was taken for this block is not looked at again.
    have hkept : ∀ block' ∈ blocks,
        (grouped.erase block.header.height)[block'.header.height]? =
          grouped[block'.header.height]? := by
      intro block' hmem
      rw [Std.TreeMap.getElem?_erase, if_neg]
      intro heq
      refine hnodup.1 (List.mem_map.2 ⟨block', hmem, ?_⟩)
      simpa using (by simpa using heq : block.header.height = block'.header.height).symm
    refine ⟨?_, fun block' hmem => ?_⟩
    · rw [List.map_cons, hout]
      congr 1
      refine List.map_congr_left fun block' hmem => ?_
      unfold attached
      rw [hkept block' hmem]
    · cases List.mem_cons.1 hmem with
      | inl heq =>
        subst heq
        simpa using hhash
      | inr hmem =>
        rw [← hkept block' hmem]
        exact hown block' hmem

theorem attachLogs_header {registry : Option AbiRegistry} {blocks out : List IndexedBlock}
    {grouped : Std.TreeMap Nat (List AnchoredRawLog)}
    (h : attachLogs registry blocks grouped = .ok out) :
    out.map (·.header) = blocks.map (·.header) := by
  induction blocks generalizing grouped out with
  | nil => cases h; rfl
  | cons block blocks ih =>
    unfold attachLogs at h
    dsimp only at h
    split at h
    · cases h
    obtain ⟨rest, hrest, h⟩ := ok_bind.1 h
    cases h
    rw [List.map_cons, List.map_cons, ih hrest]

theorem attachLogs_error {registry : Option AbiRegistry} {blocks : List IndexedBlock}
    {grouped : Std.TreeMap Nat (List AnchoredRawLog)} {e : FetchRangeError}
    (h : attachLogs registry blocks grouped = .error e) : ∃ height, e = .logBlockHashMismatch height := by
  induction blocks generalizing grouped with
  | nil => cases h
  | cons block blocks ih =>
    unfold attachLogs at h
    dsimp only at h
    split at h
    · cases h; exact ⟨_, rfl⟩
    · obtain hrest | ⟨_, -, h⟩ := error_bind h
      · exact ih hrest
      · cases h

/-- **A task is about its own range**: so is what it fetched, and every error that names one. -/
theorem fetchRange_about (provider : Provider σ) (range : BackfillRange)
    (config : AdaptiveFetchConfig) (s : Shared σ) :
    wp (fetchRangeWithRetry provider range config) (fun fetched _ => fetched.range = range)
      (fun e _ => e.About range) s := by
  have hany : ∀ {β : Type} {P : CallError → Prop} (call : Prog σ CallError β) (node : σ),
      wp call (fun _ _ => True) (fun e _ => P e → True) node := by
    intro β P call node
    unfold wp
    split <;> simp
  unfold fetchRangeWithRetry
  rw [wp_bind]
  refine wp_mono (withRetry_wp (J := fun _ => True) (Q := fun _ _ => True)
    (fun _ h => record_wp (J := fun _ => True) h) (fun node _ => hany _ node) trivial)
    (fun logs s _ => ?_) fun _ _ h => h
  rw [wp_bind]
  refine wp_mono (withRetry_wp (J := fun _ => True) (Q := fun _ _ => True)
    (fun _ h => recordEach_wp (J := fun _ => True) h) (fun node _ => hany _ node) trivial)
    (fun blocks s _ => ?_) fun _ _ h => h
  rw [wp_bind, wp_lift]
  refine ⟨fun out _ => ?_, fun e he => ?_⟩
  · rw [wp_lift]
    refine ⟨fun fetched hfetched => (FetchedRange.new_ok (mapError_ok.1 hfetched)).1, fun e he => ?_⟩
    obtain ⟨e', -, rfl⟩ := mapError_error.1 he
    intro r hr
    cases hr
  · obtain ⟨height, rfl⟩ := attachLogs_error he
    intro r hr
    cases hr

end Chainweave.Fetch
