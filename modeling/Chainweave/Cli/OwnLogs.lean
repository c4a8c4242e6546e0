import Chainweave.Cli.FetchRules

/-!
# Logs and blocks of two forks

`fetch_range_with_retry` asks for logs by height and for blocks by number, one
request after the other, and the chain may move in between. A log that came back is
checked against the block's hash; where none came back there is nothing to check.

* `Ledger`: the blocks of every fork with their logs; `Fork` is a chain of them. A
  `Moment` is what one request meets.
* `own_logs`: each block carries its own logs exactly if, at every height, the chain
  the logs came from had a log if the block has one.

m4-design-notes.md:71 has logs fetched by block hash, "so a reorg cannot mix logs
from the wrong block number"; the live path does so, the backfill does not.
-/
namespace Chainweave.Fetch

open Stateful Chainweave.Chain Chainweave.Backfill Chainweave.Postgres Chainweave.Rpc

/-- A block and the logs the node has for it. -/
structure SourceBlock where
  block : RpcBlock
  logs : List RpcLog
  own : ∀ log ∈ logs, log.blockHash = some block.hash ∧ log.blockNumber = some block.number ∧
    log.removed = false

/-- The logs an optional contract filter lets through. -/
def SourceBlock.matching (filter : Option ContractLogFilter) (b : SourceBlock) : List RpcLog :=
  b.logs.filter fun log => filter.all (·.address = log.address)

/-- The blocks of all forks; a hash names one of them. -/
structure Ledger where
  block : BlockHash → Option SourceBlock

/-- A chain, by height. -/
structure Fork (ledger : Ledger) where
  block : Nat → Option SourceBlock
  mem : ∀ height b, block height = some b →
    ledger.block b.block.hash = some b ∧ b.block.number = height

variable {ledger : Ledger}

namespace Fork

/-- The logs at a height. -/
def logsAt (fork : Fork ledger) (filter : Option ContractLogFilter) (height : Nat) : List RpcLog :=
  (fork.block height).elim [] (·.matching filter)

/-- The answer to `eth_getLogs` for a range. -/
def logs (fork : Fork ledger) (range : BackfillRange) (filter : Option ContractLogFilter) :
    List RpcLog :=
  range.heights.flatMap (fork.logsAt filter)

/-- The answers to `eth_getBlockByNumber` for a range. -/
def blocks (fork : Fork ledger) (range : BackfillRange) : List (Option RpcBlock) :=
  range.heights.map fun height => (fork.block height).map (·.block)

end Fork

/-- What a request meets: the chain then, or a fault. -/
structure Moment (ledger : Ledger) where
  fork : Fork ledger
  fault : Option CallError := none

/-- The chains of the moments that answer. -/
def served (moments : List (Moment ledger)) : List (Fork ledger) :=
  (moments.filter (·.fault.isNone)).map (·.fork)

/-- One request to the next moment. -/
def ask {α : Type} (answer : Fork ledger → α) : Prog (List (Moment ledger)) CallError α :=
  ExceptT.mk fun
    | [] => (.error .timedOut, [])
    | moment :: moments =>
      match moment.fault with
      | some e => (.error e, moments)
      | none => (.ok (answer moment.fork), moments)

/-- A node whose chain may be another one at each request. -/
def forkProvider (ledger : Ledger) : Provider (List (Moment ledger)) where
  getLogs range filter := ask (·.logs range filter)
  getBlocks range := ask (·.blocks range)

/-- The block's logs are these, the decoder columns apart. -/
def Carries (range : BackfillRange) (block : IndexedBlock) (logs : List RpcLog) : Prop :=
  ∃ anchored, logs.mapM (anchoredRawLogFromRpc range) = .ok anchored ∧
    block.logs.map RawLog.raw = anchored.map (·.raw)

/-- Every block carries the logs of its own hash. -/
def CarriesOwn (ledger : Ledger) (filter : Option ContractLogFilter)
    (fetched : FetchedRange IndexedBlock) : Prop :=
  ∀ block ∈ fetched.logs, ∀ b ∈ ledger.block block.header.hash,
    Carries fetched.range block (b.matching filter)

/-- Where the chain of the blocks has a log, the chain of the logs had one. -/
def NoLogAppears (range : BackfillRange) (filter : Option ContractLogFilter)
    (moments : List (Moment ledger)) : Prop :=
  ∀ old ∈ (served moments)[0]?, ∀ new ∈ (served moments)[1]?, ∀ height ∈ range.heights,
    new.logsAt filter height ≠ [] → old.logsAt filter height ≠ []

theorem wp_ask {β : Type} {answer : Fork ledger → β} {Q : β → List (Moment ledger) → Prop}
    {E : CallError → List (Moment ledger) → Prop} {moments : List (Moment ledger)}
    (hanswer : ∀ fork rest, served moments = fork :: served rest → Q (answer fork) rest)
    (hfault : ∀ e rest, served rest = served moments → E e rest) :
    wp (ask answer) Q E moments := by
  cases moments with
  | nil => exact hfault _ _ rfl
  | cons moment moments =>
    cases hf : moment.fault with
    | some e =>
      refine wp_of_eq (r := .error e) (t := moments) ?_ (by simp) fun e' _ => hfault _ _ ?_
      · simp only [ask, exec_mk, hf]
      · simp [served, hf]
    | none =>
      refine wp_of_eq (r := .ok (answer moment.fork)) (t := moments) ?_ (fun a ha => ?_) (by simp)
      · simp only [ask, exec_mk, hf]
      · cases ha
        refine hanswer _ _ ?_
        simp [served, hf]

section
variable {range : BackfillRange} {config : AdaptiveFetchConfig} {moments : List (Moment ledger)}

theorem Fork.removed_false {fork : Fork ledger} {filter : Option ContractLogFilter} {log : RpcLog}
    (h : log ∈ fork.logs range filter) : log.removed = false := by
  obtain ⟨height, -, hlog⟩ := List.mem_flatMap.1 h
  unfold Fork.logsAt at hlog
  cases hb : fork.block height with
  | none => rw [hb] at hlog; cases hlog
  | some b =>
    rw [hb] at hlog
    exact (b.own log (List.mem_of_mem_filter hlog)).2.2

/-- The logs come from the first chain that answers. -/
theorem fetchLogs_wp {s : Shared (List (Moment ledger))} :
    wp (fetchLogsWithRetry (forkProvider ledger) range config)
      (fun logs s' => ∃ old, served s.node = old :: served s'.node ∧
        (old.logs range config.filter).mapM (anchoredRawLogFromRpc range) = .ok logs)
      (fun e _ => e.About range) s := by
  refine withRetry_wp (J := fun node => served node = served s.node)
    (Q := fun logs node => ∃ old, served s.node = old :: served node ∧
      (old.logs range config.filter).mapM (anchoredRawLogFromRpc range) = .ok logs)
    (fun _ h => record_wp (J := fun node => served node = served s.node) h) (fun node hJ => ?_) rfl
  unfold Provider.fetchAnchoredLogs
  rw [wp_bind]
  show wp (ask fun fork => fork.logs range config.filter) _ _ node
  refine wp_ask (fun old rest hserved => ?_) fun e rest hserved _ => hserved.trans hJ
  rw [wp_lift]
  refine ⟨fun logs hlogs => ⟨old, hJ.symm.trans hserved, mapError_ok.1 hlogs⟩, fun e he hnot => ?_⟩
  -- A served answer that does not convert is a permanent error.
  obtain ⟨error, herror, rfl⟩ := mapError_error.1 he
  obtain ⟨log, hlog, hconv⟩ := mapM_error herror
  exact absurd (anchored_permanent (Fork.removed_false hlog) hconv) (hnot error rfl)

/-- The blocks come from the next chain that answers. -/
theorem fetchBlocks_wp {s : Shared (List (Moment ledger))} :
    wp (fetchBlocksByNumberWithRetry (forkProvider ledger) range config)
      (fun blocks s' => ∃ new : Fork ledger, ∃ rpcBlocks : List RpcBlock,
        served s.node = new :: served s'.node ∧ new.blocks range = rpcBlocks.map some ∧
        blocks.map (·.header) = rpcBlocks.map blockHeader)
      (fun e _ => e.About range) s := by
  refine withRetry_wp (J := fun node => served node = served s.node)
    (Q := fun (blocks : List IndexedBlock) node => ∃ new : Fork ledger, ∃ rpcBlocks : List RpcBlock,
      served s.node = new :: served node ∧ new.blocks range = rpcBlocks.map some ∧
      blocks.map (·.header) = rpcBlocks.map blockHeader)
    (fun _ h => recordEach_wp (J := fun node => served node = served s.node) h) (fun node hJ => ?_)
    rfl
  unfold Provider.fetchBlocksByNumber
  rw [wp_bind]
  show wp (ask fun fork => fork.blocks range) _ _ node
  refine wp_ask (fun new rest hserved => ?_) fun e rest hserved _ => hserved.trans hJ
  rw [wp_bind, wp_lift]
  refine ⟨fun rpcBlocks hrequire => ?_, fun e he hnot => ?_⟩
  · rw [wp_lift]
    refine ⟨fun blocks hblocks => ⟨new, rpcBlocks, hJ.symm.trans hserved,
      requireBlocks_ok (mapError_ok.1 hrequire), indexedBlocks_ok (mapError_ok.1 hblocks)⟩,
      fun e he hnot => ?_⟩
    obtain ⟨error, herror, rfl⟩ := mapError_error.1 he
    obtain ⟨block, -, hconv⟩ := mapM_error herror
    exact absurd (indexedBlock_permanent hconv) (hnot error rfl)
  · obtain ⟨error, herror, rfl⟩ := mapError_error.1 he
    exact absurd (requireBlocks_permanent herror) (hnot error rfl)

/-- The two chains behind a fetched range, and what it is made of. -/
theorem fetchRange_wp {s : Shared (List (Moment ledger))} :
    wp (fetchRangeWithRetry (forkProvider ledger) range config)
      (fun fetched s' => ∃ old new : Fork ledger, ∃ logs, ∃ rpcBlocks : List RpcBlock,
        ∃ blocks : List IndexedBlock,
        served s.node = old :: new :: served s'.node ∧
        (old.logs range config.filter).mapM (anchoredRawLogFromRpc range) = .ok logs ∧
        new.blocks range = rpcBlocks.map some ∧ blocks.map (·.header) = rpcBlocks.map blockHeader ∧
        attachLogs config.abiRegistry blocks (logsByHeight logs) = .ok fetched.logs ∧
        fetched.range = range ∧ fetched.headers = fetched.logs.map (·.header))
      (fun _ _ => True) s := by
  unfold fetchRangeWithRetry
  rw [wp_bind]
  refine wp_mono fetchLogs_wp (fun logs s₁ hlogs => ?_) fun _ _ _ => trivial
  obtain ⟨old, hold, hlogs⟩ := hlogs
  rw [wp_bind]
  refine wp_mono fetchBlocks_wp (fun blocks s₂ hblocks => ?_) fun _ _ _ => trivial
  obtain ⟨new, rpcBlocks, hnew, hrpc, hheaders⟩ := hblocks
  rw [wp_bind, wp_lift]
  refine ⟨fun out hout => ?_, fun _ _ => trivial⟩
  rw [wp_lift]
  refine ⟨fun fetched hfetched => ?_, fun _ _ => trivial⟩
  obtain ⟨hrange, hh, hl⟩ := FetchedRange.new_ok (mapError_ok.1 hfetched)
  refine ⟨old, new, logs, rpcBlocks, blocks, by rw [hold, hnew], hlogs, hrpc, hheaders, ?_, hrange, ?_⟩
  · rw [hl]; exact hout
  · rw [hh, hl]

theorem Fork.blockNumber_of_mem {fork : Fork ledger} {filter : Option ContractLogFilter}
    {height : Nat} {log : RpcLog} (h : log ∈ fork.logsAt filter height) :
    log.blockNumber = some height := by
  unfold Fork.logsAt at h
  cases hb : fork.block height with
  | none => rw [hb] at h; cases h
  | some b =>
    rw [hb] at h
    rw [(b.own log (List.mem_of_mem_filter h)).2.1, (fork.mem height b hb).2]

/-- The logs of a range that name a height are those at that height. -/
theorem Fork.filter_logs {fork : Fork ledger} {filter : Option ContractLogFilter} {height : Nat}
    (hmem : height ∈ range.heights) :
    (fork.logs range filter).filter (·.blockNumber = some height) = fork.logsAt filter height := by
  refine filter_flatMap_own List.nodup_range' hmem fun n _ log hlog => ?_
  rw [Fork.blockNumber_of_mem hlog]
  simp

/-- The converted logs that name a height are those at that height. -/
theorem anchored_at {fork : Fork ledger} {filter : Option ContractLogFilter}
    {logs : List AnchoredRawLog} {height : Nat} (hmem : height ∈ range.heights)
    (h : (fork.logs range filter).mapM (anchoredRawLogFromRpc range) = .ok logs) :
    (fork.logsAt filter height).mapM (anchoredRawLogFromRpc range) =
      .ok (logs.filter (·.blockNumber = height)) := by
  rw [← Fork.filter_logs hmem]
  refine mapM_filter h fun log anchored hconv => ?_
  rw [(anchored_ok hconv).1]
  simp

/-- A converted log is as it was stored, without decoder columns. -/
theorem anchored_raw {logs : List RpcLog} {out : List AnchoredRawLog}
    (h : logs.mapM (anchoredRawLogFromRpc range) = .ok out) :
    (out.map (·.raw)).map RawLog.raw = out.map (·.raw) := by
  rw [List.map_map]
  refine List.map_congr_left fun anchored hmem => ?_
  obtain ⟨log, -, hconv⟩ := mapM_mem h hmem
  obtain ⟨-, -, hevent, hversion⟩ := anchored_ok hconv
  show anchored.raw.raw = anchored.raw
  obtain ⟨_, _, ⟨_, _, _, _, _, _, event, version⟩⟩ := anchored
  subst hevent hversion
  rfl

/-- A log that came back has the block's hash, so both chains have the same block there. -/
theorem same_block {old new : Fork ledger} {filter : Option ContractLogFilter}
    {anchored : List AnchoredRawLog} {height : Nat} {b : SourceBlock}
    (hb : new.block height = some b) (hne : old.logsAt filter height ≠ [])
    (hat : (old.logsAt filter height).mapM (anchoredRawLogFromRpc range) = .ok anchored)
    (hhash : ∀ log ∈ anchored, log.blockHash = b.block.hash) : old.block height = some b := by
  unfold Fork.logsAt at hne hat
  cases hb' : old.block height with
  | none => rw [hb'] at hne; exact absurd rfl hne
  | some b' =>
    rw [hb'] at hne hat
    obtain ⟨log, rest, hcons⟩ := List.exists_cons_of_ne_nil hne
    have hcons : b'.matching filter = log :: rest := hcons
    have hat : (b'.matching filter).mapM (anchoredRawLogFromRpc range) = .ok anchored := hat
    rw [hcons, List.mapM_cons] at hat
    obtain ⟨a, ha, hat⟩ := ok_bind.1 hat
    obtain ⟨as, -, hat⟩ := ok_bind.1 hat
    have hlog : log ∈ b'.logs :=
      List.mem_of_mem_filter (by rw [← SourceBlock.matching, hcons]; simp)
    have heq : b'.block.hash = b.block.hash := by
      rw [← hhash a (by rw [← Except.ok.inj hat]; simp), ← Option.some.injEq,
        ← (anchored_ok ha).2.1, (b'.own log hlog).1]
    rw [← (old.mem height b' hb').1, ← (new.mem height b hb).1, heq]

/-- **One height.** The block there carries its own logs exactly if they are none or the other chain
had logs there too. -/
theorem carries_iff {old new : Fork ledger} {filter : Option ContractLogFilter}
    {logs : List AnchoredRawLog} {block : IndexedBlock} {height : Nat} {b : SourceBlock}
    (hmem : height ∈ range.heights)
    (hlogs : (old.logs range filter).mapM (anchoredRawLogFromRpc range) = .ok logs)
    (hb : new.block height = some b) (hblock : block.logs.map RawLog.raw =
      (logs.filter (·.blockNumber = height)).map (·.raw))
    (hhash : ∀ log ∈ logs.filter (·.blockNumber = height), log.blockHash = b.block.hash) :
    Carries range block (b.matching filter) ↔
      (new.logsAt filter height ≠ [] → old.logsAt filter height ≠ []) := by
  have hat := anchored_at hmem hlogs
  have hnew : new.logsAt filter height = b.matching filter := by
    unfold Fork.logsAt
    rw [hb]
    rfl
  rw [hnew]
  constructor
  · -- Nothing came back for the height, so nothing is carried, so nothing is missing.
    intro hcarries hne hold
    rw [hold] at hat
    have hnil : logs.filter (·.blockNumber = height) = [] := (Except.ok.inj hat).symm
    obtain ⟨anchored, hanchored, hraw⟩ := hcarries
    rw [hblock, hnil] at hraw
    have hempty : anchored = [] := by
      cases anchored with
      | nil => rfl
      | cons a as => cases hraw
    cases hm : b.matching filter with
    | nil => exact hne hm
    | cons log rest =>
      rw [hm, hempty, List.mapM_cons] at hanchored
      obtain ⟨_, -, h⟩ := ok_bind.1 hanchored
      obtain ⟨_, -, h⟩ := ok_bind.1 h
      cases h
  · intro hkept
    refine ⟨logs.filter (·.blockNumber = height), ?_, hblock⟩
    by_cases hold : old.logsAt filter height = []
    · have hnone : b.matching filter = [] := by
        by_contra hne
        exact hkept hne hold
      rw [hnone, ← hold]
      exact hat
    · have hsame := same_block hb hold hat hhash
      unfold Fork.logsAt at hat
      rw [hsame] at hat
      exact hat

/-- The header at each height of the range is that of the chain's block. -/
theorem header_at {new : Fork ledger} {rpcBlocks : List RpcBlock} {blocks : List IndexedBlock}
    (hrpc : new.blocks range = rpcBlocks.map some)
    (hheaders : blocks.map (·.header) = rpcBlocks.map blockHeader) :
    blocks.map (fun block => some block.header) =
      (range.heights).map fun height =>
        (new.block height).map fun b => blockHeader b.block := by
  have h := congrArg (List.map (Option.map blockHeader)) hrpc
  unfold Fork.blocks at h
  rw [List.map_map, List.map_map] at h
  have hsome := congrArg (List.map some) hheaders
  rw [List.map_map, List.map_map] at hsome
  calc blocks.map (fun block => some block.header)
      = rpcBlocks.map (some ∘ blockHeader) := hsome
    _ = (range.heights).map
          (Option.map blockHeader ∘ fun height => (new.block height).map (·.block)) := h.symm
    _ = _ := List.map_congr_left fun height _ => by
        rw [Function.comp_apply, Option.map_map]
        rfl

end

/-- **When a fetched range carries its own logs**: exactly if, wherever the chain the blocks came
from has a log the filter lets through, the chain the logs came from had one at that height. -/
theorem own_logs (config : AdaptiveFetchConfig) (range : BackfillRange)
    (budget : Option RpcBudget) (moments : List (Moment ledger))
    {fetched : FetchedRange IndexedBlock} {s : Shared (List (Moment ledger))}
    (h : exec (fetchRangeWithRetry (forkProvider ledger) range config) ⟨budget, moments⟩ =
      (.ok fetched, s)) :
    CarriesOwn ledger config.filter fetched ↔ NoLogAppears range config.filter moments := by
  obtain ⟨old, new, logs, rpcBlocks, blocks, hserved, hlogs, hrpc, hheaders, hattach, hrange,
    hfetched⟩ := wp_ok fetchRange_wp h
  have hserved : served moments = old :: new :: served s.node := hserved
  have hkept := attachLogs_header hattach
  have hnodup : (blocks.map (·.header.height)).Nodup := by
    have hheights := fetched.map_height
    rw [hfetched, hkept, List.map_map] at hheights
    show (blocks.map ((·.height) ∘ (·.header))).Nodup
    rw [hheights]
    exact List.nodup_range'
  obtain ⟨hout, hhash⟩ := attachLogs_ok hnodup hattach
  have hat := header_at hrpc hheaders
  -- What one block carries, and the chain's block behind it.
  have hblock : ∀ block ∈ blocks, ∀ height ∈ range.heights, ∀ b,
      new.block height = some b → block.header = blockHeader b.block →
      (Carries range (attached config.abiRegistry (logsByHeight logs) block)
          (b.matching config.filter) ↔
        (new.logsAt config.filter height ≠ [] → old.logsAt config.filter height ≠ [])) := by
    intro block hmem height hheight b hb hheader
    have hnumber : block.header.height = height := by rw [hheader]; exact (new.mem height b hb).2
    refine carries_iff hheight hlogs hb ?_ fun log hlog => ?_
    · unfold attached
      dsimp only
      rw [decodeLogs_raw, getElem?_logsByHeight, hnumber, anchored_raw (anchored_at hheight hlogs)]
    · have := hhash block hmem log (by rw [getElem?_logsByHeight, hnumber]; exact hlog)
      rw [this, hheader]
      rfl
  unfold CarriesOwn NoLogAppears
  rw [hserved, hrange, hout]
  constructor
  · intro hall old' hold new' hnew' height hheight
    cases hold
    cases hnew'
    intro hne
    cases hb : new.block height with
    | none => unfold Fork.logsAt at hne; rw [hb] at hne; exact absurd rfl hne
    | some b =>
      have hin : some (blockHeader b.block) ∈ blocks.map fun block => some block.header := by
        rw [hat]
        exact List.mem_map.2 ⟨height, hheight, by rw [hb]; rfl⟩
      obtain ⟨block, hmem, hheader⟩ := List.mem_map.1 hin
      have hheader := Option.some.inj hheader
      refine (hblock block hmem height hheight b hb hheader).1 ?_ hne
      refine hall _ (List.mem_map.2 ⟨block, hmem, rfl⟩) b ?_
      show ledger.block block.header.hash = some b
      rw [hheader]
      exact (new.mem height b hb).1
  · intro hcond block' hmem' b hb
    obtain ⟨block, hmem, rfl⟩ := List.mem_map.1 hmem'
    have hin : some block.header ∈ blocks.map fun block => some block.header :=
      List.mem_map.2 ⟨block, hmem, rfl⟩
    rw [hat] at hin
    obtain ⟨height, hheight, hheader⟩ := List.mem_map.1 hin
    obtain ⟨b', hb', hheader⟩ := Option.map_eq_some_iff.1 hheader
    have hsame : b' = b := by
      have hledger := (new.mem height b' hb').1
      have hhash' : (attached config.abiRegistry (logsByHeight logs) block).header.hash =
          b'.block.hash := by
        show block.header.hash = b'.block.hash
        rw [← hheader]
        rfl
      have hb : ledger.block _ = some b := hb
      rw [hhash', hledger] at hb
      exact Option.some.inj hb
    subst hsame
    exact (hblock block hmem height hheight b' hb' hheader.symm).2
      (hcond old rfl new rfl height hheight)

/-- A block at height 1 without logs. -/
def plainBlock : SourceBlock := ⟨⟨1, 0, 1, 10⟩, [], by simp⟩

/-- The log of the other block at height 1. -/
def forkLog : RpcLog where
  blockHash := some 2
  blockNumber := some 1
  transactionHash := some 7
  transactionIndex := some 0
  logIndex := some 0
  address := 0
  topics := []
  data := []
  removed := false

/-- A block at height 1 of another fork, with a log. -/
def loggedFork : SourceBlock := ⟨⟨2, 0, 1, 10⟩, [forkLog], by simp [forkLog]⟩

/-- The two blocks at height 1. -/
def twoForks : Ledger where
  block hash := if hash = 1 then some plainBlock else if hash = 2 then some loggedFork else none

def plainChain : Fork twoForks where
  block height := if height = 1 then some plainBlock else none
  mem height b h := by
    split at h
    · rename_i hheight
      cases h
      exact ⟨rfl, hheight.symm⟩
    · cases h

def loggedChain : Fork twoForks where
  block height := if height = 1 then some loggedFork else none
  mem height b h := by
    split at h
    · rename_i hheight
      cases h
      exact ⟨rfl, hheight.symm⟩
    · cases h

def twoAttempts : AdaptiveFetchConfig where
  workers := 1
  retryPolicy := ⟨2, 1, 1, 0, Nat.succ_pos _, Nat.succ_pos _, Nat.le_refl _⟩
  filter := none
  abiRegistry := none
  workers_pos := Nat.succ_pos _

def smallBudget : RpcBudget := ⟨10, 50, 0, 0, Nat.succ_pos _, Nat.succ_pos _, Nat.zero_le _, Nat.zero_le _⟩

/-- `own_logs` for a chain that stays, with one request timing out. -/
theorem own_logs_same_chain : ∃ fetched s,
    exec (fetchRangeWithRetry (forkProvider twoForks) ⟨1, 1⟩ twoAttempts)
        ⟨some smallBudget, [⟨plainChain, some .timedOut⟩, ⟨loggedChain, none⟩, ⟨loggedChain, none⟩]⟩ =
      (.ok fetched, s) ∧ CarriesOwn twoForks none fetched := by
  obtain ⟨fetched, s, hrun⟩ := exec_ok_of_isSome
    (x := fetchRangeWithRetry (forkProvider twoForks) ⟨1, 1⟩ twoAttempts)
    (s := ⟨some smallBudget, [⟨plainChain, some .timedOut⟩, ⟨loggedChain, none⟩,
      ⟨loggedChain, none⟩]⟩) (by decide +kernel)
  refine ⟨fetched, s, hrun, (own_logs twoAttempts ⟨1, 1⟩ _ _ hrun).2 fun old hold new hnew => ?_⟩
  cases hold
  cases hnew
  exact fun _ _ hne => hne

/-- The chain moves between the two requests: the block at height 1 has a log and carries none. -/
theorem log_missed : ∃ fetched s,
    exec (fetchRangeWithRetry (forkProvider twoForks) ⟨1, 1⟩ twoAttempts)
        ⟨some smallBudget, [⟨plainChain, none⟩, ⟨loggedChain, none⟩]⟩ = (.ok fetched, s) ∧
      fetched.logs.map (fun block => (block.header.hash, block.logs)) = [(2, [])] ∧
      loggedFork.matching none = [forkLog] ∧ ¬ CarriesOwn twoForks none fetched := by
  have h : ((exec (fetchRangeWithRetry (forkProvider twoForks) ⟨1, 1⟩ twoAttempts)
      ⟨some smallBudget, [⟨plainChain, none⟩, ⟨loggedChain, none⟩]⟩).1.toOption.any fun fetched =>
        fetched.range = ⟨1, 1⟩ ∧
          fetched.logs.map (fun block => (block.header.hash, block.logs)) = [(2, [])]) = true := by
    decide +kernel
  cases hrun : exec (fetchRangeWithRetry (forkProvider twoForks) ⟨1, 1⟩ twoAttempts)
      ⟨some smallBudget, [⟨plainChain, none⟩, ⟨loggedChain, none⟩]⟩ with
  | mk r s =>
    rw [hrun] at h
    cases r with
    | error e => cases h
    | ok fetched =>
      obtain ⟨hrange, hlogs⟩ := of_decide_eq_true h
      refine ⟨fetched, s, rfl, hlogs, rfl, fun hown => ?_⟩
      obtain ⟨block, hmem, hblock⟩ : ∃ block ∈ fetched.logs,
          (block.header.hash, block.logs) = ((2 : BlockHash), ([] : List RawLog)) := by
        have hin : ((2 : BlockHash), ([] : List RawLog)) ∈
            fetched.logs.map fun block => (block.header.hash, block.logs) := by
          rw [hlogs]
          simp
        exact List.mem_map.1 hin
      obtain ⟨hhash, hnil⟩ := Prod.mk.inj hblock
      obtain ⟨anchored, hanchored, hraw⟩ := hown block hmem loggedFork (by rw [hhash]; rfl)
      rw [hrange] at hanchored
      cases hanchored
      rw [hnil] at hraw
      cases hraw

end Chainweave.Fetch
