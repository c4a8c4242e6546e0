import Chainweave.Cli.LiveSource
import Chainweave.Cli.OwnLogs

/-!
# One block, fetched twice

`fetch_range_with_retry` asks for the logs of a height range and hangs each below the
block of its height; `RpcLiveSource` asks for the logs of one block's hash. Different
requests, converters and checks, and no data may depend on which of them ran.

* `StableNode`: a chain that stays, with the logs of each block; `Serves` is a provider
  whose answers are that node's, whatever else fails.
* `Converted`: what both converters make of a log.
* `own_height`: a log that both paths let through names the height of its block.
* `same_blocks`: what both return, at every height of the range, is the same block with
  the same logs; their order is left to the node.
-/
namespace Chainweave.Fetch

open Stateful Chainweave.Chain Chainweave.Backfill Chainweave.Postgres Chainweave.Rpc
  Chainweave.Runtime

variable {σ : Type}

/-- A chain by height, and the logs by block; a hash names one block. -/
structure StableNode where
  block : Nat → Option RpcBlock
  logs : BlockHash → List RpcLog
  hash_unique : ∀ m n a b, block m = some a → block n = some b → a.hash = b.hash → a = b

namespace StableNode

/-- The logs of the block at a height. -/
def logsAt (node : StableNode) (height : Nat) : List RpcLog :=
  (node.block height).elim [] (node.logs ·.hash)

/-- Every answer is the node's: logs by range are those of the blocks in it, in any order. -/
structure Serves (node : StableNode) (provider : LiveProvider σ) : Prop where
  getLogs : ∀ range,
    Returns (List.Perm (range.heights.flatMap node.logsAt)) (provider.getLogs range none)
  getBlocks : ∀ range, Returns (range.heights.map node.block = ·) (provider.getBlocks range)
  getBlockByNumber : ∀ height, Returns (node.block height = ·) (provider.getBlockByNumber height)
  getLogsByBlockHash : ∀ hash,
    Returns (List.Perm (node.logs hash)) (provider.getLogsByBlockHash hash none)

end StableNode

/-- The same block: the logs as a multiset, decoder columns included. -/
structure SameIndexed (a b : IndexedBlock) : Prop where
  header : a.header = b.header
  timestamp : a.timestamp = b.timestamp
  status : a.status = b.status
  statusSource : a.statusSource = b.statusSource
  logs : a.logs.Perm b.logs

/-! ## The two converters -/

/-- What both converters make of a log. -/
structure Converted (log : RpcLog) (raw : RawLog) : Prop where
  transactionIndex : log.transactionIndex = some raw.transactionIndex
  logIndex : log.logIndex = some raw.logIndex
  transactionHash : log.transactionHash = some raw.txHash
  address : log.address = raw.address
  topics : log.topics = raw.topics
  data : log.data = raw.data
  decodedEvent : raw.decodedEvent = none
  decoderVersion : raw.decoderVersion = none

theorem Converted.unique : Relator.RightUnique Converted := by
  intro log a b ha hb
  obtain ⟨_, _, _, _, _, _, _, _⟩ := a
  obtain ⟨_, _, _, _, _, _, _, _⟩ := b
  simp only [RawLog.mk.injEq]
  exact ⟨Option.some.inj (ha.transactionIndex.symm.trans hb.transactionIndex),
    Option.some.inj (ha.logIndex.symm.trans hb.logIndex),
    Option.some.inj (ha.transactionHash.symm.trans hb.transactionHash),
    ha.address.symm.trans hb.address, ha.topics.symm.trans hb.topics, ha.data.symm.trans hb.data,
    ha.decodedEvent.trans hb.decodedEvent.symm, ha.decoderVersion.trans hb.decoderVersion.symm⟩

theorem requiredU32_ok {value : Option Nat} {field : String} {n : Nat}
    (h : requiredU32 value field = .ok n) : value = some n := by
  unfold requiredU32 at h
  split at h
  · cases h
  · split at h <;> cases h
    rfl

theorem anchored_converted {range : BackfillRange} {log : RpcLog} {anchored : AnchoredRawLog}
    (h : anchoredRawLogFromRpc range log = .ok anchored) :
    range.contains anchored.blockNumber ∧ Converted log anchored.raw := by
  unfold anchoredRawLogFromRpc at h
  split at h
  · cases h
  obtain ⟨number, -, h⟩ := ok_bind.1 h
  split at h
  · cases h
  rename_i hin
  obtain ⟨_, hindex, h⟩ := ok_bind.1 h
  obtain ⟨_, hlogIndex, h⟩ := ok_bind.1 h
  obtain ⟨_, -, h⟩ := ok_bind.1 h
  obtain ⟨_, htx, h⟩ := ok_bind.1 h
  cases h
  exact ⟨not_not.1 hin, requiredU32_ok hindex, requiredU32_ok hlogIndex, requiredField_ok.1 htx, rfl,
    rfl, rfl, rfl, rfl⟩

theorem blockHash_converted {hash : BlockHash} {log : RpcLog} {raw : RawLog}
    (h : rawLogFromRpcBlockHash hash log = .ok raw) :
    log.blockHash = some hash ∧ Converted log raw := by
  unfold rawLogFromRpcBlockHash at h
  split at h
  · cases h
  obtain ⟨blockHash, hhash, h⟩ := ok_bind.1 h
  split at h
  · cases h
  rename_i hsame
  obtain ⟨_, hindex, h⟩ := ok_bind.1 h
  obtain ⟨_, hlogIndex, h⟩ := ok_bind.1 h
  obtain ⟨_, htx, h⟩ := ok_bind.1 h
  cases h
  refine ⟨?_, requiredU32_ok hindex, requiredU32_ok hlogIndex, requiredField_ok.1 htx, rfl, rfl, rfl,
    rfl, rfl⟩
  rw [requiredField_ok.1 hhash, not_not.1 hsame]

/-- Converted either way, the same logs stay the same logs. -/
theorem converted_perm {range : BackfillRange} {hash : BlockHash} {ranged hashed : List RpcLog}
    {anchored : List AnchoredRawLog} {raws : List RawLog} (hperm : ranged.Perm hashed)
    (hanchored : ranged.mapM (anchoredRawLogFromRpc range) = .ok anchored)
    (hraws : hashed.mapM (rawLogFromRpcBlockHash hash) = .ok raws) :
    (anchored.map (·.raw)).Perm raws := by
  refine List.rel_perm_imp Converted.unique ?_ ?_ hperm
  · rw [List.forall₂_map_right_iff]
    exact mapM_forall₂ hanchored fun _ _ h => (anchored_converted h).2
  · exact mapM_forall₂ hraws fun _ _ h => (blockHash_converted h).2

theorem decodeLogs_perm {registry : Option AbiRegistry} {a b : List RawLog} (h : a.Perm b) :
    (decodeLogs registry a).Perm (decodeLogs registry b) := by
  unfold decodeLogs
  cases registry with
  | none => exact h
  | some registry => exact h.map _

/-! ## What the two paths are made of -/

section
variable {node : StableNode} {provider : LiveProvider σ} {range : BackfillRange}
  {config : AdaptiveFetchConfig}

/-- A range is made of one answer for its logs and one for its blocks. -/
theorem fetchRange_returns {L : List AnchoredRawLog → Prop} {B : List IndexedBlock → Prop}
    {provider : Provider σ} (hlogs : Returns L (provider.fetchAnchoredLogs range config.filter))
    (hblocks : Returns B (provider.fetchBlocksByNumber range)) :
    Returns (fun fetched => ∃ logs blocks, L logs ∧ B blocks ∧
        attachLogs config.abiRegistry blocks (logsByHeight logs) = .ok fetched.logs ∧
        fetched.range = range ∧ fetched.headers = fetched.logs.map (·.header))
      (fetchRangeWithRetry provider range config) := by
  have hretry : ∀ {β : Type} {P : β → Prop} {phase spend stop left} {call : Prog σ CallError β},
      (∀ s, wp spend (fun _ _ => True) (fun e _ => e.About range) s) → Returns P call →
      Returns P (withRetry config.retryPolicy range phase spend call stop left 1) := by
    intro β P phase spend stop left call hspend hcall s
    refine wp_mono (withRetry_wp (J := fun _ => True) (Q := fun a _ => P a) (fun s _ => hspend s)
      (fun node _ => wp_mono (hcall node) (fun _ _ h => h) fun _ _ _ _ => trivial) trivial)
      (fun _ _ h => h) fun _ _ _ => trivial
  refine .bind (hretry (fun s => record_wp (J := fun _ => True) trivial) hlogs) fun logs hL => ?_
  refine .bind (hretry (fun s => recordEach_wp (J := fun _ => True) trivial) hblocks)
    fun blocks hB => ?_
  refine .bind (.lift (P := fun out =>
    attachLogs config.abiRegistry blocks (logsByHeight logs) = .ok out) fun _ h => h)
    fun out hout => .lift fun fetched hfetched => ?_
  obtain ⟨hrange, hheaders, hlogs⟩ := FetchedRange.new_ok (mapError_ok.1 hfetched)
  exact ⟨logs, blocks, hL, hB, by rw [hlogs, hout], hrange, by rw [hheaders, hlogs]⟩

theorem StableNode.Serves.anchoredLogs (h : node.Serves provider) :
    Returns (fun logs => ∃ answer, (range.heights.flatMap node.logsAt).Perm answer ∧
        answer.mapM (anchoredRawLogFromRpc range) = .ok logs)
      (provider.fetchAnchoredLogs range none) :=
  .bind (h.getLogs range) fun answer hanswer =>
    .lift fun _ hlogs => ⟨answer, hanswer, mapError_ok.1 hlogs⟩

theorem StableNode.Serves.blocksByNumber (h : node.Serves provider) :
    Returns (fun blocks => ∃ rpcBlocks : List RpcBlock,
        range.heights.map node.block = rpcBlocks.map some ∧
        rpcBlocks.mapM (indexedBlockFromRpc · []) = .ok blocks)
      (provider.fetchBlocksByNumber range) := by
  refine .bind (h.getBlocks range) fun answer hanswer => ?_
  refine .bind (.lift (P := fun rpcBlocks => answer = List.map some rpcBlocks) fun rpcBlocks hrequire =>
    requireBlocks_ok (mapError_ok.1 hrequire)) fun rpcBlocks hrpc => ?_
  exact .lift fun blocks hblocks => ⟨rpcBlocks, hanswer.trans hrpc, mapError_ok.1 hblocks⟩

/-- What the live path makes of a block's logs. -/
def HashedLogs (node : StableNode) (hash : BlockHash) (raws : List RawLog) : Prop :=
  ∃ answer, (node.logs hash).Perm answer ∧ answer.mapM (rawLogFromRpcBlockHash hash) = .ok raws

theorem StableNode.Serves.logsByBlockHash (h : node.Serves provider) (hash : BlockHash) :
    Returns (HashedLogs node hash) (provider.fetchLogsByBlockHash hash none) :=
  .bind (.mapError (h.getLogsByBlockHash hash)) fun answer hanswer =>
    .lift fun _ hraws => ⟨answer, hanswer, mapError_ok.1 hraws⟩

/-- What live tracking makes of a block: its header fields, and its logs by its hash. -/
def LiveBlock (node : StableNode) (registry : Option AbiRegistry) (b : RpcBlock)
    (indexed : IndexedBlock) : Prop :=
  ∃ bare raws, indexedBlockFromRpc b [] = .ok bare ∧ HashedLogs node b.hash raws ∧
    indexed = { bare with logs := decodeLogs registry raws }

theorem request_returns {α : Type} {P : α → Prop} {live : RpcLiveClient σ} {timeoutError : RpcError}
    {operation : Prog σ CallError α} (h : Returns P operation) :
    Returns P (live.request timeoutError operation) :=
  .mapError (.zoom (retryRpcRequest_returns h))

theorem blockByNumber_returns {live : RpcLiveClient σ} (h : node.Serves live.client)
    (hfilter : live.config.filter = none) (height : Nat) :
    Returns (fun indexed => ∃ b, node.block height = some b ∧
        LiveBlock node live.config.abiRegistry b indexed)
      (live.blockByNumber height) := by
  refine .bind .any fun _ _ => ?_
  refine .bind (P := fun bare => ∃ b, node.block height = some b ∧ indexedBlockFromRpc b [] = .ok bare)
    (request_returns (.bind (h.getBlockByNumber height) fun answer hanswer => ?_)) fun bare hbare => ?_
  · cases answer with
    | none => exact .throw _
    | some b => exact .lift fun bare hbare => ⟨b, hanswer, mapError_ok.1 hbare⟩
  obtain ⟨b, hb, hbare⟩ := hbare
  have hhash : bare.header.hash = b.hash := by rw [indexedBlock_header hbare]; rfl
  refine .bind .any fun _ _ => ?_
  rw [hhash, hfilter]
  refine .bind (request_returns (h.logsByBlockHash b.hash)) fun raws hraws => ?_
  exact .pure ⟨b, hb, bare, raws, hbare, hraws, rfl⟩

end

/-- Two answers of live tracking for one block. -/
theorem LiveBlock.same {node : StableNode} {registry : Option AbiRegistry} {b : RpcBlock}
    {x y : IndexedBlock} (hx : LiveBlock node registry b x) (hy : LiveBlock node registry b y) :
    SameIndexed x y := by
  obtain ⟨bare, raws, hbare, ⟨answer, hanswer, hraws⟩, rfl⟩ := hx
  obtain ⟨bare', raws', hbare', ⟨answer', hanswer', hraws'⟩, rfl⟩ := hy
  cases Except.ok.inj (hbare.symm.trans hbare')
  refine ⟨rfl, rfl, rfl, rfl, decodeLogs_perm ?_⟩
  refine List.rel_perm_imp Converted.unique ?_ ?_ (hanswer.symm.trans hanswer')
  · exact mapM_forall₂ hraws fun _ _ h => (blockHash_converted h).2
  · exact mapM_forall₂ hraws' fun _ _ h => (blockHash_converted h).2

/-! ## The same block -/

section
variable {node : StableNode} {range : BackfillRange}

/-- A range with as many blocks as it asked for. -/
theorem range_heights (h : range.len = range.heights.length) :
    List.range' range.fromBlock range.len = range.heights := by
  rw [h, BackfillRange.heights, List.length_range']

/-- The blocks of a fetched range, one for each height it asked for, have these heights. -/
theorem fetched_heights {registry : Option AbiRegistry}
    {grouped : Std.TreeMap Nat (List AnchoredRawLog)} {blocks out : List IndexedBlock}
    {fetched : FetchedRange IndexedBlock} (hattach : attachLogs registry blocks grouped = .ok out)
    (hrange : fetched.range = range) (hheaders : fetched.headers = out.map (·.header))
    (hcount : blocks.length = range.heights.length) :
    blocks.map (·.header.height) = range.heights := by
  have hall := fetched.map_height
  rw [hheaders, attachLogs_header hattach, List.map_map, hrange] at hall
  refine hall.trans (range_heights ?_)
  have hnumbers := congrArg List.length hall
  simp only [List.length_map, List.length_range'] at hnumbers
  exact hnumbers.symm.trans hcount

/-- The blocks of a fetched range are the chain's, each at its height. -/
theorem chain_block {rpcBlocks : List RpcBlock} {blocks : List IndexedBlock}
    (hblocks : rpcBlocks.mapM (indexedBlockFromRpc · []) = .ok blocks)
    (hrpc : (blocks.map (·.header.height)).map node.block = rpcBlocks.map some) :
    ∀ block ∈ blocks, ∃ b, node.block block.header.height = some b ∧
      indexedBlockFromRpc b [] = .ok block := by
  induction rpcBlocks generalizing blocks with
  | nil => cases hblocks; simp
  | cons b rpcBlocks ih =>
    rw [List.mapM_cons, ok_bind] at hblocks
    obtain ⟨block, hblock, hblocks⟩ := hblocks
    obtain ⟨rest, hrest, hblocks⟩ := ok_bind.1 hblocks
    cases hblocks
    obtain ⟨hhead, htail⟩ := List.cons.inj hrpc
    intro block' hmem
    cases List.mem_cons.1 hmem with
    | inl heq => exact ⟨b, heq ▸ hhead, heq ▸ hblock⟩
    | inr hmem => exact ih hrest htail block' hmem

/-- Both paths let the logs at a height through: to the range path they are at a height whose block
has their hash, to the live path they are of the block's hash. -/
structure LetThrough (node : StableNode) (logs : List AnchoredRawLog) (height : Nat) (b : RpcBlock) :
    Prop where
  block : node.block height = some b
  number : b.number = height
  ranged : ∀ log ∈ logs.filter (·.blockNumber = height), log.blockHash = b.hash
  hashed : ∀ log ∈ node.logs b.hash, log.blockHash = some b.hash

/-- **A log names its own height**, though no check of either path says so alone. -/
theorem own_height {answer : List RpcLog} {logs : List AnchoredRawLog}
    (hanswer : (range.heights.flatMap node.logsAt).Perm answer)
    (hlogs : answer.mapM (anchoredRawLogFromRpc range) = .ok logs)
    (hpass : ∀ height ∈ range.heights, ∃ b, LetThrough node logs height b) :
    ∀ height ∈ range.heights, ∀ log ∈ node.logsAt height, log.blockNumber = some height := by
  intro height hheight log hlog
  obtain ⟨b, hb⟩ := hpass height hheight
  have hown : log.blockHash = some b.hash := by
    refine hb.hashed log ?_
    unfold StableNode.logsAt at hlog
    rw [hb.block] at hlog
    exact hlog
  obtain ⟨anchored, hanchored, hconv⟩ :=
    mapM_mem_left hlogs (hanswer.subset (List.mem_flatMap.2 ⟨height, hheight, hlog⟩))
  obtain ⟨hnumber, hhash, -, -⟩ := anchored_ok hconv
  -- The block at the height it names has its hash, so it is the same block.
  obtain ⟨b', hb'⟩ := hpass anchored.blockNumber (mem_heights.2 (anchored_converted hconv).1)
  have hhash' : b'.hash = b.hash := by
    rw [← hb'.ranged anchored (List.mem_filter.2 ⟨hanchored, by simp⟩), ← Option.some.injEq, ← hhash,
      hown]
  have hsame := node.hash_unique _ _ _ _ hb'.block hb.block hhash'
  rw [hnumber, ← hb'.number, hsame, hb.number]

/-- What a range carries at a height is what live tracking carries there. -/
theorem same_logs {answer : List RpcLog} {logs : List AnchoredRawLog} {raws : List RawLog}
    {height : Nat} {b : RpcBlock} (hanswer : (range.heights.flatMap node.logsAt).Perm answer)
    (hlogs : answer.mapM (anchoredRawLogFromRpc range) = .ok logs)
    (hpass : ∀ height ∈ range.heights, ∃ b, LetThrough node logs height b)
    (hheight : height ∈ range.heights) (hb : node.block height = some b)
    (hraws : HashedLogs node b.hash raws) :
    ((logs.filter (·.blockNumber = height)).map (·.raw)).Perm raws := by
  obtain ⟨hashed, hhashed, hraws⟩ := hraws
  have hown := own_height hanswer hlogs hpass
  have hat : (answer.filter (·.blockNumber = some height)).mapM (anchoredRawLogFromRpc range) =
      .ok (logs.filter (·.blockNumber = height)) :=
    mapM_filter hlogs fun log anchored hconv => by rw [(anchored_ok hconv).1]; simp
  have hfilter : (range.heights.flatMap node.logsAt).filter (·.blockNumber = some height) =
      node.logsAt height := by
    refine filter_flatMap_own List.nodup_range' hheight fun n hn log hlog => ?_
    rw [hown n hn log hlog]
    simp
  have hlogsAt : node.logsAt height = node.logs b.hash := by
    unfold StableNode.logsAt
    rw [hb]
    rfl
  have hperm : (answer.filter (·.blockNumber = some height)).Perm hashed := by
    refine (hanswer.filter _).symm.trans ?_
    rw [hfilter, hlogsAt]
    exact hhashed
  exact converted_perm hperm hat hraws

end

/-- **Backfill and live tracking index a block identically.** Over a node that stays, what a fetched
range has for its heights and what live tracking has for each are the same blocks. -/
theorem same_blocks (node : StableNode) (live : RpcLiveClient σ) (hserves : node.Serves live.client)
    (range : BackfillRange) (config : AdaptiveFetchConfig)
    (hregistry : config.abiRegistry = live.config.abiRegistry) (hfilter : config.filter = none)
    (hlive : live.config.filter = none) {fetched : FetchedRange IndexedBlock} {s s' : Shared σ}
    (hfetched : exec (fetchRangeWithRetry live.client.toProvider range config) s = (.ok fetched, s'))
    (indexed : Nat → IndexedBlock) (hindexed : ∀ height ∈ range.heights, ∃ t t',
      exec (live.blockByNumber height) t = (.ok (indexed height), t')) :
    List.Forall₂ SameIndexed fetched.logs (range.heights.map indexed) := by
  obtain ⟨logs, blocks, ⟨answer, hanswer, hlogs⟩, ⟨rpcBlocks, hrpc, hblocks⟩, hattach, hrange,
    hheaders⟩ := (fetchRange_returns (by rw [hfilter]; exact hserves.anchoredLogs)
      hserves.blocksByNumber).ok hfetched
  have hheights : blocks.map (·.header.height) = range.heights := by
    refine fetched_heights hattach hrange hheaders ?_
    have hcount := (mapM_forall₂ hblocks fun _ _ h => h).length_eq
    have hasked := congrArg List.length hrpc
    simp only [List.length_map] at hasked
    omega
  obtain ⟨hout, hranged⟩ := attachLogs_ok (by rw [hheights]; exact List.nodup_range') hattach
  rw [← hheights] at hrpc
  have hchain := chain_block hblocks hrpc
  have hboth : ∀ block ∈ blocks, ∃ b, LetThrough node logs block.header.height b ∧
      indexedBlockFromRpc b [] = .ok block ∧
      LiveBlock node live.config.abiRegistry b (indexed block.header.height) := by
    intro block hmem
    obtain ⟨b, hb, hblock⟩ := hchain block hmem
    obtain ⟨t, t', hrun⟩ := hindexed block.header.height
      (hheights ▸ List.mem_map.2 ⟨block, hmem, rfl⟩)
    obtain ⟨b', hb', hlive⟩ := (blockByNumber_returns hserves hlive _).ok hrun
    cases Option.some.inj (hb.symm.trans hb')
    have hheader := indexedBlock_header hblock
    refine ⟨b, ⟨hb, by rw [hheader]; rfl, fun log hlog => ?_, fun log hlog => ?_⟩, hblock, hlive⟩
    · rw [hranged block hmem log (by rw [getElem?_logsByHeight]; exact hlog), hheader]
      rfl
    · obtain ⟨bare, raws, -, ⟨hashed, hhashed, hraws⟩, -⟩ := hlive
      obtain ⟨raw, -, hconv⟩ := mapM_mem_left hraws (hhashed.subset hlog)
      exact (blockHash_converted hconv).1
  have hpass : ∀ height ∈ range.heights, ∃ b, LetThrough node logs height b := by
    intro height hheight
    rw [← hheights] at hheight
    obtain ⟨block, hmem, rfl⟩ := List.mem_map.1 hheight
    obtain ⟨b, hb, -⟩ := hboth block hmem
    exact ⟨b, hb⟩
  rw [hout, ← hheights, List.map_map, List.forall₂_map_left_iff, List.forall₂_map_right_iff,
    List.forall₂_same]
  intro block hmem
  obtain ⟨b, hb, hblock, bare, raws, hbare, hraws, heq⟩ := hboth block hmem
  cases Except.ok.inj (hblock.symm.trans hbare)
  rw [Function.comp_apply, heq]
  refine ⟨rfl, rfl, rfl, rfl, ?_⟩
  show (decodeLogs _ _).Perm (decodeLogs _ _)
  rw [getElem?_logsByHeight, hregistry]
  exact decodeLogs_perm (same_logs hanswer hlogs hpass
    (hheights ▸ List.mem_map.2 ⟨block, hmem, rfl⟩) hb.block hraws)

/-! ## Two blocks -/

/-- A provider that answers for a node, the logs of a range last block first; the state is the time. -/
def StableNode.provider (node : StableNode) : LiveProvider Nat where
  getLogs range _ := pure (range.heights.flatMap node.logsAt).reverse
  getBlocks range := pure (range.heights.map node.block)
  getBlockByNumber height := pure (node.block height)
  getBlockByHash _ := pure none
  getLogsByBlockHash hash _ := pure (node.logs hash)

theorem StableNode.provider_serves (node : StableNode) : node.Serves node.provider where
  getLogs _ := .pure (List.reverse_perm _).symm
  getBlocks _ := .pure rfl
  getBlockByNumber _ := .pure rfl
  getLogsByBlockHash _ := .pure (List.Perm.refl _)

def nodeLog (hash : BlockHash) (number index : Nat) : RpcLog where
  blockHash := some hash
  blockNumber := some number
  transactionHash := some 7
  transactionIndex := some 0
  logIndex := some index
  address := 0
  topics := [5]
  data := []
  removed := false

/-- Two blocks, the first with two logs. -/
def twoBlocks : StableNode where
  block height :=
    if height = 1 then some ⟨11, 10, 1, 100⟩ else if height = 2 then some ⟨12, 11, 2, 112⟩ else none
  logs hash :=
    if hash = 11 then [nodeLog 11 1 0, nodeLog 11 1 1] else if hash = 12 then [nodeLog 12 2 0] else []
  hash_unique m n a b ha hb h := by
    grind

/-- A registry with one event, whose version is a decoder column. -/
def oneEvent : AbiRegistry where
  contracts _ := some { decoderVersion := "v1", events := [⟨5, fun _ _ => some "null"⟩] }

def twoBlocksLive : RpcLiveClient Nat where
  client := twoBlocks.provider
  config := { retryPolicy := twoAttempts.retryPolicy, filter := none, abiRegistry := some oneEvent }
  clock := { now := id, sleep := fun delay now => now + delay, sleep_le := by simp }
  rounds := 2

/-- A source whose window is full, so that its first request sleeps. -/
def spentSource : LiveSourceState Nat where
  budget := {
    maxCostUnits := 10
    window := 60
    startedAt := 0
    budget := ⟨u64Max, 10, 4, 10, by decide, by decide, by decide, Nat.le_refl _⟩
    window_pos := by decide }
  node := 1

theorem same_blocks_two : ∃ fetched s indexed,
    exec (fetchRangeWithRetry twoBlocks.provider.toProvider ⟨1, 2⟩
        { twoAttempts with abiRegistry := some oneEvent }) ⟨some smallBudget, 0⟩ = (.ok fetched, s) ∧
      (∀ height ∈ [1, 2], ∃ t,
        exec (twoBlocksLive.blockByNumber height) spentSource = (.ok (indexed height), t)) ∧
      List.Forall₂ SameIndexed fetched.logs ([1, 2].map indexed) := by
  obtain ⟨fetched, s, hfetched⟩ := exec_ok_of_isSome
    (x := fetchRangeWithRetry twoBlocks.provider.toProvider ⟨1, 2⟩
      { twoAttempts with abiRegistry := some oneEvent })
    (s := ⟨some smallBudget, 0⟩) (by decide +kernel)
  obtain ⟨first, t₁, hfirst⟩ := exec_ok_of_isSome
    (x := twoBlocksLive.blockByNumber 1) (s := spentSource) (by decide +kernel)
  obtain ⟨second, t₂, hsecond⟩ := exec_ok_of_isSome
    (x := twoBlocksLive.blockByNumber 2) (s := spentSource) (by decide +kernel)
  have hindexed : ∀ height ∈ [1, 2], ∃ t, exec (twoBlocksLive.blockByNumber height) spentSource =
      (.ok (if height = 1 then first else second), t) := by
    intro height hheight
    rcases List.mem_cons.1 hheight with rfl | hheight
    · exact ⟨t₁, hfirst⟩
    · rw [List.mem_singleton.1 hheight]
      exact ⟨t₂, hsecond⟩
  refine ⟨fetched, s, fun height => if height = 1 then first else second, hfetched, hindexed, ?_⟩
  refine same_blocks twoBlocks twoBlocksLive twoBlocks.provider_serves ⟨1, 2⟩
    { twoAttempts with abiRegistry := some oneEvent } rfl rfl rfl hfetched _ fun height hheight => ?_
  obtain ⟨t, ht⟩ := hindexed height hheight
  exact ⟨spentSource, t, ht⟩

end Chainweave.Fetch
