import Chainweave.Cli.SameBlocks

/-!
# No log is lost on the way to its block

Two copies of one step: `fetch_range_with_retry` and `fetch_backfill_range_from_logs`
group the logs of a range by the height they name, and take them out by the height of
a block.

* `placed_perm`: over blocks at the heights of the range, what is taken out is all that
  was put in.
* `blocksFromLogs_ok`: the client's loop, where every height is answered.
-/
namespace Chainweave.Fetch

open Stateful Chainweave.Chain Chainweave.Backfill Chainweave.Postgres Chainweave.Rpc

variable {σ : Type}

/-- Grouped by keys that cover all elements, every element is in one group. -/
theorem perm_flatMap_filter {α κ : Type} [DecidableEq κ] {f : α → κ} :
    ∀ {keys : List κ} {xs : List α}, keys.Nodup → (∀ x ∈ xs, f x ∈ keys) →
      (keys.flatMap fun key => xs.filter (f · = key)).Perm xs
  | [], xs, _, hmem => by
    cases xs with
    | nil => exact .nil
    | cons x xs => exact absurd (hmem x (by simp)) List.not_mem_nil
  | key :: keys, xs, hnodup, hmem => by
    rw [List.nodup_cons] at hnodup
    have hrest : (keys.flatMap fun k => xs.filter (f · = k)) =
        keys.flatMap fun k => (xs.filter fun x => !decide (f x = key)).filter (f · = k) := by
      refine List.flatMap_congr fun k hk => ?_
      rw [List.filter_filter]
      refine List.filter_congr fun x _ => ?_
      have hne : k ≠ key := fun heq => hnodup.1 (heq ▸ hk)
      by_cases hx : f x = k
      · simp [hx, hne]
      · simp [hx]
    rw [List.flatMap_cons, hrest]
    refine ((perm_flatMap_filter hnodup.2 fun x hx => ?_).append_left _).trans
      (List.filter_append_perm _ _)
    obtain ⟨hin, hne⟩ := List.mem_filter.1 hx
    simp only [Bool.not_eq_true', decide_eq_false_iff_not] at hne
    exact (List.mem_cons.1 (hmem x hin)).resolve_left hne

/-! ## Where the logs are -/

/-- The logs of a block, each with the height and hash of the block, and its raw fields. -/
def placed (block : IndexedBlock) : List (Nat × BlockHash × RawLog) :=
  block.logs.map fun log => (block.header.height, block.header.hash, log.raw)

/-- The height and hash a log names, and its raw fields. -/
def named (log : AnchoredRawLog) : Nat × BlockHash × RawLog :=
  (log.blockNumber, log.blockHash, log.raw.raw)

section
variable {registry : Option AbiRegistry} {logs : List AnchoredRawLog} {block : IndexedBlock}
  {blocks : List IndexedBlock}

/-- A block has the logs that name it. -/
theorem placed_attached
    (hown : ∀ log ∈ logs.filter (·.blockNumber = block.header.height),
      log.blockHash = block.header.hash) :
    placed (attached registry (logsByHeight logs) block) =
      (logs.filter (·.blockNumber = block.header.height)).map named := by
  have hraw : ∀ logs : List RawLog, logs.map (fun log =>
      (block.header.height, block.header.hash, log.raw)) =
        (logs.map RawLog.raw).map ((block.header.height, block.header.hash, ·)) := by
    intro logs
    rw [List.map_map]
    rfl
  show (decodeLogs registry _).map (fun log => (block.header.height, block.header.hash, log.raw)) = _
  rw [getElem?_logsByHeight, hraw, decodeLogs_raw, List.map_map, List.map_map]
  refine List.map_congr_left fun log hlog => ?_
  have hnumber : log.blockNumber = block.header.height := by
    simpa using (List.mem_filter.1 hlog).2
  rw [named, hnumber, hown log hlog]
  rfl

/-- **Every log is in one block**, the one whose height and hash it names. -/
theorem placed_perm (hnodup : (blocks.map (·.header.height)).Nodup)
    (hnumbers : ∀ log ∈ logs, log.blockNumber ∈ blocks.map (·.header.height))
    (hown : ∀ block ∈ blocks, ∀ log ∈ logs.filter (·.blockNumber = block.header.height),
      log.blockHash = block.header.hash) :
    ((blocks.map (attached registry (logsByHeight logs))).flatMap placed).Perm (logs.map named) := by
  have hgroups : (blocks.map (attached registry (logsByHeight logs))).flatMap placed =
      ((blocks.map (·.header.height)).flatMap fun height =>
        logs.filter (·.blockNumber = height)).map named := by
    rw [List.flatMap_map, List.map_flatMap, List.flatMap_map]
    exact List.flatMap_congr fun block hmem => placed_attached (hown block hmem)
  rw [hgroups]
  exact (perm_flatMap_filter hnodup hnumbers).map named

end

/-! ## The client -/

theorem sortLogs_perm (logs : List AnchoredRawLog) : (LiveProvider.sortLogs logs).Perm logs :=
  List.mergeSort_perm _ _

/-- The client's groups are those of the command line, each sorted. -/
theorem client_logsByHeight {range : BackfillRange} {logs : List AnchoredRawLog}
    (hin : ∀ log ∈ logs, range.contains log.blockNumber) :
    LiveProvider.logsByHeight logs range =
      .ok ((logsByHeight logs).map fun _ logs => LiveProvider.sortLogs logs) := by
  have hfold : ∀ grouped : Std.TreeMap Nat (List AnchoredRawLog),
      logs.foldlM (fun (grouped : Std.TreeMap Nat (List AnchoredRawLog)) log =>
          if ¬ range.contains log.blockNumber then
            Except.error (RpcError.logOutsideRange log.blockNumber range.fromBlock range.toBlock)
          else
            Except.ok (grouped.insert log.blockNumber (grouped[log.blockNumber]?.getD [] ++ [log])))
        grouped =
      Except.ok (logs.foldl (fun grouped log =>
        grouped.insert log.blockNumber (grouped[log.blockNumber]?.getD [] ++ [log])) grouped) := by
    induction logs with
    | nil => intro grouped; rfl
    | cons log logs ih =>
      intro grouped
      rw [List.foldlM_cons, if_neg (not_not.2 (hin log (by simp)))]
      exact ih (fun l hl => hin l (List.mem_cons_of_mem _ hl)) _
  unfold LiveProvider.logsByHeight
  rw [hfold]
  rfl

theorem getElem?_clientGroups (logs : List AnchoredRawLog) (height : Nat) :
    ((logsByHeight logs).map fun _ logs => LiveProvider.sortLogs logs)[height]?.getD [] =
      LiveProvider.sortLogs (logs.filter (·.blockNumber = height)) := by
  rw [Std.TreeMap.getElem?_map, ← getElem?_logsByHeight]
  cases (logsByHeight logs)[height]? with
  | none => simp [LiveProvider.sortLogs]
  | some logs => rfl

theorem indexedBlock_logs {block : RpcBlock} {indexed : IndexedBlock}
    (h : indexedBlockFromRpc block [] = .ok indexed) (logs : List RawLog) :
    indexedBlockFromRpc block logs = .ok { indexed with logs } := by
  unfold indexedBlockFromRpc at h ⊢
  split at h
  · cases h
  · rename_i hle
    cases h
    rw [if_neg hle]

/-- **The client's loop**, where every height is answered, and every block's hash is that of its logs. -/
theorem blocksFromLogs_ok (self : LiveProvider σ) {answer : Nat → Option RpcBlock} :
    ∀ {rpcBlocks : List RpcBlock} {blocks : List IndexedBlock}
      {grouped : Std.TreeMap Nat (List AnchoredRawLog)} (s : σ),
      rpcBlocks.mapM (indexedBlockFromRpc · []) = .ok blocks →
      (blocks.map (·.header.height)).map answer = rpcBlocks.map some →
      (blocks.map (·.header.height)).Nodup →
      (∀ height ∈ blocks.map (·.header.height), ∀ s, ∃ s',
        exec (self.getBlockByNumber height) s = (.ok (answer height), s')) →
      (∀ block ∈ blocks, ∀ log ∈ grouped[block.header.height]?.getD [],
        log.blockHash = block.header.hash) →
      ∃ s', exec (self.blocksFromLogs (blocks.map (·.header.height)) grouped) s =
        (.ok (blocks.map (attached none grouped)), s')
  | [], blocks, grouped, s, hblocks, _, _, _, _ => by
    cases hblocks
    exact ⟨s, rfl⟩
  | rpcBlock :: rpcBlocks, out, grouped, s, hblocks, hasked, hnodup, hanswers, hown => by
    rw [List.mapM_cons, ok_bind] at hblocks
    obtain ⟨block, hblock, hblocks⟩ := hblocks
    obtain ⟨blocks, hrest, hblocks⟩ := ok_bind.1 hblocks
    cases hblocks
    have hheader := indexedBlock_header hblock
    simp only [List.map_cons, List.cons.injEq, List.nodup_cons] at hasked hnodup
    obtain ⟨s₁, hget⟩ := hanswers block.header.height (by simp) s
    -- What was taken for this block is not looked at again.
    have hkept : ∀ block' ∈ blocks, (grouped.erase block.header.height)[block'.header.height]? =
        grouped[block'.header.height]? := by
      intro block' hmem
      rw [Std.TreeMap.getElem?_erase, if_neg]
      intro heq
      exact hnodup.1 (List.mem_map.2 ⟨block', hmem, (Std.LawfulEqCmp.eq_of_compare heq).symm⟩)
    obtain ⟨s₂, hloop⟩ := @blocksFromLogs_ok self answer rpcBlocks blocks
      (grouped.erase block.header.height) s₁ hrest hasked.2 hnodup.2
      (fun height hmem => hanswers height (List.mem_cons_of_mem _ hmem))
      (fun block' hmem => by
        rw [hkept block' hmem]
        exact hown block' (List.mem_cons_of_mem _ hmem))
    refine ⟨s₂, ?_⟩
    have hhash : ¬ (grouped[block.header.height]?.getD []).any
        (fun log => decide (log.blockHash ≠ (blockHeader rpcBlock).hash)) = true := by
      rw [List.any_eq_true]
      intro hex
      obtain ⟨log, hlog, hne⟩ := hex
      rw [← hheader] at hne
      exact of_decide_eq_true hne (hown block (by simp) log hlog)
    rw [List.map_cons, List.map_cons]
    unfold LiveProvider.blocksFromLogs
    rw [exec_bind, hget, hasked.1]
    dsimp only
    rw [if_neg hhash, exec_bind, indexedBlock_logs hblock, exec_lift]
    dsimp only [Except.mapError]
    rw [exec_bind, hloop]
    rw [List.map_congr_left fun block' hmem => show attached none (grouped.erase block.header.height)
      block' = attached none grouped block' by unfold attached; rw [hkept block' hmem]]
    rfl

/-! ## Both -/

/-- The raw fields and the place of a log are those it came with. -/
structure Kept (log : RpcLog) (anchored : AnchoredRawLog) : Prop where
  blockNumber : log.blockNumber = some anchored.blockNumber
  blockHash : log.blockHash = some anchored.blockHash
  raw : Converted log anchored.raw

section
variable {registry : Option AbiRegistry} {range : BackfillRange} {answer : Nat → Option RpcBlock}
  {rpcLogs : List RpcLog} {rpcBlocks : List RpcBlock} {logs : List AnchoredRawLog}
  {blocks out : List IndexedBlock} {fetched : FetchedRange IndexedBlock}

/-- **What the attachment leaves**: each block of the range with the logs that name it. -/
theorem attached_all (hlogs : rpcLogs.mapM (anchoredRawLogFromRpc range) = .ok logs)
    (hanswers : requireBlocks range.fromBlock (range.heights.map answer) = .ok rpcBlocks)
    (hblocks : rpcBlocks.mapM (indexedBlockFromRpc · []) = .ok blocks)
    (hattach : attachLogs registry blocks (logsByHeight logs) = .ok out)
    (hnew : FetchedRange.new range (out.map (·.header)) out = .ok fetched) :
    fetched.range = range ∧ blocks.map (·.header.height) = range.heights ∧
      fetched.headers = blocks.map (·.header) ∧
      fetched.logs = blocks.map (attached registry (logsByHeight logs)) ∧
      (∀ log ∈ logs, range.contains log.blockNumber) ∧
      ∀ block ∈ blocks, ∀ log ∈ logs.filter (·.blockNumber = block.header.height),
        log.blockHash = block.header.hash := by
  obtain ⟨hrange, hheaders, hout⟩ := FetchedRange.new_ok hnew
  have hasked := requireBlocks_ok hanswers
  have hheights : blocks.map (·.header.height) = range.heights := by
    refine fetched_heights hattach hrange hheaders ?_
    have hcount := (mapM_forall₂ hblocks fun _ _ h => h).length_eq
    have hlength := congrArg List.length hasked
    simp only [List.length_map] at hlength
    omega
  obtain ⟨hattached, hown⟩ := attachLogs_ok (by rw [hheights]; exact List.nodup_range') hattach
  refine ⟨hrange, hheights, by rw [hheaders, attachLogs_header hattach], by rw [hout, hattached],
    fun log hlog => ?_, fun block hmem log hlog => hown block hmem log ?_⟩
  · obtain ⟨rpcLog, -, hconv⟩ := mapM_mem hlogs hlog
    exact (anchored_converted hconv).1
  · rw [getElem?_logsByHeight]
    exact hlog

/-- Headers that were accepted once are accepted again. -/
theorem fetchedRange_again (fetched : FetchedRange IndexedBlock) {headers : List BlockHeader}
    (hrange : fetched.range = range) (hheaders : fetched.headers = headers)
    (blocks : List IndexedBlock) :
    ∃ again, FetchedRange.new range headers blocks = .ok again := by
  have hvalid := fetched.valid
  rw [hrange, hheaders] at hvalid
  exact FetchedRange.new_of_valid hvalid

/-- **What the client attaches**, of the same logs to the same blocks: the same, each block's sorted. -/
theorem client_all (hlogs : rpcLogs.mapM (anchoredRawLogFromRpc range) = .ok logs)
    (hanswers : requireBlocks range.fromBlock (range.heights.map answer) = .ok rpcBlocks)
    (hblocks : rpcBlocks.mapM (indexedBlockFromRpc · []) = .ok blocks)
    (hattach : attachLogs registry blocks (logsByHeight logs) = .ok out)
    (hnew : FetchedRange.new range (out.map (·.header)) out = .ok fetched) (self : LiveProvider σ)
    (hasked : ∀ height ∈ range.heights, ∀ s, ∃ s',
      exec (self.getBlockByNumber height) s = (.ok (answer height), s')) (s : σ) :
    ∃ again s', exec (self.fetchBackfillRangeFromLogs range logs) s = (.ok again, s') ∧
      again.range = range ∧ again.headers = fetched.headers ∧
      again.logs = blocks.map (attached none
        ((logsByHeight logs).map fun _ logs => LiveProvider.sortLogs logs)) := by
  obtain ⟨hrange, hheights, hheaders, -, hin, hown⟩ :=
    attached_all hlogs hanswers hblocks hattach hnew
  have hloop := @blocksFromLogs_ok σ self answer rpcBlocks blocks
    ((logsByHeight logs).map fun _ logs => LiveProvider.sortLogs logs) s hblocks
    (by rw [hheights]; exact requireBlocks_ok hanswers) (by rw [hheights]; exact List.nodup_range')
    (by rw [hheights]; exact hasked) (fun block hmem log hlog => by
      rw [getElem?_clientGroups, (sortLogs_perm _).mem_iff] at hlog
      exact hown block hmem log hlog)
  obtain ⟨s', hloop⟩ := hloop
  obtain ⟨again, hagain⟩ := fetchedRange_again fetched hrange hheaders
    (blocks.map (attached none ((logsByHeight logs).map fun _ logs => LiveProvider.sortLogs logs)))
  obtain ⟨hrange', hheaders', hout⟩ := FetchedRange.new_ok hagain
  refine ⟨again, s', ?_, hrange', by rw [hheaders', hheaders], hout⟩
  have hmap : (blocks.map (attached none
      ((logsByHeight logs).map fun _ logs => LiveProvider.sortLogs logs))).map (·.header) =
        blocks.map (·.header) := by
    rw [List.map_map]
    rfl
  unfold LiveProvider.fetchBackfillRangeFromLogs
  rw [exec_bind, client_logsByHeight hin, exec_lift]
  dsimp only [Except.mapError]
  rw [exec_bind, ← hheights, hloop]
  dsimp only
  rw [exec_lift, hmap, hagain]

/-- Of each block, the logs in some order. -/
theorem same_attached (blocks : List IndexedBlock) :
    List.Forall₂ (fun ours theirs =>
        SameIndexed ours { theirs with logs := decodeLogs registry theirs.logs })
      (blocks.map (attached registry (logsByHeight logs)))
      (blocks.map (attached none
        ((logsByHeight logs).map fun _ logs => LiveProvider.sortLogs logs))) := by
  rw [List.forall₂_map_left_iff, List.forall₂_map_right_iff, List.forall₂_same]
  intro block _
  refine ⟨rfl, rfl, rfl, rfl, ?_⟩
  have htheirs : (attached none ((logsByHeight logs).map fun _ logs => LiveProvider.sortLogs logs)
      block).logs = (LiveProvider.sortLogs
        (logs.filter (·.blockNumber = block.header.height))).map (·.raw) := by
    rw [← getElem?_clientGroups]
    rfl
  show (decodeLogs registry _).Perm (decodeLogs registry _)
  rw [htheirs, getElem?_logsByHeight]
  exact decodeLogs_perm ((sortLogs_perm _).symm.map _)

/-- **No log is dropped, duplicated or misplaced**: of the logs accepted for a range, with their raw
fields, each is in the fetched range once, in the block whose height and hash it names. And the client,
given these logs and the same blocks, succeeds with the same blocks, but for the order of the logs
in a block and for the decoder columns, which the registry fills. -/
theorem attachment_exact (hlogs : rpcLogs.mapM (anchoredRawLogFromRpc range) = .ok logs)
    (hanswers : requireBlocks range.fromBlock (range.heights.map answer) = .ok rpcBlocks)
    (hblocks : rpcBlocks.mapM (indexedBlockFromRpc · []) = .ok blocks)
    (hattach : attachLogs registry blocks (logsByHeight logs) = .ok out)
    (hnew : FetchedRange.new range (out.map (·.header)) out = .ok fetched) :
    List.Forall₂ Kept rpcLogs logs ∧ (fetched.logs.flatMap placed).Perm (logs.map named) ∧
    ∀ (self : LiveProvider σ), (∀ height ∈ range.heights, ∀ s, ∃ s',
        exec (self.getBlockByNumber height) s = (.ok (answer height), s')) → ∀ s, ∃ again s',
      exec (self.fetchBackfillRangeFromLogs range logs) s = (.ok again, s') ∧
        again.range = fetched.range ∧ again.headers = fetched.headers ∧
        List.Forall₂ (fun ours theirs =>
            SameIndexed ours { theirs with logs := decodeLogs registry theirs.logs })
          fetched.logs again.logs := by
  obtain ⟨hrange, hheights, -, hout, hin, hown⟩ :=
    attached_all hlogs hanswers hblocks hattach hnew
  refine ⟨?_, ?_, fun self hasked s => ?_⟩
  · refine mapM_forall₂ hlogs fun log anchored hconv => ?_
    obtain ⟨hnumber, hhash, -, -⟩ := anchored_ok hconv
    exact ⟨hnumber, hhash, (anchored_converted hconv).2⟩
  · rw [hout]
    refine placed_perm (by rw [hheights]; exact List.nodup_range') (fun log hlog => ?_) hown
    rw [hheights, mem_heights]
    exact hin log hlog
  · obtain ⟨again, s', hrun, hrange', hheaders', hlogs'⟩ :=
      client_all hlogs hanswers hblocks hattach hnew self hasked s
    refine ⟨again, s', hrun, hrange'.trans hrange.symm, hheaders', ?_⟩
    rw [hout, hlogs']
    exact same_attached blocks

end

/-! ## One block with one log -/

def oneLog : AnchoredRawLog where
  blockNumber := 2
  blockHash := 12
  raw := {
    transactionIndex := 0
    logIndex := 0
    txHash := 7
    address := 0
    topics := [5]
    data := []
    decodedEvent := none
    decoderVersion := none }

def oneBlock (logs : List RawLog) : IndexedBlock where
  header := ⟨12, 11, 2⟩
  timestamp := 112
  status := .Unsafe
  statusSource := .Observed
  logs

/-- The second of the two blocks, attached with a registry. -/
theorem one_attached :
    ([nodeLog 12 2 0].mapM (anchoredRawLogFromRpc ⟨2, 2⟩) = .ok [oneLog]) ∧
    requireBlocks 2 ([2].map twoBlocks.block) = .ok [⟨12, 11, 2, 112⟩] ∧
    [(⟨12, 11, 2, 112⟩ : RpcBlock)].mapM (indexedBlockFromRpc · []) = .ok [oneBlock []] ∧
    attachLogs (some oneEvent) [oneBlock []] (logsByHeight [oneLog]) =
      .ok [oneBlock [oneEvent.decodeLogInPlace oneLog.raw]] ∧
    ∃ fetched, FetchedRange.new ⟨2, 2⟩ [⟨12, 11, 2⟩]
      [oneBlock [oneEvent.decodeLogInPlace oneLog.raw]] = .ok fetched := by
  refine ⟨rfl, rfl, rfl, by decide +kernel, ?_⟩
  exact FetchedRange.new_of_valid (by decide)

/-- The logs of both blocks, two each, as they come. -/
def fourLogs : List AnchoredRawLog :=
  [(2, 12, 3), (1, 11, 1), (2, 12, 0), (1, 11, 0)].map fun (number, hash, index) =>
    { oneLog with blockNumber := number, blockHash := hash, raw := { oneLog.raw with logIndex := index } }

/-- `attachment_exact` for two blocks, whose logs come in neither order. -/
theorem attachment_exact_two : ∃ out fetched again s',
    attachLogs (some oneEvent) [⟨⟨11, 10, 1⟩, 100, .Unsafe, .Observed, []⟩, oneBlock []]
      (logsByHeight fourLogs) = .ok out ∧
    FetchedRange.new ⟨1, 2⟩ (out.map (·.header)) out = .ok fetched ∧
    (fetched.logs.flatMap placed).Perm (fourLogs.map named) ∧
    exec (twoBlocks.provider.fetchBackfillRangeFromLogs ⟨1, 2⟩ fourLogs) 0 = (.ok again, s') ∧
    again.headers = fetched.headers ∧
    List.Forall₂ (fun ours theirs =>
        SameIndexed ours { theirs with logs := decodeLogs (some oneEvent) theirs.logs })
      fetched.logs again.logs := by
  have hlogs : [nodeLog 12 2 3, nodeLog 11 1 1, nodeLog 12 2 0, nodeLog 11 1 0].mapM
      (anchoredRawLogFromRpc ⟨1, 2⟩) = .ok fourLogs := rfl
  have hanswers : requireBlocks 1 ([1, 2].map twoBlocks.block) =
      .ok [⟨11, 10, 1, 100⟩, ⟨12, 11, 2, 112⟩] := rfl
  have hattached : ((attachLogs (some oneEvent) [⟨⟨11, 10, 1⟩, 100, .Unsafe, .Observed, []⟩, oneBlock []]
      (logsByHeight fourLogs)).map fun out => out.map (·.header)) =
        .ok [⟨11, 10, 1⟩, ⟨12, 11, 2⟩] := by decide +kernel
  obtain ⟨out, hattach, hheaders⟩ := map_ok.1 hattached
  obtain ⟨fetched, hnew⟩ : ∃ fetched, FetchedRange.new ⟨1, 2⟩ (out.map (·.header)) out = .ok fetched := by
    rw [hheaders]
    exact FetchedRange.new_of_valid (by decide)
  obtain ⟨-, hplaced, hclient⟩ := @attachment_exact Nat (some oneEvent) ⟨1, 2⟩ twoBlocks.block _ _ _ _ _ _
    hlogs hanswers rfl hattach hnew
  obtain ⟨again, s', hrun, -, hagain, hsame⟩ := hclient twoBlocks.provider (fun height _ s => ⟨s, rfl⟩) 0
  exact ⟨out, fetched, again, s', hattach, hnew, hplaced, hrun, hagain, hsame⟩

/-- With a registry, the client's logs differ in the decoder columns. -/
theorem decoder_columns_differ : ∃ out fetched again s',
    attachLogs (some oneEvent) [oneBlock []] (logsByHeight [oneLog]) = .ok out ∧
    FetchedRange.new ⟨2, 2⟩ (out.map (·.header)) out = .ok fetched ∧
    exec (twoBlocks.provider.fetchBackfillRangeFromLogs ⟨2, 2⟩ [oneLog]) 0 = (.ok again, s') ∧
    ¬ List.Forall₂ SameIndexed fetched.logs again.logs := by
  obtain ⟨hlogs, hanswers, hblocks, hattach, fetched, hnew⟩ := one_attached
  obtain ⟨again, s', hrun, -, -, hlogs'⟩ := client_all hlogs hanswers hblocks hattach hnew
    twoBlocks.provider (fun height _ s => ⟨s, rfl⟩) 0
  refine ⟨_, fetched, again, s', hattach, hnew, hrun, fun hsame => ?_⟩
  obtain ⟨-, -, hout⟩ := FetchedRange.new_ok hnew
  rw [hout, hlogs'] at hsame
  cases hsame with
  | cons hblock _ =>
    have hdecoded : oneEvent.decodeLogInPlace oneLog.raw ∈ (attached none
        ((logsByHeight [oneLog]).map fun _ logs => LiveProvider.sortLogs logs) (oneBlock [])).logs :=
      hblock.logs.subset (by simp [oneBlock])
    have hraw : (attached none ((logsByHeight [oneLog]).map fun _ logs => LiveProvider.sortLogs logs)
        (oneBlock [])).logs = (LiveProvider.sortLogs
          ([oneLog].filter (·.blockNumber = 2))).map (·.raw) := by
      rw [← getElem?_clientGroups]
      rfl
    rw [hraw, ((sortLogs_perm _).map _).mem_iff] at hdecoded
    exact absurd hdecoded (by decide)

end Chainweave.Fetch
