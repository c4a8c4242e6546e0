import Chainweave.Core.Live

/-!
# Two runs side by side

A run of `LiveTracker` calls its source and its sink and edits its report. Over peers
whose calls end alike and stay related, two runs end alike and leave related peers.

* `PairedSource source P`, `Paired source sink' sink P`: `P` relates the peers through
  every call of the source, and of both sinks.
* `Enduring L`: `L` relates the locals of both runs through every request and every edit
  of the report, which leaves its verdict and its count of disagreements alone, or halts it.
* `Lasting R`: of the same report, `R` outlasts these edits.
* `trackHead_related`, `run_related`: the run, from one lemma for each method.
-/
namespace Chainweave.Backfill.OrderedCommitCoordinator

open Stateful

variable {L κ κ' : Type} {K : κ' → κ → Prop} {commit' : CommitRange κ' L} {commit : CommitRange κ L}

theorem onSelf_related {α : Type} (f : OrderedCommitCoordinator L →
    Except BackfillError α × OrderedCommitCoordinator L) :
    Related (Beside K) (onSelf f) (onSelf f) := by
  intro t s h
  unfold onSelf
  rw [exec_mk, exec_mk, h.fst]
  exact ⟨rfl, rfl, h.snd⟩

theorem drainLoop_related (h : ∀ fetched, Related K (commit' fetched) (commit fetched)) (left : Nat)
    (progress : CommitProgress) :
    Related (Beside K) (drainLoop commit' left progress) (drainLoop commit left progress) := by
  induction left generalizing progress with
  | zero => exact .pure _
  | succ left ih =>
    unfold drainLoop
    refine .get_bind fun t s hts => ?_
    dsimp only
    rw [hts.fst]
    cases t.1.pending[t.1.nextHeight]? with
    | none => exact .pure _
    | some fetched =>
      refine .bind (.modify fun t s h => ⟨by rw [h.fst], h.snd⟩) fun _ => ?_
      refine .bind (onSelf_related _) fun last => .bind (.mapError (.beside (h fetched))) fun _ => ?_
      exact .bind (.modify fun t s h => ⟨by rw [h.fst], h.snd⟩) fun _ => ih _

theorem push_related (h : ∀ fetched, Related K (commit' fetched) (commit fetched))
    (fetched : FetchedRange L) :
    Related (Beside K) (push commit' fetched) (push commit fetched) := by
  unfold push drainReady
  refine .bind (onSelf_related _) fun _ => .get_bind fun t s hts => ?_
  dsimp only
  rw [hts.fst]
  exact drainLoop_related h _ _

end Chainweave.Backfill.OrderedCommitCoordinator

namespace Chainweave.Chain

open Stateful

/-- What one resolver finds, the other finds. -/
structure AncestryResolver.Related {ρ ρ' : Type} (K : ρ' → ρ → Prop) (resolver' : AncestryResolver ρ')
    (resolver : AncestryResolver ρ) : Prop where
  headerByHash : ∀ hash, Stateful.Related K (resolver'.headerByHash hash) (resolver.headerByHash hash)
  canonicalHeaderByHash : ∀ hash, Stateful.Related K (resolver'.canonicalHeaderByHash hash)
    (resolver.canonicalHeaderByHash hash)
  canonicalHeaderAtHeight : ∀ height, Stateful.Related K (resolver'.canonicalHeaderAtHeight height)
    (resolver.canonicalHeaderAtHeight height)

namespace ChainState

variable {ρ ρ' : Type} {K : ρ' → ρ → Prop} {self : ChainState} {resolver' : AncestryResolver ρ'}
  {resolver : AncestryResolver ρ}

theorem canonicalMatch_related (h : AncestryResolver.Related K resolver' resolver)
    (header : BlockHeader) :
    Related K (self.canonicalMatch resolver' header) (self.canonicalMatch resolver header) := by
  unfold canonicalMatch
  split
  · exact .pure _
  refine .bind (.mapError (h.canonicalHeaderByHash _)) fun found => ?_
  cases found with
  | some canonical => exact .bind (.lift _) fun _ => .pure _
  | none =>
    refine .bind (.mapError (h.canonicalHeaderAtHeight _)) fun found => ?_
    cases found with
    | none => exact .pure _
    | some canonical =>
      dsimp only
      split
      · exact .bind (.lift _) fun _ => .pure _
      · exact .pure _

theorem parentFor_related (h : AncestryResolver.Related K resolver' resolver) (child : BlockHeader) :
    Related K (self.parentFor resolver' child) (self.parentFor resolver child) := by
  unfold parentFor lookupParent
  split
  · exact .throw _
  refine .bind ?_ fun parent => ?_
  · cases self.localParent child with
    | some parent => exact .pure _
    | none => exact .mapError (h.headerByHash _)
  · cases parent with
    | none => exact .throw _
    | some parent => exact .bind (.lift _) fun _ => .pure _

theorem resolveLoop_related (h : AncestryResolver.Related K resolver' resolver) (left : Nat)
    (current : BlockHeader) :
    Related K (self.resolveLoop resolver' left current) (self.resolveLoop resolver left current) := by
  induction left generalizing current with
  | zero =>
    unfold resolveLoop
    refine .bind (canonicalMatch_related h current) fun found => ?_
    cases found with
    | some canonical => exact .pure _
    | none => exact .throw _
  | succ left ih =>
    unfold resolveLoop
    refine .bind (canonicalMatch_related h current) fun found => ?_
    cases found with
    | some canonical => exact .pure _
    | none =>
      exact .bind (parentFor_related h current) fun parent => .bind (ih parent) fun _ => .pure _

theorem rollbackLoop_related (h : AncestryResolver.Related K resolver' resolver)
    (ancestor : BlockHeader) (left : Nat) (current : BlockHeader) :
    Related K (self.rollbackLoop resolver' ancestor left current)
      (self.rollbackLoop resolver ancestor left current) := by
  induction left generalizing current with
  | zero =>
    unfold rollbackLoop
    split
    · exact .throw _
    split
    · exact .throw _
    · exact .pure _
  | succ left ih =>
    unfold rollbackLoop
    split
    · exact .bind (parentFor_related h current) fun parent => .bind (ih parent) fun _ => .pure _
    split
    · exact .throw _
    · exact .pure _

theorem apply_related (h : AncestryResolver.Related K resolver' resolver) (newHead : BlockHeader) :
    Related (Beside K) (apply resolver' newHead) (apply resolver newHead) := by
  have hself : ∀ g, Related (Beside K) (modifySelf g) (modifySelf g) :=
    fun _ => .modify fun t s h => ⟨by rw [h.fst], h.snd⟩
  unfold apply
  refine .get_bind fun t s hts => ?_
  dsimp only
  rw [hts.fst]
  split
  · exact .bind (hself _) fun _ => .pure _
  cases t.1.tip with
  | none =>
    dsimp only
    split
    · exact .throw _
    · exact .bind (hself _) fun _ => .pure _
  | some tip =>
    dsimp only
    split
    · split
      · exact .throw _
      · exact .bind (hself _) fun _ => .pure _
    · refine .bind (.beside (resolveLoop_related h _ _)) fun found => .bind (.lift _) fun _ => ?_
      refine .bind (.beside (rollbackLoop_related h _ _ _)) fun rollbacks => ?_
      exact .bind (hself _) fun _ => .pure _

end ChainState

end Chainweave.Chain

namespace Chainweave.Live

open Stateful Chainweave.Chain Chainweave.Backfill

variable {σ κ κ' ε β : Type}

/-! ## Related peers -/

/-- Both functions note the same step, each with its own sink. -/
inductive LiveStep.Same : (κ' → LiveStep κ') → (κ → LiveStep κ) → Prop
  | remote (head : BlockHeader) (answer : Option BlockHeader) :
    Same (.remote head · answer) (.remote head · answer)
  | reread (head : BlockHeader) : Same (.reread head) (.reread head)
  | batch (head : BlockHeader) (chain : ChainBatch) : Same (.batch head · chain) (.batch head · chain)

/-- `P` relates the peers whatever they are polled, and through every call of the source but
`verify_recent`, which a run makes once. -/
structure PairedSource (source : LiveSource σ ε β) (P : Peers σ κ' → Peers σ κ → Prop) : Prop where
  polls : ∀ p q, P p q → q.polls = p.polls
  polled : ∀ n p q, P p q → P { p with polls := n } { q with polls := n }
  noted : ∀ {step' : κ' → LiveStep κ'} {step : κ → LiveStep κ}, LiveStep.Same step' step →
    ∀ p q, P p q → P { p with trace := p.trace ++ [step' p.sink] }
      { q with trace := q.trace ++ [step q.sink] }
  currentHead : Related P (onSource source.currentHead) (onSource source.currentHead)
  blockByNumber : ∀ height,
    Related P (onSource (source.blockByNumber height)) (onSource (source.blockByNumber height))
  blockByHash : ∀ hash, Related P (onSource (source.blockByHash hash)) (onSource (source.blockByHash hash))
  headerByNumber : ∀ height,
    Related P (onSource (source.headerByNumber height)) (onSource (source.headerByNumber height))
  headerByHash : ∀ hash,
    Related P (onSource (source.headerByHash hash)) (onSource (source.headerByHash hash))

/-- Both reads find the same, and leave related peers. -/
def PairedRead {α : Type} (P : Peers σ κ' → Peers σ κ → Prop) (read' : κ' → α × κ')
    (read : κ → α × κ) : Prop :=
  ∀ p q, P p q → (read q.sink).1 = (read' p.sink).1 ∧
    P { p with sink := (read' p.sink).2 } { q with sink := (read q.sink).2 }

/-- Both commits end alike, and leave related peers. -/
def PairedCommit {ε' α : Type} (P : Peers σ κ' → Peers σ κ → Prop) (commit' : Prog κ' ε' α)
    (commit : Prog κ ε' α) : Prop :=
  ∀ p q, P p q → Related (fun w k => P { p with sink := w } { q with sink := k }) commit' commit

/-- So they are through every call of the sink. -/
structure Paired (source : LiveSource σ ε β) (sink' : LiveSink κ' β) (sink : LiveSink κ β)
    (P : Peers σ κ' → Peers σ κ → Prop) : Prop extends PairedSource source P where
  checkpoint : PairedRead P sink'.checkpoint sink.checkpoint
  canonicalHeaderAtHeight : ∀ height,
    PairedRead P (sink'.canonicalHeaderAtHeight height) (sink.canonicalHeaderAtHeight height)
  canonicalHeaderByHash : ∀ hash,
    PairedRead P (sink'.canonicalHeaderByHash hash) (sink.canonicalHeaderByHash hash)
  commitRange : ∀ fetched, PairedCommit P (sink'.commitRange fetched) (sink.commitRange fetched)
  commitBatch : ∀ batch blocks,
    PairedCommit P (sink'.commitBatch batch blocks) (sink.commitBatch batch blocks)

/-- An edit that leaves the verdict and the count of disagreements. -/
def Mild (f : LiveReport → LiveReport) : Prop :=
  ∀ report, (f report).halted = report.halted ∧
    (f report).verifierDisagreements = report.verifierDisagreements

/-- What the tracker's edits of its report keep. -/
structure Lasting (R : LiveReport → Prop) : Prop where
  same : ∀ report report', R report → report'.halted = report.halted →
    report'.verifierDisagreements = report.verifierDisagreements → R report'
  halt : ∀ checkpoint reason, R (.halt checkpoint reason)

theorem Lasting.any : Lasting fun _ => True := ⟨fun _ _ _ _ _ => trivial, fun _ _ => trivial⟩

def Locals.edit (l : Locals) (f : LiveReport → LiveReport) : Locals := { l with report := f l.report }

/-- What the tracker's edits of its locals keep. -/
structure Enduring (L : Locals → Locals → Prop) : Prop where
  edit : ∀ f, Mild f → ∀ l l', L l l' → L (l.edit f) (l'.edit f)
  halt : ∀ checkpoint reason l l', L l l' →
    L (l.edit fun _ => .halt checkpoint reason) (l'.edit fun _ => .halt checkpoint reason)
  issue : ∀ call l l', L l l' → L { l with spendings := l.spendings ++ [.unrecorded call] }
    { l' with spendings := l'.spendings ++ [.unrecorded call] }
  record : ∀ method l l' b r b' r', L l l' → l.budget.record method l.report = .ok (b, r) →
    l'.budget.record method l'.report = .ok (b', r') →
      L ⟨b, r, l.spendings ++ spend l.report r method⟩ ⟨b', r', l'.spendings ++ spend l'.report r' method⟩

/-- The same locals, with `R` of the report. -/
structure Reporting (R : LiveReport → Prop) (l l' : Locals) : Prop where
  same : l' = l
  report : R l.report

/-- Related locals beside related peers. -/
structure Abreast (L : Locals → Locals → Prop) (P : Peers σ κ' → Peers σ κ → Prop)
    (t : Locals × Peers σ κ') (s : Locals × Peers σ κ) : Prop where
  locals : L t.1 s.1
  peers : P t.2 s.2

/-! ## The report and the budget -/

theorem LiveReport.transition_same (report : LiveReport) (readiness : LiveReadiness) :
    (report.transition readiness).halted = report.halted ∧
      (report.transition readiness).verifierDisagreements = report.verifierDisagreements := by
  unfold LiveReport.transition
  split
  · exact ⟨rfl, rfl⟩
  · exact ⟨rfl, rfl⟩

theorem WindowBudget.noteExhausted_same (budget : WindowBudget) (report : LiveReport) :
    (budget.noteExhausted report).halted = report.halted ∧
      (budget.noteExhausted report).verifierDisagreements = report.verifierDisagreements := by
  unfold WindowBudget.noteExhausted
  simp [LiveReport.transition_same]

theorem record_u64 (method : RpcMethod) :
    ∃ fresh budget, RpcBudget.new u64Max u64Max = .ok fresh ∧
      fresh.record method method.defaultCost = .ok budget := by
  cases method
  · exact ⟨_, _, rfl, rfl⟩
  · exact ⟨_, _, rfl, rfl⟩
  · exact ⟨_, _, rfl, rfl⟩

/-- The budget never stops a run. -/
theorem WindowBudget.record_ok (budget : WindowBudget) (method : RpcMethod) (report : LiveReport) :
    ∃ b r, budget.record method report = .ok (b, r) ∧ r.halted = report.halted := by
  unfold WindowBudget.record
  split
  · exact ⟨_, _, rfl, rfl⟩
  split
  · exact ⟨_, _, rfl, rfl⟩
  · obtain ⟨fresh, b, hf, hb⟩ := record_u64 method
    rw [hf]
    simp only [Except.mapError, bind, Except.bind, hb]
    exact ⟨_, _, rfl, (budget.noteExhausted_same report).1⟩

theorem WindowBudget.record_same {budget budget' : WindowBudget} {method : RpcMethod}
    {report report' : LiveReport} (h : budget.record method report = .ok (budget', report')) :
    report'.halted = report.halted ∧
      report'.verifierDisagreements = report.verifierDisagreements := by
  unfold WindowBudget.record at h
  split at h
  · cases h
    exact ⟨rfl, rfl⟩
  split at h
  · cases h
    exact ⟨rfl, rfl⟩
  · obtain ⟨fresh, -, h⟩ := ok_bind.1 h
    obtain ⟨b, -, h⟩ := ok_bind.1 h
    cases h
    exact budget.noteExhausted_same report

theorem markReadyIfHealthy_same (report : LiveReport) :
    (markReadyIfHealthy report).halted = report.halted ∧
      (markReadyIfHealthy report).verifierDisagreements = report.verifierDisagreements := by
  unfold markReadyIfHealthy
  split
  · exact report.transition_same _
  · exact ⟨rfl, rfl⟩

theorem Reporting.enduring {R : LiveReport → Prop} (hR : Lasting R) : Enduring (Reporting R) where
  edit f hf l l' h :=
    ⟨by rw [h.same], hR.same _ _ h.report (hf l.report).1 (hf l.report).2⟩
  halt checkpoint reason l l' h := ⟨by rw [h.same], hR.halt checkpoint reason⟩
  issue call l l' h := ⟨by rw [h.same], h.report⟩
  record method l l' b r b' r' h hrecord hrecord' := by
    obtain ⟨rfl, hreport⟩ := h
    rw [hrecord] at hrecord'
    cases hrecord'
    obtain ⟨hhalted, hcount⟩ := WindowBudget.record_same hrecord
    exact ⟨rfl, hR.same _ _ hreport hhalted hcount⟩

/-! ## Methods of the tracker -/

section
variable {L : Locals → Locals → Prop} {P : Peers σ κ' → Peers σ κ → Prop} {source : LiveSource σ ε β}
  {sink' : LiveSink κ' β} {sink : LiveSink κ β} {config : LiveConfig} {isCancelled : Nat → Bool}

theorem onPeers_related {ε' α : Type} {x : Prog (Peers σ κ') ε' α} {y : Prog (Peers σ κ) ε' α}
    (hx : Related P x y) : Related (Abreast L P) (onPeers x) (onPeers y) := by
  intro t s h
  obtain ⟨h1, h2⟩ := hx t.2 s.2 h.peers
  exact ⟨h1, h.locals, h2⟩

theorem callSource_related {α : Type} {x : Prog σ ε α} (hx : Related P (onSource x) (onSource x)) :
    Related (Abreast L P) (callSource source x) (callSource source x) :=
  onPeers_related (.mapError hx)

theorem readSink_related {ε' α : Type} {read' : κ' → α × κ'} {read : κ → α × κ}
    (h : PairedRead P read' read) :
    Related P (readSink read' : Prog (Peers σ κ') ε' α) (readSink read) := by
  intro p q hpq
  obtain ⟨h1, h2⟩ := h p q hpq
  unfold readSink
  rw [exec_mk, exec_mk, h1]
  exact ⟨rfl, h2⟩

theorem onSink_related {ε' α : Type} {x : Prog κ' ε' α} {y : Prog κ ε' α} (h : PairedCommit P x y) :
    Related P (onSink x) (onSink y) := .zoom h (fun _ => rfl) fun _ => rfl

theorem note_related (h : PairedSource source P) {step' : κ' → LiveStep κ'} {step : κ → LiveStep κ}
    (hstep : LiveStep.Same step' step) :
    Related (Abreast L P) (onPeers (note step') : Track σ κ' PUnit) (onPeers (note step)) :=
  onPeers_related (.modify (h.noted hstep))

theorem ensureNotCancelled_related (h : PairedSource source P) :
    Related P (ensureNotCancelled isCancelled) (ensureNotCancelled isCancelled) := by
  unfold ensureNotCancelled
  refine .get_bind fun p q hpq => .bind (.modify fun p' q' hpq' => ?_) fun _ => ?_
  · rw [h.polls p' q' hpq']
    exact h.polled _ p' q' hpq'
  rw [h.polls p q hpq]
  split
  · exact .throw _
  · exact .pure _

theorem polled_related (h : PairedSource source P) :
    Related (Abreast L P) (onPeers (ensureNotCancelled isCancelled) : Track σ κ' Unit)
      (onPeers (ensureNotCancelled isCancelled)) := onPeers_related (ensureNotCancelled_related h)

theorem readCheckpoint_related (h : Paired source sink' sink P) :
    Related (Abreast L P) (onPeers (readSink sink'.checkpoint) : Track σ κ' (Option BlockHeader))
      (onPeers (readSink sink.checkpoint)) := onPeers_related (readSink_related h.checkpoint)

theorem modifyReport_related {f : LiveReport → LiveReport}
    (hf : ∀ l l', L l l' → L (l.edit f) (l'.edit f)) :
    Related (Abreast L P) (modifyReport f) (modifyReport f) :=
  .modify fun _ _ h => ⟨hf _ _ h.locals, h.peers⟩

theorem editReport_related (hL : Enduring L) {f : LiveReport → LiveReport} (hf : Mild f) :
    Related (Abreast L P) (modifyReport f) (modifyReport f) := modifyReport_related (hL.edit f hf)

theorem issue_related {ε' : Type} (hL : Enduring L) (call : Unrecorded) :
    Related (Abreast L P) (issue call : Prog (Locals × Peers σ κ') ε' PUnit) (issue call) :=
  .modify fun _ _ h => ⟨hL.issue call _ _ h.locals, h.peers⟩

theorem fetch_related (hL : Enduring L) {α : Type} {x : Prog σ ε α}
    (hx : Related P (onSource x) (onSource x)) :
    Related (Abreast L P) (fetch source x) (fetch source x) := by
  unfold fetch noteFailed
  refine .bind (.attempt (onPeers_related (.mapError hx))) fun result => ?_
  cases result with
  | ok block => exact .pure _
  | error error => exact .bind (issue_related hL _) fun _ => .throw _

theorem record_related (hL : Enduring L) (method : RpcMethod) :
    Related (Abreast L P) (record method) (record method) := by
  intro t s h
  obtain ⟨b, r, hrecord, -⟩ := t.1.budget.record_ok method t.1.report
  obtain ⟨b', r', hrecord', -⟩ := s.1.budget.record_ok method s.1.report
  unfold record
  rw [exec_bind, exec_bind, exec_get, exec_get]
  dsimp only
  rw [exec_bind, exec_bind, exec_lift, exec_lift, hrecord, hrecord']
  exact ⟨rfl, hL.record method _ _ b r b' r' h.locals hrecord hrecord', h.peers⟩

theorem validateOrRefetchNumber_related (h : PairedSource source P) (hL : Enduring L) (height : Nat)
    (block : β) :
    Related (Abreast L P) (validateOrRefetchNumber source height block)
      (validateOrRefetchNumber source height block) := by
  unfold validateOrRefetchNumber
  split
  · exact .pure _
  refine .bind (editReport_related hL fun report => report.transition_same _) fun _ => ?_
  refine .bind (record_related hL _) fun _ => ?_
  refine .bind (fetch_related hL (h.blockByNumber height)) fun block => ?_
  refine .bind (record_related hL _) fun _ => ?_
  split
  · exact .pure _
  · exact .throw _

theorem validateOrRefetchHash_related (h : PairedSource source P) (hL : Enduring L)
    (expected : BlockHeader) (block : β) :
    Related (Abreast L P) (validateOrRefetchHash source expected block)
      (validateOrRefetchHash source expected block) := by
  unfold validateOrRefetchHash
  split
  · exact .pure _
  refine .bind (editReport_related hL fun report => report.transition_same _) fun _ => ?_
  refine .bind (record_related hL _) fun _ => ?_
  refine .bind (fetch_related hL (h.blockByHash _)) fun block => ?_
  refine .bind (record_related hL _) fun _ => ?_
  split
  · exact .pure _
  · exact .throw _

theorem fetchAndPushHeight_related (h : PairedSource source P)
    (hcommit : ∀ fetched, PairedCommit P (sink'.commitRange fetched) (sink.commitRange fetched))
    (hL : Enduring L) (coordinator : OrderedCommitCoordinator β) (height : Nat) :
    Related (Abreast L P) (fetchAndPushHeight source sink' coordinator height)
      (fetchAndPushHeight source sink coordinator height) := by
  have hpush : ∀ fetched, Related (Abreast L P) (pushRange sink' coordinator fetched)
      (pushRange sink coordinator fetched) := by
    intro fetched
    refine onPeers_related (.mapError (onSink_related fun p q hpq => .withLocal ?_))
    exact OrderedCommitCoordinator.push_related (fun fetched => hcommit fetched p q hpq) fetched
  unfold fetchAndPushHeight
  refine .bind (record_related hL _) fun _ => ?_
  refine .bind (fetch_related hL (h.blockByNumber height)) fun block => ?_
  refine .bind (record_related hL _) fun _ => ?_
  refine .bind (validateOrRefetchNumber_related h hL height block) fun fetched => ?_
  refine .bind (.lift _) fun range => .bind (hpush range) fun progress => ?_
  dsimp only
  split
  · exact .bind (editReport_related hL fun report => ⟨rfl, rfl⟩) fun _ => .pure _
  · exact .pure _

theorem fetchApplyBlocks_related (h : PairedSource source P) (hL : Enduring L)
    (events : List ChainEvent) :
    Related (Abreast L P) (fetchApplyBlocks source isCancelled events)
      (fetchApplyBlocks source isCancelled events) := by
  induction events with
  | nil => exact .pure _
  | cons event events ih =>
    cases event with
    | rollback header =>
      unfold fetchApplyBlocks
      refine .bind (polled_related h) fun _ => ?_
      exact .bind (editReport_related hL fun _ => ⟨rfl, rfl⟩) fun _ => ih
    | apply header =>
      unfold fetchApplyBlocks
      refine .bind (polled_related h) fun _ => ?_
      refine .bind (editReport_related hL fun _ => ⟨rfl, rfl⟩) fun _ => ?_
      refine .bind (record_related hL _) fun _ => ?_
      refine .bind (fetch_related hL (h.blockByHash _)) fun block => ?_
      refine .bind (record_related hL _) fun _ => ?_
      refine .bind (validateOrRefetchHash_related h hL header block) fun _ => ?_
      exact .bind ih fun _ => .pure _

theorem commitChainBatch_related (h : Paired source sink' sink P) (hL : Enduring L)
    (head : BlockHeader) (batch : ChainBatch) :
    Related (Abreast L P) (commitChainBatch source sink' isCancelled head batch)
      (commitChainBatch source sink isCancelled head batch) := by
  unfold commitChainBatch
  refine .bind (fetchApplyBlocks_related h.toPairedSource hL _) fun blocks => ?_
  refine .bind (note_related h.toPairedSource (.batch head batch)) fun _ => ?_
  exact onPeers_related (.mapError (onSink_related (h.commitBatch batch blocks)))

theorem haltRun_related (h : Paired source sink' sink P) (hL : Enduring L) (reason : LiveHaltReason) :
    Related (Abreast L P) (haltRun sink' reason) (haltRun sink reason) := by
  unfold haltRun
  exact .bind (readCheckpoint_related h) fun checkpoint =>
    modifyReport_related (hL.halt _ _)

theorem liveResolver_related (h : Paired source sink' sink P) (hL : Enduring L) :
    AncestryResolver.Related (Abreast L P) (liveResolver source sink') (liveResolver source sink) where
  headerByHash hash := .bind (issue_related hL _) fun _ =>
    onPeers_related (.mapError (h.headerByHash hash))
  canonicalHeaderByHash hash := onPeers_related (readSink_related (h.canonicalHeaderByHash hash))
  canonicalHeaderAtHeight height := onPeers_related (readSink_related (h.canonicalHeaderAtHeight height))

theorem applyChainState_related (h : Paired source sink' sink P) (hL : Enduring L)
    (head : BlockHeader) :
    Related (Abreast L P) (applyChainState config source sink' isCancelled head)
      (applyChainState config source sink isCancelled head) := by
  unfold applyChainState
  refine .bind (readCheckpoint_related h) fun checkpoint => ?_
  cases checkpoint with
  | none => exact .pure _
  | some checkpoint =>
    refine .bind (.lift _) fun state => ?_
    refine .bind (.attempt (.withLocal ?_)) fun outcome => ?_
    · exact ChainState.apply_related (liveResolver_related h hL) head
    cases outcome with
    | ok batch => exact commitChainBatch_related h hL head _
    | error error =>
      cases error with
      | maxDepthExceeded maxDepth => exact haltRun_related h hL _
      | finalizedBoundary ancestor finalized => exact haltRun_related h hL _
      | _ => exact .throw _

theorem reconcileCurrentHead_related (h : Paired source sink' sink P) (hL : Enduring L) :
    Related (Abreast L P) (reconcileCurrentHead config source sink' isCancelled)
      (reconcileCurrentHead config source sink isCancelled) := by
  unfold reconcileCurrentHead
  refine .bind (polled_related h.toPairedSource) fun _ => ?_
  refine .bind (editReport_related hL fun report => report.transition_same _) fun _ => ?_
  refine .bind (record_related hL _) fun _ => .bind (callSource_related h.currentHead) fun head => ?_
  exact .bind (note_related h.toPairedSource (.reread head)) fun _ =>
    applyChainState_related h hL head

theorem startLoop_related (h : PairedSource source P)
    (hcommit : ∀ fetched, PairedCommit P (sink'.commitRange fetched) (sink.commitRange fetched))
    (hL : Enduring L) (heights : List Nat) (coordinator : OrderedCommitCoordinator β) :
    Related (Abreast L P) (startLoop source sink' isCancelled heights coordinator)
      (startLoop source sink isCancelled heights coordinator) := by
  induction heights generalizing coordinator with
  | nil => exact .pure _
  | cons height heights ih =>
    unfold startLoop
    refine .bind (polled_related h) fun _ => ?_
    exact .bind (fetchAndPushHeight_related h hcommit hL _ _) fun c => ih c

theorem catchUpFromStart_related (h : Paired source sink' sink P) (hL : Enduring L)
    (head : BlockHeader) :
    Related (Abreast L P) (catchUpFromStart config source sink' isCancelled head)
      (catchUpFromStart config source sink isCancelled head) := by
  unfold catchUpFromStart
  exact .bind (.lift _) fun coordinator =>
    startLoop_related h.toPairedSource h.commitRange hL _ _

theorem checkpointLoop_related (h : Paired source sink' sink P) (hL : Enduring L)
    (heights : List Nat) (coordinator : OrderedCommitCoordinator β) :
    Related (Abreast L P) (checkpointLoop config source sink' isCancelled heights coordinator)
      (checkpointLoop config source sink isCancelled heights coordinator) := by
  induction heights generalizing coordinator with
  | nil => exact .pure _
  | cons height heights ih =>
    have hpush := fetchAndPushHeight_related h.toPairedSource h.commitRange hL
    unfold checkpointLoop
    refine .bind (polled_related h.toPairedSource) fun _ => ?_
    refine .bind (.attempt (hpush coordinator height)) fun outcome => ?_
    cases outcome with
    | ok coordinator => exact ih coordinator
    | error error =>
      dsimp only
      split
      · refine .bind (editReport_related hL fun _ => ⟨rfl, rfl⟩) fun _ => ?_
        exact reconcileCurrentHead_related h hL
      · exact .throw _

theorem catchUpFromCheckpoint_related (h : Paired source sink' sink P) (hL : Enduring L)
    (checkpoint head : BlockHeader) :
    Related (Abreast L P) (catchUpFromCheckpoint config source sink' isCancelled checkpoint head)
      (catchUpFromCheckpoint config source sink isCancelled checkpoint head) := by
  unfold catchUpFromCheckpoint
  exact .bind (.lift _) fun coordinator => checkpointLoop_related h hL _ _

theorem finish_related (h : Paired source sink' sink P) (hL : Enduring L) :
    Related (Abreast L P) (finish sink') (finish sink) := by
  unfold finish
  exact .bind (readCheckpoint_related h) fun checkpoint =>
    editReport_related hL fun report => markReadyIfHealthy_same _

theorem lowerHead_related (h : Paired source sink' sink P) (hL : Enduring L)
    (checkpoint head : BlockHeader) :
    Related (Abreast L P) (lowerHead config source sink' isCancelled checkpoint head)
      (lowerHead config source sink isCancelled checkpoint head) := by
  unfold lowerHead
  refine .bind (record_related hL _) fun _ => ?_
  refine .bind (callSource_related (h.headerByNumber _)) fun remote => ?_
  refine .bind (onPeers_related (readSink_related (h.canonicalHeaderAtHeight _))) fun row => ?_
  refine .bind (note_related h.toPairedSource (.remote head remote)) fun _ => ?_
  split
  · exact editReport_related hL fun report => LiveReport.transition_same _ _
  · exact .bind (applyChainState_related h hL head) fun _ => finish_related h hL

/-- `P` relates the peers through `verify_recent`. -/
def PairedVerifier (source : LiveSource σ ε β) (P : Peers σ κ' → Peers σ κ → Prop) : Prop :=
  ∀ height hash,
    Related P (onSource (source.verifyRecent height hash)) (onSource (source.verifyRecent height hash))

/-- The tracker keeps its peers related, and of its report what an answer of the verifier keeps. -/
theorem trackHead_related (h : Paired source sink' sink P) (hrecent : PairedVerifier source P)
    (hL : Enduring L)
    (hverifier : ∀ status l l', L l l' → L (l.edit (noteVerifier status)) (l'.edit (noteVerifier status))) :
    Related (Abreast L P) (trackHead config source sink' isCancelled)
      (trackHead config source sink isCancelled) := by
  unfold trackHead
  refine .bind (record_related hL _) fun _ => .bind (callSource_related h.currentHead) fun head => ?_
  refine .bind (issue_related hL _) fun _ => ?_
  refine .bind (callSource_related (hrecent _ _)) fun status => ?_
  refine .bind (modifyReport_related (hverifier status)) fun _ => ?_
  refine .bind (readCheckpoint_related h) fun checkpoint => ?_
  cases checkpoint with
  | none =>
    dsimp only
    split
    · exact modifyReport_related (hL.halt _ _)
    · exact .bind (catchUpFromStart_related h hL head) fun _ => finish_related h hL
  | some checkpoint =>
    dsimp only
    split
    · exact lowerHead_related h hL checkpoint head
    split
    · split
      · exact .bind (applyChainState_related h hL head) fun _ => finish_related h hL
      · exact finish_related h hL
    · exact .bind (catchUpFromCheckpoint_related h hL checkpoint head) fun _ => finish_related h hL

/-- **A run keeps its peers related**, and ends alike over both. -/
theorem run_related (h : Paired source sink' sink P) (hrecent : PairedVerifier source P)
    (events : List LiveHeadEvent) :
    Related P (runWithCancellation config source sink' isCancelled events)
      (runWithCancellation config source sink isCancelled events) := by
  unfold runWithCancellation
  refine .bind (readSink_related h.checkpoint) fun checkpoint => ?_
  refine .bind (ensureNotCancelled_related h.toPairedSource) fun _ => ?_
  refine .bind (.lift _) fun budget => .bind (.withLocal ?_) fun locals => .pure _
  have hany := Reporting.enduring .any
  exact (trackHead_related h hrecent hany fun _ _ _ hl => ⟨by rw [hl.same], trivial⟩).congr fun t s =>
    ⟨fun hts => ⟨hts.locals.same, hts.peers⟩, fun hts => ⟨⟨hts.fst, trivial⟩, hts.snd⟩⟩

end

end Chainweave.Live
