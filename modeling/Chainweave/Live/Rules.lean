import Chainweave.Core.LiveKeeps
import Chainweave.Live.Commits

/-!
# Rules for the tracker's methods

One rule for each method of `LiveTracker`, over the live sink: the premises list
the ways it can end, each with what is then known, and say what the caller needs
of them.

* `Replies`: what the answers of a source are known to satisfy; `Answers`: they do,
  and `F` is what is known of a call that fails.
* `Quiet`: nothing but the source, the budget and the report's orders changed.
-/
namespace Chainweave.Live

open Stateful HashLink Chainweave.Chain Chainweave.Backfill Chainweave.Postgres Chainweave.Runtime

/-- What is known of the answers of a source. -/
structure Replies where
  head : BlockHeader → Prop
  block : Nat → IndexedBlock → Prop
  blockOf : BlockHash → IndexedBlock → Prop
  remote : Nat → Option BlockHeader → Prop
  parent : BlockHash → Option BlockHeader → Prop

/-- The headers of all answers are in `V`. -/
structure Replies.Within (V : Set BlockHeader) (A : Replies) : Prop where
  head : ∀ h, A.head h → h ∈ V
  block : ∀ n b, A.block n b → b.header ∈ V
  blockOf : ∀ hash b, A.blockOf hash b → b.header ∈ V
  remote : ∀ n o, A.remote n o → ∀ x ∈ o, x ∈ V
  parent : ∀ hash o, A.parent hash o → ∀ x ∈ o, x ∈ V

/-- A call of a source whose failure ends a run or makes it read the head again. -/
inductive Request where
  | head | verify
  | number (height : Nat)
  | hash (hash : BlockHash)
  | header (height : Nat)

variable {σ ε : Type}

/-- The answers satisfy `A`, from every state of the source. `F` holds of a call that fails, and of
one whose block has logs that do not match it. -/
structure Answers (A : Replies) (F : Request → Prop) (source : BlockSource σ ε) : Prop where
  currentHead : ∀ s, wp source.currentHead (fun h _ => A.head h) (fun _ _ => F .head) s
  blockByNumber : ∀ n s,
    wp (source.blockByNumber n) (fun b _ => A.block n b) (fun _ _ => F (.number n)) s
  blockByHash : ∀ hash s,
    wp (source.blockByHash hash) (fun b _ => A.blockOf hash b) (fun _ _ => F (.hash hash)) s
  headerByNumber : ∀ n s,
    wp (source.headerByNumber n) (fun o _ => A.remote n o) (fun _ _ => F (.header n)) s
  headerByHash : ∀ hash s,
    wp (source.headerByHash hash) (fun o _ => A.parent hash o) (fun _ _ => True) s
  verifyRecent : ∀ n hash s,
    wp (source.verifyRecent n hash) (fun _ _ => True) (fun _ _ => F .verify) s
  logs : ∀ n b, A.block n b → source.blockLogsMatchHeader b = false → F (.number n)
  logsOf : ∀ hash b, A.blockOf hash b → source.blockLogsMatchHeader b = false → F (.hash hash)

theorem Answers.mono {A : Replies} {F F' : Request → Prop} {source : BlockSource σ ε}
    (h : Answers A F source) (hF : ∀ r, F r → F' r) : Answers A F' source where
  currentHead s := wp_mono (h.currentHead s) (fun _ _ h => h) (fun _ _ => hF _)
  blockByNumber n s := wp_mono (h.blockByNumber n s) (fun _ _ h => h) (fun _ _ => hF _)
  blockByHash hash s := wp_mono (h.blockByHash hash s) (fun _ _ h => h) (fun _ _ => hF _)
  headerByNumber n s := wp_mono (h.headerByNumber n s) (fun _ _ h => h) (fun _ _ => hF _)
  headerByHash := h.headerByHash
  verifyRecent n hash s := wp_mono (h.verifyRecent n hash s) (fun _ _ h => h) (fun _ _ => hF _)
  logs n b hb hl := hF _ (h.logs n b hb hl)
  logsOf hash b hb hl := hF _ (h.logsOf hash b hb hl)

/-- The state of a method of the tracker over the live sink. -/
abbrev TrackState (σ : Type) := Locals × Peers σ BlockingPostgresLiveSink

/-- The sink is `k`, the trace has grown by `steps`, and the verdict is as before. -/
structure Left (k : BlockingPostgresLiveSink) (steps : List (LiveStep BlockingPostgresLiveSink))
    (s s' : TrackState σ) : Prop where
  sink : s'.2.sink = k
  trace : s'.2.trace = s.2.trace ++ steps
  halted : s'.1.report.halted = s.1.report.halted

/-- The sink, the trace and the verdict are as before. -/
abbrev Quiet (s s' : TrackState σ) : Prop := Left s.2.sink [] s s'

section
variable {s t u : TrackState σ} {k : BlockingPostgresLiveSink}
  {steps : List (LiveStep BlockingPostgresLiveSink)}

theorem Quiet.refl (s : TrackState σ) : Quiet s s := ⟨rfl, by simp, rfl⟩

theorem Quiet.same (s : TrackState σ) {l : Locals} {a : σ} {n : Nat}
    (hl : l.report.halted = s.1.report.halted) :
    Quiet s (l, { s.2 with source := a, polls := n }) :=
  ⟨rfl, by simp, hl⟩

theorem Quiet.left (h : Quiet s t) (h' : Left k steps t u) : Left k steps s u :=
  ⟨h'.sink, by rw [h'.trace, h.trace]; simp, h'.halted.trans h.halted⟩

theorem Quiet.trans (h : Quiet s t) (h' : Quiet t u) : Quiet s u :=
  h.left ⟨h'.sink.trans h.sink, h'.trace, h'.halted⟩

end

/-- An error of the source. -/
def LiveError.IsSource : LiveError → Prop
  | .source _ => True
  | .reconcile _ => True
  | _ => False

/-! ## Budget, report and calls -/

@[simp] theorem halted_transition (report : LiveReport) (readiness : LiveReadiness) :
    (report.transition readiness).halted = report.halted := by
  unfold LiveReport.transition
  split <;> rfl

section
variable {s : TrackState σ} {α : Type} {Q : α → TrackState σ → Prop}
  {E : LiveError → TrackState σ → Prop}

theorem record_wp {Q : PUnit → TrackState σ → Prop} {method : RpcMethod}
    (hq : ∀ s', Quiet s s' → Q ⟨⟩ s') : wp (record method) Q E s := by
  obtain ⟨b, r, h, hr⟩ := WindowBudget.record_ok s.1.budget method s.1.report
  unfold record
  rw [wp_bind, wp_get, wp_bind, h, wp_lift]
  refine ⟨?_, by simp⟩
  rintro ⟨b', r'⟩ heq
  cases heq
  rw [wp_modify]
  exact hq _ (.same s hr)

theorem modifyReport_wp {Q : PUnit → TrackState σ → Prop} {f : LiveReport → LiveReport}
    (hf : (f s.1.report).halted = s.1.report.halted) (hq : ∀ s', Quiet s s' → Q ⟨⟩ s') :
    wp (modifyReport f) Q E s :=
  hq _ (.same s hf)

theorem callSource_wp {source : BlockSource σ ε} {x : Prog σ ε α} {R : α → Prop} {F : Prop}
    (hx : ∀ a, wp x (fun r _ => R r) (fun _ _ => F) a)
    (hq : ∀ r s', R r → Quiet s s' → Q r s')
    (he : F → ∀ e s', e.IsSource → Quiet s s' → E e s') :
    wp (callSource source.toLiveSource x) Q E s := by
  unfold callSource onPeers onSource
  refine wp_zoom (wp_mapError (wp_zoom ?_))
  refine wp_mono (hx s.2.source) (fun r _ h => ?_) (fun e _ h => ?_)
  · exact hq r _ h (.same s rfl)
  · exact he h _ _ trivial (.same s rfl)

theorem fetch_wp {source : BlockSource σ ε} {x : Prog σ ε α} {R : α → Prop} {F : Prop}
    (hx : ∀ a, wp x (fun r _ => R r) (fun _ _ => F) a)
    (hq : ∀ r s', R r → Quiet s s' → Q r s')
    (he : F → ∀ e s', e.IsSource → Quiet s s' → E e s') :
    wp (fetch source.toLiveSource x) Q E s := by
  unfold fetch noteFailed onPeers onSource
  rw [wp_bind]
  refine wp_attempt (wp_zoom (wp_mapError (wp_zoom ?_)))
  refine wp_mono (hx s.2.source) (fun r _ h => ?_) (fun e _ h => ?_)
  · exact hq r _ h (.same s rfl)
  · dsimp only
    rw [wp_bind]
    refine issue_wp fun s' hpeers hreport => ?_
    obtain ⟨l, p⟩ := s'
    cases hpeers
    refine he h _ _ ?_ (.same s (congrArg LiveReport.halted hreport))
    unfold sourceError
    cases source.sourceErrorKind e <;> trivial

theorem ensureNotCancelled_wp {Q : Unit → TrackState σ → Prop} {isCancelled : Nat → Bool}
    (hq : ∀ s', Quiet s s' → Q () s')
    (he : (∃ n, isCancelled n = true) → ∀ s', Quiet s s' → E .cancelled s') :
    wp (onPeers (ensureNotCancelled isCancelled)) Q E s := by
  refine wp_zoom ?_
  unfold ensureNotCancelled
  rw [wp_bind, wp_get, wp_bind, wp_modify]
  split
  · rename_i hc
    exact he ⟨_, hc⟩ _ (.same s rfl)
  · exact hq _ (.same s rfl)

/-- A read that leaves the sink as it is. -/
theorem readSink_wp {ε' : Type} {E : ε' → TrackState σ → Prop}
    {read : BlockingPostgresLiveSink → α × BlockingPostgresLiveSink} {r : α}
    (hr : read s.2.sink = (r, s.2.sink)) (hq : ∀ s', Quiet s s' → Q r s') :
    wp (onPeers (readSink read)) Q E s := by
  refine wp_zoom ?_
  show Q (read s.2.sink).1 (s.1, { s.2 with sink := (read s.2.sink).2 })
  rw [hr]
  exact hq _ (.same s rfl)

theorem note_wp {Q : PUnit → TrackState σ → Prop}
    {step : BlockingPostgresLiveSink → LiveStep BlockingPostgresLiveSink}
    (hq : Q ⟨⟩ (s.1, { s.2 with trace := s.2.trace ++ [step s.2.sink] })) :
    wp (onPeers (note step)) Q E s := hq

end

/-! ## One height -/

section
variable {A : Replies} {F : Request → Prop} {source : BlockSource σ ε} {isCancelled : Nat → Bool}
  {s : TrackState σ} {E : LiveError → TrackState σ → Prop}

theorem validateOrRefetchNumber_wp {Q : BlockHeader × IndexedBlock → TrackState σ → Prop}
    (hA : Answers A F source) {height : Nat} {block : IndexedBlock} (hb : A.block height block)
    (hq : ∀ b s', A.block height b → Quiet s s' → Q (b.header, b) s')
    (he : F (.number height) → ∀ e s', e.IsSource → Quiet s s' → E e s') :
    wp (validateOrRefetchNumber source.toLiveSource height block) Q E s := by
  unfold validateOrRefetchNumber
  rw [source.blockHeader_eq]
  split
  · exact hq block s hb (.refl s)
  rename_i hlogs
  have hF := hA.logs height block hb (by simpa using hlogs)
  rw [wp_bind]
  refine modifyReport_wp (by simp) fun s1 h1 => ?_
  rw [wp_bind]
  refine record_wp fun s2 h2 => ?_
  rw [wp_bind]
  refine fetch_wp (hA.blockByNumber height) ?_
    (fun hf e s' hs h => he hf e s' hs (h1.trans (h2.trans h)))
  intro b s3 hb' h3
  rw [wp_bind]
  refine record_wp fun s4 h4 => ?_
  have hquiet := h1.trans (h2.trans (h3.trans h4))
  split
  · exact hq b s4 hb' hquiet
  · exact he hF _ _ trivial hquiet

theorem validateOrRefetchHash_wp {Q : IndexedBlock → TrackState σ → Prop}
    (hA : Answers A F source) {expected : BlockHeader} {block : IndexedBlock}
    (hb : A.blockOf expected.hash block) (hother : block.header ≠ expected → F (.hash expected.hash))
    (hq : ∀ b s', A.blockOf expected.hash b → b.header = expected → Quiet s s' → Q b s')
    (he : F (.hash expected.hash) → ∀ e s', e.IsSource → Quiet s s' → E e s') :
    wp (validateOrRefetchHash source.toLiveSource expected block) Q E s := by
  unfold validateOrRefetchHash
  rw [source.blockHeader_eq]
  split
  · rename_i hok
    exact hq block s hb hok.1 (.refl s)
  rename_i hno
  have hF : F (.hash expected.hash) := by
    by_cases hh : block.header = expected
    · exact hA.logsOf expected.hash block hb (by simpa [hh] using hno)
    · exact hother hh
  rw [wp_bind]
  refine modifyReport_wp (by simp) fun s1 h1 => ?_
  rw [wp_bind]
  refine record_wp fun s2 h2 => ?_
  rw [wp_bind]
  refine fetch_wp (hA.blockByHash expected.hash) ?_
    (fun hf e s' hs h => he hf e s' hs (h1.trans (h2.trans h)))
  intro b s3 hb' h3
  rw [wp_bind]
  refine record_wp fun s4 h4 => ?_
  have hquiet := h1.trans (h2.trans (h3.trans h4))
  split
  · rename_i hok
    exact hq b s4 hb' hok.1 hquiet
  · exact he hF _ _ trivial hquiet

/-- A block that may be pushed at `height` onto `anchor`. -/
structure Offered (A : Replies) (height : Nat) (anchor : Option BlockHeader)
    (block : IndexedBlock) : Prop where
  reply : A.block height block
  height_eq : block.header.height = height
  child : ∀ a ∈ anchor, IsChild block.header a

theorem oneBlockRange_error {height : Nat} {header : BlockHeader} {block : IndexedBlock}
    {e : BackfillError} (h : oneBlockRange height header block = .error e) :
    header.height ≠ height ∧ e = .headerHeightMismatch 0 height header.height := by
  have hne : header.height ≠ height := by
    intro he
    obtain ⟨fetched, hf, -⟩ := oneBlockRange_exists header block
    rw [he, h] at hf
    cases hf
  refine ⟨hne, ?_⟩
  unfold oneBlockRange at h
  rw [BackfillRange.new_self] at h
  simp only [bind, Except.bind] at h
  have hv := FetchedRange.new_error h
  unfold validateHeaders at hv
  rw [BackfillRange.len_self, if_neg (by simp)] at hv
  unfold validateFrom at hv
  rw [if_pos (by simpa using hne)] at hv
  exact (Except.error.inj hv).symm

/-- **One height.** The block the source has there is committed if it is at that height, follows the
coordinator's anchor and the sink takes it. -/
theorem fetchAndPushHeight_wp {Q : OrderedCommitCoordinator IndexedBlock → TrackState σ → Prop}
    (hA : Answers A F source) {c : OrderedCommitCoordinator IndexedBlock} {height target : Nat}
    {anchor : Option BlockHeader} (hidle : Idle c height target anchor) (hle : height ≤ target)
    (hok : ∀ block, Offered A height anchor block → ∀ k',
      Follows s.2.sink.parentAnchor block.header →
      DidCommit (blockBatch s.2.sink.parentAnchor block) s.2.sink.server k'.server →
      k'.parentAnchor = some block.header →
      ∀ c' s', Idle c' (satAdd height 1) target (some block.header) → Left k' [] s s' → Q c' s')
    (hsource : F (.number height) → ∀ e s', e.IsSource → Quiet s s' → E e s')
    (hheight : ∀ block, A.block height block → block.header.height ≠ height →
      ∀ s', Quiet s s' → E (.backfill (.headerHeightMismatch 0 height block.header.height)) s')
    (hchild : ∀ block a, A.block height block → block.header.height = height → anchor = some a →
      ¬ IsChild block.header a → ∀ s', Quiet s s' →
        E (.backfill (.fetchedSuffixInvalidated height a.hash block.header.parentHash)) s')
    (hcommit : ∀ block, Offered A height anchor block → ∀ k',
      (SameRows s.2.sink.server k'.server ∨ Follows s.2.sink.parentAnchor block.header ∧
        DidCommit (blockBatch s.2.sink.parentAnchor block) s.2.sink.server k'.server) →
      (s.2.sink.server.commitFaults = [] → Follows s.2.sink.parentAnchor block.header →
        ∃ e, Postgres.applyBatch s.2.sink.server.db
          (blockBatch s.2.sink.parentAnchor block) = .error e) →
      ∀ m s', Left k' [] s s' → E (.backfill (.commit m)) s') :
    wp (fetchAndPushHeight source.toLiveSource BlockingPostgresLiveSink.liveSink c height) Q E s := by
  unfold fetchAndPushHeight
  rw [wp_bind]
  refine record_wp fun s1 h1 => ?_
  rw [wp_bind]
  refine fetch_wp (hA.blockByNumber height) ?_ (fun hf e s' hs h => hsource hf e s' hs (h1.trans h))
  intro block0 s2 hb0 h2
  rw [wp_bind]
  refine record_wp fun s3 h3 => ?_
  rw [wp_bind]
  refine validateOrRefetchNumber_wp hA hb0 ?_
    (fun hf e s' hs h => hsource hf e s' hs (h1.trans (h2.trans (h3.trans h))))
  intro block s4 hb h4
  have hquiet : Quiet s s4 := h1.trans (h2.trans (h3.trans h4))
  have hsink : s4.2.sink = s.2.sink := hquiet.sink
  dsimp only
  rw [wp_bind, wp_lift]
  constructor
  swap
  · intro e he
    cases hr : oneBlockRange height block.header block with
    | ok fetched => rw [hr] at he; cases he
    | error e' =>
      rw [hr] at he
      obtain ⟨hne, rfl⟩ := oneBlockRange_error hr
      obtain rfl := Except.error.inj he
      exact hheight block hb hne s4 hquiet
  intro fetched hf
  have hf' : oneBlockRange height block.header block = .ok fetched := by
    cases hr : oneBlockRange height block.header block with
    | error e => rw [hr] at hf; cases hf
    | ok f => rw [hr] at hf; rw [Except.ok.inj hf]
  obtain ⟨rfl, hone⟩ := oneBlockRange_ok hf'
  rw [wp_bind]
  unfold pushRange onPeers onSink
  refine wp_zoom (wp_mapError (wp_zoom (wp_withLocal (push_wp hone hidle hle ?_ ?_))))
  · intro a ha hno _
    exact hchild block a hb rfl ha hno _ (hquiet.trans (.same s4 rfl))
  · intro hfol
    have hoff : Offered A block.header.height anchor block := ⟨hb, rfl, hfol⟩
    have hk : wp (BlockingPostgresLiveSink.commitRange fetched) _ _ s4.2.sink :=
      BlockingPostgresLiveSink.commitRange_wp hone s4.2.sink
    rw [hsink] at hk
    rw [hsink]
    refine wp_mono hk ?_ ?_
    · rintro _ k' ⟨hfollows, hdid, hanchor⟩ c' hidle'
      show wp (if 0 < (oneBlockProgress block.header).committedBlocks then _ else _) Q E _
      rw [if_pos (show 0 < (oneBlockProgress block.header).committedBlocks from Nat.one_pos), wp_bind]
      refine modifyReport_wp rfl fun s' h' => ?_
      refine hok block hoff k' hfollows hdid hanchor c' s' hidle' ?_
      exact ⟨h'.sink, by rw [h'.trace]; simpa using hquiet.trace, h'.halted.trans hquiet.halted⟩
    · rintro m k' ⟨hdid, hblame⟩ c'
      exact hcommit block hoff k' hdid hblame m _ (hquiet.left ⟨rfl, by simp, rfl⟩)

/-! ## A batch -/

/-- The blocks of the apply events, in order. -/
theorem fetchApplyBlocks_wp (hA : Answers A F source)
    (hcancel : (∃ n, isCancelled n = true) → ∀ s', Quiet s s' → E .cancelled s') :
    ∀ (events : List ChainEvent) (Q : List IndexedBlock → TrackState σ → Prop) (s1 : TrackState σ),
      Quiet s s1 →
      (∀ x ∈ applyHeaders events, F (.hash x.hash) → ∀ e s', e.IsSource → Quiet s s' → E e s') →
      (∀ x ∈ applyHeaders events, ∀ b, A.blockOf x.hash b → b.header ≠ x → F (.hash x.hash)) →
      (∀ blocks s', blocks.map (·.header) = applyHeaders events →
        (∀ b ∈ blocks, A.blockOf b.header.hash b) → Quiet s s' → Q blocks s') →
      wp (fetchApplyBlocks source.toLiveSource isCancelled events) Q E s1
  | [], Q, s1, h1, _, _, hq => hq [] s1 rfl (by simp) h1
  | .rollback header :: events, Q, s1, h1, hsource, hother, hq => by
    unfold fetchApplyBlocks
    rw [wp_bind]
    refine ensureNotCancelled_wp ?_ (fun hc s' h => hcancel hc s' (h1.trans h))
    intro s2 h2
    rw [wp_bind]
    refine modifyReport_wp rfl fun s3 h3 => ?_
    exact fetchApplyBlocks_wp hA hcancel events Q s3 (h1.trans (h2.trans h3)) hsource hother hq
  | .apply header :: events, Q, s1, h1, hsource, hother, hq => by
    have happ : applyHeaders (.apply header :: events) = header :: applyHeaders events := rfl
    rw [happ] at hsource hother hq
    unfold fetchApplyBlocks
    rw [wp_bind]
    refine ensureNotCancelled_wp ?_ (fun hc s' h => hcancel hc s' (h1.trans h))
    intro s2 h2
    rw [wp_bind]
    refine modifyReport_wp rfl fun s3 h3 => ?_
    rw [wp_bind]
    refine record_wp fun s4 h4 => ?_
    have hq4 : Quiet s s4 := h1.trans (h2.trans (h3.trans h4))
    rw [wp_bind]
    refine fetch_wp (hA.blockByHash header.hash) ?_
      (fun hf e s' hs h => hsource header (by simp) hf e s' hs (hq4.trans h))
    intro block0 s5 hb0 h5
    rw [wp_bind]
    refine record_wp fun s6 h6 => ?_
    have hq6 : Quiet s s6 := hq4.trans (h5.trans h6)
    rw [wp_bind]
    refine validateOrRefetchHash_wp hA hb0 (fun hne => hother header (by simp) block0 hb0 hne) ?_
      (fun hf e s' hs h => hsource header (by simp) hf e s' hs (hq6.trans h))
    rintro block s7 hb rfl h7
    rw [wp_bind]
    refine fetchApplyBlocks_wp hA hcancel events _ s7 (hq6.trans h7)
      (fun x hx => hsource x (List.mem_cons_of_mem _ hx))
      (fun x hx => hother x (List.mem_cons_of_mem _ hx)) ?_
    intro blocks s8 hmap hblocks h8
    refine hq (block :: blocks) s8 (by rw [List.map_cons, hmap]) ?_ h8
    intro b hmem
    rcases List.mem_cons.1 hmem with rfl | hmem
    · exact hb
    · exact hblocks b hmem

/-- The blocks of a batch, and its commit. -/
theorem commitChainBatch_wp {Q : Unit → TrackState σ → Prop} (hA : Answers A F source)
    (hreads : s.2.sink.server.readFaults = []) {head : BlockHeader} {batch : ChainBatch}
    (hother : ∀ x ∈ applyHeaders batch.events, ∀ b, A.blockOf x.hash b → b.header ≠ x →
      F (.hash x.hash))
    (hok : ∀ blocks durable k', blocks.map (·.header) = applyHeaders batch.events →
      (∀ b ∈ blocks, A.blockOf b.header.hash b) →
      DurableChainBatch.fromChainBatch batch blocks = .ok durable →
      (durable.isEmpty = true ∧ SameRows s.2.sink.server k'.server ∨
        DidCommit durable s.2.sink.server k'.server) →
      ∀ s', Left k' [.batch head s.2.sink batch] s s' → Q () s')
    (hsource : ∀ x ∈ applyHeaders batch.events, F (.hash x.hash) →
      ∀ e s', e.IsSource → Quiet s s' → E e s')
    (hcancel : (∃ n, isCancelled n = true) → ∀ s', Quiet s s' → E .cancelled s')
    (hcommit : ∀ blocks k', blocks.map (·.header) = applyHeaders batch.events →
      (∀ b ∈ blocks, A.blockOf b.header.hash b) →
      (SameRows s.2.sink.server k'.server ∨
        ∃ durable, DurableChainBatch.fromChainBatch batch blocks = .ok durable ∧
          DidCommit durable s.2.sink.server k'.server) →
      (s.2.sink.server.commitFaults = [] → ∀ durable,
        DurableChainBatch.fromChainBatch batch blocks = .ok durable →
          ∃ e, Postgres.applyBatch s.2.sink.server.db durable = .error e) →
      ∀ m s', Left k' [.batch head s.2.sink batch] s s' → E (.sink m) s') :
    wp (commitChainBatch source.toLiveSource BlockingPostgresLiveSink.liveSink isCancelled head batch)
      Q E s := by
  unfold commitChainBatch
  rw [wp_bind]
  refine fetchApplyBlocks_wp hA hcancel batch.events _ s (.refl s) hsource hother ?_
  intro blocks s1 hmap hblocks h1
  rw [wp_bind]
  refine note_wp ?_
  unfold onPeers onSink
  refine wp_zoom (wp_mapError (wp_zoom ?_))
  have hsink : s1.2.sink = s.2.sink := h1.sink
  have htrace : s1.2.trace = s.2.trace := by simpa using h1.trace
  have hk : wp (BlockingPostgresLiveSink.liveSink.commitBatch batch blocks) _ _ s.2.sink :=
    BlockingPostgresLiveSink.commitBatch_wp hreads batch blocks
  dsimp only
  rw [hsink]
  refine wp_mono hk ?_ ?_
  · intro _ k' hpost
    rcases hpost with ⟨durable, hd, hdid⟩
    exact hok blocks durable k' hmap hblocks hd hdid _ ⟨rfl, by rw [← htrace], h1.halted⟩
  · intro m k' hpost
    rcases hpost with ⟨hdid, hblame⟩
    exact hcommit blocks k' hmap hblocks hdid hblame m _ ⟨rfl, by rw [← htrace], h1.halted⟩

end

/-! ## A head -/

theorem checkpointRow_mem {db : Database} {header : BlockHeader}
    (h : BlockingPostgresLiveSink.checkpointRow db = some header) : header ∈ db.1.canonical := by
  unfold BlockingPostgresLiveSink.checkpointRow at h
  split at h
  · cases h
  · exact Database.mem_of_canonicalHeaderAtHeight h

/-- The state of `apply_chain_state` knows the checkpoint and nothing else. -/
structure FromCheckpoint (config : LiveConfig) (checkpoint : BlockHeader) (state : ChainState) :
    Prop where
  tip : state.tip = some checkpoint
  maxReorgDepth : state.maxReorgDepth = config.maxReorgDepth
  finalizedHeight : state.finalizedHeight = config.finalizedHeight
  within : Within {checkpoint} state
  known : ∀ x, state.isKnownCanonical x = true → x = checkpoint

theorem checkpointState_ok {config : LiveConfig} {checkpoint : BlockHeader} {state : ChainState}
    (h : checkpointState config checkpoint = .ok state) :
    config.maxReorgDepth ≠ 0 ∧ FromCheckpoint config checkpoint state := by
  unfold checkpointState at h
  obtain ⟨tipped, ht, h⟩ := ok_bind.1 h
  cases h
  have ht' : ChainState.fromTip checkpoint 256 config.maxReorgDepth = .ok tipped := by
    cases hf : ChainState.fromTip checkpoint 256 config.maxReorgDepth with
    | error e => rw [hf] at ht; cases ht
    | ok t => rw [hf] at ht; rw [Except.ok.inj ht]
  obtain ⟨empty, hn, rfl⟩ := fromTip_eq ht'
  have hV : HashId {checkpoint} := by rintro a rfl b rfl _; rfl
  have hwithin := reachable_within hV (Reachable.fromTip (V := {checkpoint}) rfl ht')
  obtain ⟨hd, rfl⟩ := ChainState.new_eq hn
  refine ⟨hd.ne', rfl, rfl, rfl, ⟨hwithin.tip, hwithin.cache, hwithin.canonical⟩, ?_⟩
  intro x hx
  simp only [ChainState.isKnownCanonical, Bool.and_eq_true, beq_iff_eq] at hx
  exact hwithin.canonical _ _ hx.2

theorem checkpointState_error {config : LiveConfig} {checkpoint : BlockHeader} {e : LiveError}
    (h : checkpointState config checkpoint = .error e) :
    config.maxReorgDepth = 0 ∧ e = .chain .emptyMaxReorgDepth := by
  unfold checkpointState ChainState.fromTip ChainState.new at h
  rw [if_neg (by decide)] at h
  split at h
  · rename_i hd
    exact ⟨hd, (Except.error.inj h).symm⟩
  · cases h

/-- An outcome of a head on the checkpoint, over the sink `k`. -/
def Outcome (config : LiveConfig) (source : BlockSource σ ε) (k : BlockingPostgresLiveSink)
    (checkpoint head : BlockHeader) (r : Except ChainError ChainBatch) : Prop :=
  ∃ (state : ChainState) (s : TrackState σ),
    checkpointState config checkpoint = .ok state ∧ s.2.sink = k ∧
      (exec (ChainState.apply (liveResolver source.toLiveSource BlockingPostgresLiveSink.liveSink)
        head) (state, s)).1 = r

section
variable {V : Set BlockHeader} {A : Replies} {F : Request → Prop} {source : BlockSource σ ε}
  {config : LiveConfig} {isCancelled : Nat → Bool} {s : TrackState σ}
  {E : LiveError → TrackState σ → Prop}

/-- The resolver reads the canonical rows, and leaves the sink, the trace and the verdict. -/
theorem liveResolver_lookups (hin : A.Within V) (hA : Answers A F source)
    (hreads : s.2.sink.server.readFaults = []) :
    Lookups (Quiet s) V s.2.sink.server.db.1.canonical
      (liveResolver source.toLiveSource BlockingPostgresLiveSink.liveSink) where
  headerByHash hash t ht := by
    unfold liveResolver
    rw [wp_bind]
    refine wp_zoom (wp_mapError (wp_zoom (wp_mono (hA.headerByHash hash t.2.source) ?_ ?_)))
    · intro o a ho
      exact ⟨⟨ht.sink, ht.trace, ht.halted⟩, hin.parent hash o ho⟩
    · intro _ a _
      exact ⟨ht.sink, ht.trace, ht.halted⟩
  canonicalHeaderByHash hash t ht := by
    rw [← ht.sink] at hreads
    refine readSink_wp (BlockingPostgresLiveSink.canonicalHeaderByHash_read hreads hash) fun t' h => ?_
    exact ⟨ht.trans h, by rw [ht.sink]; rfl⟩
  canonicalHeaderAtHeight height t ht := by
    rw [← ht.sink] at hreads
    refine readSink_wp (BlockingPostgresLiveSink.canonicalHeaderAtHeight_read hreads height)
      fun t' h => ⟨ht.trans h, fun x hx => ?_⟩
    rw [ht.sink] at hx
    exact Database.mem_of_canonicalHeaderAtHeight hx

/-- **A head on the checkpoint.** -/
theorem applyChainState_wp {Q : Unit → TrackState σ → Prop} (hV : HashId V) (hin : A.Within V)
    (hA : Answers A F source) (hrows : ∀ x ∈ s.2.sink.server.db.1.headers, x ∈ V)
    (hreads : s.2.sink.server.readFaults = []) {checkpoint head : BlockHeader}
    (htop : BlockingPostgresLiveSink.checkpointRow s.2.sink.server.db = some checkpoint)
    (hhead : head ∈ V)
    (hdepth : config.maxReorgDepth = 0 →
      ∀ s', Quiet s s' → E (.chain .emptyMaxReorgDepth) s')
    (hok : ∀ batch state state', Outcome config source s.2.sink checkpoint head (.ok batch) →
      FromCheckpoint config checkpoint state →
      Applied V (· ∈ s.2.sink.server.db.1.canonical) (· ∉ s.2.sink.server.db.1.canonical) state head
        batch state' →
      ∀ s', Quiet s s' → wp (commitChainBatch source.toLiveSource BlockingPostgresLiveSink.liveSink
        isCancelled head batch) Q E s')
    (hmax : ∀ d, Outcome config source s.2.sink checkpoint head (.error (.maxDepthExceeded d)) →
      ∀ s', s'.2.sink = s.2.sink → s'.2.trace = s.2.trace →
        s'.1.report.halted = some .maxReorgDepth → Q () s')
    (hfinal : ∀ a f, Outcome config source s.2.sink checkpoint head
        (.error (.finalizedBoundary a f)) →
      ∀ s', s'.2.sink = s.2.sink → s'.2.trace = s.2.trace →
        s'.1.report.halted = some .finalizedBoundary → Q () s')
    (herror : ∀ e, Outcome config source s.2.sink checkpoint head (.error e) →
      (∀ d, e ≠ .maxDepthExceeded d) → (∀ a f, e ≠ .finalizedBoundary a f) →
      ∀ s', Quiet s s' → E (.chain e) s') :
    wp (applyChainState config source.toLiveSource BlockingPostgresLiveSink.liveSink isCancelled
      head) Q E s := by
  have hcp := checkpointRow_mem htop
  have hcpV : checkpoint ∈ V := hrows _ (Tables.canonical_subset hcp)
  unfold applyChainState
  rw [wp_bind]
  refine readSink_wp (BlockingPostgresLiveSink.checkpoint_read hreads) fun s1 h1 => ?_
  rw [htop]
  dsimp only
  rw [wp_bind, wp_lift]
  constructor
  swap
  · intro e he
    obtain ⟨hzero, rfl⟩ := checkpointState_error he
    exact hdepth hzero s1 h1
  intro state hstate
  obtain ⟨-, hfrom⟩ := checkpointState_ok hstate
  have hself : Within V state :=
    ⟨fun x hx => (hfrom.within.tip x hx) ▸ hcpV, fun k x hx => (hfrom.within.cache k x hx) ▸ hcpV,
      fun k x hx => (hfrom.within.canonical k x hx) ▸ hcpV⟩
  have happly := apply_wp hV (steps_canonical hself (fun x hx => (hfrom.known x hx) ▸ hcp)
    (liveResolver_lookups (A := A) hin hA hreads)) hself.tip hhead h1
  have hout : Outcome config source s.2.sink checkpoint head _ := ⟨state, s1, hstate, h1.sink, rfl⟩
  have hhalt : ∀ (t : TrackState σ) (reason : LiveHaltReason), Quiet s t →
      (∀ s' : TrackState σ, s'.2.sink = s.2.sink → s'.2.trace = s.2.trace →
        s'.1.report.halted = some reason → Q () s') →
      wp (haltRun BlockingPostgresLiveSink.liveSink reason) Q E t := by
    intro t reason ht hq
    unfold haltRun
    rw [wp_bind]
    refine readSink_wp (BlockingPostgresLiveSink.checkpoint_read ?_) fun s2 h2 => ?_
    · rw [ht.sink]
      exact hreads
    · have h2t : s2.2.trace = s.2.trace := by simpa using (ht.trans h2).trace
      exact hq _ (ht.trans h2).sink h2t rfl
  rw [wp_bind]
  refine wp_attempt (wp_withLocal ?_)
  -- the resolver's calls are quiet, whatever `apply` returns
  refine wp_of_eq (r := (exec (ChainState.apply (liveResolver source.toLiveSource
      BlockingPostgresLiveSink.liveSink) head) (state, s1)).1) rfl ?_ ?_
  · intro batch hb
    have hap := wp_ok happly (Prod.ext hb rfl)
    rw [hb] at hout
    exact hok batch state _ hout hfrom hap.2 _ hap.1
  · intro e he
    have hap := wp_error happly (Prod.ext he rfl)
    rw [he] at hout
    cases e with
    | maxDepthExceeded d => exact hhalt _ _ hap.1 (hmax d hout)
    | finalizedBoundary a f => exact hhalt _ _ hap.1 (hfinal a f hout)
    | _ => exact herror _ hout (by simp) (by simp) _ hap.1

end

/-! ## A run -/

section
open BlockingPostgresLiveSink (checkpointRow)

variable {A : Replies} {F : Request → Prop} {source : BlockSource σ ε} {config : LiveConfig}
  {isCancelled : Nat → Bool}

/-- **The ways of a head**: it is compared with the checkpoint. -/
theorem trackHead_wp {s : TrackState σ} {Q : Unit → TrackState σ → Prop}
    {E : LiveError → TrackState σ → Prop} (hA : Answers A F source)
    (hreads : s.2.sink.server.readFaults = [])
    (hsource : F .head ∨ F .verify → ∀ e s', e.IsSource → Quiet s s' → E e s')
    (hmissing : checkpointRow s.2.sink.server.db = none → config.explicitStart = none → ∀ s',
      s'.2.sink = s.2.sink → s'.2.trace = s.2.trace →
      s'.1.report.halted = some .missingExplicitStart → Q () s')
    (hstart : ∀ head, A.head head → checkpointRow s.2.sink.server.db = none →
      config.explicitStart ≠ none → ∀ s', Quiet s s' → wp (do
        catchUpFromStart config source.toLiveSource BlockingPostgresLiveSink.liveSink isCancelled head
        finish BlockingPostgresLiveSink.liveSink) Q E s')
    (hlower : ∀ head checkpoint, A.head head →
      checkpointRow s.2.sink.server.db = some checkpoint → head.height < checkpoint.height →
      ∀ s', Quiet s s' → wp (lowerHead config source.toLiveSource BlockingPostgresLiveSink.liveSink
        isCancelled checkpoint head) Q E s')
    (hsibling : ∀ head checkpoint, A.head head →
      checkpointRow s.2.sink.server.db = some checkpoint → head.height = checkpoint.height →
      head.hash ≠ checkpoint.hash → ∀ s', Quiet s s' → wp (do
        applyChainState config source.toLiveSource BlockingPostgresLiveSink.liveSink isCancelled head
        finish BlockingPostgresLiveSink.liveSink) Q E s')
    (hsame : ∀ head checkpoint, A.head head →
      checkpointRow s.2.sink.server.db = some checkpoint → head.hash = checkpoint.hash →
      ∀ s', Quiet s s' → wp (finish BlockingPostgresLiveSink.liveSink) Q E s')
    (hhigher : ∀ head checkpoint, A.head head →
      checkpointRow s.2.sink.server.db = some checkpoint → checkpoint.height < head.height →
      ∀ s', Quiet s s' → wp (do
        catchUpFromCheckpoint config source.toLiveSource BlockingPostgresLiveSink.liveSink isCancelled
          checkpoint head
        finish BlockingPostgresLiveSink.liveSink) Q E s') :
    wp (trackHead config source.toLiveSource BlockingPostgresLiveSink.liveSink isCancelled) Q E s := by
  unfold trackHead
  rw [wp_bind]
  refine record_wp fun s1 h1 => ?_
  rw [wp_bind]
  refine callSource_wp hA.currentHead ?_
    (fun hF e s' hs h => hsource (.inl hF) e s' hs (h1.trans h))
  intro head s2 hhead h2
  have hq2 : Quiet s s2 := h1.trans h2
  rw [wp_bind]
  refine issue_wp fun s2' hpeers hreport => ?_
  have hq2' : Quiet s s2' := hq2.trans ⟨by rw [hpeers], by rw [hpeers]; simp, by rw [hreport]⟩
  rw [wp_bind]
  refine callSource_wp (R := fun _ => True) (hA.verifyRecent head.height head.hash) ?_
    (fun hF e s' hs h => hsource (.inr hF) e s' hs (hq2'.trans h))
  intro status s3 _ h3
  have hq3 : Quiet s s3 := hq2'.trans h3
  rw [wp_bind]
  refine modifyReport_wp (by unfold noteVerifier; split <;> simp) fun s4 h4 => ?_
  have hq4 : Quiet s s4 := hq3.trans h4
  have hreads4 : s4.2.sink.server.readFaults = [] := by
    rw [hq4.sink]
    exact hreads
  rw [wp_bind]
  refine readSink_wp (BlockingPostgresLiveSink.checkpoint_read hreads4) fun s5 h5 => ?_
  have hq5 : Quiet s s5 := hq4.trans h5
  have hrow : checkpointRow s4.2.sink.server.db = checkpointRow s.2.sink.server.db := by
    rw [hq4.sink]
  rw [hrow]
  cases htop : checkpointRow s.2.sink.server.db with
  | none =>
    dsimp only
    split
    · rename_i hnone
      have htrace : s5.2.trace = s.2.trace := by simpa using hq5.trace
      exact hmissing htop (by simpa using hnone) _ hq5.sink htrace rfl
    · rename_i hsome
      exact hstart head hhead htop (fun hnone => hsome (by simp [hnone])) s5 hq5
  | some checkpoint =>
    dsimp only
    split
    · rename_i hlow
      exact hlower head checkpoint hhead htop hlow s5 hq5
    rename_i hlow
    split
    · rename_i hheight
      split
      · rename_i hhash
        exact hsibling head checkpoint hhead htop hheight hhash s5 hq5
      · rename_i hhash
        exact hsame head checkpoint hhead htop (by simpa using hhash) s5 hq5
    · rename_i hheight
      exact hhigher head checkpoint hhead htop (by omega) s5 hq5

theorem halted_observe (report : LiveReport) (events : List LiveHeadEvent) :
    (events.foldl observeEvent report).halted = report.halted := by
  induction events generalizing report with
  | nil => rfl
  | cons event events ih =>
    rw [List.foldl_cons, ih]
    cases event with
    | disconnect => exact halted_transition report .unavailable
    | reconnect => rfl
    | wake header => rfl

theorem windowBudget_new (config : LiveConfig) :
    (config.liveBudgetCostUnitsPerMinute = 0 ∧
        WindowBudget.new config = .error (.backfill .emptyCostBudget)) ∨
      config.liveBudgetCostUnitsPerMinute ≠ 0 ∧ ∃ budget, WindowBudget.new config = .ok budget := by
  unfold WindowBudget.new RpcBudget.new
  rw [dif_neg (by decide : u64Max ≠ 0)]
  by_cases hzero : config.liveBudgetCostUnitsPerMinute = 0
  · rw [dif_pos hzero]
    exact .inl ⟨hzero, rfl⟩
  · rw [dif_neg hzero]
    exact .inr ⟨hzero, _, rfl⟩

/-- **A run** reads the checkpoint, makes its budget and tracks the head. -/
theorem runWithCancellation_wp {p : Peers σ BlockingPostgresLiveSink} {events : List LiveHeadEvent}
    {Q : LiveReport → Peers σ BlockingPostgresLiveSink → Prop}
    {E : LiveError → Peers σ BlockingPostgresLiveSink → Prop}
    (hreads : p.sink.server.readFaults = [])
    (hcancel : (∃ n, isCancelled n = true) → ∀ p', p'.sink = p.sink → p'.trace = p.trace →
      E .cancelled p')
    (hbudget : config.liveBudgetCostUnitsPerMinute = 0 → ∀ p', p'.sink = p.sink →
      p'.trace = p.trace → E (.backfill .emptyCostBudget) p')
    (htrack : config.liveBudgetCostUnitsPerMinute ≠ 0 → ∀ s : TrackState σ, s.2.sink = p.sink →
      s.2.trace = p.trace → s.1.report.halted = none →
      wp (trackHead config source.toLiveSource BlockingPostgresLiveSink.liveSink isCancelled)
        (fun _ s' => Q s'.1.report s'.2) (fun e s' => E e s'.2) s) :
    wp (runWithCancellation config source.toLiveSource BlockingPostgresLiveSink.liveSink isCancelled
      events) Q E p := by
  have hsink : (p.begun BlockingPostgresLiveSink.liveSink).sink = p.sink := by
    show (BlockingPostgresLiveSink.checkpoint p.sink).2 = p.sink
    rw [BlockingPostgresLiveSink.checkpoint_read hreads]
  refine runWithCancellation_rule (fun hcancelled => hcancel ⟨_, hcancelled⟩ _ hsink rfl) (fun e he => ?_)
    fun budget _ hnew => ?_
  · obtain ⟨hzero, hnew⟩ | ⟨-, budget, hnew⟩ := windowBudget_new config
    · cases hnew.symm.trans he
      exact hbudget hzero _ hsink rfl
    · cases hnew.symm.trans he
  · obtain ⟨-, hzero⟩ | ⟨hpos, -⟩ := windowBudget_new config
    · cases hnew.symm.trans hzero
    · exact wp_mono (htrack hpos _ hsink rfl (halted_observe _ events)) (fun _ _ h => h) fun _ _ h => h

end

end Chainweave.Live
