import Chainweave.Core.LiveKeeps

/-!
# When a run ends ready

A run that returns without a halt and without a disagreement ends `Ready`, on every
path but one: where the head is below the checkpoint and on the chain of the sink it
ends `Degraded`.

* `SeesLag`: the answers that lead there.
* `run_ready`: without them the report is ready.
* `run_lagging`: with them the run returns, and the report is degraded.
-/
namespace Chainweave.Live

open Stateful Chainweave.Chain Chainweave.Backfill

variable {σ κ ε β : Type}

/-- The source has its head below the checkpoint, with the hash that the sink has at that height; `a`
and `k` are the peers after the questions. -/
def SeesLag (source : LiveSource σ ε β) (sink : LiveSink κ β) (p : Peers σ κ)
    (head checkpoint : BlockHeader) (a : σ) (k : κ) : Prop :=
  head.height < checkpoint.height ∧
    ∃ a1 status a2 remote k2 row,
      exec source.currentHead p.source = (.ok head, a1) ∧
      exec (source.verifyRecent head.height head.hash) a1 = (.ok status, a2) ∧
      exec (source.headerByNumber head.height) a2 = (.ok (some remote), a) ∧
      sink.checkpoint (sink.checkpoint p.sink).2 = (some checkpoint, k2) ∧
      sink.canonicalHeaderAtHeight head.height k2 = (some row, k) ∧ remote.hash = row.hash

/-- `count` counts the disagreements of the verifier: it is positive after one, and stays so. -/
structure Counting (source : LiveSource σ ε β) (sink : LiveSink κ β) (count : σ → Nat) : Prop where
  stable : ∀ n ≤ 1, Stable source sink fun a _ => n ≤ count a
  disagree : ∀ height hash a a', exec (source.verifyRecent height hash) a = (.ok .Disagree, a') →
    0 < count a'

/-! ## The end of a run -/

section
variable {source : LiveSource σ ε β} {sink : LiveSink κ β} {config : LiveConfig}
  {isCancelled : Nat → Bool} {count : σ → Nat} {status : VerifierStatus}

/-- How many disagreements an answer of the verifier is. -/
def VerifierStatus.disagreements : VerifierStatus → Nat
  | .Disagree => 1
  | _ => 0

theorem VerifierStatus.disagreements_le (status : VerifierStatus) : status.disagreements ≤ 1 := by
  cases status <;> decide

/-- The report counts the verifier's answer, unless it is halted. -/
def Reported (status : VerifierStatus) (report : LiveReport) : Prop :=
  report.halted = none → report.verifierDisagreements = status.disagreements

theorem reported_lasting : Lasting (Reported status) where
  same report report' h hhalted hcount := by
    intro hnone
    rw [hcount]
    exact h (hhalted ▸ hnone)
  halt checkpoint reason := by
    intro hnone
    cases hnone

/-- So does the source. -/
def Counted (count : σ → Nat) (status : VerifierStatus) (a : σ) (_ : κ) : Prop :=
  status.disagreements ≤ count a

/-- Ready, unless it halted or a disagreement was counted. -/
def EndsReady (count : σ → Nat) (s : Locals × Peers σ κ) : Prop :=
  s.1.report.halted = none → count s.2.source = 0 → s.1.report.readiness = .ready

theorem transition_readiness (report : LiveReport) (readiness : LiveReadiness) :
    (report.transition readiness).readiness = readiness := by
  unfold LiveReport.transition
  split
  · assumption
  · rfl

theorem finish_ready {s : Locals × Peers σ κ} (h : Counting source sink count)
    (hs : Kept (Reported status) (Counted count status) s) :
    wp (finish sink) (fun _ s' => EndsReady count s') (fun _ _ => True) s := by
  unfold finish
  rw [wp_bind]
  have hcheckpoint := @readCheckpoint_keeps σ κ ε β (Reported status) _ _ _
    (h.stable _ status.disagreements_le).toSyncing
  refine wp_mono (hcheckpoint.wp hs) (fun checkpoint s' hs' => ?_) (fun _ _ _ => trivial)
  obtain ⟨hreported, hcounted⟩ := hs'
  show EndsReady count _
  intro hhalted hcount
  have hsame := markReadyIfHealthy_same { s'.1.report with finalCheckpoint := checkpoint }
  have hnone : s'.1.report.halted = none := hsame.1 ▸ hhalted
  have hzero : s'.1.report.verifierDisagreements = 0 := by
    have hle : status.disagreements ≤ count s'.2.source := hcounted
    have hcount : count s'.2.source = 0 := hcount
    rw [hreported hnone]
    omega
  show (markReadyIfHealthy _).readiness = .ready
  unfold markReadyIfHealthy
  rw [if_pos ⟨hnone, hzero⟩]
  exact transition_readiness _ _

/-- What keeps the counts may come before the end. -/
theorem finish_after {x : Track σ κ Unit} {s : Locals × Peers σ κ} (h : Counting source sink count)
    (hx : Keeps (Kept (Reported status) (Counted count status)) x)
    (hs : Kept (Reported status) (Counted count status) s) :
    wp (do x; finish sink) (fun _ s' => EndsReady count s') (fun _ _ => True) s := by
  rw [wp_bind]
  exact wp_mono (hx.wp hs) (fun _ _ hs' => finish_ready h hs') (fun _ _ _ => trivial)

theorem callSource_exec {α : Type} {x : Prog σ ε α} (s : Locals × Peers σ κ) :
    wp (callSource source x) (fun r s' => exec x s.2.source = (.ok r, s'.2.source) ∧
      s'.2.sink = s.2.sink ∧ s'.1 = s.1) (fun _ _ => True) s :=
  callSource_split (fun _ _ hx => ⟨hx, rfl, rfl⟩) fun _ _ _ => trivial

theorem readSink_exec {α : Type} {read : κ → α × κ} (s : Locals × Peers σ κ) :
    wp (onPeers (readSink read) : Track σ κ α) (fun r s' => read s.2.sink = (r, s'.2.sink) ∧
      s'.2.source = s.2.source ∧ s'.1 = s.1) (fun _ _ => False) s := ⟨rfl, rfl, rfl⟩

theorem note_exec {step : κ → LiveStep κ} (s : Locals × Peers σ κ) :
    wp (onPeers (note step) : Track σ κ PUnit) (fun _ s' => s'.2.sink = s.2.sink ∧
      s'.2.source = s.2.source ∧ s'.1 = s.1) (fun _ _ => False) s := ⟨rfl, rfl, rfl⟩

theorem noteVerifier_reported {report : LiveReport} (hzero : report.verifierDisagreements = 0) :
    Reported status (noteVerifier status report) := by
  intro _
  unfold noteVerifier
  cases status with
  | Match => exact hzero
  | Unavailable => exact hzero
  | Disagree =>
    rw [if_pos rfl, (LiveReport.transition_same _ _).2, hzero]
    rfl

theorem sameHash_iff {remote row : Option BlockHeader} : sameHash remote row = true ↔
    ∃ r ∈ remote, ∃ l ∈ row, r.hash = l.hash := by
  cases remote with
  | none => simp [sameHash]
  | some r =>
    cases row with
    | none => simp [sameHash]
    | some l => simp [sameHash]

/-- A head below the checkpoint is on the chain of the sink, or the run ends as another one. -/
theorem lowerHead_ready (h : Counting source sink count) {s : Locals × Peers σ κ}
    (hs : Kept (Reported status) (Counted count status) s) {checkpoint head : BlockHeader} :
    wp (lowerHead config source sink isCancelled checkpoint head)
      (fun _ s' => EndsReady count s' ∨ ∃ remote row,
        exec (source.headerByNumber head.height) s.2.source = (.ok (some remote), s'.2.source) ∧
        sink.canonicalHeaderAtHeight head.height s.2.sink = (some row, s'.2.sink) ∧
        remote.hash = row.hash) (fun _ _ => True) s := by
  have hstable := h.stable _ status.disagreements_le
  unfold lowerHead
  rw [wp_bind]
  refine wp_mono (wp_and ((record_keeps reported_lasting _).wp hs) (record_returns _ s))
    (fun _ s1 h1 => ?_) (fun _ _ _ => trivial)
  obtain ⟨hs1, hpeers, -⟩ := h1
  rw [wp_bind]
  refine wp_mono (wp_and ((callSource_keeps (hstable.headerByNumber _)).wp hs1)
    (callSource_exec s1)) (fun remote s2 h2 => ?_) (fun _ _ _ => trivial)
  obtain ⟨hs2, hremote, hsink2, -⟩ := h2
  rw [wp_bind]
  refine wp_mono (readSink_exec s2) (fun row s3 h3 => ?_) (fun _ _ h => h.elim)
  obtain ⟨hrow, hsource3, hlocals3⟩ := h3
  rw [wp_bind]
  refine wp_mono (note_exec s3) (fun _ s4 h4 => ?_) (fun _ _ h => h.elim)
  obtain ⟨hsink4, hsource4, hlocals4⟩ := h4
  rw [hpeers] at hremote hsink2
  rw [hsink2] at hrow
  split
  · next hsame =>
    obtain ⟨found, hfound, l, hl, hhash⟩ := sameHash_iff.1 hsame
    refine .inr ⟨found, l, ?_, ?_, hhash⟩
    · rw [hremote, Option.mem_def.1 hfound]
      show _ = (_, s4.2.source)
      rw [hsource4, hsource3]
    · rw [hrow, Option.mem_def.1 hl]
      show _ = (_, s4.2.sink)
      rw [hsink4]
  · have hs4 : Kept (Reported status) (Counted count status) s4 := by
      refine ⟨by rw [hlocals4, hlocals3]; exact hs2.1, ?_⟩
      unfold Counted
      rw [hsource4, hsource3]
      exact hs2.2
    refine wp_mono (finish_after h (applyChainState_keeps hstable.toSyncing reported_lasting head) hs4)
      (fun _ _ hend => .inl hend) (fun _ _ _ => trivial)

/-- The tracker, after the first read of the checkpoint. -/
theorem trackHead_ready (h : Counting source sink count) {p : Peers σ κ} {s : Locals × Peers σ κ}
    (hzero : s.1.report.verifierDisagreements = 0) (hsource : s.2.source = p.source)
    (hsink : s.2.sink = (sink.checkpoint p.sink).2) :
    wp (trackHead config source sink isCancelled)
      (fun _ s' => EndsReady count s' ∨
        ∃ head checkpoint, SeesLag source sink p head checkpoint s'.2.source s'.2.sink)
      (fun _ _ => True) s := by
  unfold trackHead
  rw [wp_bind]
  refine wp_mono (record_returns _ s) (fun _ s1 h1 => ?_) (fun _ _ _ => trivial)
  obtain ⟨hpeers, -, hcount1⟩ := h1
  rw [wp_bind]
  refine wp_mono (callSource_exec s1) (fun head s2 h2 => ?_) (fun _ _ _ => trivial)
  obtain ⟨hhead, hsink2, hlocals2⟩ := h2
  rw [wp_bind]
  refine issue_wp fun s2' hpeers2 hreport2 => ?_
  rw [wp_bind]
  refine wp_mono (callSource_exec s2') (fun status s3 h3 => ?_) (fun _ _ _ => trivial)
  obtain ⟨hstatus, hsink3, hlocals3⟩ := h3
  rw [hpeers2] at hstatus hsink3
  have hstable := h.stable _ status.disagreements_le
  have hs3 : Kept (Reported status) (Counted count status)
      ({ s3.1 with report := noteVerifier status s3.1.report }, s3.2) := by
    refine ⟨noteVerifier_reported ?_, ?_⟩
    · rw [hlocals3, hreport2, hlocals2, hcount1, hzero]
    · show status.disagreements ≤ count s3.2.source
      cases status with
      | Disagree => exact h.disagree _ _ _ _ hstatus
      | Match => exact Nat.zero_le _
      | Unavailable => exact Nat.zero_le _
  rw [wp_bind]
  refine wp_of_eq (x := modifyReport (noteVerifier status)) rfl (fun _ _ => ?_) (fun _ _ => trivial)
  rw [wp_bind]
  refine wp_mono (wp_and ((readCheckpoint_keeps hstable.toSyncing).wp hs3) (readSink_exec _))
    (fun checkpoint s5 h5 => ?_) (fun _ _ _ => trivial)
  obtain ⟨hs5, hcheckpoint, hsource5, -⟩ := h5
  have hready : ∀ {x : Track σ κ Unit}, Keeps (Kept (Reported status) (Counted count status)) x →
      wp (do x; finish sink) (fun _ s' => EndsReady count s' ∨
        ∃ head checkpoint, SeesLag source sink p head checkpoint s'.2.source s'.2.sink)
        (fun _ _ => True) s5 :=
    fun hx => wp_mono (finish_after h hx hs5) (fun _ _ hend => .inl hend) (fun _ _ _ => trivial)
  cases checkpoint with
  | none =>
    dsimp only
    split
    · refine .inl fun hhalted => ?_
      cases hhalted
    · exact hready (catchUpFromStart_keeps hstable.toSyncing reported_lasting head)
  | some checkpoint =>
    dsimp only
    split
    · next hbelow =>
      refine wp_mono (lowerHead_ready h hs5) (fun _ s6 h6 => ?_) (fun _ _ _ => trivial)
      rcases h6 with hend | ⟨remote, row, hremote, hrow, hhash⟩
      · exact .inl hend
      · refine .inr ⟨head, checkpoint, hbelow, s2.2.source, status, s3.2.source, remote, s5.2.sink, row,
          ?_, hstatus, ?_, ?_, hrow, hhash⟩
        · rw [← hsource, ← hpeers]
          exact hhead
        · rw [← hremote, hsource5]
        · rw [← hsink, ← hpeers, ← hsink2, ← hsink3]
          exact hcheckpoint
    split
    · split
      · exact hready (applyChainState_keeps hstable.toSyncing reported_lasting head)
      · exact wp_mono (finish_ready h hs5) (fun _ _ hend => .inl hend) (fun _ _ _ => trivial)
    · exact hready (catchUpFromCheckpoint_keeps hstable.toSyncing reported_lasting checkpoint head)

/-- Head events leave the verdict and the count. -/
theorem observeEvents_same (events : List LiveHeadEvent) (report : LiveReport) :
    (events.foldl observeEvent report).halted = report.halted ∧
      (events.foldl observeEvent report).verifierDisagreements = report.verifierDisagreements := by
  induction events generalizing report with
  | nil => exact ⟨rfl, rfl⟩
  | cons event events ih =>
    obtain ⟨hhalted, hcount⟩ := ih (observeEvent report event)
    cases event with
    | disconnect =>
      obtain ⟨hhalted', hcount'⟩ := report.transition_same .unavailable
      exact ⟨hhalted.trans hhalted', hcount.trans hcount'⟩
    | reconnect => exact ⟨hhalted, hcount⟩
    | wake header => exact ⟨hhalted, hcount⟩

/-- **A run that returns is ready**, unless it halted, a disagreement was counted, or the head lags. -/
theorem run_ready (h : Counting source sink count) (events : List LiveHeadEvent) (p : Peers σ κ) :
    wp (runWithCancellation config source sink isCancelled events)
      (fun report p' => report.halted = none → count p'.source = 0 → report.readiness = .ready ∨
        ∃ head checkpoint, SeesLag source sink p head checkpoint p'.source p'.sink)
      (fun _ _ => True) p := by
  refine runWithCancellation_rule (fun _ => trivial) (fun _ _ => trivial) fun budget _ _ => ?_
  refine wp_mono (trackHead_ready (p := p) h (observeEvents_same events _).2 rfl rfl)
    (fun _ s' hend hhalted hcount => ?_) (fun _ _ _ => trivial)
  rcases hend with hend | hlag
  · exact .inl (hend hhalted hcount)
  · exact .inr hlag

/-! ## The head that lags -/

theorem callSource_returns {α : Type} {x : Prog σ ε α} {s : Locals × Peers σ κ} {r : α} {a : σ}
    (hx : exec x s.2.source = (.ok r, a)) :
    wp (callSource source x) (fun r' s' => r' = r ∧ s'.2.source = a ∧ s'.2.sink = s.2.sink ∧
      s'.1 = s.1) (fun _ _ => False) s := by
  refine callSource_split (fun r' a' hx' => ?_) fun e a' hx' => ?_
  · cases hx.symm.trans hx'
    exact ⟨rfl, rfl, rfl, rfl⟩
  · cases hx.symm.trans hx'

theorem noteVerifier_halted (report : LiveReport) :
    (noteVerifier status report).halted = report.halted := by
  unfold noteVerifier
  split
  · exact (LiveReport.transition_same _ _).1
  · rfl

theorem trackHead_lagging {p : Peers σ κ} {head checkpoint : BlockHeader} {a : σ} {k : κ}
    (hlag : SeesLag source sink p head checkpoint a k) {s : Locals × Peers σ κ}
    (hnone : s.1.report.halted = none) (hsource : s.2.source = p.source)
    (hsink : s.2.sink = (sink.checkpoint p.sink).2) :
    wp (trackHead config source sink isCancelled) (fun _ s' => s'.2.source = a ∧ s'.2.sink = k ∧
      s'.1.report.halted = none ∧ s'.1.report.readiness = .degraded ∧
      s'.1.report.finalCheckpoint = some checkpoint) (fun _ _ => False) s := by
  obtain ⟨hbelow, a1, status, a2, remote, k2, row, hhead, hstatus, hremote, hcheckpoint, hrow, hhash⟩ :=
    hlag
  unfold trackHead
  rw [wp_bind]
  refine wp_mono (record_returns _ s) (fun _ s1 h1 => ?_) (fun _ _ h => h)
  obtain ⟨hpeers, hhalted1, -⟩ := h1
  rw [wp_bind]
  refine wp_mono (callSource_returns (by rw [hpeers, hsource]; exact hhead)) (fun head' s2 h2 => ?_)
    (fun _ _ h => h)
  obtain ⟨rfl, hsource2, hsink2, hlocals2⟩ := h2
  rw [wp_bind]
  refine issue_wp fun s2' hpeers2 hreport2 => ?_
  rw [wp_bind]
  refine wp_mono (callSource_returns (by rw [hpeers2, hsource2]; exact hstatus))
    (fun status' s3 h3 => ?_) (fun _ _ h => h)
  obtain ⟨rfl, hsource3, hsink3, hlocals3⟩ := h3
  rw [hpeers2] at hsink3
  rw [wp_bind]
  refine wp_of_eq (x := modifyReport (noteVerifier status')) rfl (fun _ _ => ?_) (fun _ h => by cases h)
  have hnone3 : (noteVerifier status' s3.1.report).halted = none := by
    rw [noteVerifier_halted, hlocals3, hreport2, hlocals2, hhalted1, hnone]
  rw [wp_bind]
  refine wp_mono (readSink_exec _) (fun found s5 h5 => ?_) (fun _ _ h => h)
  obtain ⟨hfound, hsource5, hlocals5⟩ := h5
  have hk : s3.2.sink = (sink.checkpoint p.sink).2 := by rw [hsink3, hsink2, hpeers, hsink]
  obtain ⟨rfl, hsink5⟩ : found = some checkpoint ∧ s5.2.sink = k2 := by
    have h : (some checkpoint, k2) = (found, s5.2.sink) := by rw [← hcheckpoint, ← hk]; exact hfound
    cases h
    exact ⟨rfl, rfl⟩
  dsimp only
  rw [if_pos hbelow]
  unfold lowerHead
  rw [wp_bind]
  refine wp_mono (record_returns _ s5) (fun _ s6 h6 => ?_) (fun _ _ h => h)
  obtain ⟨hpeers6, hhalted6, -⟩ := h6
  rw [wp_bind]
  have hsource6 : s6.2.source = a2 := by rw [hpeers6, hsource5]; exact hsource3
  refine wp_mono (callSource_returns (by rw [hsource6]; exact hremote)) (fun remote' s7 h7 => ?_)
    (fun _ _ h => h)
  obtain ⟨rfl, hsource7, hsink7, hlocals7⟩ := h7
  rw [wp_bind]
  refine wp_mono (readSink_exec s7) (fun found s8 h8 => ?_) (fun _ _ h => h)
  obtain ⟨hfound, hsource8, hlocals8⟩ := h8
  obtain ⟨rfl, hsink8⟩ : found = some row ∧ s8.2.sink = k := by
    have h : (some row, k) = (found, s8.2.sink) := by
      rw [← hrow, ← hfound, hsink7, hpeers6, hsink5]
    cases h
    exact ⟨rfl, rfl⟩
  rw [wp_bind]
  refine wp_mono (note_exec s8) (fun _ s9 h9 => ?_) (fun _ _ h => h)
  obtain ⟨hsink9, hsource9, hlocals9⟩ := h9
  rw [if_pos (sameHash_iff.2 ⟨remote, rfl, row, rfl, hhash⟩)]
  refine ⟨?_, ?_, ?_, transition_readiness _ _, ?_⟩
  · show s9.2.source = a
    rw [hsource9, hsource8, hsource7]
  · show s9.2.sink = k
    rw [hsink9, hsink8]
  · show (LiveReport.transition _ _).halted = none
    rw [(LiveReport.transition_same _ _).1]
    show s9.1.report.halted = none
    rw [hlocals9, hlocals8, hlocals7, hhalted6, hlocals5]
    exact hnone3
  · show (LiveReport.transition _ _).finalCheckpoint = _
    unfold LiveReport.transition
    split <;> rfl

theorem WindowBudget.new_ok (h : 0 < config.liveBudgetCostUnitsPerMinute) :
    ∃ budget, WindowBudget.new config = .ok budget := by
  unfold WindowBudget.new RpcBudget.new
  rw [dif_neg (by decide), dif_neg (by omega)]
  exact ⟨_, rfl⟩

theorem WindowBudget.new_pos {budget : WindowBudget} (h : WindowBudget.new config = .ok budget) :
    0 < config.liveBudgetCostUnitsPerMinute := by
  unfold WindowBudget.new RpcBudget.new at h
  rw [dif_neg (by decide)] at h
  by_contra hzero
  rw [dif_pos (by omega)] at h
  cases h

/-- A run that returns had a budget, and was not cancelled at its start. -/
theorem run_starts (events : List LiveHeadEvent) (p : Peers σ κ) :
    wp (runWithCancellation config source sink isCancelled events)
      (fun _ _ => 0 < config.liveBudgetCostUnitsPerMinute ∧ isCancelled p.polls = false)
      (fun _ _ => True) p := by
  refine runWithCancellation_rule (fun _ => trivial) (fun _ _ => trivial) fun budget hcancel hnew => ?_
  exact wp_const ⟨WindowBudget.new_pos hnew, hcancel⟩

/-- **A head that lags degrades the report.** -/
theorem run_lagging (events : List LiveHeadEvent) {p : Peers σ κ} {head checkpoint : BlockHeader} {a : σ}
    {k : κ} (hlag : SeesLag source sink p head checkpoint a k)
    (hbudget : 0 < config.liveBudgetCostUnitsPerMinute) (hcancel : isCancelled p.polls = false) :
    ∃ report p', exec (runWithCancellation config source sink isCancelled events) p = (.ok report, p') ∧
      p'.source = a ∧ p'.sink = k ∧ report.halted = none ∧ report.readiness = .degraded ∧
      report.finalCheckpoint = some checkpoint := by
  obtain ⟨budget, hnew⟩ := WindowBudget.new_ok hbudget
  refine wp_returns (runWithCancellation_rule (fun hcancelled => ?_) (fun e he => ?_) fun budget' _ _ => ?_)
  · rw [hcancel] at hcancelled
    cases hcancelled
  · rw [hnew] at he
    cases he
  · exact wp_mono (trackHead_lagging hlag (observeEvents_same events _).1 rfl rfl)
      (fun _ _ h => h) (fun _ _ h => h)

end

end Chainweave.Live
