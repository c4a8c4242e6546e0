import Chainweave.Core.LiveRelated

/-!
# Ghost state beside the sink

A run does with a sink what it does with one that carries more state and answers the
same.

* `LiveSink.Erases φ sink' sink`: `sink` does on `φ w` what `sink'` does on `w`.
* `run_erases`: so does the run.
-/
namespace Chainweave.Live

open Stateful Chainweave.Chain Chainweave.Backfill

variable {σ κ κ' ε β : Type}

/-- `sink` does on `φ w` what `sink'` does on `w`. -/
structure LiveSink.Erases (φ : κ' → κ) (sink' : LiveSink κ' β) (sink : LiveSink κ β) : Prop where
  checkpoint : ∀ w, sink.checkpoint (φ w) = ((sink'.checkpoint w).1, φ (sink'.checkpoint w).2)
  canonicalHeaderAtHeight : ∀ height w, sink.canonicalHeaderAtHeight height (φ w) =
    ((sink'.canonicalHeaderAtHeight height w).1, φ (sink'.canonicalHeaderAtHeight height w).2)
  canonicalHeaderByHash : ∀ hash w, sink.canonicalHeaderByHash hash (φ w) =
    ((sink'.canonicalHeaderByHash hash w).1, φ (sink'.canonicalHeaderByHash hash w).2)
  commitRange : ∀ fetched, Stateful.Erases φ (sink'.commitRange fetched) (sink.commitRange fetched)
  commitBatch : ∀ batch blocks,
    Stateful.Erases φ (sink'.commitBatch batch blocks) (sink.commitBatch batch blocks)

def LiveStep.map (φ : κ' → κ) : LiveStep κ' → LiveStep κ
  | .remote head w answer => .remote head (φ w) answer
  | .reread head w => .reread head (φ w)
  | .batch head w chain => .batch head (φ w) chain

/-- The peers without what `φ` forgets of the sink. -/
def Peers.map (φ : κ' → κ) (p : Peers σ κ') : Peers σ κ where
  source := p.source
  sink := φ p.sink
  polls := p.polls
  trace := p.trace.map (LiveStep.map φ)

section
variable {φ : κ' → κ} {sink' : LiveSink κ' β} {sink : LiveSink κ β} {source : LiveSource σ ε β}
  {config : LiveConfig} {isCancelled : Nat → Bool}

theorem onSource_map {ε' α : Type} (x : Prog σ ε' α) :
    Related (fun p q => q = Peers.map φ p) (onSource x) (onSource x) := by
  intro p q hpq
  cases hpq
  exact ⟨rfl, rfl⟩

theorem pairedSource_map : PairedSource source fun p q => q = Peers.map φ p where
  polls p q hpq := by rw [hpq]; rfl
  polled n p q hpq := by rw [hpq]; rfl
  noted hstep p q hpq := by
    rw [hpq]
    cases hstep <;> simp [Peers.map, LiveStep.map]
  currentHead := onSource_map _
  blockByNumber _ := onSource_map _
  blockByHash _ := onSource_map _
  headerByNumber _ := onSource_map _
  headerByHash _ := onSource_map _

theorem pairedRead_map {α : Type} {read' : κ' → α × κ'} {read : κ → α × κ}
    (h : ∀ w, read (φ w) = ((read' w).1, φ (read' w).2)) :
    PairedRead (fun (p : Peers σ κ') q => q = p.map φ) read' read := by
  intro p q hpq
  have hread : read q.sink = ((read' p.sink).1, φ (read' p.sink).2) := by rw [hpq]; exact h p.sink
  rw [hread, hpq]
  exact ⟨rfl, rfl⟩

theorem pairedCommit_map {ε' α : Type} {x : Prog κ' ε' α} {y : Prog κ ε' α}
    (h : Stateful.Erases φ x y) : PairedCommit (fun (p : Peers σ κ') q => q = p.map φ) x y := by
  intro p q hpq
  cases hpq
  refine (erases_iff.1 h).congr fun w k => ⟨fun hwk => ?_, fun hwk => congrArg Peers.sink hwk⟩
  obtain rfl : k = φ w := hwk
  rfl

theorem LiveSink.Erases.paired (h : LiveSink.Erases φ sink' sink) :
    Paired source sink' sink fun p q => q = p.map φ where
  toPairedSource := pairedSource_map
  checkpoint := pairedRead_map h.checkpoint
  canonicalHeaderAtHeight height := pairedRead_map (h.canonicalHeaderAtHeight height)
  canonicalHeaderByHash hash := pairedRead_map (h.canonicalHeaderByHash hash)
  commitRange fetched := pairedCommit_map (h.commitRange fetched)
  commitBatch batch blocks := pairedCommit_map (h.commitBatch batch blocks)

/-- **A run does not see what its sink carries beside.** -/
theorem run_erases (h : LiveSink.Erases φ sink' sink) (events : List LiveHeadEvent) :
    Erases (Peers.map φ) (runWithCancellation config source sink' isCancelled events)
      (runWithCancellation config source sink isCancelled events) :=
  erases_iff.2 (run_related h.paired (fun _ _ => onSource_map _) events)

end

end Chainweave.Live
