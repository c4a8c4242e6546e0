import Chainweave.Cli.Readiness
import Chainweave.Cli.Retry

/-!
# What the disagreement counter counts

`verify_head` and `verify_recent` ask the verifier about one head, and both count.
`verify_head` counts an error as well. The ghost `sightings` has the heads of the
primary with the verifier's answers about them.

* `Tallied`: the counter, from the answers. `reconcileOnce_tallied`: a
  reconciliation keeps it.
* `disagreements_iff`: the counter is the number of heads that the verifier has
  another hash for exactly when every head is counted once.
-/
namespace Chainweave.Runtime

open Stateful Chainweave.Chain Chainweave.Backfill Chainweave.Postgres Chainweave.Live

/-! ## One head -/

/-- The verifier could not answer. -/
def failed (answer : Nat × Except LiveRuntimeError BlockHeader) : Bool :=
  match answer.2 with
  | .ok _ => false
  | .error _ => true

/-- The verifier has another hash at the height of the head. -/
def differs (head : BlockHeader) (answer : Nat × Except LiveRuntimeError BlockHeader) : Bool :=
  match answer.2 with
  | .ok header => answer.1 = head.height ∧ header.hash ≠ head.hash
  | .error _ => false

namespace Sighting

/-- The verifier answered with a different hash at that height. -/
def disagrees (self : Sighting) : Bool := self.answers.any (differs self.head)

/-- The answer to `verify_head`, the first about a head, is not an error, and at most one of the
answers has another hash. -/
structure CountedOnce (s : Sighting) : Prop where
  answered : ∀ answer ∈ s.answers.head?, failed answer = false
  once : s.answers.countP (differs s.head) ≤ 1

/-- What the source counts for a head. -/
def counted (self : Sighting) : Nat :=
  (self.answers.take 1).countP failed + self.answers.countP (differs self.head)

end Sighting

/-- The observed heads for which the verifier answered with a different hash. -/
def disagreements (sightings : List Sighting) : Nat := sightings.countP (·.disagrees)

section
variable {sighting : Sighting} {sightings : List Sighting}

theorem Sighting.disagrees_eq :
    (if sighting.disagrees then 1 else 0) = min (sighting.answers.countP (differs sighting.head)) 1 := by
  unfold disagrees
  by_cases h : sighting.answers.any (differs sighting.head) = true
  · have hpos : 0 < sighting.answers.countP (differs sighting.head) := by
      rw [List.countP_pos_iff]
      simpa using h
    rw [if_pos h]
    omega
  · have hzero : sighting.answers.countP (differs sighting.head) = 0 := by
      rw [List.countP_eq_zero]
      simpa using h
    rw [if_neg h, hzero]
    rfl

theorem Sighting.le_counted : (if sighting.disagrees then 1 else 0) ≤ sighting.counted := by
  rw [disagrees_eq]
  unfold counted
  omega

theorem Sighting.counted_eq_iff :
    sighting.counted = (if sighting.disagrees then 1 else 0) ↔ sighting.CountedOnce := by
  rw [disagrees_eq]
  have hfirst : (sighting.answers.take 1).countP failed = 0 ↔
      ∀ answer ∈ sighting.answers.head?, failed answer = false := by
    cases sighting.answers with
    | nil => simp
    | cons answer answers => simp
  unfold counted
  constructor
  · intro h
    exact ⟨hfirst.1 (by omega), by omega⟩
  · intro h
    have := h.once
    have := hfirst.2 h.answered
    omega

/-- All heads: nothing is counted too little, and the total is right if every head is. -/
theorem sum_counted : disagreements sightings ≤ (sightings.map (·.counted)).sum ∧
    ((sightings.map (·.counted)).sum = disagreements sightings ↔
      ∀ sighting ∈ sightings, sighting.CountedOnce) := by
  induction sightings with
  | nil => simp [disagreements]
  | cons sighting sightings ih =>
    obtain ⟨hle, hiff⟩ := ih
    have hone := @Sighting.le_counted sighting
    have hcons : disagreements (sighting :: sightings) =
        disagreements sightings + (if sighting.disagrees then 1 else 0) := by
      unfold disagreements
      rw [List.countP_cons]
    rw [hcons, List.map_cons, List.sum_cons]
    refine ⟨by omega, ?_⟩
    rw [List.forall_mem_cons, ← hiff, ← Sighting.counted_eq_iff]
    omega

end

/-! ## The source -/

/-- The counter, from the answers. -/
def Tallied {π ν : Type} (s : RpcReconciliationSource π ν) : Prop :=
  s.verifierDisagreements = min (s.sightings.map (·.counted)).sum u64Max

/-- The last head, about which `verify_head` has asked if there is a verifier. -/
def LastSeen {π ν : Type} (head : BlockHeader) (s : RpcReconciliationSource π ν) : Prop :=
  ∃ answers earlier, s.sightings = ⟨head, answers⟩ :: earlier ∧ (s.verifier.isSome → answers ≠ [])

section
variable {π ν : Type} {args : TrackerArgs π ν} {s : RpcReconciliationSource π ν} {head : BlockHeader}
  {answers : List (Nat × Except LiveRuntimeError BlockHeader)} {earlier : List Sighting}
  {answer : Nat × Except LiveRuntimeError BlockHeader}

/-- A later answer counts if it differs. -/
theorem Sighting.counted_append (hne : answers ≠ []) :
    (⟨head, answers ++ [answer]⟩ : Sighting).counted =
      (⟨head, answers⟩ : Sighting).counted + if differs head answer then 1 else 0 := by
  have htake : (answers ++ [answer]).take 1 = answers.take 1 := by
    cases answers with
    | nil => exact absurd rfl hne
    | cons a answers => rfl
  unfold Sighting.counted
  dsimp only
  rw [htake, List.countP_append, List.countP_singleton]
  omega

/-- The tally after an answer about the last head. -/
theorem Tallied.answered (h : Tallied s) (hs : s.sightings = ⟨head, answers⟩ :: earlier)
    (answer : Nat × Except LiveRuntimeError BlockHeader) (verifier : Option ν) (counter : Nat)
    (hcounter : counter = min (s.verifierDisagreements +
      ((⟨head, answers ++ [answer]⟩ : Sighting).counted - (⟨head, answers⟩ : Sighting).counted)) u64Max)
    (hle : (⟨head, answers⟩ : Sighting).counted ≤ (⟨head, answers ++ [answer]⟩ : Sighting).counted) :
    Tallied { s with
      verifier
      verifierDisagreements := counter
      sightings := noteAnswer answer.1 answer.2 s.sightings } := by
  unfold Tallied at h ⊢
  rw [hs, List.map_cons, List.sum_cons] at h
  rw [hs]
  show counter = min ((⟨head, answers ++ [answer]⟩ : Sighting).counted +
    (earlier.map (·.counted)).sum) u64Max
  rw [hcounter, h]
  omega

/-- The counter is never past `u64::MAX`. -/
theorem Tallied.capped (h : Tallied s) : s.verifierDisagreements = min s.verifierDisagreements u64Max := by
  rw [h]
  omega

/-- With a verifier, its answer is noted. -/
theorem verifierHeader_exec {verifier verifier' : ν} {height : Nat}
    {r : Except LiveRuntimeError BlockHeader} (hv : s.verifier = some verifier)
    (hr : exec (args.verifier.headerByNumber height) verifier = (r, verifier')) :
    exec (verifierHeader args height) s = (r.map some, { s with
      verifier := some verifier'
      sightings := noteAnswer height r s.sightings }) := by
  unfold verifierHeader
  rw [exec_mk, hv]
  dsimp only
  rw [hr]

/-- `verify_head` asks about the head that was just read, and counts an error too. -/
theorem verifyHead_tallied (h : Tallied s) (hs : s.sightings = ⟨head, []⟩ :: earlier) :
    wp (verifyHead args head) (fun _ s' => Tallied s' ∧ LastSeen head s') (fun _ _ => False) s := by
  unfold verifyHead
  rw [wp_bind]
  cases hv : s.verifier with
  | none =>
    have hx : exec (verifierHeader args head.height) s = (.ok none, s) := by
      unfold verifierHeader
      rw [exec_mk, hv]
    refine wp_attempt (wp_of_eq hx (fun a ha => ?_) fun e he => by cases he)
    cases ha
    exact ⟨h, [], earlier, hs, by simp [hv]⟩
  | some verifier =>
    cases hr : exec (args.verifier.headerByNumber head.height) verifier with
    | mk r verifier' =>
      have hx := verifierHeader_exec hv hr
      have hnil : (⟨head, []⟩ : Sighting).counted = 0 := rfl
      have hseen : ∀ counter, LastSeen head ({ s with
          verifier := some verifier'
          verifierDisagreements := counter
          sightings := noteAnswer head.height r s.sightings } : RpcReconciliationSource π ν) := by
        intro counter
        refine ⟨[(head.height, r)], earlier, ?_, by simp⟩
        rw [hs]
        rfl
      have htally := fun counter hcounter =>
        h.answered hs (head.height, r) (some verifier') counter hcounter (Nat.zero_le _)
      cases r with
      | ok header =>
        refine wp_attempt (wp_of_eq hx (fun a ha => ?_) fun e he => by cases he)
        cases ha
        dsimp only
        split
        · rename_i hne
          refine ⟨htally _ ?_, hseen _⟩
          have hone : (⟨head, [(head.height, .ok header)]⟩ : Sighting).counted = 1 := by
            simp [Sighting.counted, failed, differs, hne]
          rw [List.nil_append, hone, hnil]
          rfl
        · rename_i heq
          refine ⟨htally _ ?_, hseen _⟩
          have hzero : (⟨head, [(head.height, .ok header)]⟩ : Sighting).counted = 0 := by
            simp [Sighting.counted, failed, differs, heq]
          rw [List.nil_append, hzero, hnil]
          exact h.capped
      | error e =>
        refine wp_attempt (wp_of_eq hx (fun a ha => by cases ha) fun e' he => ?_)
        cases he
        refine ⟨htally _ ?_, hseen _⟩
        have hone : (⟨head, [(head.height, .error e)]⟩ : Sighting).counted = 1 := by
          simp [Sighting.counted, failed, differs]
        rw [List.nil_append, hone, hnil]
        rfl

/-! ## The calls of the tracker -/

/-- A call that a shutdown overtakes, or that is made. -/
theorem wp_blockOnWithShutdown {α : Type} {x : Prog (RpcReconciliationSource π ν) LiveRuntimeError α}
    {Q : α → BlockingTrackerSource π ν → Prop} {E : String → BlockingTrackerSource π ν → Prop}
    {b : BlockingTrackerSource π ν} (hovertaken : ∀ e, E e ⟨b.source, b.waits + 1⟩)
    (hx : wp x (fun a s => Q a ⟨s, b.waits + 1⟩) (fun e s => E e.message ⟨s, b.waits + 1⟩) b.source) :
    wp (blockOnWithShutdown args x) Q E b := by
  unfold blockOnWithShutdown
  rw [wp_bind, wp_get, wp_bind, wp_modify]
  split
  · exact hovertaken _
  · exact wp_mapError (wp_zoom hx)

/-- `verify_recent`, asked about the last head, counts no error. -/
theorem verifyRecent_tallied {b : BlockingTrackerSource π ν} (h : Tallied b.source)
    (hlast : LastSeen head b.source) :
    wp (verifyRecent args head.height head.hash) (fun _ b' => Tallied b'.source)
      (fun _ b' => Tallied b'.source) b := by
  obtain ⟨answers, earlier, hs, hasked⟩ := hlast
  unfold verifyRecent
  rw [wp_bind, wp_get]
  cases hv : b.source.verifier with
  | none => exact h
  | some verifier =>
    have hne : answers ≠ [] := hasked (by rw [hv]; rfl)
    rw [if_neg (by simp), wp_bind]
    refine wp_attempt (wp_blockOnWithShutdown (fun _ => h) ?_)
    cases hr : exec (args.verifier.headerByNumber head.height) verifier with
    | mk r verifier' =>
      have hx := verifierHeader_exec hv hr
      have happend := @Sighting.counted_append head answers (head.height, r) hne
      have htally := fun counter hcounter =>
        h.answered hs (head.height, r) (some verifier') counter hcounter (by rw [happend]; omega)
      rw [happend, Nat.add_sub_cancel_left] at htally
      cases r with
      | ok header =>
        refine wp_of_eq hx (fun a ha => ?_) fun e he => by cases he
        cases ha
        dsimp only
        split
        · rename_i heq
          refine htally _ ?_
          rw [if_neg (by simp [differs, heq])]
          exact h.capped
        · rename_i hne
          refine htally _ ?_
          rw [if_pos (by simp [differs, hne])]
          rfl
      | error e =>
        refine wp_of_eq hx (fun a ha => by cases ha) fun e' he => ?_
        refine htally _ ?_
        rw [if_neg (by simp [differs])]
        exact h.capped

theorem currentHead_tallied {b : BlockingTrackerSource π ν} (h : Tallied b.source) :
    wp (currentHead args) (fun head b' => Tallied b'.source ∧ LastSeen head b'.source)
      (fun _ b' => Tallied b'.source) b := by
  unfold currentHead
  rw [wp_bind]
  have hpoll : Keeps (fun s : BlockingTrackerSource π ν => Tallied s.source)
      (blockOnWithShutdown args (onPrimary args.primary.pollHead)) :=
    blockOnWithShutdown_keeps fun _ hs => hs
  refine wp_mono (hpoll.wp h) (fun header b1 hb1 => ?_) (fun _ _ hb => hb)
  rw [wp_bind, wp_modify, wp_bind]
  have hseen : Tallied ({ b1.source with
      lastHead := some header
      sightings := { head := header } :: b1.source.sightings } : RpcReconciliationSource π ν) := by
    unfold Tallied at hb1 ⊢
    rw [List.map_cons, List.sum_cons]
    show b1.source.verifierDisagreements = min (0 + _) u64Max
    rw [Nat.zero_add]
    exact hb1
  refine wp_blockOnWithShutdown (fun _ => hseen) ?_
  exact wp_mono (verifyHead_tallied hseen rfl) (fun _ _ hq => hq) (fun _ _ he => he.elim)

/-- The run asks about the head it has just read. -/
theorem ask_tallied : Keeps (fun b : BlockingTrackerSource π ν => Tallied b.source) (do
    let head ← currentHead args
    verifyRecent args head.height head.hash) := by
  refine .of_wp fun b hb => ?_
  rw [wp_bind]
  exact wp_mono (currentHead_tallied hb) (fun head b' hb' => verifyRecent_tallied hb'.1 hb'.2)
    (fun _ _ hb' => hb')

theorem rpcCalls_tallied : Syncing (blockingTrackerSource (rpcCalls args)).toLiveSource
    BlockingPostgresLiveSink.liveSink fun b _ => Tallied b.source := by
  have hprimary : ∀ {α : Type} (x : Prog π LiveRuntimeError α),
      Keeps (fun b : BlockingTrackerSource π ν => Tallied b.source)
        (blockOnWithShutdown args (onPrimary x)) :=
    fun x => blockOnWithShutdown_keeps fun _ hs => hs
  refine ⟨⟨fun _ => .of_wp fun b hb => ?_, fun _ _ => hprimary _, fun _ _ => hprimary _,
    fun _ _ => .map (hprimary _), fun _ _ => hprimary _⟩, fun _ _ h => h, fun _ _ _ h => h,
    fun _ _ _ h => h, fun _ _ _ h => h, fun _ _ _ _ h => h⟩
  exact wp_mono (currentHead_tallied hb) (fun _ _ h => h.1) (fun _ _ h => h)

/-- **One reconciliation**, however it ends. -/
theorem reconcileOnce_tallied : Keeps (fun s : Runner π ν => Tallied s.source) (reconcileOnce args) := by
  unfold reconcileOnce
  refine .bind (.zoom (I := fun _ => True) (fun _ h => h) (fun _ _ => trivial) fun _ _ _ hs => hs)
    fun checkpoint => ?_
  refine .zoom (.mapError (run_asking_keeps rpcCalls_tallied (fun _ => ask_tallied) []))
    (fun _ hs => hs) fun _ _ hp _ => hp

end

/-! ## Sequences of reconciliations -/

section
variable {π ν : Type}

/-- Reconciliations one after the other, whatever they end with, each with the database it meets. -/
def reconciliations (args : TrackerArgs π ν) (servers : List Server) (s : Runner π ν) : Runner π ν :=
  servers.foldl (fun s server => (exec (reconcileOnce args) { s with server }).2) s

/-- `RpcReconciliationSource::new`.
mirrors crates/chainweave-cli/src/live_runtime.rs:255-262 -/
def newSource (primary : π) (verifier : Option ν) : RpcReconciliationSource π ν where
  primary
  verifier
  verifierDisagreements := 0
  lastHead := none

theorem reconciliations_tallied (args : TrackerArgs π ν) (servers : List Server) {s : Runner π ν}
    (h : Tallied s.source) : Tallied (reconciliations args servers s).source := by
  unfold reconciliations
  induction servers generalizing s with
  | nil => exact h
  | cons server servers ih => exact ih (reconcileOnce_tallied { s with server } h)

/-- **Exactly when the counter is right**, after any reconciliations of a new source: when every
observed head was counted once. -/
theorem disagreements_iff (args : TrackerArgs π ν) (server : Server) (primary : π)
    (verifier : Option ν) (servers : List Server) :
    let s := (reconciliations args servers { server, source := newSource primary verifier }).source
    s.verifierDisagreements = disagreements s.sightings ↔
      ((∀ sighting ∈ s.sightings, sighting.CountedOnce) ∧ disagreements s.sightings ≤ u64Max) ∨
        disagreements s.sightings = u64Max := by
  intro s
  have htally : s.verifierDisagreements = min (s.sightings.map (·.counted)).sum u64Max :=
    reconciliations_tallied args servers (by show 0 = min 0 u64Max; rfl)
  obtain ⟨hle, hiff⟩ := @sum_counted s.sightings
  rw [htally, ← hiff]
  omega

end

/-- A head `a1`, of a store that has it. -/
def followingArgs (verifier : RpcLiveSource Unit) : TrackerArgs Unit Unit where
  primary := atHead [genesis, a1] a1
  verifier
  options := { startBlock := none, budgetWindow := 60 * 10 ^ 9, budgetCostUnitsPerWindow := 1200 }
  maxReorgDepth := 2048
  overtaken _ := false
  isCancelled _ := false

/-- A verifier that cannot answer is counted as a disagreement, and one that disagrees is counted
twice for one head. -/
theorem miscounted :
    let after (verifier : RpcLiveSource Unit) := (reconciliations (followingArgs verifier)
      [{ db := storeOf [genesis, a1] }]
      { server := { db := storeOf [genesis, a1] }, source := newSource () (some ()) }).source
    ((after refusing).verifierDisagreements = 1 ∧ disagreements (after refusing).sightings = 0) ∧
      (after (atHead [genesis, b1] b1)).verifierDisagreements = 2 ∧
        disagreements (after (atHead [genesis, b1] b1)).sightings = 1 := by
  decide +kernel

end Chainweave.Runtime
