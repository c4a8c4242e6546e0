import Chainweave.Core.CommitOrder

/-!
# Arrival order

Ranges that partition the target range and form one chain, pushed in any order
into a sink that does not fail, are committed in height order.

* `Covers`: the ranges are a partition, lowest first.
* `Arrived`: after some of them were pushed, a first part `done` is committed and
  the others of those pushed are pending. `Arrived.push` adds one more range:
  whatever is ready goes to the sink.
-/
namespace Chainweave.Backfill

open Stateful HashLink Chainweave.Chain

variable {L κ : Type}

/-- mirrors crates/chainweave-cli/src/main.rs:1017-1024 -/
def mergeProgress (progress rangeProgress : CommitProgress) : CommitProgress where
  committedRanges := progress.committedRanges + rangeProgress.committedRanges
  committedBlocks := progress.committedBlocks + rangeProgress.committedBlocks
  committedLogs := progress.committedLogs + rangeProgress.committedLogs
  lastCommittedHeight := rangeProgress.lastCommittedHeight.or progress.lastCommittedHeight

/-- Pushes, one after the other, and the sum of what they report; the first error ends them. -/
def pushEach (commitRange : CommitRange κ L) : CommitProgress → List (FetchedRange L) →
    Prog (OrderedCommitCoordinator L × κ) BackfillError CommitProgress
  | progress, [] => pure progress
  | progress, fetched :: pushes => do
    let rangeProgress ← OrderedCommitCoordinator.push commitRange fetched
    pushEach commitRange (mergeProgress progress rangeProgress) pushes

/-- The ranges partition the heights from `n` to `target`, lowest first. -/
def Covers : Nat → Nat → List (FetchedRange L) → Prop
  | n, target, [] => n = target + 1
  | n, target, fetched :: ranges =>
    fetched.range.fromBlock = n ∧ n ≤ fetched.range.toBlock ∧
      Covers (fetched.range.toBlock + 1) target ranges

/-- The ranges, blocks and logs of a list, and its last height. -/
def totals (ranges : List (FetchedRange L)) : CommitProgress where
  committedRanges := ranges.length
  committedBlocks := (ranges.map (·.range.len)).sum
  committedLogs := (ranges.map (·.logs.length)).sum
  lastCommittedHeight := (ranges.flatMap (·.headers)).getLast?.map (·.height)

theorem eq_empty_of_forall {β : Type} {t : Std.TreeMap Nat β} (h : ∀ n : Nat, t[n]? = none) :
    t = ∅ := by
  have hempty : t.isEmpty = true := Std.TreeMap.isEmpty_iff_forall_not_mem.2 fun n hn => by
    rw [Std.TreeMap.mem_iff_isSome_getElem?, h n] at hn
    cases hn
  obtain ⟨⟨inner, wf⟩⟩ := t
  cases inner with
  | leaf => rfl
  | inner => cases hempty

/-- A sink whose commits all go through. -/
def NeverFails (commitRange : CommitRange κ L) : Prop :=
  ∀ fetched k, (exec (commitRange fetched) k).1 = .ok ()

/-- The sink after some commits. -/
def commitsTo (commitRange : CommitRange κ L) (k : κ) (ranges : List (FetchedRange L)) : κ :=
  ranges.foldl (fun k fetched => (exec (commitRange fetched) k).2) k

section
variable {n target : Nat} {ranges done rest pushed : List (FetchedRange L)}
  {fetched f g : FetchedRange L}

theorem Covers.le (h : Covers n target ranges) : n ≤ target + 1 := by
  induction ranges generalizing n with
  | nil => exact Nat.le_of_eq h
  | cons f ranges ih =>
    have := ih h.2.2
    have := h.2.1
    omega

/-- Every range of a partition lies within it. -/
theorem Covers.bounds (h : Covers n target ranges) (hf : f ∈ ranges) :
    n ≤ f.range.fromBlock ∧ f.range.fromBlock ≤ f.range.toBlock ∧ f.range.toBlock ≤ target := by
  induction ranges generalizing n with
  | nil => cases hf
  | cons g ranges ih =>
    obtain ⟨hfrom, hle, hrest⟩ := h
    have hend := hrest.le
    cases List.mem_cons.1 hf with
    | inl hfg => subst hfg; omega
    | inr hf =>
      have := ih hrest hf
      omega

/-- Ranges of a partition that start alike are one range. -/
theorem Covers.unique (h : Covers n target ranges) (hf : f ∈ ranges) (hg : g ∈ ranges)
    (hfg : f.range.fromBlock = g.range.fromBlock) : f = g := by
  induction ranges generalizing n with
  | nil => cases hf
  | cons r ranges ih =>
    obtain ⟨hfrom, hle, hrest⟩ := h
    cases List.mem_cons.1 hf with
    | inl hfr =>
      cases List.mem_cons.1 hg with
      | inl hgr => rw [hfr, hgr]
      | inr hg =>
        have := hrest.bounds hg
        subst hfr
        omega
    | inr hf =>
      cases List.mem_cons.1 hg with
      | inl hgr =>
        have := hrest.bounds hf
        subst hgr
        omega
      | inr hg => exact ih hrest hf hg

theorem Covers.nodup (h : Covers n target ranges) : ranges.Nodup := by
  induction ranges generalizing n with
  | nil => exact .nil
  | cons r ranges ih =>
    obtain ⟨hfrom, hle, hrest⟩ := h
    refine List.nodup_cons.2 ⟨fun hmem => ?_, ih hrest⟩
    have := hrest.bounds hmem
    omega

theorem totals_concat {last : BlockHeader} (hlast : fetched.headers.getLast? = some last) :
    totals (done ++ [fetched]) =
      OrderedCommitCoordinator.progressAfter (totals done) fetched last := by
  simp [totals, OrderedCommitCoordinator.progressAfter, List.getLast?_append, hlast]

/-- Some of the ranges were pushed: a first part of all is committed, the rest of them pending. -/
structure Arrived (anchor : Option BlockHeader) (target : Nat) (done rest pushed : List (FetchedRange L))
    (c : OrderedCommitCoordinator L) : Prop where
  targetHeight : c.targetHeight = target
  linked : Linked (anchor.toList ++ (done ++ rest).flatMap (·.headers))
  covers : Covers c.nextHeight target rest
  parentAnchor : c.parentAnchor = (done.flatMap (·.headers)).getLast?.or anchor
  subset : ∀ f ∈ done, f ∈ pushed
  pending : ∀ (height : Nat) (f : FetchedRange L), c.pending[height]? = some f ↔
    f ∈ rest ∧ f ∈ pushed ∧ f.range.fromBlock = height

variable {anchor : Option BlockHeader} {c : OrderedCommitCoordinator L} {last : BlockHeader}

/-- The ready range is the next one of the partition, and it links. -/
theorem Arrived.ready (h : Arrived anchor target done rest pushed c)
    (hnext : c.pending[c.nextHeight]? = some fetched) :
    ∃ rest', rest = fetched :: rest' ∧ c.Links fetched := by
  obtain ⟨hmem, -, hfrom⟩ := (h.pending _ _).1 hnext
  cases rest with
  | nil => cases hmem
  | cons r rest' =>
    have hr : r = fetched := h.covers.unique (by simp) hmem (by rw [hfrom]; exact h.covers.1)
    subst hr
    refine ⟨rest', rfl, fun first hfirst a ha => ?_⟩
    have hlinked := h.linked
    rw [List.flatMap_append, List.flatMap_cons, ← List.append_assoc] at hlinked
    refine (List.isChain_append.1 hlinked).2.2 a ?_ first ?_
    · rw [List.getLast?_append]
      rw [h.parentAnchor] at ha
      cases anchor <;> simpa using ha
    · unfold FetchedRange.firstHeader at hfirst
      rw [List.head?_append, hfirst]
      rfl

theorem Arrived.commit (h : Arrived anchor target done (fetched :: rest) pushed c)
    (htarget : target < u64Max) (hmem : fetched ∈ pushed)
    (hlast : fetched.headers.getLast? = some last) :
    Arrived anchor target (done ++ [fetched]) rest pushed (c.pop.advance last) := by
  obtain ⟨hfrom, hle, hrest⟩ := h.covers
  have hto : fetched.range.toBlock ≤ target := (h.covers.bounds (by simp)).2.2
  have hheight : last.height = fetched.range.toBlock := by
    obtain ⟨-, -, last', -, hlast', -, hheight⟩ := fetched.exists_ends
    rw [hlast] at hlast'
    obtain rfl := Option.some.inj hlast'
    rw [BackfillRange.len_eq (by omega) (by omega)] at hheight
    omega
  refine ⟨h.targetHeight, by simpa using h.linked, ?_, ?_, ?_, fun height f => ?_⟩
  · have hsat : satAdd last.height 1 = fetched.range.toBlock + 1 := by
      unfold satAdd
      omega
    show Covers (satAdd last.height 1) target rest
    rw [hsat]
    exact hrest
  · show some last = _
    rw [List.flatMap_append, List.getLast?_append]
    simp [hlast]
  · intro f hf
    cases List.mem_append.1 hf with
    | inl hf => exact h.subset f hf
    | inr hf => rw [List.mem_singleton.1 hf]; exact hmem
  · show (c.pending.erase c.nextHeight)[height]? = some f ↔ _
    rw [Std.TreeMap.getElem?_erase]
    by_cases heq : c.nextHeight = height
    · rw [if_pos (by simpa using heq)]
      refine ⟨by simp, fun hand => ?_⟩
      obtain ⟨hf, -, hfrom⟩ := hand
      have := hrest.bounds hf
      omega
    · rw [if_neg (by simpa using heq), h.pending, List.mem_cons]
      refine ⟨fun hand => ?_, And.imp_left .inr⟩
      obtain ⟨hf, hp, hfrom⟩ := hand
      refine ⟨hf.resolve_left fun he => ?_, hp, hfrom⟩
      subst he
      omega

theorem Arrived.park (h : Arrived anchor target done rest pushed c) (hmem : fetched ∈ rest) :
    Arrived anchor target done rest (pushed ++ [fetched]) (c.park fetched) := by
  refine { h with subset := fun f hf => List.mem_append_left _ (h.subset f hf),
                  pending := fun height f => ?_ }
  show (c.pending.insert fetched.range.fromBlock fetched)[height]? = some f ↔ _
  rw [Std.TreeMap.getElem?_insert, List.mem_append, List.mem_singleton]
  by_cases heq : fetched.range.fromBlock = height
  · rw [if_pos (by simpa using heq)]
    constructor
    · intro hf
      obtain rfl := Option.some.inj hf
      exact ⟨hmem, .inr rfl, heq⟩
    · intro hand
      obtain ⟨hf, _, hfrom⟩ := hand
      rw [h.covers.unique hf hmem (hfrom.trans heq.symm)]
  · rw [if_neg (by simpa using heq), h.pending]
    refine and_congr_right fun hf => ⟨And.imp_left .inl, fun hand => ?_⟩
    obtain ⟨hp, hfrom⟩ := hand
    refine ⟨hp.resolve_right fun he => heq ?_, hfrom⟩
    rw [← he]
    exact hfrom

variable {commitRange : CommitRange κ L}

/-- **One more range arrives.** The push succeeds, and what is ready goes to the sink in order. -/
theorem Arrived.push (hnever : NeverFails commitRange) (htarget : target < u64Max)
    (h : Arrived anchor target done rest pushed c) (hmem : fetched ∈ done ++ rest)
    (hnew : fetched ∉ pushed) (k : κ) :
    wp (OrderedCommitCoordinator.push commitRange fetched)
      (fun progress s => ∃ more rest', rest = more ++ rest' ∧
        Arrived anchor target (done ++ more) rest' (pushed ++ [fetched]) s.1 ∧ Rests s.1 ∧
        s.2 = commitsTo commitRange k more ∧
        mergeProgress (totals done) progress = totals (done ++ more))
      (fun _ _ => False) (c, k) := by
  have hrest : fetched ∈ rest := by
    cases List.mem_append.1 hmem with
    | inl hdone => exact absurd (h.subset fetched hdone) hnew
    | inr hrest => exact hrest
  have hbounds := h.covers.bounds hrest
  refine OrderedCommitCoordinator.push_rule (fun e c' hrefused => ?_) fun _ _ _ => ?_
  · -- No refusal: the range lies ahead, within the target, and was not pushed before.
    cases hrefused with
    | beyond hbeyond => rw [h.targetHeight] at hbeyond; omega
    | stale hstale => omega
    | duplicate _ _ hdup =>
      obtain ⟨f, hf⟩ := Option.isSome_iff_exists.1 (Std.TreeMap.mem_iff_isSome_getElem?.1 hdup)
      obtain ⟨hfr, hfp, hfrom⟩ := (h.pending _ _).1 hf
      exact hnew (h.covers.unique hfr hrest hfrom ▸ hfp)
  · refine OrderedCommitCoordinator.drainLoop_wp (I := fun progress c k' => ∃ more rest',
      rest = more ++ rest' ∧ Arrived anchor target (done ++ more) rest' (pushed ++ [fetched]) c ∧
        k' = commitsTo commitRange k more ∧
        mergeProgress (totals done) progress = totals (done ++ more)) ?_ ?_ ?_ ?_ (Nat.le_refl _)
    · intro progress c k' f last hprog hnext hlast _
      obtain ⟨more, rest', hsplit, harr, hk, htotals⟩ := hprog
      obtain ⟨rest'', rfl, -⟩ := harr.ready hnext
      have hpushed := ((harr.pending _ _).1 hnext).2.1
      have hok := hnever f k'
      refine wp_of_eq (r := .ok ()) (t := (exec (commitRange f) k').2) (Prod.ext hok rfl) ?_ (by simp)
      intro _ _
      refine ⟨more ++ [f], rest'', by simpa using hsplit, ?_, ?_, ?_⟩
      · rw [← List.append_assoc]
        exact harr.commit htarget hpushed hlast
      · rw [hk]
        unfold commitsTo
        rw [List.foldl_append]
        rfl
      · rw [← List.append_assoc, totals_concat hlast, ← htotals]
        simp [mergeProgress, OrderedCommitCoordinator.progressAfter, Nat.add_assoc]
    · intro progress c k' f _ _ hprog hnext hbreak
      obtain ⟨more, rest', hsplit, harr, hk, htotals⟩ := hprog
      obtain ⟨_, -, hlinks⟩ := harr.ready hnext
      exact hbreak.not_links hlinks
    · intro progress c k' hprog hnone
      obtain ⟨more, rest', hsplit, harr, hk, htotals⟩ := hprog
      exact ⟨more, rest', hsplit, harr, hnone, hk, htotals⟩
    · refine ⟨[], rest, rfl, by simpa using h.park hrest, rfl, ?_⟩
      simp [mergeProgress]

/-- **The remaining ranges arrive**, in any order. -/
theorem Arrived.pushEach (hnever : NeverFails commitRange) (htarget : target < u64Max)
    (h : Arrived anchor target done rest pushed c) (hrests : Rests c)
    {pushes : List (FetchedRange L)} (hperm : (pushed ++ pushes).Perm (done ++ rest))
    (hnodup : (done ++ rest).Nodup) (k : κ) :
    wp (Backfill.pushEach commitRange (totals done) pushes)
      (fun progress s => Arrived anchor target (done ++ rest) [] (pushed ++ pushes) s.1 ∧
        s.2 = commitsTo commitRange k rest ∧ progress = totals (done ++ rest))
      (fun _ _ => False) (c, k) := by
  induction pushes generalizing done rest pushed c k with
  | nil =>
    rw [List.append_nil] at hperm ⊢
    -- All were pushed, so the next one would be ready if there were one.
    have hnil : rest = [] := by
      cases rest with
      | nil => rfl
      | cons f rest' =>
        have hready := (h.pending c.nextHeight f).2
          ⟨by simp, hperm.mem_iff.2 (by simp), h.covers.1⟩
        rw [hrests] at hready
        cases hready
    subst hnil
    unfold Backfill.pushEach
    rw [wp_pure]
    exact ⟨by simpa using h, rfl, by simp⟩
  | cons fetched pushes ih =>
    have hnd : (pushed ++ fetched :: pushes).Nodup := hperm.nodup_iff.2 hnodup
    have hnew : fetched ∉ pushed := fun hin =>
      (List.nodup_append.1 hnd).2.2 fetched hin fetched (by simp) rfl
    have hmem : fetched ∈ done ++ rest := hperm.mem_iff.1 (by simp)
    unfold Backfill.pushEach
    rw [wp_bind]
    refine wp_mono (h.push hnever htarget hmem hnew k) ?_ fun _ _ h => h
    intro progress s hprog
    obtain ⟨more, rest', hsplit, harr, hrests', hk, htotals⟩ := hprog
    subst hsplit
    rw [htotals]
    rw [← List.append_assoc] at hperm hnodup
    have hnext := @ih (done ++ more) rest' (pushed ++ [fetched]) s.1 harr hrests'
      (by simpa using hperm) hnodup s.2
    refine wp_mono hnext ?_ fun _ _ h => h
    intro total s' hand
    obtain ⟨harr', hk', htotal⟩ := hand
    refine ⟨by simpa using harr', ?_, by simpa using htotal⟩
    rw [hk', hk]
    unfold commitsTo
    rw [List.foldl_append]

end

/-- **Arrival order does not matter.** Ranges that partition the target range and whose headers are
one chain from the anchor, pushed in any order into a new coordinator over a sink that does not
fail, are all committed, in height order; the report, the coordinator and the sink are those of the
list, whatever the order. -/
theorem arrival_order {fromBlock target : Nat} {anchor : Option BlockHeader}
    {coordinator : OrderedCommitCoordinator L} {ranges pushes : List (FetchedRange L)}
    {commitRange : CommitRange κ L}
    (hnew : OrderedCommitCoordinator.new fromBlock target anchor = .ok coordinator)
    (htarget : target < u64Max) (hcovers : Covers fromBlock target ranges)
    (hlinked : Linked (anchor.toList ++ ranges.flatMap (·.headers))) (hperm : pushes.Perm ranges)
    (hnever : NeverFails commitRange) (k : κ) :
    let last : OrderedCommitCoordinator L :=
      { nextHeight := target + 1, targetHeight := target,
        parentAnchor := (ranges.flatMap (·.headers)).getLast?, pending := ∅ }
    exec (pushEach commitRange {} pushes) (coordinator, k) =
        (.ok (totals ranges), (last, commitsTo commitRange k ranges)) ∧ last.isComplete = true := by
  intro last
  refine ⟨?_, by simp [last, OrderedCommitCoordinator.isComplete]⟩
  obtain ⟨hidle, hle, -, -⟩ := idle_new hnew
  have hstart : Arrived anchor target [] ranges [] coordinator := by
    refine ⟨hidle.targetHeight, hlinked, by rwa [hidle.nextHeight], hidle.parentAnchor, by simp,
      fun height f => ⟨fun hf => ?_, fun h => absurd h.2.1 List.not_mem_nil⟩⟩
    exact absurd (Std.TreeMap.mem_iff_isSome_getElem?.2 (by rw [hf]; rfl)) (hidle.pending height)
  have hrests : Rests coordinator := by
    unfold Rests
    rw [Std.TreeMap.getElem?_eq_none]
    exact hidle.pending _
  have hwp := hstart.pushEach hnever htarget hrests (by simpa using hperm)
    (by simpa using hcovers.nodup) k
  cases hx : exec (pushEach commitRange {} pushes) (coordinator, k) with
  | mk r s =>
    cases r with
    | error e => exact (wp_error hwp hx).elim
    | ok progress =>
      obtain ⟨harr, hk, rfl⟩ := wp_ok hwp hx
      obtain ⟨⟨next, tgt, parent, pending⟩, k'⟩ := s
      have hpending : pending = ∅ := eq_empty_of_forall fun height => by
        cases hf : pending[height]? with
        | none => rfl
        | some f => exact absurd ((harr.pending height f).1 hf).1 List.not_mem_nil
      have hlast : ∃ h, (ranges.flatMap (·.headers)).getLast? = some h := by
        cases ranges with
        | nil => exact absurd hcovers (by show ¬ fromBlock = target + 1; omega)
        | cons f ranges =>
          obtain ⟨first, rest, -, hheaders, -⟩ := f.exists_ends
          exact Option.isSome_iff_exists.1 (List.getLast?_isSome.2 (by simp [hheaders]))
      obtain ⟨h, hlast⟩ := hlast
      have hparent : parent = (ranges.flatMap (·.headers)).getLast? := by
        have := harr.parentAnchor
        rw [List.nil_append, hlast] at this
        rw [hlast]
        exact this
      have hnext : next = target + 1 := harr.covers
      have htgt : tgt = target := harr.targetHeight
      rw [hpending, hparent, hnext, htgt]
      rw [show k' = commitsTo commitRange k ranges from hk]
      rfl

/-- `arrival_order` for three ranges that arrive last one first. -/
theorem arrival_order_reverse :
    let ranges := [headerRange ⟨2, 1, 1⟩, headerRange ⟨3, 2, 2⟩, headerRange ⟨4, 3, 3⟩]
    ∃ coordinator, OrderedCommitCoordinator.new 1 3 (some ⟨1, 0, 0⟩) = .ok coordinator ∧
      (exec (pushEach (recorded fun _ => pure ()) {} ranges.reverse) (coordinator, ((), []))).1 =
        .ok { committedRanges := 3, committedBlocks := 3, committedLogs := 0,
              lastCommittedHeight := some 3 } := by
  intro ranges
  have hnew : OrderedCommitCoordinator.new 1 3 (some ⟨1, 0, 0⟩) =
      .ok (⟨1, 3, some ⟨1, 0, 0⟩, ∅⟩ : OrderedCommitCoordinator Unit) := rfl
  have hcovers : Covers 1 3 ranges := ⟨rfl, by decide, rfl, by decide, rfl, by decide, rfl⟩
  have hnever : NeverFails (recorded fun _ => (pure () : Prog Unit String Unit) :
      CommitRange _ Unit) := fun _ _ => rfl
  refine ⟨_, hnew, ?_⟩
  rw [(arrival_order hnew (by decide) hcovers (by decide) (List.reverse_perm ranges) hnever
    ((), [])).1]
  rfl

end Chainweave.Backfill
