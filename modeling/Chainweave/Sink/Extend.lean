import Chainweave.Sink.Batches
import Chainweave.Sink.Server

/-!
# What a backfill adds to the tables

The committer only applies: it rolls nothing back, and the rows it finds stay.

* `apply_canonical`: an apply that returns makes its header canonical, besides the
  canonical rows there were.
* `Extends`: the tables after some ranges. `commitRange_extends`: one range more.
-/
namespace Chainweave.Postgres

open Stateful HashLink Chainweave.Chain Chainweave.Backfill

variable {V : Set BlockHeader} {t t' : Tables}

/-- **An apply**, over rows of `V`: the canonical rows stay, with the applied header among them. -/
theorem apply_canonical (hV : HashId V) (hrows : ∀ x ∈ t.headers, x ∈ V) {block : IndexedBlock}
    (hb : block.header ∈ V) {changed : Bool}
    (hev : eventTables t (.apply block) = .ok (changed, t')) :
    (∀ x ∈ t'.headers, x ∈ V) ∧ ∀ x, x ∈ t'.canonical ↔ x ∈ t.canonical ∨ x = block.header := by
  obtain ⟨⟨c, u⟩, hup, hev⟩ := ok_bind.1 hev
  obtain ⟨v, hlogs, hev⟩ := ok_bind.1 hev
  have hblocks : t'.blocks = u.blocks := by
    rw [← (upsertLogs_frame hlogs).1]
    obtain ⟨-, ⟨-, rfl⟩ | ⟨-, ho⟩⟩ := appendChanged_ok hev
    · rfl
    · obtain ⟨-, -, rfl⟩ := Tables.appendOutbox_ok ho
      rfl
  have hsame : t'.headers = u.headers ∧ t'.canonical = u.canonical := by
    unfold Tables.headers Tables.canonical
    rw [hblocks]
    exact ⟨rfl, rfl⟩
  rw [hsame.1, hsame.2]
  obtain ⟨-, hup⟩ := Tables.upsertBlock_ok hup
  cases hup with
  | unchanged y hy hhash =>
    obtain rfl := hV (hrows y (Tables.canonical_subset hy)) hb hhash
    refine ⟨hrows, fun x => ⟨.inl, fun hx => ?_⟩⟩
    cases hx with
    | inl hx => exact hx
    | inr hx => exact hx ▸ hy
  | inserted =>
    refine ⟨fun x hx => ?_, fun x => Tables.mem_canonical_insertBlock⟩
    rw [Tables.headers_insertBlock, List.mem_append, List.mem_singleton] at hx
    cases hx with
    | inl hx => exact hrows x hx
    | inr hx => exact hx ▸ hb
  | promoted y hy hhash =>
    obtain rfl := hV (hrows y hy) hb hhash
    refine ⟨by simpa using hrows, fun x => ?_⟩
    rw [Tables.mem_canonical_promote]
    constructor
    · intro hx
      cases hx with
      | inl hx => exact .inl hx
      | inr hx => exact .inr (hV (hrows x hx.1) hb hx.2)
    · intro hx
      cases hx with
      | inl hx => exact .inl hx
      | inr hx => exact .inr ⟨hx ▸ hy, by rw [hx]⟩

/-- Applies, one after the other. -/
theorem applies_canonical (hV : HashId V) (hrows : ∀ x ∈ t.headers, x ∈ V)
    {blocks : List IndexedBlock} (hb : ∀ b ∈ blocks, b.header ∈ V)
    (hrun : runEvents t (blocks.map .apply) = .ok t') :
    (∀ x ∈ t'.headers, x ∈ V) ∧
      ∀ x, x ∈ t'.canonical ↔ x ∈ t.canonical ∨ x ∈ blocks.map (·.header) := by
  induction blocks generalizing t with
  | nil => cases hrun; exact ⟨hrows, by simp⟩
  | cons b blocks ih =>
    obtain ⟨changed, u, hev, hrun⟩ := runEvents_cons_ok.1 hrun
    obtain ⟨hrows', hcanonical⟩ := apply_canonical hV hrows (hb b (by simp)) hev
    obtain ⟨hrows'', hcanonical'⟩ := ih hrows' (fun c hc => hb c (List.mem_cons_of_mem _ hc)) hrun
    refine ⟨hrows'', fun x => ?_⟩
    rw [hcanonical', hcanonical, List.map_cons, List.mem_cons, or_assoc]

/-- The tables `t` after the headers `C` were committed. -/
structure Extends (V : Set BlockHeader) (t : Tables) (C : List BlockHeader) (t' : Tables) : Prop where
  rows : ∀ x ∈ t'.headers, x ∈ V
  canonical : ∀ x, x ∈ t'.canonical ↔ x ∈ t.canonical ∨ x ∈ C
  checkpoint : ∀ last ∈ C.getLast?, t'.checkpoint = some (checkpointOf last)

theorem extends_refl (hrows : ∀ x ∈ t.headers, x ∈ V) : Extends V t [] t :=
  ⟨hrows, by simp, by simp⟩

/-- What the committer is given for a range: the blocks of its headers, all of `V`. -/
structure Supplied (V : Set BlockHeader) (fetched : FetchedRange IndexedBlock) : Prop where
  mem : ∀ x ∈ fetched.headers, x ∈ V
  blocks : fetched.logs.map (·.header) = fetched.headers

/-- One batch of applies. -/
theorem Extends.batch (hV : HashId V) {t₀ : Tables} {C headers : List BlockHeader}
    {db db' : Database} (h : Extends V t₀ C db.1) {blocks : List IndexedBlock}
    (hb : ∀ b ∈ blocks, b.header ∈ V) (hheaders : blocks.map (·.header) = headers)
    {batch : DurableChainBatch} (hev : batch.events = blocks.map .apply) {report : ApplyReport}
    (hne : batch.isEmpty = false) (hap : applyBatch db batch = .ok (report, db')) :
    Extends V t₀ (C ++ headers) db'.1 := by
  obtain ⟨v, hrun, hm⟩ := applyTables_ok_iff.1 ⟨report, (applyBatch_ok hne).1 hap⟩
  rw [hev] at hrun hm
  obtain ⟨hrows, hcanonical⟩ := applies_canonical hV h.rows hb hrun
  have hnonempty : blocks ≠ [] := by
    intro hnil
    rw [hnil] at hev
    unfold DurableChainBatch.isEmpty at hne
    rw [hev] at hne
    cases hne
  obtain ⟨last, hlast⟩ := Option.isSome_iff_exists.1 (List.getLast?_isSome.2 hnonempty)
  have htarget : finalTarget batch.commonAncestor (blocks.map .apply) = some last.header := by
    unfold finalTarget
    rw [List.getLast?_map, hlast]
    rfl
  have hend : headers.getLast? = some last.header := by
    rw [← hheaders, List.getLast?_map, hlast]
    rfl
  rw [htarget] at hm
  obtain ⟨-, -, hmoved⟩ := Tables.moveCheckpoint_ok hm
  rw [hmoved]
  refine ⟨hrows, fun x => ?_, fun top htop => ?_⟩
  · rw [List.mem_append, ← or_assoc, ← h.canonical, ← hheaders]
    exact hcanonical x
  · rw [List.getLast?_append, hend] at htop
    cases htop
    rfl

/-! ## One block -/

/-- The tables take the block: it fits its columns, and no other canonical row has its height. -/
structure Takes (t : Tables) (block : IndexedBlock) : Prop where
  fits : Fits block
  free : ∀ x ∈ t.canonical, x.height = block.header.height → x = block.header

/-- An apply goes through exactly if the tables take the block. -/
theorem apply_ok_iff (hV : HashId V) (hv : t.Valid) (hrows : ∀ x ∈ t.headers, x ∈ V)
    {block : IndexedBlock} (hb : block.header ∈ V) :
    (∃ r, eventTables t (.apply block) = .ok r) ↔ Takes t block := by
  constructor
  · intro h
    obtain ⟨⟨changed, t'⟩, hev⟩ := h
    obtain ⟨-, hcanonical⟩ := apply_canonical hV hrows hb hev
    refine ⟨fits_of_apply hev, fun x hx hheight => ?_⟩
    exact (valid_eventTables hv hev).canonical_height x ((hcanonical x).2 (.inl hx)) _
      ((hcanonical _).2 (.inr rfl)) hheight
  · intro h
    exact apply_exists hV hv hrows hb h.fits h.free

/-- A batch of one block commits exactly if the tables take the block. -/
theorem applyBatch_block (hV : HashId V) {db : Database} (hrows : ∀ x ∈ db.1.headers, x ∈ V)
    {block : IndexedBlock} (hb : block.header ∈ V) {batch : DurableChainBatch}
    (hev : batch.events = [.apply block]) :
    (∃ report db', applyBatch db batch = .ok (report, db')) ↔ Takes db.1 block := by
  have hne : batch.isEmpty = false := by
    unfold DurableChainBatch.isEmpty
    rw [hev]
    rfl
  have htarget : finalTarget batch.commonAncestor batch.events = some block.header := by
    rw [hev]
    rfl
  rw [← apply_ok_iff hV db.2 hrows hb]
  constructor
  · intro h
    obtain ⟨report, db', hap⟩ := h
    obtain ⟨u, hrun, -⟩ := applyTables_ok_iff.1 ⟨report, (applyBatch_ok hne).1 hap⟩
    rw [hev] at hrun
    obtain ⟨changed, t, happly, -⟩ := runEvents_cons_ok.1 hrun
    exact ⟨_, happly⟩
  · intro h
    obtain ⟨⟨changed, u⟩, happly⟩ := h
    have hrun : runEvents db.1 batch.events = .ok u := by
      rw [hev]
      exact runEvents_cons_ok.2 ⟨changed, u, happly, rfl⟩
    have hmem : block.header ∈ u.canonical :=
      ((apply_canonical hV hrows hb happly).2 _).2 (.inr rfl)
    have hmove : moveTarget u (finalTarget batch.commonAncestor batch.events) =
        .ok (u.setCheckpoint block.header) := by
      rw [htarget]
      exact moveCheckpoint_exists (valid_eventTables db.2 happly) hmem
    obtain ⟨report, htables⟩ := applyTables_ok_iff.2 ⟨u, hrun, hmove⟩
    obtain ⟨db', hap, -⟩ := applyBatch_of_tables hne htables
    exact ⟨report, db', hap⟩

/-- **One range more.** A commit that returns has added the headers of the range. -/
theorem commitRange_extends (hV : HashId V) {t₀ : Tables} {C : List BlockHeader}
    {committer : PostgresBackfillCommitter} {server : Server} (h : Extends V t₀ C server.db.1)
    {fetched : FetchedRange IndexedBlock} (hsupplied : Supplied V fetched) :
    wp (PostgresBackfillCommitter.commitRange fetched)
      (fun _ s => Extends V t₀ (C ++ fetched.headers) s.2.db.1) (fun _ _ => True)
      (committer, server) := by
  obtain ⟨mem, hblocks⟩ := hsupplied
  have hb : ∀ b ∈ fetched.logs, b.header ∈ V := fun b hb =>
    mem _ (hblocks ▸ List.mem_map_of_mem hb)
  unfold PostgresBackfillCommitter.commitRange
  cases hlast : fetched.headers.getLast? with
  | none => exact trivial
  | some last =>
    dsimp only
    rw [wp_bind, wp_get]
    dsimp only
    rw [wp_bind]
    refine wp_mapError ?_
    rw [wp_lift]
    refine ⟨fun durable hdurable => ?_, fun _ _ => trivial⟩
    obtain ⟨-, -, hcarries⟩ := fromChainBatch_ok hdurable
    obtain ⟨blocks, hevents, hheaders, hsub⟩ := carries_applies hV hb mem hcarries
    have hne : durable.isEmpty = false := by
      unfold DurableChainBatch.isEmpty
      rw [hevents]
      cases blocks with
      | nil => rw [← hheaders] at hlast; cases hlast
      | cons b blocks => rfl
    rw [wp_bind]
    refine wp_mapError (wp_zoom (wp_mono (Server.applyBatch_wp server durable) ?_ fun _ _ _ => trivial))
    intro _ server' hcommit
    rw [wp_modify]
    cases hcommit with
    | inl hempty => rw [hne] at hempty; cases hempty.1
    | inr hdid =>
      obtain ⟨report, hap⟩ := hdid.applied
      exact h.batch hV (fun b hmem => hb b (hsub b hmem)) hheaders hevents hne hap

end Chainweave.Postgres
