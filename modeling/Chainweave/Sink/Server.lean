import Chainweave.Sink.Postgres

/-!
# Calls of the writer

* `Server.applyBatch_wp`: a commit happens whole (`DidCommit`) or not at all
  (`SameRows`); only a returned error leaves open which.
* `runBatches`: any number of calls, whatever they answer. `runBatches_keeps`: what
  every transaction keeps, the calls keep.
-/
namespace Chainweave.Postgres

open Stateful Chainweave.Chain

/-- The same rows, the same commits, the same reads to come. -/
structure SameRows (server server' : Server) : Prop where
  db : server'.db = server.db
  history : server'.history = server.history
  readFaults : server'.readFaults = server.readFaults
  commitFaults : server.commitFaults = [] → server'.commitFaults = []

/-- `batch` was committed. -/
structure DidCommit (batch : DurableChainBatch) (server server' : Server) : Prop where
  nonempty : batch.isEmpty = false
  applied : ∃ report, Postgres.applyBatch server.db batch = .ok (report, server'.db)
  history : server'.history = server.history ++ [(batch, server'.db)]
  readFaults : server'.readFaults = server.readFaults
  commitFaults : server.commitFaults = [] → server'.commitFaults = []

theorem SameRows.refl (server : Server) : SameRows server server := ⟨rfl, rfl, rfl, fun h => h⟩

/-- **A commit is whole or nothing.** Without a fault it fails only if the transaction does. -/
theorem Server.applyBatch_wp (server : Server) (batch : DurableChainBatch) :
    wp (Server.applyBatch batch)
      (fun _ s' => batch.isEmpty = true ∧ s' = server ∨ DidCommit batch server s')
      (fun _ s' => (SameRows server s' ∨ DidCommit batch server s') ∧
        (server.commitFaults = [] → ∃ e, Postgres.applyBatch server.db batch = .error e)) server := by
  have htail : server.commitFaults = [] → server.commitFaults.tail = [] := by
    intro h
    rw [h]
    rfl
  by_cases he : batch.isEmpty = true
  · have hx : exec (Server.applyBatch batch) server = (.ok {}, server) := by
      show (if batch.isEmpty then _ else _) = _
      rw [if_pos he]
    exact wp_of_eq hx (fun _ _ => .inl ⟨he, rfl⟩) (by simp)
  have hne : batch.isEmpty = false := by simpa using he
  cases hf : server.commitFaults.head?.join with
  | none =>
    cases ha : Postgres.applyBatch server.db batch with
    | error e =>
      refine wp_of_eq (r := .error e) (t := { server with commitFaults := server.commitFaults.tail })
        ?_ (by simp) fun _ _ => ⟨.inl ⟨rfl, rfl, rfl, htail⟩, fun _ => ⟨e, rfl⟩⟩
      simp [Server.applyBatch, exec_mk, hne, hf, ha]
    | ok r =>
      refine wp_of_eq (r := .ok r.1)
        (t := { server with commitFaults := server.commitFaults.tail }.committed batch r.2)
        ?_ (fun _ _ => .inr ⟨hne, ⟨r.1, ha⟩, rfl, rfl, htail⟩) (by simp)
      simp [Server.applyBatch, exec_mk, hne, hf, ha]
  | some fault =>
    have hfault : server.commitFaults ≠ [] := by
      intro h
      rw [h] at hf
      cases hf
    cases fault with
    | beforeCommit =>
      refine wp_of_eq (r := .error (.database .connection))
        (t := { server with commitFaults := server.commitFaults.tail })
        ?_ (by simp) fun _ _ => ⟨.inl ⟨rfl, rfl, rfl, htail⟩, fun h => absurd h hfault⟩
      simp [Server.applyBatch, exec_mk, hne, hf]
    | afterCommit =>
      cases ha : Postgres.applyBatch server.db batch with
      | error e =>
        refine wp_of_eq (r := .error e) (t := { server with commitFaults := server.commitFaults.tail })
          ?_ (by simp) fun _ _ => ⟨.inl ⟨rfl, rfl, rfl, htail⟩, fun h => absurd h hfault⟩
        simp [Server.applyBatch, exec_mk, hne, hf, ha]
      | ok r =>
        refine wp_of_eq (r := .error (.database .connection))
          (t := { server with commitFaults := server.commitFaults.tail }.committed batch r.2)
          ?_ (by simp) fun _ _ => ⟨.inr ⟨hne, ⟨r.1, ha⟩, rfl, rfl, htail⟩, fun h => absurd h hfault⟩
        simp [Server.applyBatch, exec_mk, hne, hf, ha]

/-- The server after some calls of `apply_batch`, whatever they answered. -/
def runBatches (server : Server) (batches : List DurableChainBatch) : Server :=
  batches.foldl (fun server batch => (exec (Server.applyBatch batch) server).2) server

/-- A call commits its batch, or the rows stay. -/
theorem applyBatch_db (server : Server) (batch : DurableChainBatch) :
    (exec (Server.applyBatch batch) server).2.db = server.db ∨
      DidCommit batch server (exec (Server.applyBatch batch) server).2 := by
  have hwp := Server.applyBatch_wp server batch
  cases hx : exec (Server.applyBatch batch) server with
  | mk r s' =>
    cases r with
    | ok report =>
      cases wp_ok hwp hx with
      | inl h => exact .inl (by rw [h.2])
      | inr h => exact .inr h
    | error e =>
      cases (wp_error hwp hx).1 with
      | inl h => exact .inl h.db
      | inr h => exact .inr h

/-- What every transaction of these batches keeps, the calls keep. -/
theorem runBatches_keeps_of {P : Database → Prop} {batches : List DurableChainBatch}
    (hstep : ∀ db, ∀ batch ∈ batches, ∀ report db', P db →
      applyBatch db batch = .ok (report, db') → P db')
    {server : Server} (h : P server.db) : P (runBatches server batches).db := by
  unfold runBatches
  induction batches generalizing server with
  | nil => exact h
  | cons batch batches ih =>
    refine ih (fun db b hb => hstep db b (List.mem_cons_of_mem _ hb)) ?_
    cases applyBatch_db server batch with
    | inl hdb => rw [hdb]; exact h
    | inr hdid =>
      obtain ⟨report, hap⟩ := hdid.applied
      exact hstep _ batch (by simp) _ _ h hap

/-- What every transaction keeps, any calls keep. -/
theorem runBatches_keeps {P : Database → Prop}
    (hstep : ∀ db batch report db', P db → applyBatch db batch = .ok (report, db') → P db')
    {server : Server} (h : P server.db) (batches : List DurableChainBatch) :
    P (runBatches server batches).db :=
  runBatches_keeps_of (fun db batch _ => hstep db batch) h

end Chainweave.Postgres
