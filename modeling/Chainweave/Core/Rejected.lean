import Chainweave.Core.CommitOrder

/-!
# A rejected push

`insert_pending` makes two of its three checks before it touches the pending
ranges. The third is read off the insertion itself, when the range that was
parked at that height has already been replaced.

* `push_rejects`: an error of `insert_pending` comes from there alone.
* `rejected_untouched_iff`: the coordinator is as it was exactly when no other
  range is parked where the rejected one starts.
-/
namespace Chainweave.Backfill

open Stateful OrderedCommitCoordinator Chainweave.Chain

variable {L κ : Type}

/-- The errors of `insert_pending`. -/
inductive Rejection : BackfillError → Prop
  | rangeBeyondTarget (toBlock targetHeight : Nat) :
      Rejection (.rangeBeyondTarget toBlock targetHeight)
  | staleRange (fromBlock nextHeight : Nat) : Rejection (.staleRange fromBlock nextHeight)
  | duplicateRange (fromBlock : Nat) : Rejection (.duplicateRange fromBlock)

/-- The coordinator is as it was, and the sink was not asked for anything. -/
structure Untouched (before after : OrderedCommitCoordinator L × κ) : Prop where
  nextHeight : after.1.nextHeight = before.1.nextHeight
  targetHeight : after.1.targetHeight = before.1.targetHeight
  parentAnchor : after.1.parentAnchor = before.1.parentAnchor
  pending : ∀ height : Nat, after.1.pending[height]? = before.1.pending[height]?
  sink : after.2 = before.2

/-- No other range is parked where an acceptable range starts. -/
def Unparked (c : OrderedCommitCoordinator L) (fetched : FetchedRange L) : Prop :=
  fetched.range.toBlock ≤ c.targetHeight → c.nextHeight ≤ fetched.range.fromBlock →
    ∀ parked ∈ c.pending[fetched.range.fromBlock]?, parked = fetched

section
variable {c c' : OrderedCommitCoordinator L} {fetched : FetchedRange L} {e : BackfillError}
  {commitRange : CommitRange κ L} {k : κ}

/-- A push that fails with one of these errors was refused: the drain loop has other errors. -/
theorem push_rejects (hrejection : Rejection e)
    (hx : (exec (push commitRange fetched) (c, k)).1 = .error e) :
    ∃ c', Refused c fetched e c' ∧ (exec (push commitRange fetched) (c, k)).2 = (c', k) := by
  have hwp : wp (push commitRange fetched) (fun _ _ => True)
      (fun e s => Rejection e → ∃ c', Refused c fetched e c' ∧ s = (c', k)) (c, k) := by
    refine push_rule (fun e c' hrefused _ => ⟨c', hrefused, rfl⟩) fun _ _ _ => ?_
    refine drainLoop_wp (I := fun _ _ _ => True) ?_ ?_ ?_ trivial (Nat.le_refl _)
    · intro _ c k f last _ _ _ _
      unfold wp
      split
      · trivial
      · intro hcommit
        cases hcommit
    · intro _ c k f _ _ _ _ _ hbroken
      cases hbroken
    · intro _ _ _ _ _
      trivial
  cases hp : exec (push commitRange fetched) (c, k) with
  | mk r s =>
    rw [hp] at hx
    cases hx
    exact wp_error hwp hp hrejection

/-- A range that starts where another is parked takes its place. -/
theorem push_duplicate (hto : fetched.range.toBlock ≤ c.targetHeight)
    (hnext : c.nextHeight ≤ fetched.range.fromBlock) (hdup : fetched.range.fromBlock ∈ c.pending) :
    exec (push commitRange fetched) (c, k) =
      (.error (.duplicateRange fetched.range.fromBlock), (c.park fetched, k)) := by
  have hins : c.insertPending fetched =
      (.error (.duplicateRange fetched.range.fromBlock), c.park fetched) := by
    unfold insertPending
    dsimp only
    rw [if_neg (by omega), if_neg (by omega), if_pos hdup]
    rfl
  unfold push
  rw [exec_bind, onSelf, exec_mk, hins]

/-- Parking a range again changes nothing. -/
theorem getElem?_park (hparked : c.pending[fetched.range.fromBlock]? = some fetched) (height : Nat) :
    (c.park fetched).pending[height]? = c.pending[height]? := by
  show (c.pending.insert fetched.range.fromBlock fetched)[height]? = _
  rw [Std.TreeMap.getElem?_insert]
  split
  · rename_i heq
    obtain rfl : fetched.range.fromBlock = height := by simpa using heq
    exact hparked.symm
  · rfl

/-- What a refused range leaves behind. -/
theorem OrderedCommitCoordinator.Refused.untouched (h : Refused c fetched e c')
    (hunparked : Unparked c fetched) :
    Untouched (c, k) (c', k) := by
  cases h with
  | beyond => exact ⟨rfl, rfl, rfl, fun _ => rfl, rfl⟩
  | stale => exact ⟨rfl, rfl, rfl, fun _ => rfl, rfl⟩
  | duplicate hto hnext hdup =>
    obtain ⟨parked, hparked⟩ :=
      Option.isSome_iff_exists.1 (Std.TreeMap.mem_iff_isSome_getElem?.1 hdup)
    obtain rfl := hunparked hto hnext parked hparked
    exact ⟨rfl, rfl, rfl, getElem?_park hparked, rfl⟩

/-- A rejected push of one state. -/
theorem push_untouched_iff : (∀ e, (exec (push commitRange fetched) (c, k)).1 = .error e → Rejection e →
    Untouched (c, k) (exec (push commitRange fetched) (c, k)).2) ↔ Unparked c fetched := by
  constructor
  · intro h hto hnext parked hparked
    have hdup : fetched.range.fromBlock ∈ c.pending := by
      rw [Std.TreeMap.mem_iff_isSome_getElem?, hparked]
      rfl
    have hafter := @push_duplicate _ _ _ _ commitRange k hto hnext hdup
    have huntouched := h _ (by rw [hafter]) (.duplicateRange _)
    rw [hafter] at huntouched
    have hself : (c.park fetched).pending[fetched.range.fromBlock]? = some fetched :=
      Std.TreeMap.getElem?_insert_self
    have hget : some fetched = c.pending[fetched.range.fromBlock]? :=
      hself.symm.trans (huntouched.pending fetched.range.fromBlock)
    rw [hparked] at hget
    exact (Option.some.inj hget).symm
  · intro hunparked e he hrejection
    obtain ⟨c', hrefused, hs⟩ := push_rejects hrejection he
    rw [hs]
    exact hrefused.untouched hunparked

end

/-- **Exactly when a rejected push leaves the coordinator as it was**, after any pushes into a new
coordinator, whatever the sink answered. -/
theorem rejected_untouched_iff {fromBlock target : Nat} {anchor : Option BlockHeader}
    {coordinator : OrderedCommitCoordinator L}
    (_hnew : OrderedCommitCoordinator.new fromBlock target anchor = .ok coordinator)
    (commitRange : CommitRange κ L) (k : κ) (pushes : List (FetchedRange L))
    (fetched : FetchedRange L) :
    let s := pushAll (recorded commitRange) pushes (coordinator, (k, []))
    let after := exec (push (recorded commitRange) fetched) s
    (∀ e, after.1 = .error e → Rejection e → Untouched s after.2) ↔ Unparked s.1 fetched :=
  push_untouched_iff

/-- `rejected_untouched_iff` for a range that was committed before. -/
theorem rejected_untouched_iff_stale :
    let first := headerRange ⟨2, 1, 1⟩
    ∃ coordinator, OrderedCommitCoordinator.new 1 2 (some ⟨1, 0, 0⟩) = .ok coordinator ∧
      let s := pushAll (recorded fun _ => pure ()) [first] (coordinator, ((), []))
      let after := exec (push (recorded fun _ => pure ()) first) s
      after.1 = .error (.staleRange 1 2) ∧ Untouched s after.2 := by
  intro first
  have hnew : OrderedCommitCoordinator.new 1 2 (some ⟨1, 0, 0⟩) =
      .ok (⟨1, 2, some ⟨1, 0, 0⟩, ∅⟩ : OrderedCommitCoordinator Unit) := rfl
  refine ⟨_, hnew, rfl, ?_⟩
  refine (rejected_untouched_iff hnew (fun _ => pure ()) () [first] first).2 ?_ _ rfl (.staleRange 1 2)
  intro _ hnext
  exact absurd hnext (by decide +kernel)

/-- A block that waits for its parent is lost to another one of its height, which is rejected. -/
theorem duplicate_takes_place :
    let parked := headerRange ⟨3, 2, 2⟩
    let other := headerRange ⟨9, 8, 2⟩
    ∃ coordinator, OrderedCommitCoordinator.new 1 2 (some ⟨1, 0, 0⟩) = .ok coordinator ∧
      let s := pushAll (recorded fun _ => pure ()) [parked] (coordinator, ((), []))
      let after := exec (push (recorded fun _ => pure ()) other) s
      after.1 = .error (.duplicateRange 2) ∧ s.1.pending[2]?.map (·.headers) = some [⟨3, 2, 2⟩] ∧
        after.2.1.pending[2]?.map (·.headers) = some [⟨9, 8, 2⟩] ∧
          ¬ ∀ e, after.1 = .error e → Rejection e → Untouched s after.2 := by
  intro parked other
  refine ⟨⟨1, 2, some ⟨1, 0, 0⟩, ∅⟩, rfl, rfl, by decide +kernel, by decide +kernel, fun h => ?_⟩
  have hget := congrArg (Option.map (·.headers)) ((h _ rfl (.duplicateRange 2)).pending 2)
  exact absurd hget (by decide +kernel)

end Chainweave.Backfill
