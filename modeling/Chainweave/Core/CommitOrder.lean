import Chainweave.Core.Coordinator

/-!
# The coordinator commits one chain

Ranges arrive in any order, from any fork, and the sink may fail. `recorded` is a
sink that also notes every commit it was asked for, and whether it went through.

`InOrder` is what holds whenever the drain loop looks for the next range: the
headers committed so far are a chain from the anchor, and `next_height` and
`parent_anchor` are read off its end. A range that fails to commit was taken out
before, and nothing waits at `next_height` after a push (`Rests`), so the same
range can be pushed again.
-/
namespace Chainweave.Backfill

open Stateful HashLink Chainweave.Chain

variable {L κ : Type}

/-- The sink, noting each commit and whether it went through. -/
def recorded (commitRange : CommitRange κ L) : CommitRange (κ × List (FetchedRange L × Bool)) L :=
  fun fetched => ExceptT.mk fun s =>
    let (r, k) := exec (commitRange fetched) s.1
    (r, (k, s.2 ++ [(fetched, r.toBool)]))

/-- The headers committed, in commit order. -/
def committedHeaders (attempts : List (FetchedRange L × Bool)) : List BlockHeader :=
  (attempts.filter (·.2)).flatMap (·.1.headers)

/-- The coordinator and the sink after some pushes, whatever they answered. -/
def pushAll (commitRange : CommitRange κ L) (pushes : List (FetchedRange L))
    (s : OrderedCommitCoordinator L × κ) : OrderedCommitCoordinator L × κ :=
  pushes.foldl (fun s fetched => (exec (OrderedCommitCoordinator.push commitRange fetched) s).2) s

theorem wp_recorded {commitRange : CommitRange κ L} {fetched : FetchedRange L} {k : κ}
    {attempts : List (FetchedRange L × Bool)}
    {Q : Unit → κ × List (FetchedRange L × Bool) → Prop}
    {E : String → κ × List (FetchedRange L × Bool) → Prop}
    (hok : ∀ k', Q () (k', attempts ++ [(fetched, true)]))
    (herror : ∀ e k', E e (k', attempts ++ [(fetched, false)])) :
    wp (recorded commitRange fetched) Q E (k, attempts) := by
  have hx : exec (recorded commitRange fetched) (k, attempts) =
      ((exec (commitRange fetched) k).1, ((exec (commitRange fetched) k).2,
        attempts ++ [(fetched, (exec (commitRange fetched) k).1.toBool)])) := rfl
  refine wp_of_eq hx (fun a ha => ?_) (fun e he => ?_)
  · rw [ha]
    exact hok _
  · rw [he]
    exact herror _ _

@[simp] theorem committedHeaders_true {attempts : List (FetchedRange L × Bool)}
    {fetched : FetchedRange L} :
    committedHeaders (attempts ++ [(fetched, true)]) =
      committedHeaders attempts ++ fetched.headers := by
  simp [committedHeaders]

@[simp] theorem committedHeaders_false {attempts : List (FetchedRange L × Bool)}
    {fetched : FetchedRange L} :
    committedHeaders (attempts ++ [(fetched, false)]) = committedHeaders attempts := by
  simp [committedHeaders]

/-- The committed headers are a chain from the anchor, and the coordinator is at its end. -/
structure InOrder (fromBlock target : Nat) (anchor : Option BlockHeader)
    (c : OrderedCommitCoordinator L) (attempts : List (FetchedRange L × Bool)) : Prop where
  targetHeight : c.targetHeight = target
  heights : (committedHeaders attempts).map (·.height) =
    List.range' fromBlock (committedHeaders attempts).length
  linked : Linked (anchor.toList ++ committedHeaders attempts)
  parentAnchor : c.parentAnchor = (committedHeaders attempts).getLast?.or anchor
  nextHeight : c.nextHeight = (committedHeaders attempts).getLast?.elim fromBlock fun last =>
    satAdd last.height 1
  keys : ∀ (height : Nat) (fetched : FetchedRange L), c.pending[height]? = some fetched →
    fetched.range.fromBlock = height ∧ fetched.range.toBlock ≤ target
  /-- the range whose commit failed last can still be committed -/
  failed : ∀ fetched, attempts.getLast? = some (fetched, false) →
    fetched.range.fromBlock = c.nextHeight ∧ fetched.range.toBlock ≤ target

/-- Nothing waits at `next_height`. -/
def Rests (c : OrderedCommitCoordinator L) : Prop := c.pending[c.nextHeight]? = none

section
variable {fromBlock target : Nat} {anchor : Option BlockHeader} {c : OrderedCommitCoordinator L}
  {attempts : List (FetchedRange L × Bool)} {fetched : FetchedRange L} {last : BlockHeader}

theorem inOrder_new (h : OrderedCommitCoordinator.new fromBlock target anchor = .ok c) :
    InOrder fromBlock target anchor c [] ∧ Rests c := by
  obtain ⟨hidle, -, -, -⟩ := idle_new h
  have hnone : ∀ height : Nat, c.pending[height]? = none := by
    intro height
    rw [Std.TreeMap.getElem?_eq_none]
    exact hidle.pending height
  refine ⟨⟨hidle.targetHeight, rfl, ?_, ?_, hidle.nextHeight, ?_, by simp⟩, hnone _⟩
  · cases anchor with
    | none => exact .nil
    | some a => exact .singleton a
  · rw [hidle.parentAnchor]
    rfl
  · intro height fetched hget
    rw [hnone] at hget
    cases hget

/-- The height of the last header of consecutive ones. -/
theorem getLast_height {headers : List BlockHeader} {n : Nat}
    (h : headers.map (·.height) = List.range' n headers.length)
    (hlast : headers.getLast? = some last) : last.height + 1 = n + headers.length := by
  have hend := congrArg List.getLast? h
  rw [List.getLast?_map, hlast, List.getLast?_range'] at hend
  have hne : headers.length ≠ 0 := by
    intro h0
    rw [List.length_eq_zero_iff.1 h0] at hlast
    cases hlast
  simp [hne] at hend
  omega

theorem getElem?_pop {height : Nat} (h : c.pop.pending[height]? = some fetched) :
    c.pending[height]? = some fetched := by
  have h : (c.pending.erase c.nextHeight)[height]? = some fetched := h
  rw [Std.TreeMap.getElem?_erase] at h
  split at h
  · cases h
  · exact h

/-- **One more commit.** A range that starts at `next_height` and links to the parent anchor
extends the chain. -/
theorem InOrder.commit (h : InOrder fromBlock target anchor c attempts)
    (hnext : c.pending[c.nextHeight]? = some fetched)
    (hlast : fetched.headers.getLast? = some last) (hlinks : c.Links fetched) :
    InOrder fromBlock target anchor (c.pop.advance last) (attempts ++ [(fetched, true)]) := by
  obtain ⟨first, rest, -, hheaders, -, hfirst, -⟩ := fetched.exists_ends
  have hchild : ∀ a ∈ c.parentAnchor, IsChild first a :=
    hlinks first (by unfold FetchedRange.firstHeader; rw [hheaders]; rfl)
  have hlast' : (committedHeaders attempts ++ fetched.headers).getLast? = some last := by
    rw [List.getLast?_append, hlast]
    rfl
  refine ⟨h.targetHeight, ?_, ?_, ?_, ?_, ?_, by simp⟩
  · rw [committedHeaders_true, List.map_append, List.length_append, h.heights, fetched.map_height,
      fetched.length_headers, ← List.range'_append_1]
    congr 2
    -- The range starts where the committed heights end.
    cases hend : (committedHeaders attempts).getLast? with
    | none =>
      have hkey := (h.keys _ _ hnext).1
      rw [h.nextHeight, hend] at hkey
      rw [List.getLast?_eq_none_iff.1 hend]
      exact hkey
    | some top =>
      have htop : c.parentAnchor = some top := by rw [h.parentAnchor, hend]; rfl
      have hheight : first.height = top.height + 1 := (hchild top htop).2
      rw [← hfirst, hheight, getLast_height h.heights hend]
  · rw [committedHeaders_true, ← List.append_assoc]
    refine List.isChain_append.2 ⟨h.linked, fetched.linked, ?_⟩
    intro x hx y hy
    rw [hheaders, List.head?_cons, Option.mem_some_iff] at hy
    subst hy
    refine hchild x ?_
    rw [h.parentAnchor]
    rw [List.getLast?_append] at hx
    cases hend : (committedHeaders attempts).getLast? with
    | none =>
      rw [hend] at hx
      cases anchor with
      | none => simp at hx
      | some a => simpa using hx
    | some top =>
      rw [hend] at hx
      simpa using hx
  · rw [committedHeaders_true, hlast']
    rfl
  · rw [committedHeaders_true, hlast']
    rfl
  · intro height f hget
    exact h.keys height f (getElem?_pop hget)

/-- A failed commit leaves the chain, and the range out of the pending ones. -/
theorem InOrder.fail (h : InOrder fromBlock target anchor c attempts)
    (hnext : c.pending[c.nextHeight]? = some fetched) :
    InOrder fromBlock target anchor c.pop (attempts ++ [(fetched, false)]) ∧ Rests c.pop := by
  refine ⟨⟨h.targetHeight, ?_, ?_, ?_, ?_, ?_, ?_⟩, ?_⟩
  · rw [committedHeaders_false]
    exact h.heights
  · rw [committedHeaders_false]
    exact h.linked
  · rw [committedHeaders_false]
    exact h.parentAnchor
  · rw [committedHeaders_false]
    exact h.nextHeight
  · intro height f hget
    exact h.keys height f (getElem?_pop hget)
  · intro f hf
    have heq : fetched = f := by simpa using hf
    exact heq ▸ h.keys _ _ hnext
  · show (c.pending.erase c.nextHeight)[c.nextHeight]? = none
    exact Std.TreeMap.getElem?_erase_self

theorem InOrder.park (h : InOrder fromBlock target anchor c attempts)
    (hto : fetched.range.toBlock ≤ c.targetHeight) :
    InOrder fromBlock target anchor (c.park fetched) attempts := by
  refine { h with keys := fun height f hget => ?_ }
  have hget : (c.pending.insert fetched.range.fromBlock fetched)[height]? = some f := hget
  rw [Std.TreeMap.getElem?_insert] at hget
  split at hget
  · rename_i heq
    obtain rfl := Option.some.inj hget
    exact ⟨by simpa using heq, h.targetHeight ▸ hto⟩
  · exact h.keys height f hget

theorem InOrder.clear (h : InOrder fromBlock target anchor c attempts) :
    InOrder fromBlock target anchor c.cleared attempts ∧ Rests c.cleared := by
  have hnone : ∀ height : Nat, c.cleared.pending[height]? = none := fun height => by
    simp [OrderedCommitCoordinator.cleared]
  refine ⟨{ h with keys := fun height f hget => ?_ }, hnone _⟩
  rw [hnone] at hget
  cases hget

end

section
variable {fromBlock target : Nat} {anchor : Option BlockHeader} {c : OrderedCommitCoordinator L}
  {attempts : List (FetchedRange L × Bool)} (commitRange : CommitRange κ L)

/-- **Every push keeps the order**, however it ends; and it is never refused for a range whose commit
was the last one to fail. -/
theorem push_keeps (k : κ) (h : InOrder fromBlock target anchor c attempts) (hrests : Rests c)
    (fetched : FetchedRange L) :
    wp (OrderedCommitCoordinator.push (recorded commitRange) fetched)
      (fun _ s => InOrder fromBlock target anchor s.1 s.2.2 ∧ Rests s.1)
      (fun e s => (InOrder fromBlock target anchor s.1 s.2.2 ∧ Rests s.1) ∧
        (attempts.getLast? = some (fetched, false) →
          ∀ a b, e ≠ .staleRange a b ∧ e ≠ .duplicateRange a)) (c, (k, attempts)) := by
  refine OrderedCommitCoordinator.push_rule (fun e c' hrefused => ?_) fun hto _ _ => ?_
  · -- Refused: the pending ranges change at most at a height that was taken.
    cases hrefused with
    | beyond hbeyond =>
      refine ⟨⟨h, hrests⟩, fun _ _ _ => ⟨?_, ?_⟩⟩ <;> simp
    | stale hstale =>
      refine ⟨⟨h, hrests⟩, fun hlast => ?_⟩
      have := (h.failed fetched hlast).1
      omega
    | duplicate hto hnext hdup =>
      obtain ⟨f, hf⟩ := Option.isSome_iff_exists.1 (Std.TreeMap.mem_iff_isSome_getElem?.1 hdup)
      have hne : fetched.range.fromBlock ≠ c.nextHeight := by
        intro he
        rw [he, hrests] at hf
        cases hf
      refine ⟨⟨h.park hto, ?_⟩, fun hlast => absurd (h.failed fetched hlast).1 hne⟩
      show (c.pending.insert fetched.range.fromBlock fetched)[c.nextHeight]? = none
      rw [Std.TreeMap.getElem?_insert, if_neg (by simpa using hne)]
      exact hrests
  · refine OrderedCommitCoordinator.drainLoop_wp
      (I := fun _ c s => InOrder fromBlock target anchor c s.2) ?_ ?_ ?_ (h.park hto) (Nat.le_refl _)
    · intro _ c s f last hI hnext hlast hlinks
      refine wp_recorded (fun _ => hI.commit hnext hlast hlinks) fun _ _ => ?_
      exact ⟨hI.fail hnext, fun _ _ _ => ⟨by simp, by simp⟩⟩
    · intro _ c s f _ _ hI hnext _
      exact ⟨hI.clear, fun _ _ _ => ⟨by simp, by simp⟩⟩
    · intro _ c s hI hnone
      exact ⟨hI, hnone⟩

/-- Any number of pushes keep the order. -/
theorem pushAll_keeps (k : κ) (h : InOrder fromBlock target anchor c attempts) (hrests : Rests c)
    (pushes : List (FetchedRange L)) :
    let s := pushAll (recorded commitRange) pushes (c, (k, attempts))
    InOrder fromBlock target anchor s.1 s.2.2 ∧ Rests s.1 := by
  unfold pushAll
  induction pushes generalizing c k attempts with
  | nil => exact ⟨h, hrests⟩
  | cons fetched pushes ih =>
    rw [List.foldl_cons]
    have hwp := push_keeps commitRange k h hrests fetched
    cases hx : exec (OrderedCommitCoordinator.push (recorded commitRange) fetched)
        (c, (k, attempts)) with
    | mk r s =>
      cases r with
      | ok progress =>
        obtain ⟨hs, hrest⟩ := wp_ok hwp hx
        exact ih _ hs hrest
      | error e =>
        obtain ⟨⟨hs, hrest⟩, -⟩ := wp_error hwp hx
        exact ih _ hs hrest

end

/-- **The coordinator commits one chain.** After any pushes into a new coordinator, whatever the sink
answered, the headers committed are consecutive from `from_block`, linked to the anchor and to each
other; `parent_anchor` is the last of them and `next_height` the height after it, which stays at
`u64::MAX` once that is committed. A range whose commit failed is not refused when pushed again. -/
theorem commits_one_chain {fromBlock target : Nat} {anchor : Option BlockHeader}
    {coordinator : OrderedCommitCoordinator L}
    (hnew : OrderedCommitCoordinator.new fromBlock target anchor = .ok coordinator)
    (commitRange : CommitRange κ L) (k : κ) (pushes : List (FetchedRange L)) :
    let s := pushAll (recorded commitRange) pushes (coordinator, (k, []))
    let headers := committedHeaders s.2.2
    headers.map (·.height) = List.range' fromBlock headers.length ∧
      Linked (anchor.toList ++ headers) ∧ s.1.parentAnchor = headers.getLast?.or anchor ∧
      (headers = [] → s.1.nextHeight = fromBlock) ∧
      (∀ last ∈ headers.getLast?, s.1.nextHeight = satAdd last.height 1) ∧
      ∀ fetched, s.2.2.getLast? = some (fetched, false) → ∀ a b,
        (exec (OrderedCommitCoordinator.push (recorded commitRange) fetched) s).1 ≠
            .error (.staleRange a b) ∧
          (exec (OrderedCommitCoordinator.push (recorded commitRange) fetched) s).1 ≠
            .error (.duplicateRange a) := by
  intro s headers
  obtain ⟨hstart, hrests⟩ := inOrder_new hnew
  obtain ⟨h, hrest⟩ := pushAll_keeps commitRange k hstart hrests pushes
  refine ⟨h.heights, h.linked, h.parentAnchor, fun hnil => ?_, fun last hlast => ?_,
    fun fetched hfailed a b => ?_⟩
  · rw [h.nextHeight, show committedHeaders s.2.2 = [] from hnil]
    rfl
  · rw [h.nextHeight, show (committedHeaders s.2.2).getLast? = some last from hlast]
    rfl
  · have hwp := push_keeps commitRange s.2.1 h hrest fetched
    cases hx : exec (OrderedCommitCoordinator.push (recorded commitRange) fetched) s with
    | mk r s' =>
      cases r with
      | ok progress => exact ⟨by simp, by simp⟩
      | error e =>
        obtain ⟨-, hagain⟩ := wp_error hwp hx
        obtain ⟨h1, h2⟩ := hagain hfailed a b
        exact ⟨by simpa using h1, by simpa using h2⟩

/-- The range of one header. -/
def headerRange (header : BlockHeader) : FetchedRange Unit where
  range := ⟨header.height, header.height⟩
  headers := [header]
  logs := []
  valid := validateHeaders_one.2 rfl

/-- A sink whose first commit fails. -/
def failsOnce : CommitRange Nat Unit := fun _ => do
  let calls ← get
  modify (· + 1)
  if calls = 0 then throw "connection lost"

/-- `commits_one_chain` where the ranges arrive in reverse, a commit fails and is tried again. -/
theorem commits_one_chain_retry :
    let first := headerRange ⟨2, 1, 1⟩
    let second := headerRange ⟨3, 2, 2⟩
    ∃ coordinator, OrderedCommitCoordinator.new 1 2 (some ⟨1, 0, 0⟩) = .ok coordinator ∧
      (let s := pushAll (recorded failsOnce) [second, first] (coordinator, (0, []))
      committedHeaders s.2.2 = [] ∧ ∀ a b,
        (exec (OrderedCommitCoordinator.push (recorded failsOnce) first) s).1 ≠
          .error (.staleRange a b)) ∧
      let s := pushAll (recorded failsOnce) [second, first, first] (coordinator, (0, []))
      committedHeaders s.2.2 = [⟨2, 1, 1⟩, ⟨3, 2, 2⟩] ∧ s.1.nextHeight = 3 := by
  intro first second
  have hnew : OrderedCommitCoordinator.new 1 2 (some ⟨1, 0, 0⟩) =
      .ok (⟨1, 2, some ⟨1, 0, 0⟩, ∅⟩ : OrderedCommitCoordinator Unit) := rfl
  refine ⟨_, hnew, ⟨by decide +kernel, fun a b => ?_⟩, by decide +kernel, by decide +kernel⟩
  have hfailed : (pushAll (recorded failsOnce) [second, first]
      (⟨1, 2, some ⟨1, 0, 0⟩, ∅⟩, (0, []))).2.2.getLast? = some (first, false) := rfl
  exact ((commits_one_chain hnew failsOnce 0 [second, first]).2.2.2.2.2 first hfailed a b).1

/-- Once the highest height is committed, `next_height` is that height again. -/
theorem next_height_saturates :
    ∃ coordinator, OrderedCommitCoordinator.new u64Max u64Max (some ⟨1, 0, u64Max - 1⟩) =
        .ok coordinator ∧
      let s := pushAll (recorded fun _ => pure ()) [headerRange ⟨2, 1, u64Max⟩] (coordinator, ((), []))
      ¬ ∀ last ∈ (committedHeaders s.2.2).getLast?, last.height = s.1.nextHeight - 1 := by
  refine ⟨_, rfl, ?_⟩
  decide +kernel

end Chainweave.Backfill
