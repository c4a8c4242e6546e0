import Chainweave.Core.ChainShape
import Chainweave.Lib.Since
import Mathlib.Data.List.Infix
import Mathlib.Data.List.Nodup

/-!
# The header cache

`crates/chainweave-core/src/chain.rs`: a map of headers by hash and the queue of its
keys, after any insertions into a new cache.

* `insertions`: each insertion with the cache it met. It `Enters` a key that is not
  there, and `Evicts` one that is gone after it.
* `Held`: the queue is the last `capacity` keys that entered, and the keys of the map.
* `headerCache_fifo`: what `get` answers, and which insertion evicts a key.
-/
namespace Chainweave.Chain

open History

/-! ## Insertions -/

/-- The insertions, each with the cache before it. -/
def insertionsFrom : HeaderCache → List BlockHeader → List (HeaderCache × BlockHeader)
  | _, [] => []
  | cache, header :: headers => (cache, header) :: insertionsFrom (cache.insert header) headers

/-- The cache after some insertions into a new one. -/
def cacheAfter (capacity : Nat) (headers : List BlockHeader) : HeaderCache :=
  headers.foldl HeaderCache.insert (HeaderCache.new capacity)

def insertions (capacity : Nat) (headers : List BlockHeader) : List (HeaderCache × BlockHeader) :=
  insertionsFrom (HeaderCache.new capacity) headers

/-- The insertion brings a key that is not there. -/
def Enters (insertion : HeaderCache × BlockHeader) : Prop :=
  insertion.2.hash ∉ insertion.1.headers

instance : DecidablePred Enters := fun _ => inferInstanceAs (Decidable (¬ _))

/-- The key is there before the insertion and not after it. -/
def Evicts (key : BlockHash) (insertion : HeaderCache × BlockHeader) : Prop :=
  key ∈ insertion.1.headers ∧ key ∉ (insertion.1.insert insertion.2).headers

/-- The key entered, and no insertion after that evicted it. -/
def Remains (key : BlockHash) (insertions : List (HeaderCache × BlockHeader)) : Prop :=
  Since (fun _ insertion => insertion.2.hash = key ∧ Enters insertion)
    (fun insertion => ¬ Evicts key insertion) insertions

/-- The keys that entered, in order. -/
def entered (capacity : Nat) (headers : List BlockHeader) : List BlockHash :=
  ((insertions capacity headers).filter fun insertion => Enters insertion).map (·.2.hash)

/-- The header inserted last under a key. -/
def lastInserted (key : BlockHash) (headers : List BlockHeader) : Option BlockHeader :=
  (headers.filter fun header => header.hash = key).getLast?

section
variable {capacity : Nat} {headers : List BlockHeader} {header : BlockHeader} {key : BlockHash}

theorem cacheAfter_concat :
    cacheAfter capacity (headers ++ [header]) = (cacheAfter capacity headers).insert header := by
  unfold cacheAfter
  rw [List.foldl_append]
  rfl

theorem insertionsFrom_concat {cache : HeaderCache} :
    insertionsFrom cache (headers ++ [header]) =
      insertionsFrom cache headers ++ [(headers.foldl HeaderCache.insert cache, header)] := by
  induction headers generalizing cache with
  | nil => rfl
  | cons first headers ih => exact congrArg (_ :: ·) ih

theorem insertions_concat : insertions capacity (headers ++ [header]) =
    insertions capacity headers ++ [(cacheAfter capacity headers, header)] :=
  insertionsFrom_concat

theorem entered_concat : entered capacity (headers ++ [header]) =
    entered capacity headers ++
      if header.hash ∈ (cacheAfter capacity headers).headers then [] else [header.hash] := by
  unfold entered
  rw [insertions_concat, List.filter_append, List.map_append]
  congr 1
  by_cases hin : header.hash ∈ (cacheAfter capacity headers).headers
  · simp [hin, Enters]
  · simp [hin, Enters]

theorem lastInserted_concat : lastInserted key (headers ++ [header]) =
    if header.hash = key then some header else lastInserted key headers := by
  unfold lastInserted
  rw [List.filter_append]
  by_cases hkey : header.hash = key
  · simp [hkey]
  · simp [hkey]

/-! ## The queue -/

/-- The queue is the last keys that entered, and the keys of the map. -/
structure Held (limit : Nat) (log : List BlockHash) (cache : HeaderCache) : Prop where
  capacity : cache.capacity = limit
  nodup : cache.order.Nodup
  keys : ∀ key, key ∈ cache.order ↔ key ∈ cache.headers
  recent : cache.order = log.drop (log.length - limit)

variable {limit : Nat} {log : List BlockHash} {cache : HeaderCache}

/-- One more key, and the last ones of all. -/
theorem drop_concat (hpos : 0 < limit) :
    (log ++ [key]).drop ((log ++ [key]).length - limit) =
      (if (log.drop (log.length - limit)).length = limit then
        (log.drop (log.length - limit)).tail else log.drop (log.length - limit)) ++ [key] := by
  rw [List.length_append, List.length_singleton, List.drop_append_of_le_length (by omega),
    List.length_drop]
  congr 1
  split
  · rw [List.tail_drop]
    congr 1
    omega
  · congr 1
    omega

/-- A full cache gives up its oldest key. -/
theorem Held.evict (h : Held limit log cache) :
    cache.evict.order = (if cache.order.length = limit then cache.order.tail else cache.order) ∧
      cache.evict.order.Nodup ∧ ∀ key, key ∈ cache.evict.order ↔ key ∈ cache.evict.headers := by
  unfold HeaderCache.evict
  rw [h.capacity]
  by_cases hfull : cache.order.length = limit
  · rw [if_pos hfull, if_pos hfull]
    cases horder : cache.order with
    | nil => exact ⟨horder, by rw [horder]; exact .nil, h.keys⟩
    | cons oldest rest =>
      have hnodup := h.nodup
      have hkeys := h.keys
      rw [horder] at hnodup hkeys
      obtain ⟨hnew, hrest⟩ := List.nodup_cons.1 hnodup
      refine ⟨rfl, hrest, fun key => ?_⟩
      have hkey := hkeys key
      rw [List.mem_cons] at hkey
      show key ∈ rest ↔ key ∈ cache.headers.erase oldest
      rw [Std.TreeMap.mem_erase, ← hkey]
      constructor
      · intro hin
        refine ⟨fun heq => hnew ?_, .inr hin⟩
        rwa [show oldest = key by simpa using heq]
      · intro hin
        refine hin.2.resolve_left fun heq => hin.1 ?_
        rw [heq]
        simp
  · rw [if_neg hfull, if_neg hfull]
    exact ⟨rfl, h.nodup, h.keys⟩

theorem evict_capacity : cache.evict.capacity = cache.capacity := by
  unfold HeaderCache.evict
  split
  · split <;> rfl
  · rfl

/-- **One insertion** logs the key that enters. -/
theorem Held.insert (h : Held limit log cache) (hpos : 0 < limit) :
    Held limit (log ++ if header.hash ∈ cache.headers then [] else [header.hash])
      (cache.insert header) := by
  unfold HeaderCache.insert
  by_cases hin : header.hash ∈ cache.headers
  · rw [if_pos hin, if_pos hin, List.append_nil]
    refine ⟨h.capacity, h.nodup, fun key => ?_, h.recent⟩
    show key ∈ cache.order ↔ key ∈ cache.headers.insert header.hash header
    rw [h.keys, Std.TreeMap.mem_insert]
    refine ⟨.inr, fun hkey => hkey.elim (fun heq => ?_) id⟩
    rwa [← show header.hash = key by simpa using heq]
  · rw [if_neg hin, if_neg hin]
    obtain ⟨horder, hnodup, hkeys⟩ := h.evict
    have hfresh : header.hash ∉ cache.evict.order := by
      rw [horder]
      intro hmem
      refine hin ((h.keys _).1 ?_)
      split at hmem
      · exact List.mem_of_mem_tail hmem
      · exact hmem
    refine ⟨evict_capacity.trans h.capacity, ?_, fun key => ?_, ?_⟩
    · exact List.nodup_append.2 ⟨hnodup, List.nodup_singleton _, fun a ha b hb heq =>
        hfresh (List.mem_singleton.1 hb ▸ heq ▸ ha)⟩
    · show key ∈ cache.evict.order ++ [header.hash] ↔
        key ∈ cache.evict.headers.insert header.hash header
      rw [List.mem_append, List.mem_singleton, hkeys, Std.TreeMap.mem_insert]
      constructor
      · rintro (hold | rfl)
        · exact .inr hold
        · exact .inl (by simp)
      · rintro (heq | hold)
        · exact .inr (Eq.symm (by simpa using heq))
        · exact .inl hold
    · rw [drop_concat hpos, ← h.recent, ← horder]

/-- Every run keeps the queue and the map in step. -/
theorem held_cacheAfter (hpos : 0 < limit) (headers : List BlockHeader) :
    Held limit (entered limit headers) (cacheAfter limit headers) := by
  induction headers using List.reverseRecOn with
  | nil =>
    refine ⟨rfl, .nil, fun key => ?_, ?_⟩
    · simp [cacheAfter, HeaderCache.new]
    · simp [cacheAfter, HeaderCache.new, entered, insertions, insertionsFrom]
  | append_singleton headers header ih =>
    rw [cacheAfter_concat, entered_concat]
    exact ih.insert hpos

theorem Held.length_le (h : Held limit log cache) : cache.order.length ≤ limit := by
  rw [h.recent, List.length_drop]
  omega

/-- A key is there as long as fewer than `limit` entered after it. These are then different ones. -/
theorem Held.mem_iff (h : Held limit log cache) {before after : List BlockHash}
    (hlog : log = before ++ key :: after) (hlast : key ∉ after) :
    (key ∈ cache.headers ↔ after.length < limit) ∧ (after.length ≤ limit → after.Nodup) := by
  have hlength : log.length = before.length + (after.length + 1) := by
    rw [hlog, List.length_append, List.length_cons]
  constructor
  · rw [← h.keys, h.recent]
    by_cases hfew : after.length < limit
    · refine iff_of_true ?_ hfew
      rw [hlog, List.drop_append_of_le_length (by rw [← hlog]; omega)]
      simp
    · refine iff_of_false (fun hin => hlast ?_) hfew
      have hgone : (before ++ key :: after).drop (log.length - limit) =
          after.drop (log.length - limit - before.length - 1) := by
        rw [List.drop_append, List.drop_eq_nil_of_le (by omega), List.nil_append,
          show log.length - limit - before.length =
            (log.length - limit - before.length - 1) + 1 by omega, List.drop_succ_cons]
        rfl
      nth_rewrite 2 [hlog] at hin
      rw [hgone] at hin
      exact List.mem_of_mem_drop hin
  · intro hle
    have hafter : after <:+ log := by
      rw [hlog]
      exact (List.suffix_cons _ _).trans (List.suffix_append _ _)
    have horder : cache.order <:+ log := by
      rw [h.recent]
      exact List.drop_suffix _ _
    have hsuffix : after <:+ cache.order := by
      refine List.suffix_of_suffix_length_le hafter horder ?_
      rw [h.recent, List.length_drop]
      omega
    exact h.nodup.sublist hsuffix.sublist

/-! ## The map -/

theorem mem_insert_self : header.hash ∈ (cache.insert header).headers := by
  unfold HeaderCache.insert
  split
  · exact Std.TreeMap.mem_insert_self
  · exact Std.TreeMap.mem_insert_self

/-- Under another key nothing new is found. -/
theorem get_insert_ne {found : BlockHeader} (hne : header.hash ≠ key)
    (h : (cache.insert header).get key = some found) : cache.get key = some found := by
  have hcmp : ¬ compare header.hash key = .eq := by simpa using hne
  unfold HeaderCache.insert at h
  split at h
  · simp only [HeaderCache.get, Std.TreeMap.getElem?_insert, if_neg hcmp] at h
    exact h
  · simp only [HeaderCache.get, Std.TreeMap.getElem?_insert, if_neg hcmp] at h
    exact HeaderCache.get_evict h

theorem get_isSome : (cache.get key).isSome = true ↔ key ∈ cache.headers := by
  unfold HeaderCache.get
  rw [Std.TreeMap.mem_iff_isSome_getElem?]

/-- A key is in the map if it entered and was not evicted since. -/
theorem mem_iff_remains : key ∈ (cacheAfter limit headers).headers ↔
    Remains key (insertions limit headers) := by
  unfold Remains
  induction headers using List.reverseRecOn with
  | nil => simp [cacheAfter, HeaderCache.new, insertions, insertionsFrom]
  | append_singleton headers header ih =>
    rw [insertions_concat, since_append_singleton, ← ih, cacheAfter_concat]
    generalize cacheAfter limit headers = cache
    unfold Enters Evicts
    by_cases hkey : header.hash = key
    · subst hkey
      have hself : header.hash ∈ (cache.insert header).headers := mem_insert_self
      by_cases hin : header.hash ∈ cache.headers
      · simp [hself, hin]
      · simp [hself, hin]
    · have hold : key ∈ (cache.insert header).headers → key ∈ cache.headers := by
        intro hin
        obtain ⟨found, hfound⟩ := Option.isSome_iff_exists.1 (get_isSome.2 hin)
        rw [← get_isSome, get_insert_ne hkey hfound]
        rfl
      constructor
      · exact fun hin => .inr ⟨fun hevicts => hevicts.2 hin, hold hin⟩
      · rintro (⟨heq, -⟩ | ⟨hkept, hin⟩)
        · exact absurd heq hkey
        · by_contra hgone
          exact hkept ⟨hin, hgone⟩

/-- What is found is the header inserted last. -/
theorem get_lastInserted {found : BlockHeader}
    (h : (cacheAfter limit headers).get key = some found) :
    lastInserted key headers = some found := by
  induction headers using List.reverseRecOn with
  | nil => simp [cacheAfter, HeaderCache.new, HeaderCache.get] at h
  | append_singleton headers header ih =>
    rw [cacheAfter_concat] at h
    rw [lastInserted_concat]
    by_cases hkey : header.hash = key
    · rw [if_pos hkey]
      subst hkey
      unfold HeaderCache.insert HeaderCache.get at h
      split at h
      · simpa using h
      · simpa using h
    · rw [if_neg hkey]
      exact ih (get_insert_ne hkey h)

/-- A list with a key up to the last time it stands there. -/
theorem last_of_mem (h : key ∈ log) :
    ∃ before after, log = before ++ key :: after ∧ key ∉ after := by
  obtain ⟨after, before, hlog, hlast⟩ := List.eq_append_cons_of_mem (List.mem_reverse.2 h)
  refine ⟨before.reverse, after.reverse, ?_, fun hin => hlast (List.mem_reverse.1 hin)⟩
  rw [← List.reverse_reverse log, hlog]
  simp

/-- The insertion that evicts a key is the one at which `limit` others have entered after it. -/
theorem evicts_iff (hpos : 0 < limit) : Evicts key (cacheAfter limit headers, header) ↔
    Enters (cacheAfter limit headers, header) ∧ ∃ before after,
      entered limit (headers ++ [header]) = before ++ key :: after ∧ key ∉ after ∧ after.Nodup ∧
        after.length = limit := by
  have hheld := held_cacheAfter hpos headers
  have hnext := held_cacheAfter hpos (headers ++ [header])
  have hentered := @entered_concat limit headers header
  rw [cacheAfter_concat] at hnext
  unfold Evicts Enters
  dsimp only
  constructor
  · intro hevicts
    obtain ⟨hin, hgone⟩ := hevicts
    by_cases hpresent : header.hash ∈ (cacheAfter limit headers).headers
    · -- Nothing enters, so the keys stay.
      rw [hentered, if_pos hpresent, List.append_nil] at hnext
      refine absurd ?_ hgone
      rw [← hnext.keys, hnext.recent, ← hheld.recent, hheld.keys]
      exact hin
    · have hmem : key ∈ entered limit headers := by
        rw [← hheld.keys, hheld.recent] at hin
        exact List.mem_of_mem_drop hin
      obtain ⟨before, after, hlog, hlast⟩ := last_of_mem hmem
      have hne : key ≠ header.hash := fun heq => hpresent (heq ▸ hin)
      have hlog' : entered limit (headers ++ [header]) =
          before ++ key :: (after ++ [header.hash]) := by
        rw [hentered, if_neg hpresent, hlog, List.append_assoc, List.cons_append]
      have hlast' : key ∉ after ++ [header.hash] := by simp [hlast, hne]
      have hfew := (hheld.mem_iff hlog hlast).1.1 hin
      have hmany : ¬ (after ++ [header.hash]).length < limit := fun hless =>
        hgone ((hnext.mem_iff hlog' hlast').1.2 hless)
      have hlength : (after ++ [header.hash]).length = limit := by
        rw [List.length_append, List.length_singleton] at hmany ⊢
        omega
      exact ⟨hpresent, before, _, hlog', hlast', (hnext.mem_iff hlog' hlast').2 hlength.le, hlength⟩
  · intro hand
    obtain ⟨hpresent, before, after, hlog', hlast', -, hlength⟩ := hand
    refine ⟨?_, fun hin => absurd ((hnext.mem_iff hlog' hlast').1.1 hin) (by omega)⟩
    cases after using List.reverseRecOn with
    | nil => exact absurd hlength (by simp; omega)
    | append_singleton after last =>
      have hlog : entered limit headers ++ [header.hash] = (before ++ key :: after) ++ [last] := by
        rw [List.append_assoc, List.cons_append, ← hlog', hentered, if_neg hpresent]
      rw [List.length_append, List.length_singleton] at hlength
      refine ((hheld.mem_iff (List.append_inj' hlog rfl).1 fun hin => hlast' ?_).1).2 (by omega)
      exact List.mem_append_left _ hin

/-- A key that is there has the header inserted last under it. -/
theorem get_of_remains (h : Remains key (insertions limit headers)) :
    ∃ found, lastInserted key headers = some found ∧
      (cacheAfter limit headers).get key = some found := by
  obtain ⟨found, hfound⟩ := Option.isSome_iff_exists.1 (get_isSome.2 (mem_iff_remains.2 h))
  exact ⟨found, get_lastInserted hfound, hfound⟩

theorem get_of_not_remains (h : ¬ Remains key (insertions limit headers)) :
    (cacheAfter limit headers).get key = none := by
  rw [← Option.not_isSome_iff_eq_none, get_isSome, mem_iff_remains]
  exact h

/-- **The cache is a bounded FIFO map.** Its queue holds the keys of its map, each once
and at most `capacity` of them. A key is found, with the header inserted last under it,
if it entered and was not evicted since. The insertion that evicts it is the one at which
`capacity` others have entered after it. -/
theorem headerCache_fifo (capacity : Nat) (hpos : 0 < capacity) (headers : List BlockHeader) :
    (cacheAfter capacity headers).order.Nodup ∧
    (∀ key, key ∈ (cacheAfter capacity headers).order ↔
      key ∈ (cacheAfter capacity headers).headers) ∧
    (cacheAfter capacity headers).order.length ≤ capacity ∧
    (∀ key, Remains key (insertions capacity headers) →
      ∃ found, lastInserted key headers = some found ∧
        (cacheAfter capacity headers).get key = some found) ∧
    (∀ key, ¬ Remains key (insertions capacity headers) →
      (cacheAfter capacity headers).get key = none) ∧
    ∀ key header, Evicts key (cacheAfter capacity headers, header) ↔
      Enters (cacheAfter capacity headers, header) ∧ ∃ before after,
        entered capacity (headers ++ [header]) = before ++ key :: after ∧ key ∉ after ∧
          after.Nodup ∧ after.length = capacity := by
  have hheld := held_cacheAfter hpos headers
  exact ⟨hheld.nodup, hheld.keys, hheld.length_le, fun _ => get_of_remains,
    fun _ => get_of_not_remains, fun _ _ => evicts_iff hpos⟩

/-- Two hashes, then the first one again: inserting a present key does not renew it, so the
third one evicts it. -/
def reinserted : List BlockHeader := [⟨1, 0, 1⟩, ⟨2, 1, 2⟩, ⟨1, 0, 7⟩]

theorem headerCache_fifo_reinserted : 0 < 2 ∧
    (cacheAfter 2 reinserted).order.Nodup ∧
    Evicts 1 (cacheAfter 2 reinserted, ⟨3, 2, 3⟩) ∧
    ¬ Evicts 2 (cacheAfter 2 reinserted, ⟨3, 2, 3⟩) ∧
    ∃ found, lastInserted 1 reinserted = some found ∧
      (cacheAfter 2 reinserted).get 1 = some found := by
  obtain ⟨hnodup, -, -, hget, -, hevicts⟩ := headerCache_fifo 2 (by decide) reinserted
  refine ⟨by decide, hnodup, (hevicts 1 _).2 ⟨by decide, [], [2, 3], ?_, ?_⟩, ?_, hget 1 ?_⟩
  · decide +kernel
  · decide
  · exact fun h => h.2 (by decide +kernel)
  · exact ⟨[], (HeaderCache.new 2, ⟨1, 0, 1⟩), (insertions 2 reinserted).tail, rfl, by decide,
      by unfold Evicts; decide +kernel⟩

end

end Chainweave.Chain
