import Mathlib
import Chainweave.Lib.Run
import Chainweave.Sink.Delivery

/-!
# One outbox for several chains

The outbox table holds the rows of every chain, and a dispatcher takes the first
unpublished row of any of them. A sequence hands out the `event_id`s when rows are
inserted, so a transaction of another chain may commit later with smaller ones: over all
chains, neither the table nor the topic is in order.

The assumption is that the transactions of one chain do not overlap: then its `event_id`s
ascend in commit order. Of two that overlap the one with the smaller `event_id`s may commit
last, and a consumer of the chain meets the rows in the other order. As in `step`, an
attempt whose session is lost has ended.

* `stepShared`: `step`, where commits are in order chain by chain only (`Interleaved`).
* `Shows chainId s v`: `v` is what of `s` concerns the chain. A dispatcher that has a
  row of another chain in hand is one that returned.
* `step_shows`: a step is none or one of what it shows.
* `chains_in_order`: so each chain by itself has what `at_least_once_in_order` says.
-/
namespace Chainweave.Kafka

open FirstSeen

variable {J : Type} {n : Nat}

/-- Rows have different `event_id`s, which ascend among those of one chain. -/
def Interleaved (outbox : List (OutboxEntry J)) : Prop :=
  outbox.Pairwise fun a b => a.row.eventId ≠ b.row.eventId ∧
    (a.row.chainId = b.row.chainId → a.row.eventId < b.row.eventId)

instance (outbox : List (OutboxEntry J)) : Decidable (Interleaved outbox) :=
  inferInstanceAs (Decidable (outbox.Pairwise _))

/-- `step`, beside writers of several chains. Transactions of one chain do not overlap. -/
def stepShared (s : State J n) : Action J n → Option (State J n)
  | .append rows =>
    let outbox := s.outbox ++ rows.map fun row => ⟨row, false⟩
    if Interleaved outbox then some { s with outbox } else none
  | action => step s action

def runShared (s : State J n) (actions : List (Action J n)) : Option (State J n) :=
  actions.foldlM stepShared s

/-! ## What concerns one chain -/

def ofChain (chainId : String) (outbox : List (OutboxEntry J)) : List (OutboxEntry J) :=
  outbox.filter (·.row.chainId = chainId)

def messagesOf (chainId : String) (topic : List (KafkaOutboxMessage J)) :
    List (KafkaOutboxMessage J) :=
  topic.filter (·.chainId = chainId)

/-- The rest of the snapshot. -/
def Phase.candidates : Phase J → List (OutboxRow J)
  | .selecting _ candidates => candidates
  | .returned _ => []
  | .publishing _ _ => []
  | .marking _ => []
  | .committing _ => []

/-- What a dispatcher does for one chain. -/
inductive Phase.Shows (chainId : String) : Phase J → Phase J → Prop
  | returned {result shown : Option (Except KafkaDispatchError (KafkaDispatchOutcome J))} :
    Phase.Shows chainId (.returned result) (.returned shown)
  | selecting {failure : Option KafkaDispatchFailurePoint} {candidates : List (OutboxRow J)} :
    Phase.Shows chainId (.selecting failure candidates)
      (.selecting failure (candidates.filter (·.chainId = chainId)))
  | own {phase : Phase J} {message : KafkaOutboxMessage J} (hand : phase.message = some message)
      (chain : message.chainId = chainId) : Phase.Shows chainId phase phase
  | other {phase : Phase J} {message : KafkaOutboxMessage J}
      {shown : Option (Except KafkaDispatchError (KafkaDispatchOutcome J))}
      (hand : phase.message = some message) (chain : message.chainId ≠ chainId) :
    Phase.Shows chainId phase (.returned shown)

structure State.Shows (chainId : String) (s v : State J n) : Prop where
  outbox : v.outbox = ofChain chainId s.outbox
  topic : v.topic = messagesOf chainId s.topic
  phases : ∀ d, Phase.Shows chainId (s.dispatchers d) (v.dispatchers d)

/-- What is in hand is of the table. -/
structure Phase.Stored (outbox : List (OutboxEntry J)) (phase : Phase J) : Prop where
  candidates : ∀ row ∈ phase.candidates, row ∈ outbox.map (·.row)
  message : ∀ message ∈ phase.message, ∃ row ∈ outbox.map (·.row), rowToMessage row = .ok message

structure State.Stored (s : State J n) : Prop where
  interleaved : Interleaved s.outbox
  phases : ∀ d, (s.dispatchers d).Stored s.outbox

/-- Some steps of a dispatcher's table for one chain. -/
def Reaches (v v' : State J n) : Prop := ∃ actions, run v actions = some v'

section
variable {outbox : List (OutboxEntry J)} {chainId : String} {message : KafkaOutboxMessage J}
  {row : OutboxRow J}

theorem rowToMessage_chainId (h : rowToMessage row = .ok message) :
    message.chainId = row.chainId := by
  unfold rowToMessage at h
  split at h
  · cases h
  · split at h
    · cases h
    · cases h
      rfl

/-! ## The table -/

theorem Interleaved.unique (h : Interleaved outbox) {a b : OutboxEntry J} (ha : a ∈ outbox)
    (hb : b ∈ outbox) (heq : a.row.eventId = b.row.eventId) : a = b := by
  have hnodup : (outbox.map (·.row.eventId)).Nodup := List.pairwise_map.2 (h.imp fun hab => hab.1)
  exact List.inj_on_of_nodup_map hnodup ha hb heq

/-- The rows of one chain ascend. -/
theorem Interleaved.ofChain (h : Interleaved outbox) (chainId : String) :
    Ascending (ofChain chainId outbox) := by
  refine (h.filter _).imp_of_mem fun {a b} ha hb hab => hab.2 ?_
  have hac := of_decide_eq_true (List.mem_filter.1 ha).2
  have hbc := of_decide_eq_true (List.mem_filter.1 hb).2
  exact hac.trans hbc.symm

theorem map_row_markPublished (eventId : Int) (outbox : List (OutboxEntry J)) :
    (markPublished eventId outbox).map (·.row) = outbox.map (·.row) := by
  simp [markPublished, Function.comp_def]

theorem Interleaved.mark (h : Interleaved outbox) (eventId : Int) :
    Interleaved (markPublished eventId outbox) :=
  List.pairwise_map.2 (h.imp fun hab => by simpa using hab)

/-- Marking commutes with picking a chain. -/
theorem ofChain_mark (eventId : Int) :
    ofChain chainId (markPublished eventId outbox) =
      markPublished eventId (ofChain chainId outbox) := by
  simp [ofChain, markPublished, List.filter_map, Function.comp_def]

/-- Marking a row of another chain changes nothing of this one. -/
theorem ofChain_mark_other (h : Interleaved outbox) (hrow : row ∈ outbox.map (·.row))
    (hchain : row.chainId ≠ chainId) :
    ofChain chainId (markPublished row.eventId outbox) = ofChain chainId outbox := by
  rw [ofChain_mark]
  refine (List.map_congr_left fun entry hentry => ?_).trans (List.map_id _)
  obtain ⟨hmem, hown⟩ := List.mem_filter.1 hentry
  obtain ⟨other, hother, rfl⟩ := List.mem_map.1 hrow
  have hne : entry.row.eventId ≠ other.row.eventId := fun heq =>
    hchain (h.unique hmem hother heq ▸ of_decide_eq_true hown)
  simp [OutboxEntry.mark, hne]

/-- A chain's snapshot is its part of the snapshot. -/
theorem unpublishedRows_ofChain (h : Interleaved outbox) (chainId : String) :
    unpublishedRows (ofChain chainId outbox) =
      (unpublishedRows outbox).filter (·.chainId = chainId) := by
  have htotal : Std.Total fun a b : OutboxRow J => a.eventId ≤ b.eventId :=
    ⟨fun a b => Int.le_total a.eventId b.eventId⟩
  have htrans : IsTrans (OutboxRow J) fun a b => a.eventId ≤ b.eventId :=
    ⟨fun _ _ _ => Int.le_trans⟩
  rw [unpublishedRows_eq (h.ofChain chainId)]
  have hrows : ((ofChain chainId outbox).filter (!·.published)).map (·.row) =
      ((outbox.filter (!·.published)).map (·.row)).filter (·.chainId = chainId) := by
    rw [ofChain, List.filter_map, List.filter_filter, List.filter_filter]
    simp only [Function.comp_def, Bool.and_comm]
  have hsorted : ((outbox.filter (!·.published)).map (·.row)).filter (·.chainId = chainId)
      |>.Pairwise fun a b => a.eventId ≤ b.eventId := by
    rw [← hrows]
    exact List.pairwise_map.2 (((h.ofChain chainId).filter _).imp fun hlt => Int.le_of_lt hlt)
  rw [hrows]
  refine List.Perm.eq_of_pairwise (fun a b ha hb hab hba => ?_) hsorted
    ((List.pairwise_insertionSort _ _).filter _) ((List.perm_insertionSort _ _).symm.filter _)
  obtain ⟨ea, hea, rfl⟩ := List.mem_map.1 (List.mem_filter.1 ha).1
  obtain ⟨eb, heb, rfl⟩ := List.mem_map.1 ((List.mem_insertionSort _).1 (List.mem_filter.1 hb).1)
  rw [h.unique (List.mem_filter.1 hea).1 (List.mem_filter.1 heb).1 (Int.le_antisymm hab hba)]

/-- A row of the chain is found in its part of the table. -/
theorem find_ofChain (h : Interleaved outbox) (hrow : row ∈ outbox.map (·.row))
    (hchain : row.chainId = chainId) :
    (ofChain chainId outbox).find? (·.row.eventId = row.eventId) =
      outbox.find? (·.row.eventId = row.eventId) := by
  obtain ⟨entry, hentry, rfl⟩ := List.mem_map.1 hrow
  rw [ofChain, List.find?_filter]
  refine List.find?_congr fun other hother => ?_
  by_cases hid : other.row.eventId = entry.row.eventId
  · rw [h.unique hother hentry hid]
    simp [hchain]
  · simp [hid]

/-! ## Phases -/

theorem Phase.Shows.of_returned {result : Option (Except KafkaDispatchError (KafkaDispatchOutcome J))}
    {shown : Phase J} (h : Phase.Shows chainId (.returned result) shown) :
    ∃ r, shown = .returned r := by
  cases h with
  | returned => exact ⟨_, rfl⟩
  | own hand => cases hand
  | other hand => cases hand

theorem Phase.Shows.of_selecting {failure : Option KafkaDispatchFailurePoint}
    {candidates : List (OutboxRow J)} {shown : Phase J}
    (h : Phase.Shows chainId (.selecting failure candidates) shown) :
    shown = .selecting failure (candidates.filter (·.chainId = chainId)) := by
  cases h with
  | selecting => rfl
  | own hand => cases hand
  | other hand => cases hand

/-- A row in hand is of the chain, or the dispatcher returned as far as the chain can see. -/
theorem Phase.Shows.of_hand {phase shown : Phase J} (h : Phase.Shows chainId phase shown)
    (hmessage : phase.message = some message) :
    message.chainId = chainId ∧ shown = phase ∨
      message.chainId ≠ chainId ∧ ∃ r, shown = .returned r := by
  cases h with
  | returned => cases hmessage
  | selecting => cases hmessage
  | own hand hchain =>
    cases hand.symm.trans hmessage
    exact .inl ⟨hchain, rfl⟩
  | other hand hchain =>
    cases hand.symm.trans hmessage
    exact .inr ⟨hchain, _, rfl⟩

/-- A phase with this message in hand, or one that returned. -/
def Phase.Holds (message : KafkaOutboxMessage J) (phase : Phase J) : Prop :=
  phase.message = some message ∨ ∃ result, phase = .returned result

theorem Phase.Holds.locked {failure : Option KafkaDispatchFailurePoint}
    (h : rowToMessage row = .ok message) : (Phase.locked failure row).Holds message := by
  unfold Phase.locked
  rw [h]
  dsimp only
  split
  · exact .inr ⟨_, rfl⟩
  · exact .inl rfl

theorem Phase.Holds.published {failure : Option KafkaDispatchFailurePoint}
    (result : Except String Unit) : (Phase.published failure message result).Holds message := by
  unfold Phase.published
  cases result with
  | error errorMessage => exact .inr ⟨_, rfl⟩
  | ok =>
    dsimp only
    split
    · exact .inr ⟨_, rfl⟩
    · exact .inl rfl

/-- A phase of the chain's own row shows itself. -/
theorem Phase.Holds.shows_own {phase : Phase J} (h : phase.Holds message)
    (hchain : message.chainId = chainId) : Phase.Shows chainId phase phase := by
  cases h with
  | inl hand => exact .own hand hchain
  | inr hreturned =>
    obtain ⟨result, rfl⟩ := hreturned
    exact .returned

/-- A phase of another chain's row shows one that returned. -/
theorem Phase.Holds.shows_other {phase : Phase J} (h : phase.Holds message)
    (hchain : message.chainId ≠ chainId)
    (shown : Option (Except KafkaDispatchError (KafkaDispatchOutcome J))) :
    Phase.Shows chainId phase (.returned shown) := by
  cases h with
  | inl hand => exact .other hand hchain
  | inr hreturned =>
    obtain ⟨result, rfl⟩ := hreturned
    exact .returned

theorem stored_returned (outbox : List (OutboxEntry J))
    (result : Option (Except KafkaDispatchError (KafkaDispatchOutcome J))) :
    (Phase.returned result).Stored outbox :=
  ⟨by simp [Phase.candidates], by simp [Phase.message]⟩

theorem stored_selecting {failure : Option KafkaDispatchFailurePoint}
    {candidates : List (OutboxRow J)} (h : ∀ row ∈ candidates, row ∈ outbox.map (·.row)) :
    (Phase.selecting failure candidates).Stored outbox := ⟨h, by simp [Phase.message]⟩

theorem Phase.Holds.stored {phase : Phase J} (h : phase.Holds message)
    (hrow : row ∈ outbox.map (·.row)) (hmessage : rowToMessage row = .ok message) :
    phase.Stored outbox := by
  cases h with
  | inl hand =>
    refine ⟨?_, fun m hm => ?_⟩
    · cases phase with
      | selecting => cases hand
      | returned => simp [Phase.candidates]
      | publishing => simp [Phase.candidates]
      | marking => simp [Phase.candidates]
      | committing => simp [Phase.candidates]
    · cases hand.symm.trans hm
      exact ⟨row, hrow, hmessage⟩
  | inr hreturned =>
    obtain ⟨result, rfl⟩ := hreturned
    exact stored_returned outbox result

theorem Phase.Stored.mono {outbox' : List (OutboxEntry J)} {phase : Phase J} (h : phase.Stored outbox)
    (hsub : ∀ row ∈ outbox.map (·.row), row ∈ outbox'.map (·.row)) : phase.Stored outbox' := by
  refine ⟨fun row hrow => hsub row (h.candidates row hrow), fun message hmessage => ?_⟩
  obtain ⟨row, hrow, hm⟩ := h.message message hmessage
  exact ⟨row, hsub row hrow, hm⟩

end

/-! ## Every step -/

/-- What a step of a dispatcher does. -/
inductive Advance (s : State J n) (d : Fin n) : State J n → Prop
  | start {result : Option (Except KafkaDispatchError (KafkaDispatchOutcome J))}
      (failure : Option KafkaDispatchFailurePoint) (phase : s.dispatchers d = .returned result) :
    Advance s d (s.setPhase d (.selecting failure (unpublishedRows s.outbox)))
  | idle {failure : Option KafkaDispatchFailurePoint} (phase : s.dispatchers d = .selecting failure []) :
    Advance s d (s.setPhase d (.returned (some (.ok .Idle))))
  | lock {failure : Option KafkaDispatchFailurePoint} {candidate row : OutboxRow J}
      {rest : List (OutboxRow J)} (phase : s.dispatchers d = .selecting failure (candidate :: rest))
      (free : s.Free candidate.eventId)
      (found : s.outbox.find? (·.row.eventId = candidate.eventId) = some ⟨row, false⟩) :
    Advance s d (s.setPhase d (.locked failure row))
  | skip {failure : Option KafkaDispatchFailurePoint} {candidate : OutboxRow J}
      {rest : List (OutboxRow J)} (phase : s.dispatchers d = .selecting failure (candidate :: rest))
      (free : s.Free candidate.eventId)
      (found : ∀ row, s.outbox.find? (·.row.eventId = candidate.eventId) ≠ some ⟨row, false⟩) :
    Advance s d (s.setPhase d (.selecting failure rest))
  | publish {failure : Option KafkaDispatchFailurePoint} {message : KafkaOutboxMessage J} {copies : Nat}
      {result : Except String Unit} (phase : s.dispatchers d = .publishing failure message)
      (sent : ¬ (result.toBool = true ∧ copies = 0)) :
    Advance s d ({ s with topic := s.topic ++ List.replicate copies message }.setPhase d
      (.published failure message result))
  | mark {message : KafkaOutboxMessage J} (phase : s.dispatchers d = .marking message) :
    Advance s d (s.setPhase d (.committing message))
  | commit {message : KafkaOutboxMessage J}
      (result : Option (Except KafkaDispatchError (KafkaDispatchOutcome J)))
      (phase : s.dispatchers d = .committing message) :
    Advance s d ({ s with outbox := markPublished message.eventId s.outbox }.setPhase d
      (.returned result))
  | fail (phase : ∀ result, s.dispatchers d ≠ .returned result) :
    Advance s d (s.setPhase d (.fail .database))

section
variable {s s' v : State J n} {d : Fin n} {chainId : String}

theorem lock_advance {failure : Option KafkaDispatchFailurePoint} {candidates : List (OutboxRow J)}
    (hphase : s.dispatchers d = .selecting failure candidates)
    (hs : s.lock d failure candidates = some s') : Advance s d s' := by
  unfold State.lock at hs
  cases candidates with
  | nil =>
    cases hs
    exact .idle hphase
  | cons candidate rest =>
    dsimp only at hs
    split at hs
    · rename_i hfree
      split at hs
      · rename_i row hfound
        cases hs
        exact .lock hphase hfree hfound
      · rename_i hnone
        cases hs
        exact .skip hphase hfree hnone
    · cases hs

/-- Rows come, or one dispatcher goes on. -/
theorem stepShared_cases {action : Action J n} (hs : stepShared s action = some s') :
    (∃ rows, action = .append rows ∧ Interleaved (s.outbox ++ rows.map fun row => ⟨row, false⟩) ∧
      s' = { s with outbox := s.outbox ++ rows.map fun row => ⟨row, false⟩ }) ∨
    ∃ d, Advance s d s' := by
  cases action with
  | append rows =>
    simp only [stepShared] at hs
    split at hs
    · rename_i hinterleaved
      cases hs
      exact .inl ⟨rows, rfl, hinterleaved, rfl⟩
    · cases hs
  | start d failure =>
    simp only [stepShared, step] at hs
    split at hs
    · rename_i hphase
      cases hs
      exact .inr ⟨d, .start failure hphase⟩
    · cases hs
  | lock d =>
    simp only [stepShared, step] at hs
    split at hs
    · rename_i hphase
      exact .inr ⟨d, lock_advance hphase hs⟩
    · cases hs
  | publish d copies result =>
    simp only [stepShared, step] at hs
    split at hs
    · rename_i hphase
      split at hs
      · cases hs
      · rename_i hsent
        cases hs
        exact .inr ⟨d, .publish hphase hsent⟩
    · cases hs
  | mark d =>
    simp only [stepShared, step] at hs
    split at hs
    · rename_i hphase
      cases hs
      exact .inr ⟨d, .mark hphase⟩
    · cases hs
  | commit d =>
    simp only [stepShared, step] at hs
    split at hs
    · rename_i hphase
      cases hs
      exact .inr ⟨d, .commit _ hphase⟩
    · cases hs
  | lost d =>
    simp only [stepShared, step] at hs
    split at hs
    · rename_i hphase
      cases hs
      exact .inr ⟨d, .commit _ hphase⟩
    · cases hs
  | fail d =>
    simp only [stepShared, step] at hs
    split at hs
    · cases hs
    · rename_i hphase
      cases hs
      exact .inr ⟨d, .fail fun result h => hphase result h⟩

/-- A dispatcher goes on; the rows are the same. -/
theorem State.Stored.setPhase (h : s.Stored) {outbox : List (OutboxEntry J)}
    {topic : List (KafkaOutboxMessage J)} (hinterleaved : Interleaved outbox)
    (hrows : outbox.map (·.row) = s.outbox.map (·.row)) {phase : Phase J}
    (hphase : phase.Stored s.outbox) : ({ s with outbox, topic }.setPhase d phase).Stored := by
  refine ⟨hinterleaved, fun d' => ?_⟩
  show (Function.update s.dispatchers d phase d').Stored outbox
  by_cases hd : d' = d
  · subst hd
    rw [Function.update_self]
    exact hphase.mono fun row hrow => hrows ▸ hrow
  · rw [Function.update_of_ne hd]
    exact (h.phases d').mono fun row hrow => hrows ▸ hrow

/-- What the row that was locked says. -/
theorem locked_row (h : s.Stored) {row candidate : OutboxRow J}
    (hcandidate : candidate ∈ s.outbox.map (·.row))
    (hfound : s.outbox.find? (·.row.eventId = candidate.eventId) = some ⟨row, false⟩) :
    row = candidate := by
  obtain ⟨entry, hentry, rfl⟩ := List.mem_map.1 hcandidate
  have hmem := List.mem_of_find?_eq_some hfound
  have hid : row.eventId = entry.row.eventId := by simpa using List.find?_some hfound
  rw [← h.interleaved.unique hmem hentry hid]

/-- The phase after the lock holds the row's message, or has failed. -/
theorem stored_locked {failure : Option KafkaDispatchFailurePoint} {row : OutboxRow J}
    {outbox : List (OutboxEntry J)} (hrow : row ∈ outbox.map (·.row)) :
    (Phase.locked failure row).Stored outbox := by
  cases hmessage : rowToMessage row with
  | ok message => exact (Phase.Holds.locked hmessage).stored hrow hmessage
  | error error =>
    unfold Phase.locked
    rw [hmessage]
    exact stored_returned outbox _

theorem Advance.keeps_stored (h : s.Stored) (hs : Advance s d s') : s'.Stored := by
  have hpast := h.phases d
  cases hs with
  | start failure hphase =>
    refine h.setPhase h.interleaved rfl (stored_selecting fun row hrow => ?_)
    obtain ⟨entry, hentry, rfl⟩ := List.mem_map.1 ((List.mem_insertionSort _).1 hrow)
    exact List.mem_map_of_mem (List.mem_filter.1 hentry).1
  | idle hphase => exact h.setPhase h.interleaved rfl (stored_returned _ _)
  | lock hphase hfree hfound =>
    exact h.setPhase h.interleaved rfl
      (stored_locked (List.mem_map_of_mem (List.mem_of_find?_eq_some hfound)))
  | skip hphase hfree hfound =>
    rw [hphase] at hpast
    exact h.setPhase h.interleaved rfl
      (stored_selecting fun row hrow => hpast.candidates row (List.mem_cons_of_mem _ hrow))
  | @publish failure message copies result hphase hsent =>
    rw [hphase] at hpast
    obtain ⟨row, hrow, hmessage⟩ := hpast.message message rfl
    exact h.setPhase h.interleaved rfl ((Phase.Holds.published result).stored hrow hmessage)
  | @mark message hphase =>
    rw [hphase] at hpast
    obtain ⟨row, hrow, hmessage⟩ := hpast.message message rfl
    have hholds : (Phase.committing message).Holds message := .inl rfl
    exact h.setPhase h.interleaved rfl (hholds.stored hrow hmessage)
  | commit result hphase =>
    exact h.setPhase (h.interleaved.mark _) (map_row_markPublished _ _) (stored_returned _ _)
  | fail hphase => exact h.setPhase h.interleaved rfl (stored_returned _ _)

/-! ## What a step shows -/

theorem Reaches.refl (v : State J n) : Reaches v v := ⟨[], rfl⟩

theorem reaches_step {v v' : State J n} (action : Action J n) (hs : step v action = some v') :
    Reaches v v' := Run.reach_step (Reaches.refl v) hs

theorem Reaches.trans {u v v' : State J n} (h : Reaches u v) (h' : Reaches v v') : Reaches u v' := by
  obtain ⟨before, hbefore⟩ := h
  obtain ⟨after, hafter⟩ := h'
  exact ⟨before ++ after, Run.append hbefore hafter⟩

/-- A dispatcher goes on, and so does what it shows. -/
theorem State.Shows.setPhase (h : s.Shows chainId v) (d : Fin n) (outbox : List (OutboxEntry J))
    (topic : List (KafkaOutboxMessage J)) {phase shown : Phase J}
    (hphase : Phase.Shows chainId phase shown) :
    ({ s with outbox, topic }.setPhase d phase).Shows chainId
      ({ v with outbox := ofChain chainId outbox, topic := messagesOf chainId topic }.setPhase d
        shown) := by
  refine ⟨rfl, rfl, fun d' => ?_⟩
  show Phase.Shows chainId (Function.update s.dispatchers d phase d')
    (Function.update v.dispatchers d shown d')
  by_cases hd : d' = d
  · subst hd
    rw [Function.update_self, Function.update_self]
    exact hphase
  · rw [Function.update_of_ne hd, Function.update_of_ne hd]
    exact h.phases d'

/-- A dispatcher goes on, and shows nothing of it. -/
theorem State.Shows.stay (h : s.Shows chainId v) {outbox : List (OutboxEntry J)}
    {topic : List (KafkaOutboxMessage J)} {phase : Phase J}
    (hphase : Phase.Shows chainId phase (v.dispatchers d))
    (houtbox : ofChain chainId outbox = ofChain chainId s.outbox)
    (htopic : messagesOf chainId topic = messagesOf chainId s.topic) :
    ({ s with outbox, topic }.setPhase d phase).Shows chainId v := by
  have hv : { v with outbox := ofChain chainId outbox, topic := messagesOf chainId topic }.setPhase d
      (v.dispatchers d) = v := by
    unfold State.setPhase
    rw [Function.update_eq_self, houtbox, htopic, ← h.outbox, ← h.topic]
  rw [← hv]
  exact h.setPhase d outbox topic hphase

theorem State.Shows.goto (h : s.Shows chainId v) {phase shown : Phase J}
    (hphase : Phase.Shows chainId phase shown) :
    (s.setPhase d phase).Shows chainId (v.setPhase d shown) := by
  have hv : { v with outbox := ofChain chainId s.outbox, topic := messagesOf chainId s.topic } = v := by
    rw [← h.outbox, ← h.topic]
  have hgo := h.setPhase d s.outbox s.topic hphase
  rwa [hv] at hgo

/-- What is locked for the chain is locked. -/
theorem State.Shows.free (h : s.Shows chainId v) {eventId : Int} (hfree : s.Free eventId) :
    v.Free eventId := by
  intro d message hmessage
  have hshows := h.phases d
  cases hp : s.dispatchers d with
  | returned =>
    rw [hp] at hshows
    obtain ⟨r, hr⟩ := hshows.of_returned
    rw [hr] at hmessage
    cases hmessage
  | selecting =>
    rw [hp] at hshows
    rw [hshows.of_selecting] at hmessage
    cases hmessage
  | _ =>
    rw [hp] at hshows
    cases hshows.of_hand rfl with
    | inl hown =>
      rw [hown.2] at hmessage
      exact hfree d message (hp ▸ hmessage)
    | inr hother =>
      obtain ⟨-, r, hr⟩ := hother
      rw [hr] at hmessage
      cases hmessage

/-- A row is locked: for its own chain the same happens, for another one the dispatcher returns. -/
theorem lock_shows (hst : s.Stored) (h : s.Shows chainId v)
    {failure : Option KafkaDispatchFailurePoint} {candidate row : OutboxRow J}
    {rest : List (OutboxRow J)} (hphase : s.dispatchers d = .selecting failure (candidate :: rest))
    (hfree : s.Free candidate.eventId)
    (hfound : s.outbox.find? (·.row.eventId = candidate.eventId) = some ⟨row, false⟩) :
    ∃ v', Reaches v v' ∧ (s.setPhase d (.locked failure row)).Shows chainId v' := by
  have hshows := h.phases d
  rw [hphase] at hshows
  replace hshows := hshows.of_selecting
  have hcandidate : candidate ∈ s.outbox.map (·.row) := by
    refine (hst.phases d).candidates candidate ?_
    rw [hphase]
    exact List.mem_cons_self
  obtain rfl := locked_row hst hcandidate hfound
  by_cases hchain : row.chainId = chainId
  · refine ⟨v.setPhase d (.locked failure row), reaches_step (.lock d) ?_, h.goto ?_⟩
    · rw [List.filter_cons_of_pos (by simpa using hchain)] at hshows
      simp only [step, hshows, State.lock]
      rw [if_pos (h.free hfree), h.outbox, find_ofChain hst.interleaved hcandidate hchain, hfound]
    · cases hmessage : rowToMessage row with
      | ok message =>
        exact (Phase.Holds.locked hmessage).shows_own ((rowToMessage_chainId hmessage).trans hchain)
      | error error =>
        unfold Phase.locked
        rw [hmessage]
        exact .returned
  · refine ⟨v.setPhase d (.fail .database), reaches_step (.fail d) ?_, h.goto ?_⟩
    · simp only [step, hshows]
    · cases hmessage : rowToMessage row with
      | ok message =>
        refine (Phase.Holds.locked hmessage).shows_other (fun heq => hchain ?_) _
        rw [← heq, rowToMessage_chainId hmessage]
      | error error =>
        unfold Phase.locked
        rw [hmessage]
        exact .returned

/-- **A step is none or one of what it shows.** -/
theorem Advance.shows (hst : s.Stored) (h : s.Shows chainId v) (hs : Advance s d s') :
    ∃ v', Reaches v v' ∧ s'.Shows chainId v' := by
  have hshows := h.phases d
  cases hs with
  | start failure hphase =>
    rw [hphase] at hshows
    obtain ⟨r, hr⟩ := hshows.of_returned
    refine ⟨v.setPhase d (.selecting failure (unpublishedRows v.outbox)),
      reaches_step (.start d failure) (by simp only [step, hr]), h.goto ?_⟩
    rw [h.outbox, unpublishedRows_ofChain hst.interleaved]
    exact .selecting
  | idle hphase =>
    rw [hphase] at hshows
    refine ⟨v.setPhase d (.returned (some (.ok .Idle))), reaches_step (.lock d) ?_,
      h.goto .returned⟩
    simp only [step, hshows.of_selecting]
    rfl
  | lock hphase hfree hfound => exact lock_shows hst h hphase hfree hfound
  | @skip failure candidate rest hphase hfree hfound =>
    rw [hphase] at hshows
    replace hshows := hshows.of_selecting
    by_cases hchain : candidate.chainId = chainId
    · rw [List.filter_cons_of_pos (by simpa using hchain)] at hshows
      refine ⟨v.setPhase d (.selecting failure (rest.filter (·.chainId = chainId))),
        reaches_step (.lock d) ?_, h.goto .selecting⟩
      have hcandidate : candidate ∈ s.outbox.map (·.row) := by
        refine (hst.phases d).candidates candidate ?_
        rw [hphase]
        exact List.mem_cons_self
      simp only [step, hshows, State.lock]
      rw [if_pos (h.free hfree), h.outbox, find_ofChain hst.interleaved hcandidate hchain]
      split
      · rename_i row hrow
        exact absurd hrow (hfound row)
      · rfl
    · rw [List.filter_cons_of_neg (by simpa using hchain)] at hshows
      refine ⟨v, .refl v, h.stay ?_ rfl rfl⟩
      rw [hshows]
      exact .selecting
  | @publish failure message copies result hphase hsent =>
    rw [hphase] at hshows
    cases hshows.of_hand rfl with
    | inl hown =>
      have hmessages : messagesOf chainId (s.topic ++ List.replicate copies message) =
          v.topic ++ List.replicate copies message := by
        rw [h.topic, messagesOf, messagesOf, List.filter_append,
          List.filter_replicate_of_pos (by simpa using hown.1)]
      have hholds : (Phase.published failure message result).Holds message := .published result
      have hgo := h.setPhase d s.outbox (s.topic ++ List.replicate copies message)
        (hholds.shows_own hown.1)
      rw [hmessages, ← h.outbox] at hgo
      refine ⟨_, reaches_step (.publish d copies result) ?_, hgo⟩
      simp only [step, hown.2]
      rw [if_neg hsent]
    | inr hother =>
      obtain ⟨hchain, r, hr⟩ := hother
      refine ⟨v, .refl v, h.stay ?_ rfl ?_⟩
      · rw [hr]
        exact (Phase.Holds.published result).shows_other hchain r
      · rw [messagesOf, messagesOf, List.filter_append,
          List.filter_replicate_of_neg (by simpa using hchain), List.append_nil]
  | @mark message hphase =>
    have hholds : (Phase.committing message).Holds message := .inl rfl
    rw [hphase] at hshows
    cases hshows.of_hand rfl with
    | inl hown =>
      exact ⟨v.setPhase d (.committing message),
        reaches_step (.mark d) (by simp only [step, hown.2]),
        h.goto (hholds.shows_own hown.1)⟩
    | inr hother =>
      obtain ⟨hchain, r, hr⟩ := hother
      refine ⟨v, .refl v, h.stay ?_ rfl rfl⟩
      rw [hr]
      exact hholds.shows_other hchain r
  | @commit message result hphase =>
    have hpast := hst.phases d
    rw [hphase] at hshows hpast
    cases hshows.of_hand rfl with
    | inl hown =>
      have hreturned : Phase.Shows chainId (.returned result)
        (.returned (some (.ok (.Delivered message)))) := .returned
      have hgo := h.setPhase d (markPublished message.eventId s.outbox) s.topic hreturned
      rw [ofChain_mark, ← h.outbox, ← h.topic] at hgo
      refine ⟨_, reaches_step (.commit d) ?_, hgo⟩
      simp only [step, hown.2]
    | inr hother =>
      obtain ⟨hchain, r, hr⟩ := hother
      obtain ⟨row, hrow, hmessage⟩ := hpast.message message rfl
      refine ⟨v, .refl v, h.stay ?_ ?_ rfl⟩
      · rw [hr]
        exact .returned
      · rw [rowToMessage_eventId hmessage]
        refine ofChain_mark_other hst.interleaved hrow fun heq => hchain ?_
        rw [rowToMessage_chainId hmessage, heq]
  | fail hphase =>
    by_cases hreturned : ∃ r, v.dispatchers d = .returned r
    · obtain ⟨r, hr⟩ := hreturned
      refine ⟨v, .refl v, h.stay ?_ rfl rfl⟩
      rw [hr]
      exact .returned
    · refine ⟨v.setPhase d (.fail .database), reaches_step (.fail d) ?_, h.goto .returned⟩
      simp only [step]
      split
      · rename_i r hr
        exact absurd ⟨r, hr⟩ hreturned
      · rfl

theorem append_shows (h : s.Shows chainId v) {rows : List (OutboxRow J)}
    (hinterleaved : Interleaved (s.outbox ++ rows.map fun row => ⟨row, false⟩)) :
    ∃ v', Reaches v v' ∧ State.Shows chainId
      { s with outbox := s.outbox ++ rows.map fun row => ⟨row, false⟩ } v' := by
  have houtbox : ofChain chainId (s.outbox ++ rows.map fun row => ⟨row, false⟩) =
      v.outbox ++ (rows.filter (·.chainId = chainId)).map fun row => ⟨row, false⟩ := by
    rw [h.outbox, ofChain, ofChain, List.filter_append, List.filter_map]
    rfl
  have hascending := hinterleaved.ofChain chainId
  rw [houtbox] at hascending
  refine ⟨_, reaches_step (.append (rows.filter (·.chainId = chainId))) (if_pos hascending), ?_⟩
  exact ⟨houtbox.symm, h.topic, h.phases⟩

/-- **Every step, for every chain.** -/
theorem step_shows {action : Action J n} (hst : s.Stored)
    (h : ∀ chainId, ∃ v, Reaches State.init v ∧ s.Shows chainId v)
    (hs : stepShared s action = some s') :
    s'.Stored ∧ ∀ chainId, ∃ v, Reaches State.init v ∧ s'.Shows chainId v := by
  cases stepShared_cases hs with
  | inl happend =>
    obtain ⟨rows, -, hinterleaved, rfl⟩ := happend
    refine ⟨⟨hinterleaved, fun d => (hst.phases d).mono fun row hrow => ?_⟩, fun chainId => ?_⟩
    · rw [List.map_append]
      exact List.mem_append_left _ hrow
    · obtain ⟨v, hv, hshows⟩ := h chainId
      obtain ⟨v', hv', hshows'⟩ := append_shows hshows hinterleaved
      exact ⟨v', hv.trans hv', hshows'⟩
  | inr hadvance =>
    obtain ⟨d, hadvance⟩ := hadvance
    refine ⟨hadvance.keeps_stored hst, fun chainId => ?_⟩
    obtain ⟨v, hv, hshows⟩ := h chainId
    obtain ⟨v', hv', hshows'⟩ := hadvance.shows hst hshows
    exact ⟨v', hv.trans hv', hshows'⟩

theorem stored_init : (State.init : State J n).Stored := ⟨.nil, fun _ => stored_returned _ _⟩

theorem shows_init (chainId : String) : (State.init : State J n).Shows chainId State.init :=
  ⟨rfl, rfl, fun _ => .returned⟩

theorem runShared_shows (actions : List (Action J n)) (hrun : runShared State.init actions = some s) :
    s.Stored ∧ ∀ chainId, ∃ v, Reaches State.init v ∧ s.Shows chainId v := by
  refine Run.keeps (P := fun u => u.Stored ∧ ∀ chainId, ∃ v, Reaches State.init v ∧ u.Shows chainId v)
    (fun _ _ _ h hs => step_shows h.1 h.2 hs) ⟨stored_init, fun chainId => ?_⟩ hrun
  exact ⟨_, .refl _, shows_init chainId⟩

end

/-- **In order, chain by chain.** Let the transactions of each chain be one after the other, however
those of different chains and the attempts of the dispatchers interleave: the marked rows of a chain
are a prefix of its rows, each was sent, its messages never go back, and a consumer of the chain
that drops repeats sees a prefix of its rows. -/
theorem chains_in_order (actions : List (Action J n)) {s : State J n}
    (hrun : runShared State.init actions = some s) (chainId : String) :
    (ofChain chainId s.outbox).filter (·.published) <+: ofChain chainId s.outbox ∧
      (∀ entry ∈ s.outbox, entry.published = true →
        ∃ message ∈ s.topic, rowToMessage entry.row = .ok message) ∧
      ((messagesOf chainId s.topic).map (·.eventId)).Pairwise (· ≤ ·) ∧
      (firstSeen (·.eventId) [] (messagesOf chainId s.topic)).map Except.ok <+:
        (ofChain chainId s.outbox).map (rowToMessage ·.row) := by
  obtain ⟨-, hshows⟩ := runShared_shows actions hrun
  have hdelivered : ∀ chainId, Delivered (ofChain chainId s.outbox) (messagesOf chainId s.topic) := by
    intro chainId
    obtain ⟨v, ⟨own, hown⟩, hv⟩ := hshows chainId
    rw [← hv.outbox, ← hv.topic]
    exact (run_keeps sound_init hown).delivered
  have h := hdelivered chainId
  refine ⟨filter_isPrefix h.marks, fun entry hentry hp => ?_, List.pairwise_map.2 h.ordered,
    h.firstSeen_prefix⟩
  have hmem : entry ∈ ofChain entry.row.chainId s.outbox :=
    List.mem_filter.2 ⟨hentry, decide_eq_true rfl⟩
  obtain ⟨message, hmessage, hrow⟩ := (hdelivered entry.row.chainId).sent entry hmem hp
  exact ⟨message, (List.mem_filter.1 hmessage).1, hrow⟩

/-- Two dispatchers. -/
def first : Fin 2 := ⟨0, Nat.two_pos⟩

def second : Fin 2 := ⟨1, Nat.one_lt_two⟩

/-- The row of chain 2 has the smaller `event_id` and commits later; it is sent after that of chain 1. -/
def overtakenActions : List (Action Unit 2) :=
  [.append [smallRow 5 0], .start first none, .lock first, .publish first 1 (.ok ()),
    .append [{ smallRow 4 0 with chainId := "2" }], .start second none, .lock second,
    .publish second 2 (.ok ()), .mark first, .commit first, .mark second, .lost second]

/-- `chains_in_order` for these actions. -/
theorem chains_in_order_overtaken : ∃ s, runShared State.init overtakenActions = some s ∧
    s.topic.map (·.eventId) = [5, 4, 4] ∧
      (ofChain "2" s.outbox).filter (·.published) <+: ofChain "2" s.outbox := by
  have htopic : ((runShared State.init overtakenActions).map fun s => s.topic.map (·.eventId)) =
      some [5, 4, 4] := by decide +kernel
  obtain ⟨s, hrun, hs⟩ := Option.map_eq_some_iff.1 htopic
  exact ⟨s, hrun, hs, (chains_in_order overtakenActions hrun "2").1⟩

end Chainweave.Kafka
