import Chainweave.Lib.FirstSeen
import Chainweave.Sink.Kafka
import Chainweave.Sink.Tables

/-!
# What the dispatchers deliver

At most one dispatcher has a message in hand, and it is that of the first unpublished
row: every row before it is published, and was sent before it was marked.

* `Delivered`: the table and the topic. `Phase.Sound`: what a dispatcher knows of them,
  while others go on.
* `step_keeps`: every step keeps `Sound`.
* `at_least_once_in_order`: any run.
-/
namespace Chainweave.Kafka

open FirstSeen

variable {J : Type} {n : Nat}

section
variable {outbox : List (OutboxEntry J)} {topic : List (KafkaOutboxMessage J)}
  {message : KafkaOutboxMessage J} {row : OutboxRow J} {entry : OutboxEntry J}

/-! ## Rows and messages -/

theorem rowToMessage_eventId (h : rowToMessage row = .ok message) :
    message.eventId = row.eventId := by
  unfold rowToMessage at h
  split at h
  · cases h
  · split at h
    · cases h
    · cases h
      rfl

/-- The 32 bytes of a hash. -/
def hashBytes (hash : Chain.BlockHash) : List UInt8 :=
  (List.range 32).map fun i => UInt8.ofNat (hash.toNat / 256 ^ (31 - i))

/-- The columns of a row the writer inserted. -/
def columns (chainId : Nat) (eventId : Int) (row : Postgres.OutboxRow) :
    OutboxRow Postgres.OutboxPayload where
  eventId := eventId
  chainId := toString chainId
  eventKind := match row.eventKind with
    | .apply => "apply"
    | .rollback => "rollback"
  blockHash := hashBytes row.blockHash
  blockHeight := row.blockHeight
  payload := row.payload

/-- No row of the writer is refused. -/
theorem rowToMessage_columns (chainId : Nat) (eventId : Int) (row : Postgres.OutboxRow) :
    ∃ message, rowToMessage (columns chainId eventId row) = .ok message ∧
      message.eventId = eventId ∧ message.blockHeight = row.blockHeight ∧
        message.payload = row.payload := by
  have hheight : ¬ (columns chainId eventId row).blockHeight < 0 := Int.not_lt.2 (Int.natCast_nonneg _)
  have hlength : (columns chainId eventId row).blockHash.length = 32 := by
    simp [columns, hashBytes]
  unfold rowToMessage
  rw [if_neg hheight]
  dsimp only
  rw [if_neg (not_not_intro hlength)]
  exact ⟨_, rfl, rfl, rfl, rfl⟩

/-- The rows ascend. -/
def Ascending (outbox : List (OutboxEntry J)) : Prop :=
  outbox.Pairwise fun a b => a.row.eventId < b.row.eventId

/-- An `event_id` names one row. -/
theorem Ascending.unique (h : Ascending outbox) {a b : OutboxEntry J} (ha : a ∈ outbox)
    (hb : b ∈ outbox) (heq : a.row.eventId = b.row.eventId) : a = b := by
  have hnodup : (outbox.map (·.row.eventId)).Nodup :=
    List.pairwise_map.2 (h.imp fun hlt => Int.ne_of_lt hlt)
  exact List.inj_on_of_nodup_map hnodup ha hb heq

/-- The message of the first unpublished row. -/
structure First (outbox : List (OutboxEntry J)) (message : KafkaOutboxMessage J) : Prop where
  row : ∃ entry ∈ outbox, entry.published = false ∧ rowToMessage entry.row = .ok message
  before : ∀ entry ∈ outbox, entry.row.eventId < message.eventId → entry.published = true

theorem First.eventId_eq {other : KafkaOutboxMessage J} (h : First outbox message)
    (h' : First outbox other) : message.eventId = other.eventId := by
  obtain ⟨entry, hentry, hopen, hrow⟩ := h.row
  obtain ⟨entry', hentry', hopen', hrow'⟩ := h'.row
  have hid := rowToMessage_eventId hrow
  have hid' := rowToMessage_eventId hrow'
  by_contra hne
  cases Int.lt_or_gt_of_ne hne with
  | inl hlt =>
    have := h'.before entry hentry (hid ▸ hlt)
    rw [hopen] at this
    cases this
  | inr hgt =>
    have := h.before entry' hentry' (hid' ▸ hgt)
    rw [hopen'] at this
    cases this

/-- The rest of a snapshot: the rows before it are published, others came later. -/
structure Scans (outbox : List (OutboxEntry J)) (candidates : List (OutboxRow J)) : Prop where
  ascending : candidates.Pairwise fun a b => a.eventId < b.eventId
  stored : ∀ row ∈ candidates, ∃ entry ∈ outbox, entry.row = row
  covers : ∀ entry ∈ outbox, entry.published = true ∨ entry.row ∈ candidates ∨
    ∀ row ∈ candidates, row.eventId < entry.row.eventId

theorem unpublishedRows_eq (h : Ascending outbox) :
    unpublishedRows outbox = (outbox.filter (!·.published)).map (·.row) := by
  have hsorted : ((outbox.filter (!·.published)).map (·.row)).Pairwise fun a b =>
      a.eventId ≤ b.eventId := List.pairwise_map.2 ((h.filter _).imp fun hlt => Int.le_of_lt hlt)
  exact hsorted.insertionSort_eq

theorem scans_unpublishedRows (h : Ascending outbox) : Scans outbox (unpublishedRows outbox) := by
  rw [unpublishedRows_eq h]
  refine ⟨List.pairwise_map.2 (h.filter _), fun row hrow => ?_, fun entry hentry => ?_⟩
  · obtain ⟨entry, hentry, rfl⟩ := List.mem_map.1 hrow
    exact ⟨entry, (List.mem_filter.1 hentry).1, rfl⟩
  · cases hp : entry.published with
    | true => exact .inl rfl
    | false =>
      refine .inr (.inl (List.mem_map_of_mem (List.mem_filter.2 ⟨hentry, ?_⟩)))
      simp [hp]

/-- Past a published row. -/
theorem Scans.skip {rest : List (OutboxRow J)} (h : Scans outbox (row :: rest))
    (hpublished : ∀ entry ∈ outbox, entry.row.eventId = row.eventId → entry.published = true) :
    Scans outbox rest := by
  obtain ⟨hhead, htail⟩ := List.pairwise_cons.1 h.ascending
  refine ⟨htail, fun r hr => h.stored r (List.mem_cons_of_mem row hr), fun entry hentry => ?_⟩
  obtain hp | hmem | hlater := h.covers entry hentry
  · exact .inl hp
  · cases List.mem_cons.1 hmem with
    | inl heq => exact .inl (hpublished entry hentry (congrArg _ heq))
    | inr hmem => exact .inr (.inl hmem)
  · exact .inr (.inr fun r hr => hlater r (List.mem_cons_of_mem row hr))

/-- The row that was read again, unpublished, is the first. -/
theorem Scans.first {rest : List (OutboxRow J)} (h : Scans outbox (row :: rest))
    (hentry : entry ∈ outbox) (hid : entry.row.eventId = row.eventId)
    (hopen : entry.published = false) (hmessage : rowToMessage entry.row = .ok message) :
    First outbox message := by
  have heventId := rowToMessage_eventId hmessage
  refine ⟨⟨entry, hentry, hopen, hmessage⟩, fun other hother hlt => ?_⟩
  obtain hp | hmem | hlater := h.covers other hother
  · exact hp
  · have hle : row.eventId ≤ other.row.eventId := by
      cases List.mem_cons.1 hmem with
      | inl heq => exact Int.le_of_eq (congrArg _ heq.symm)
      | inr hmem => exact Int.le_of_lt ((List.pairwise_cons.1 h.ascending).1 _ hmem)
    omega
  · have := hlater row List.mem_cons_self
    omega

/-! ## The table and the topic -/

/-- What was sent and marked. -/
structure Delivered (outbox : List (OutboxEntry J)) (topic : List (KafkaOutboxMessage J)) : Prop where
  ascending : Ascending outbox
  marks : outbox.Pairwise fun a b => b.published = true → a.published = true
  sent : ∀ entry ∈ outbox, entry.published = true → ∃ message ∈ topic,
    rowToMessage entry.row = .ok message
  source : ∀ message ∈ topic, ∃ entry ∈ outbox, rowToMessage entry.row = .ok message
  before : ∀ message ∈ topic, ∀ entry ∈ outbox, entry.row.eventId < message.eventId →
    entry.published = true
  ordered : topic.Pairwise fun a b => a.eventId ≤ b.eventId

/-- What a dispatcher relies on. -/
def Phase.Sound (outbox : List (OutboxEntry J)) (topic : List (KafkaOutboxMessage J)) :
    Phase J → Prop
  | .returned _ => True
  | .selecting _ candidates => Scans outbox candidates
  | .publishing _ message => First outbox message
  | .marking message => First outbox message ∧ message ∈ topic
  | .committing message => First outbox message ∧ message ∈ topic

theorem Phase.Sound.first {phase : Phase J} (h : phase.Sound outbox topic)
    (hmessage : message ∈ phase.message) : First outbox message := by
  cases phase with
  | returned => cases hmessage
  | selecting => cases hmessage
  | publishing => cases hmessage; exact h
  | marking => cases hmessage; exact h.1
  | committing => cases hmessage; exact h.1

/-! ### Rows come -/

theorem Delivered.append (h : Delivered outbox topic) {rows : List (OutboxRow J)}
    (hasc : Ascending (outbox ++ rows.map fun row => ⟨row, false⟩)) :
    Delivered (outbox ++ rows.map fun row => ⟨row, false⟩) topic := by
  obtain ⟨-, -, hlater⟩ := List.pairwise_append.1 hasc
  have hnew : ∀ entry ∈ rows.map fun row => (⟨row, false⟩ : OutboxEntry J), entry.published = false := by
    intro entry hentry
    obtain ⟨row, -, rfl⟩ := List.mem_map.1 hentry
    rfl
  refine ⟨hasc, List.pairwise_append.2 ⟨h.marks, ?_, ?_⟩, ?_, ?_, ?_, h.ordered⟩
  · refine List.pairwise_of_forall_mem_list fun a _ b hb hp => ?_
    rw [hnew b hb] at hp
    cases hp
  · intro a _ b hb hp
    rw [hnew b hb] at hp
    cases hp
  · intro entry hentry hp
    cases List.mem_append.1 hentry with
    | inl hentry => exact h.sent entry hentry hp
    | inr hentry => rw [hnew entry hentry] at hp; cases hp
  · intro message hmessage
    obtain ⟨entry, hentry, hrow⟩ := h.source message hmessage
    exact ⟨entry, List.mem_append_left _ hentry, hrow⟩
  · intro message hmessage entry hentry hlt
    cases List.mem_append.1 hentry with
    | inl hentry => exact h.before message hmessage entry hentry hlt
    | inr hentry =>
      obtain ⟨old, hold, hrow⟩ := h.source message hmessage
      have := hlater old hold entry hentry
      have := rowToMessage_eventId hrow
      omega

theorem Phase.Sound.append {phase : Phase J} (h : phase.Sound outbox topic)
    {rows : List (OutboxRow J)} (hasc : Ascending (outbox ++ rows.map fun row => ⟨row, false⟩)) :
    phase.Sound (outbox ++ rows.map fun row => ⟨row, false⟩) topic := by
  obtain ⟨-, -, hlater⟩ := List.pairwise_append.1 hasc
  have hfirst : ∀ message, First outbox message →
      First (outbox ++ rows.map fun row => ⟨row, false⟩) message := by
    intro message hfirst
    obtain ⟨entry, hentry, hopen, hrow⟩ := hfirst.row
    refine ⟨⟨entry, List.mem_append_left _ hentry, hopen, hrow⟩, fun other hother hlt => ?_⟩
    cases List.mem_append.1 hother with
    | inl hother => exact hfirst.before other hother hlt
    | inr hother =>
      have := hlater entry hentry other hother
      have := rowToMessage_eventId hrow
      omega
  cases phase with
  | returned => exact trivial
  | publishing => exact hfirst _ h
  | marking => exact ⟨hfirst _ h.1, h.2⟩
  | committing => exact ⟨hfirst _ h.1, h.2⟩
  | selecting failure candidates =>
    obtain ⟨hascending, hstored, hcovers⟩ := h
    refine ⟨hascending, fun row hrow => ?_, fun entry hentry => ?_⟩
    · obtain ⟨entry, hentry, heq⟩ := hstored row hrow
      exact ⟨entry, List.mem_append_left _ hentry, heq⟩
    · cases List.mem_append.1 hentry with
      | inl hentry => exact hcovers entry hentry
      | inr hentry =>
        refine .inr (.inr fun row hrow => ?_)
        obtain ⟨old, hold, rfl⟩ := hstored row hrow
        exact hlater old hold entry hentry

/-! ### A message is delivered -/

theorem Delivered.publish (h : Delivered outbox topic) (hfirst : First outbox message)
    (copies : Nat) : Delivered outbox (topic ++ List.replicate copies message) := by
  obtain ⟨row, hrow, hopen, hmessage⟩ := hfirst.row
  have heventId := rowToMessage_eventId hmessage
  have hcopy : ∀ m ∈ List.replicate copies message, m = message := fun m hm =>
    List.eq_of_mem_replicate hm
  refine ⟨h.ascending, h.marks, fun entry hentry hp => ?_, fun m hm => ?_, fun m hm entry hentry hlt =>
    ?_, List.pairwise_append.2 ⟨h.ordered, ?_, fun m hm m' hm' => ?_⟩⟩
  · obtain ⟨m, hm, hentryRow⟩ := h.sent entry hentry hp
    exact ⟨m, List.mem_append_left _ hm, hentryRow⟩
  · cases List.mem_append.1 hm with
    | inl hm => exact h.source m hm
    | inr hm => exact hcopy m hm ▸ ⟨row, hrow, hmessage⟩
  · cases List.mem_append.1 hm with
    | inl hm => exact h.before m hm entry hentry hlt
    | inr hm => exact hfirst.before entry hentry (hcopy m hm ▸ hlt)
  · exact List.pairwise_replicate.2 (.inr (Int.le_refl _))
  · -- A message of a later row would have its row published already.
    rw [hcopy m' hm']
    by_contra hgt
    have hp := h.before m hm row hrow (by omega)
    rw [hopen] at hp
    cases hp

theorem Phase.Sound.publish {phase : Phase J} (h : phase.Sound outbox topic)
    (more : List (KafkaOutboxMessage J)) : phase.Sound outbox (topic ++ more) := by
  cases phase with
  | returned => exact trivial
  | selecting => exact h
  | publishing => exact h
  | marking => exact ⟨h.1, List.mem_append_left _ h.2⟩
  | committing => exact ⟨h.1, List.mem_append_left _ h.2⟩

/-! ### A row is marked -/

@[simp] theorem mark_row (eventId : Int) (entry : OutboxEntry J) :
    (entry.mark eventId).row = entry.row := by
  unfold OutboxEntry.mark
  split <;> rfl

theorem mark_published {eventId : Int} : (entry.mark eventId).published = true ↔
    entry.published = true ∨ entry.row.eventId = eventId := by
  unfold OutboxEntry.mark
  cases hp : entry.published <;> split <;> simp_all

theorem Delivered.mark (h : Delivered outbox topic) (hfirst : First outbox message)
    (hsent : message ∈ topic) : Delivered (markPublished message.eventId outbox) topic := by
  have hascending : Ascending (markPublished message.eventId outbox) :=
    List.pairwise_map.2 (h.ascending.imp fun hlt => by simpa using hlt)
  refine ⟨hascending, List.pairwise_map.2 ?_, fun entry hentry hp => ?_, fun m hm => ?_,
    fun m hm entry hentry hlt => ?_, h.ordered⟩
  · refine (h.ascending.and h.marks).imp_of_mem fun {a b} ha hb hab hp => ?_
    refine mark_published.2 (.inl ?_)
    cases mark_published.1 hp with
    | inl hp => exact hab.2 hp
    | inr hid => exact hfirst.before a ha (hid ▸ hab.1)
  · obtain ⟨old, hold, rfl⟩ := List.mem_map.1 hentry
    rw [mark_row]
    cases mark_published.1 hp with
    | inl hp => exact h.sent old hold hp
    | inr hid =>
      obtain ⟨row, hrow, -, hmessage⟩ := hfirst.row
      have hsame := rowToMessage_eventId hmessage
      rw [h.ascending.unique hold hrow (hid.trans hsame)]
      exact ⟨message, hsent, hmessage⟩
  · obtain ⟨entry, hentry, hrow⟩ := h.source m hm
    exact ⟨entry.mark message.eventId, List.mem_map_of_mem hentry, by rw [mark_row]; exact hrow⟩
  · obtain ⟨old, hold, rfl⟩ := List.mem_map.1 hentry
    rw [mark_row] at hlt
    exact mark_published.2 (.inl (h.before m hm old hold hlt))

/-- A dispatcher with nothing in hand does not mind. -/
theorem Phase.Sound.mark {phase : Phase J} (h : phase.Sound outbox topic)
    (hidle : phase.message = none) (eventId : Int) :
    phase.Sound (markPublished eventId outbox) topic := by
  cases phase with
  | returned => exact trivial
  | publishing => cases hidle
  | marking => cases hidle
  | committing => cases hidle
  | selecting failure candidates =>
    obtain ⟨hascending, hstored, hcovers⟩ := h
    refine ⟨hascending, fun row hrow => ?_, fun entry hentry => ?_⟩
    · obtain ⟨entry, hentry, heq⟩ := hstored row hrow
      exact ⟨entry.mark eventId, List.mem_map_of_mem hentry, by rw [mark_row]; exact heq⟩
    · obtain ⟨old, hold, rfl⟩ := List.mem_map.1 hentry
      rw [mark_row]
      exact (hcovers old hold).imp_left fun hp => mark_published.2 (.inl hp)

end

/-! ## Every step -/

section
variable {s s' : State J n} {d : Fin n}

/-- **The invariant.** -/
structure State.Sound (s : State J n) : Prop where
  delivered : Delivered s.outbox s.topic
  phases : ∀ d, (s.dispatchers d).Sound s.outbox s.topic
  alone : ∀ d d', (s.dispatchers d).message.isSome = true →
    (s.dispatchers d').message.isSome = true → d = d'

theorem sound_init : (State.init : State J n).Sound :=
  ⟨⟨.nil, .nil, by simp [State.init], by simp [State.init], by simp [State.init], .nil⟩,
    fun _ => trivial, by simp [State.init, Phase.message]⟩

/-- A dispatcher goes on. It takes a message in hand only if no other has one. -/
theorem State.Sound.setPhase {outbox : List (OutboxEntry J)} {topic : List (KafkaOutboxMessage J)}
    (h : s.Sound) (hdelivered : Delivered outbox topic)
    (hothers : ∀ d', d' ≠ d → (s.dispatchers d').Sound outbox topic) {phase : Phase J}
    (hphase : phase.Sound outbox topic)
    (halone : phase.message.isSome = true → ∀ d', d' ≠ d → (s.dispatchers d').message = none) :
    ({ s with outbox, topic }.setPhase d phase).Sound := by
  refine ⟨hdelivered, fun d' => ?_, fun a b ha hb => ?_⟩
  · show (Function.update s.dispatchers d phase d').Sound outbox topic
    by_cases hd : d' = d
    · subst hd
      rwa [Function.update_self]
    · rw [Function.update_of_ne hd]
      exact hothers d' hd
  · replace ha : (Function.update s.dispatchers d phase a).message.isSome = true := ha
    replace hb : (Function.update s.dispatchers d phase b).message.isSome = true := hb
    by_cases had : a = d
    · subst had
      by_cases hbd : b = a
      · exact hbd.symm
      · rw [Function.update_self] at ha
        rw [Function.update_of_ne hbd, halone ha b hbd] at hb
        cases hb
    · rw [Function.update_of_ne had] at ha
      by_cases hbd : b = d
      · subst hbd
        rw [Function.update_self] at hb
        rw [halone hb a had] at ha
        cases ha
      · rw [Function.update_of_ne hbd] at hb
        exact h.alone a b ha hb

/-- Nothing but the phase changes. -/
theorem State.Sound.goto (h : s.Sound) {phase : Phase J} (hphase : phase.Sound s.outbox s.topic)
    (halone : phase.message.isSome = true → ∀ d', d' ≠ d → (s.dispatchers d').message = none) :
    (s.setPhase d phase).Sound :=
  h.setPhase h.delivered (fun d' _ => h.phases d') hphase halone

/-- Who has a message in hand is alone. -/
theorem State.Sound.others (h : s.Sound) {message : KafkaOutboxMessage J}
    (hmessage : (s.dispatchers d).message = some message) :
    ∀ d', d' ≠ d → (s.dispatchers d').message = none := by
  intro d' hd
  cases hother : (s.dispatchers d').message with
  | none => rfl
  | some other =>
    have heq := h.alone d' d (by rw [hother]; rfl) (by rw [hmessage]; rfl)
    exact absurd heq hd

/-- Who gets the lock is alone: another message in hand would be of the same row. -/
theorem State.Sound.free (h : s.Sound) {message : KafkaOutboxMessage J}
    (hfirst : First s.outbox message) (hfree : s.Free message.eventId) (d' : Fin n) :
    (s.dispatchers d').message = none := by
  cases hother : (s.dispatchers d').message with
  | none => rfl
  | some other =>
    have hsame := ((h.phases d').first hother).eventId_eq hfirst
    exact absurd hsame (hfree d' other hother)

theorem lock_keeps (h : s.Sound) {failure : Option KafkaDispatchFailurePoint}
    {candidates : List (OutboxRow J)} (hscans : Scans s.outbox candidates)
    (hs : s.lock d failure candidates = some s') : s'.Sound := by
  unfold State.lock at hs
  cases candidates with
  | nil =>
    cases hs
    exact h.goto trivial (by simp [Phase.message])
  | cons candidate rest =>
    dsimp only at hs
    split at hs
    · rename_i hfree
      split at hs
      · rename_i row hfound
        cases hs
        have hentry := List.mem_of_find?_eq_some hfound
        have hid : row.eventId = candidate.eventId := by simpa using List.find?_some hfound
        unfold Phase.locked
        cases hmessage : rowToMessage row with
        | error error => exact h.goto trivial (by simp [Phase.fail, Phase.message])
        | ok message =>
          have hfirst := hscans.first hentry hid rfl hmessage
          have heventId := rowToMessage_eventId hmessage
          dsimp only
          split
          · exact h.goto trivial (by simp [Phase.fail, Phase.message])
          · refine h.goto hfirst fun _ d' _ => h.free hfirst ?_ d'
            rw [heventId, hid]
            exact hfree
      · rename_i hnone
        cases hs
        refine h.goto (hscans.skip fun entry hentry hid => ?_) (by simp [Phase.message])
        -- The row was read again, and it is published.
        cases hfound : s.outbox.find? (·.row.eventId = candidate.eventId) with
        | none =>
          have hmiss := List.find?_eq_none.1 hfound entry hentry
          simp [hid] at hmiss
        | some found =>
          have hmem := List.mem_of_find?_eq_some hfound
          have hsame : found.row.eventId = candidate.eventId := by
            simpa using List.find?_some hfound
          obtain rfl := h.delivered.ascending.unique hmem hentry (hsame.trans hid.symm)
          cases hp : found.published with
          | true => rfl
          | false =>
            obtain ⟨row, published⟩ := found
            cases hp
            exact absurd hfound (hnone row)
    · cases hs

theorem mark_keeps (h : s.Sound) {message : KafkaOutboxMessage J}
    (hphase : s.dispatchers d = .committing message)
    (result : Option (Except KafkaDispatchError (KafkaDispatchOutcome J))) :
    ({ s with outbox := markPublished message.eventId s.outbox }.setPhase d (.returned result)).Sound := by
  have hsound := h.phases d
  rw [hphase] at hsound
  have hothers := h.others (d := d) (by rw [hphase]; rfl)
  exact h.setPhase (h.delivered.mark hsound.1 hsound.2)
    (fun d' hd => (h.phases d').mark (hothers d' hd) _) trivial (by simp [Phase.message])

/-- **Every step keeps the invariant.** -/
theorem step_keeps (h : s.Sound) {action : Action J n} (hs : step s action = some s') :
    s'.Sound := by
  cases action with
  | append rows =>
    simp only [step] at hs
    split at hs
    · rename_i hasc
      cases hs
      exact ⟨h.delivered.append hasc, fun d => (h.phases d).append hasc, h.alone⟩
    · cases hs
  | start d failure =>
    simp only [step] at hs
    split at hs
    · cases hs
      exact h.goto (scans_unpublishedRows h.delivered.ascending) (by simp [Phase.message])
    · cases hs
  | lock d =>
    simp only [step] at hs
    split at hs
    · rename_i failure candidates hphase
      have hscans := h.phases d
      rw [hphase] at hscans
      exact lock_keeps h hscans hs
    · cases hs
  | publish d copies result =>
    simp only [step] at hs
    split at hs
    · rename_i failure message hphase
      split at hs
      · cases hs
      · rename_i hcopies
        cases hs
        have hfirst := h.phases d
        rw [hphase] at hfirst
        have hothers := h.others (d := d) (by rw [hphase]; rfl)
        refine h.setPhase (h.delivered.publish hfirst copies) (fun d' _ => (h.phases d').publish _)
          ?_ fun _ => hothers
        unfold Phase.published
        cases result with
        | error errorMessage => exact trivial
        | ok =>
          dsimp only
          split
          · exact trivial
          · have hne : copies ≠ 0 := fun hzero => hcopies ⟨rfl, hzero⟩
            exact ⟨hfirst, List.mem_append_right _ (List.mem_replicate.2 ⟨hne, rfl⟩)⟩
    · cases hs
  | mark d =>
    simp only [step] at hs
    split at hs
    · rename_i message hphase
      cases hs
      have hsound := h.phases d
      rw [hphase] at hsound
      exact h.goto hsound fun _ => h.others (by rw [hphase]; rfl)
    · cases hs
  | commit d =>
    simp only [step] at hs
    split at hs
    · rename_i message hphase
      cases hs
      exact mark_keeps h hphase _
    · cases hs
  | lost d =>
    simp only [step] at hs
    split at hs
    · rename_i message hphase
      cases hs
      exact mark_keeps h hphase _
    · cases hs
  | fail d =>
    simp only [step] at hs
    split at hs
    · cases hs
    · cases hs
      exact h.goto trivial (by simp [Phase.fail, Phase.message])

theorem run_keeps (h : s.Sound) {actions : List (Action J n)} (hrun : run s actions = some s') :
    s'.Sound := by
  unfold run at hrun
  induction actions generalizing s with
  | nil =>
    cases hrun
    exact h
  | cons action actions ih =>
    rw [List.foldlM_cons] at hrun
    obtain ⟨next, hstep, hrun⟩ := Option.bind_eq_some_iff.1 hrun
    exact ih (step_keeps h hstep) hrun

end

/-! ## Any run -/

section
variable {outbox : List (OutboxEntry J)} {topic : List (KafkaOutboxMessage J)}

/-- What was delivered at all, marked or not, is a prefix. -/
theorem Delivered.sent_prefix (h : Delivered outbox topic) :
    outbox.filter (·.row.eventId ∈ topic.map (·.eventId)) <+: outbox := by
  refine filter_isPrefix (h.ascending.imp_of_mem fun {a b} ha _ hlt hb => ?_)
  rw [decide_eq_true_eq] at hb ⊢
  obtain ⟨message, hmessage, hid⟩ := List.mem_map.1 hb
  obtain ⟨own, hown, hrow⟩ := h.sent a ha (h.before message hmessage a ha (hid ▸ hlt))
  exact List.mem_map.2 ⟨own, hown, rowToMessage_eventId hrow⟩

/-- The messages of rows that all have one. -/
theorem exists_messages {entries : List (OutboxEntry J)}
    (h : ∀ entry ∈ entries, ∃ message, rowToMessage entry.row = .ok message) :
    ∃ messages : List (KafkaOutboxMessage J),
      messages.map Except.ok = entries.map (rowToMessage ·.row) := by
  induction entries with
  | nil => exact ⟨[], rfl⟩
  | cons entry entries ih =>
    obtain ⟨message, hrow⟩ := h entry List.mem_cons_self
    obtain ⟨messages, hmap⟩ := ih fun e he => h e (List.mem_cons_of_mem entry he)
    exact ⟨message :: messages, by rw [List.map_cons, List.map_cons, hmap, hrow]⟩

/-- A consumer that drops repeats sees the messages of the first rows, in order. -/
theorem Delivered.firstSeen_prefix (h : Delivered outbox topic) :
    (firstSeen (·.eventId) [] topic).map Except.ok <+: outbox.map (rowToMessage ·.row) := by
  let delivered := outbox.filter (·.row.eventId ∈ topic.map (·.eventId))
  -- Each of these rows has its message in the topic.
  have hown : ∀ entry ∈ delivered, ∃ message ∈ topic, rowToMessage entry.row = .ok message := by
    intro entry hentry
    obtain ⟨hmem, hid⟩ := List.mem_filter.1 hentry
    obtain ⟨message, hmessage, hid⟩ := List.mem_map.1 (of_decide_eq_true hid)
    obtain ⟨own, hown, hrow⟩ := h.source message hmessage
    have heventId := rowToMessage_eventId hrow
    rw [← h.ascending.unique hown hmem (heventId.symm.trans hid)]
    exact ⟨message, hmessage, hrow⟩
  obtain ⟨messages, hmap⟩ := exists_messages fun entry hentry =>
    (hown entry hentry).imp fun _ hmessage => hmessage.2
  have hmem : ∀ message, message ∈ topic ↔ message ∈ messages := by
    intro message
    have hmapped : message ∈ messages ↔ ∃ entry ∈ delivered, rowToMessage entry.row = .ok message := by
      rw [← List.mem_map, ← hmap, List.mem_map]
      simp
    rw [hmapped]
    constructor
    · intro hmessage
      obtain ⟨entry, hentry, hrow⟩ := h.source message hmessage
      have hid := List.mem_map.2 ⟨message, hmessage, rowToMessage_eventId hrow⟩
      exact ⟨entry, List.mem_filter.2 ⟨hentry, decide_eq_true hid⟩, hrow⟩
    · intro hsome
      obtain ⟨entry, hentry, hrow⟩ := hsome
      obtain ⟨own, hmessage, hrow'⟩ := hown entry hentry
      rw [hrow'] at hrow
      cases hrow
      exact hmessage
  have hascending : messages.Pairwise fun a b => a.eventId < b.eventId := by
    have hrows : (delivered.map (rowToMessage ·.row)).Pairwise fun x y =>
        ∀ a b, x = .ok a → y = .ok b → a.eventId < b.eventId := by
      refine List.pairwise_map.2 ((h.ascending.filter _).imp fun hlt a b ha hb => ?_)
      have := rowToMessage_eventId ha
      have := rowToMessage_eventId hb
      omega
    rw [← hmap] at hrows
    exact (List.pairwise_map.1 hrows).imp fun hlt => hlt _ _ rfl rfl
  rw [firstSeen_eq hascending h.ordered hmem, hmap]
  exact h.sent_prefix.map _

end

/-- **At least once, in order.** After any interleaving of commits of the writer and attempts of the
dispatchers, however these fail (an attempt that loses its session sends no more): the marked rows
are a prefix of the outbox, each was sent, the `event_id`s of the topic never go down, and a
consumer that drops repeats sees the messages of a prefix of the outbox. -/
theorem at_least_once_in_order (actions : List (Action J n)) {s : State J n}
    (hrun : run State.init actions = some s) :
    s.outbox.filter (·.published) <+: s.outbox ∧
      (∀ entry ∈ s.outbox, entry.published = true →
        ∃ message ∈ s.topic, rowToMessage entry.row = .ok message) ∧
      (s.topic.map (·.eventId)).Pairwise (· ≤ ·) ∧
      (firstSeen (·.eventId) [] s.topic).map Except.ok <+: s.outbox.map (rowToMessage ·.row) := by
  have h := (run_keeps sound_init hrun).delivered
  exact ⟨filter_isPrefix h.marks, h.sent, List.pairwise_map.2 h.ordered, h.firstSeen_prefix⟩

/-- A row whose hash has 32 bytes. -/
def smallRow (eventId : Int) (height : Int) : OutboxRow Unit where
  eventId := eventId
  chainId := "1"
  eventKind := "apply"
  blockHash := List.replicate 32 7
  blockHeight := height
  payload := ()

/-- Two dispatchers want row 1. The first delivers it and fails; the second, which waited, delivers it
again and marks it, and then the row that came in between. -/
def smallActions : List (Action Unit 2) :=
  [.append [smallRow 1 0, smallRow 4 1], .start 0 none, .start 1 none, .lock 0,
    .publish 0 1 (.error "timed out"), .lock 1, .append [smallRow 5 2], .start 0 none,
    .publish 1 1 (.ok ()), .mark 1, .commit 1, .lock 0, .lock 0, .publish 0 1 (.ok ()), .mark 0,
    .lost 0]

/-- `at_least_once_in_order` for these actions. -/
theorem at_least_once_in_order_retried : ∃ s, run State.init smallActions = some s ∧
    s.topic.map (·.eventId) = [1, 1, 4] ∧ s.outbox.map (·.published) = [true, true, false] ∧
      s.outbox.filter (·.published) <+: s.outbox := by
  have htopic : ((run State.init smallActions).map fun s =>
      (s.topic.map (·.eventId), s.outbox.map (·.published))) =
        some ([1, 1, 4], [true, true, false]) := by decide +kernel
  obtain ⟨s, hrun, hs⟩ := Option.map_eq_some_iff.1 htopic
  obtain ⟨hids, hmarks⟩ := Prod.mk.inj hs
  exact ⟨s, hrun, hids, hmarks, (at_least_once_in_order smallActions hrun).1⟩

end Chainweave.Kafka
