import Chainweave.Sink.Chains
import Chainweave.Sink.Outbox

/-!
# What a consumer knows of the tables

The writers of several chains, the outbox they share and its dispatchers together: a
consumer that drops repeated `event_id`s and follows the transitions of one chain.

* `World`: a database for each chain, and the dispatchers. A commit of a writer appends
  the outbox rows of its transaction.
* `view`: the consumer's set of blocks, by the texts in the messages.
* `Traced`: the tables have been what each prefix of their outbox says.
* `view_exact`: the view is never refused, and it is the canonical set of tables the
  writer passed through, at least as late as the last marked row.
-/
namespace Chainweave.Kafka

open FirstSeen ChangeLog Chainweave.Chain Chainweave.Postgres

/-! ## The consumer -/

/-- A hash as messages have it. -/
def hashText (hash : BlockHash) : String := hexBytes (hashBytes hash)

/-- A rollback takes the block out; any other transition brings it in.
mirrors crates/chainweave-sink/src/kafka.rs:392-429 -/
def KafkaOutboxMessage.change {J : Type} (message : KafkaOutboxMessage J) : Change String :=
  if message.transitionKind = "rollback" then .drop message.blockHash else .add message.blockHash

/-- What a consumer of these messages holds. -/
def view {J : Type} (topic : List (KafkaOutboxMessage J)) : Option (Finset String) :=
  replay ∅ ((firstSeen (·.eventId) [] topic).map (·.change))

/-- The canonical blocks, by their texts. -/
def canonicalTexts (t : Tables) : Finset String := (t.canonical.map fun x => hashText x.hash).toFinset

/-! ## Writers and dispatchers -/

structure World (n : Nat) where
  databases : Nat → Database
  kafka : State OutboxPayload n

inductive Event (n : Nat) where
  /-- a call of `apply_batch`, with the `event_id`s its rows get -/
  | applyBatch (chainId : Nat) (batch : DurableChainBatch) (eventIds : List Int)
  | dispatch (action : Action OutboxPayload n)

namespace World
variable {n : Nat}

def init : World n where
  databases := Database.empty
  kafka := .init

/-- One step; a transaction that fails leaves nothing. Calls of one chain do not overlap, so its rows
get ascending `event_id`s in commit order. -/
def step (w : World n) : Event n → Option (World n)
  | .applyBatch chainId batch eventIds =>
    match applyBatch (w.databases chainId) batch with
    | .error _ => some w
    | .ok (_, db) =>
      let rows := db.1.outbox.drop (w.databases chainId).1.outbox.length
      if eventIds.length = rows.length then
        (stepShared w.kafka (.append (eventIds.zipWith (columns chainId) rows))).map fun kafka =>
          { databases := Function.update w.databases chainId db, kafka }
      else none
  | .dispatch (.append _) => none
  | .dispatch action => (stepShared w.kafka action).map fun kafka => { w with kafka }

def run (w : World n) (events : List (Event n)) : Option (World n) := events.foldlM step w

end World

/-! ## Texts -/

/-- The bytes of a number. -/
theorem mod_pow_eq {a b k : Nat} (h : ∀ j < k, a / 256 ^ j % 256 = b / 256 ^ j % 256) :
    a % 256 ^ k = b % 256 ^ k := by
  induction k with
  | zero => simp [Nat.mod_one]
  | succ k ih =>
    rw [Nat.mod_pow_succ, Nat.mod_pow_succ, ih fun j hj => h j (by omega), h k (by omega)]

theorem hashBytes_injective : Function.Injective hashBytes := by
  intro a b h
  have hbytes : ∀ i < 32, a.toNat / 256 ^ (31 - i) % 256 = b.toNat / 256 ^ (31 - i) % 256 := by
    intro i hi
    have hbyte := List.map_inj_left.1 h i (List.mem_range.2 hi)
    have hnat := congrArg UInt8.toNat hbyte
    simpa using hnat
  have hmod : a.toNat % 256 ^ 32 = b.toNat % 256 ^ 32 := by
    refine mod_pow_eq fun j hj => ?_
    have hb := hbytes (31 - j) (by omega)
    rwa [show 31 - (31 - j) = j by omega] at hb
  have ha := a.isLt
  have hb := b.isLt
  refine BitVec.eq_of_toNat_eq ?_
  rwa [Nat.mod_eq_of_lt (by omega), Nat.mod_eq_of_lt (by omega)] at hmod

theorem digitChar_inj {a b : Nat} (ha : a < 16) (hb : b < 16)
    (h : Nat.digitChar a = Nat.digitChar b) : a = b := by
  have hall : ∀ x : Fin 16, ∀ y : Fin 16, Nat.digitChar x = Nat.digitChar y → x = y := by decide
  exact congrArg Fin.val (hall ⟨a, ha⟩ ⟨b, hb⟩ h)

theorem hexBytes_injective : Function.Injective hexBytes := by
  intro a b h
  replace h := String.ofList_injective ((String.append_right_inj _).1 h)
  induction a generalizing b with
  | nil =>
    cases b with
    | nil => rfl
    | cons y b => cases h
  | cons x a ih =>
    cases b with
    | nil => cases h
    | cons y b =>
      rw [List.flatMap_cons, List.flatMap_cons] at h
      obtain ⟨hbyte, hrest⟩ := List.append_inj h rfl
      obtain ⟨hhigh, hlow⟩ := List.cons.inj hbyte
      have hx := x.toNat_lt
      have hy := y.toNat_lt
      have hdiv := digitChar_inj (by omega) (by omega) hhigh
      have hmod := digitChar_inj (by omega) (by omega) (List.cons.inj hlow).1
      obtain rfl : x = y := UInt8.toNat_inj.1 (by omega)
      rw [ih hrest]

theorem hashText_injective : Function.Injective hashText :=
  hexBytes_injective.comp hashBytes_injective

theorem toString_injective {a b : Nat} (h : toString a = toString b) : a = b := by
  have hdigits : Nat.toDigits 10 a = Nat.toDigits 10 b := by
    simpa [Nat.repr_eq_ofList_toDigits, String.ofList_inj] using h
  rw [← Nat.ofDigitChars_ten_toDigits (n := a), hdigits, Nat.ofDigitChars_ten_toDigits]

/-- A message of the writer's row says what the row says. -/
theorem change_columns {chainId : Nat} {eventId : Int} {row : Postgres.OutboxRow}
    {message : KafkaOutboxMessage OutboxPayload}
    (h : rowToMessage (columns chainId eventId row) = .ok message) :
    message.change = row.change.map hashText := by
  unfold rowToMessage at h
  split at h
  · cases h
  · split at h
    · cases h
    · cases h
      unfold KafkaOutboxMessage.change OutboxRow.change columns
      cases row.eventKind with
      | apply => rfl
      | rollback => rfl

/-- The canonical texts, off the log. -/
theorem replay_texts {t : Tables} (h : Logged t) :
    replay ∅ (t.outbox.map fun row => row.change.map hashText) = some (canonicalTexts t) := by
  obtain ⟨hashes, hreplay, hmem⟩ := h
  have htexts := replay_map hashText_injective hreplay
  rw [Finset.image_empty, List.map_map] at htexts
  refine htexts.trans (congrArg some (Finset.ext fun text => ?_))
  simp only [canonicalTexts, Finset.mem_image, List.mem_toFinset, List.mem_map]
  constructor
  · intro hex
    obtain ⟨hash, hin, rfl⟩ := hex
    obtain ⟨x, hx, rfl⟩ := (hmem hash).1 hin
    exact ⟨x, hx, rfl⟩
  · intro hex
    obtain ⟨x, hx, rfl⟩ := hex
    exact ⟨x.hash, (hmem x.hash).2 ⟨x, hx, rfl⟩, rfl⟩

/-! ## The tables behind a prefix of the outbox -/

/-- Each prefix of the outbox is the log of tables with the constraints, over the same rows. -/
structure Traced (t : Tables) : Prop where
  valid : t.Valid
  logged : Logged t
  back : ∀ k, ∃ u : Tables, u.Valid ∧ Logged u ∧ u.outbox = t.outbox.take k ∧
    ∀ x ∈ u.headers, x ∈ t.headers

section
variable {t t' : Tables}

/-- An event adds one row at most, and no header goes. -/
theorem eventTables_grows {event : DurableChainEvent} {changed : Bool}
    (he : eventTables t event = .ok (changed, t')) :
    (∃ rows, rows.length ≤ 1 ∧ t'.outbox = t.outbox ++ rows) ∧ ∀ x ∈ t.headers, x ∈ t'.headers := by
  have happend : ∀ {u u' : Tables} {kind header block} {c c' : Bool},
      appendChanged u kind header block c = .ok (c', u') →
      (∃ rows, rows.length ≤ 1 ∧ u'.outbox = u.outbox ++ rows) ∧ u'.blocks = u.blocks := by
    intro u u' kind header block c c' ha
    refine ⟨?_, appendChanged_blocks ha⟩
    obtain ⟨-, ⟨-, rfl⟩ | ⟨-, ho⟩⟩ := appendChanged_ok ha
    · exact ⟨[], by simp⟩
    · obtain ⟨-, -, rfl⟩ := Tables.appendOutbox_ok ho
      exact ⟨[_], by simp, rfl⟩
  cases event with
  | rollback header =>
    obtain ⟨⟨c, u⟩, hr, ha⟩ := Stateful.ok_bind.1 he
    obtain ⟨-, -, -, rfl⟩ := Tables.rollbackBlock_ok hr
    obtain ⟨hrows, hblocks⟩ := happend ha
    refine ⟨hrows, fun x hx => ?_⟩
    unfold Tables.headers
    rw [hblocks]
    show x ∈ (t.demote header.hash header.height).headers
    rwa [Tables.headers_demote]
  | apply block =>
    obtain ⟨⟨c, u⟩, hu, he⟩ := Stateful.ok_bind.1 he
    obtain ⟨v, hl, ha⟩ := Stateful.ok_bind.1 he
    obtain ⟨hb, ho, -⟩ := upsertLogs_frame hl
    obtain ⟨-, hup⟩ := Tables.upsertBlock_ok hu
    obtain ⟨hrows, hblocks⟩ := happend ha
    have hout : u.outbox = t.outbox := by cases hup <;> rfl
    refine ⟨by rwa [ho, hout] at hrows, fun x hx => ?_⟩
    unfold Tables.headers
    rw [hblocks, hb]
    cases hup with
    | unchanged => exact hx
    | inserted =>
      show x ∈ (t.insertBlock block).headers
      rw [Tables.headers_insertBlock]
      exact List.mem_append_left _ hx
    | promoted =>
      show x ∈ (t.promote block).headers
      rwa [Tables.headers_promote]

theorem Traced.eventTables (h : Traced t) {event : DurableChainEvent} {changed : Bool}
    (he : eventTables t event = .ok (changed, t')) : Traced t' := by
  have hv := valid_eventTables h.valid he
  have hl := logged_eventTables h.valid h.logged he
  obtain ⟨⟨rows, hone, hrows⟩, hheaders⟩ := eventTables_grows he
  refine ⟨hv, hl, fun k => ?_⟩
  by_cases hk : k ≤ t.outbox.length
  · obtain ⟨u, huv, hul, hu, hsub⟩ := h.back k
    refine ⟨u, huv, hul, ?_, fun x hx => hheaders x (hsub x hx)⟩
    rw [hu, hrows, List.take_append_of_le_length hk]
  · refine ⟨t', hv, hl, (List.take_of_length_le ?_).symm, fun x hx => hx⟩
    rw [hrows, List.length_append]
    omega

theorem Traced.applyBatch {db db' : Database} {batch : DurableChainBatch} {report : ApplyReport}
    (h : Traced db.1) (hap : applyBatch db batch = .ok (report, db')) : Traced db'.1 := by
  obtain ⟨u, c, hrun, hdb⟩ := applyBatch_events hap
  have hu : Traced u := runEvents_keeps (fun _ _ _ _ ht he => ht.eventTables he) h hrun
  refine ⟨db'.2, ?_, fun k => ?_⟩
  · rw [hdb]
    exact hu.logged.of_eq rfl rfl
  · rw [hdb]
    exact hu.back k

/-- A commit appends to the outbox. -/
theorem outbox_applyBatch {db db' : Database} {batch : DurableChainBatch} {report : ApplyReport}
    (hap : applyBatch db batch = .ok (report, db')) : db.1.outbox <+: db'.1.outbox := by
  obtain ⟨u, c, hrun, hdb⟩ := applyBatch_events hap
  have hu : db.1.outbox <+: u.outbox := by
    refine runEvents_keeps (P := fun t => db.1.outbox <+: t.outbox)
      (fun t event changed t' ht he => ?_) List.prefix_rfl hrun
    obtain ⟨⟨rows, -, hrows⟩, -⟩ := eventTables_grows he
    rw [hrows]
    exact ht.trans (List.prefix_append _ _)
  rw [hdb]
  exact hu

theorem traced_empty (chainId : Nat) : Traced (Database.empty chainId).1 :=
  ⟨(Database.empty chainId).2, logged_empty chainId, fun _ =>
    ⟨(Database.empty chainId).1, (Database.empty chainId).2, logged_empty chainId,
      (List.take_nil).symm, fun _ hx => hx⟩⟩

end

/-! ## Every step -/

section
variable {n : Nat} {w w' : World n}

/-- The rows the dispatchers see, of a chain, are those of its outbox. -/
def Carried (chainId : Nat) (db : Database) (outbox : List (OutboxEntry OutboxPayload)) : Prop :=
  ∃ eventIds : List Int, eventIds.length = db.1.outbox.length ∧
    (ofChain (toString chainId) outbox).map (·.row) =
      eventIds.zipWith (columns chainId) db.1.outbox

/-- **The invariant.** -/
structure World.Sound (w : World n) : Prop where
  kafka : ∃ actions, runShared State.init actions = some w.kafka
  traced : ∀ chainId, Traced (w.databases chainId).1
  carried : ∀ chainId, Carried chainId (w.databases chainId) w.kafka.outbox

/-- A dispatcher changes no row. -/
theorem Advance.rows {J : Type} {s s' : State J n} {d : Fin n} (h : Advance s d s') :
    s'.outbox.map (·.row) = s.outbox.map (·.row) := by
  cases h with
  | commit => exact map_row_markPublished _ _
  | _ => rfl

theorem Carried.of_rows {chainId : Nat} {db : Database} {outbox outbox' : List (OutboxEntry OutboxPayload)}
    (h : Carried chainId db outbox) (hrows : outbox'.map (·.row) = outbox.map (·.row)) :
    Carried chainId db outbox' := by
  have hmap : ∀ entries : List (OutboxEntry OutboxPayload),
      (ofChain (toString chainId) entries).map (·.row) =
        (entries.map (·.row)).filter (·.chainId = toString chainId) := fun entries => by
    rw [ofChain, List.filter_map]
    rfl
  obtain ⟨eventIds, hlength, hcarried⟩ := h
  exact ⟨eventIds, hlength, by rw [hmap, hrows, ← hmap, hcarried]⟩

/-- The rows of a commit, for its own chain and for others. -/
theorem Carried.append {chainId : Nat} {db db' : Database} {outbox : List (OutboxEntry OutboxPayload)}
    (h : Carried chainId db outbox) (hgrow : db.1.outbox <+: db'.1.outbox) {eventIds : List Int}
    (hlength : eventIds.length = (db'.1.outbox.drop db.1.outbox.length).length) :
    Carried chainId db' (outbox ++ (eventIds.zipWith (columns chainId)
      (db'.1.outbox.drop db.1.outbox.length)).map fun row => ⟨row, false⟩) := by
  obtain ⟨before, hbefore, hcarried⟩ := h
  obtain ⟨rows, hrows⟩ := hgrow
  rw [← hrows, List.drop_left] at hlength ⊢
  refine ⟨before ++ eventIds, ?_, ?_⟩
  · rw [← hrows, List.length_append, List.length_append, hbefore, hlength]
  · have hown : (eventIds.zipWith (columns chainId) rows).filter
        (fun row => decide (row.chainId = toString chainId)) = eventIds.zipWith (columns chainId) rows := by
      refine List.filter_eq_self.2 fun row hrow => ?_
      obtain ⟨i, hi, rfl⟩ := List.mem_iff_getElem.1 hrow
      rw [List.getElem_zipWith]
      exact decide_eq_true rfl
    have hnew : (ofChain (toString chainId) ((eventIds.zipWith (columns chainId) rows).map fun row =>
        (⟨row, false⟩ : OutboxEntry OutboxPayload))).map (·.row) =
          eventIds.zipWith (columns chainId) rows := by
      rw [ofChain, List.filter_map, List.map_map]
      simpa [Function.comp_def] using hown
    rw [ofChain, List.filter_append, List.map_append, ← ofChain, hcarried, ← ofChain, hnew, ← hrows,
      List.zipWith_append hbefore]

theorem Carried.append_other {chainId other : Nat} (hne : chainId ≠ other) {db : Database}
    {outbox : List (OutboxEntry OutboxPayload)} (h : Carried chainId db outbox) (eventIds : List Int)
    (rows : List Postgres.OutboxRow) :
    Carried chainId db (outbox ++ (eventIds.zipWith (columns other) rows).map fun row =>
      ⟨row, false⟩) := by
  obtain ⟨before, hbefore, hcarried⟩ := h
  refine ⟨before, hbefore, ?_⟩
  have hnone : (eventIds.zipWith (columns other) rows).filter
      (fun row => decide (row.chainId = toString chainId)) = [] := by
    refine List.filter_eq_nil_iff.2 fun row hrow => ?_
    obtain ⟨i, hi, rfl⟩ := List.mem_iff_getElem.1 hrow
    rw [List.getElem_zipWith]
    intro heq
    exact hne (toString_injective (of_decide_eq_true heq)).symm
  rw [ofChain, List.filter_append, List.map_append, ← ofChain, hcarried, List.filter_map]
  simpa [Function.comp_def] using hnone

/-- **A commit keeps the invariant.** -/
theorem World.Sound.commit (h : w.Sound) {chainId : Nat} {batch : DurableChainBatch}
    {report : ApplyReport} {db : Database}
    (hap : Postgres.applyBatch (w.databases chainId) batch = .ok (report, db)) {eventIds : List Int}
    (hlength : eventIds.length = (db.1.outbox.drop (w.databases chainId).1.outbox.length).length)
    {kafka : State OutboxPayload n}
    (hs : stepShared w.kafka (.append (eventIds.zipWith (columns chainId)
      (db.1.outbox.drop (w.databases chainId).1.outbox.length))) = some kafka) :
    World.Sound { databases := Function.update w.databases chainId db, kafka } := by
  refine ⟨Run.reach_step h.kafka hs, fun other => ?_, fun other => ?_⟩
  · show Traced (Function.update w.databases chainId db other).1
    by_cases ho : other = chainId
    · subst ho
      rw [Function.update_self]
      exact (h.traced other).applyBatch hap
    · rw [Function.update_of_ne ho]
      exact h.traced other
  · simp only [stepShared] at hs
    split at hs
    · cases hs
      show Carried other (Function.update w.databases chainId db other) _
      by_cases ho : other = chainId
      · subst ho
        rw [Function.update_self]
        exact (h.carried other).append (outbox_applyBatch hap) hlength
      · rw [Function.update_of_ne ho]
        exact (h.carried other).append_other ho eventIds _
    · cases hs

/-- A dispatcher's step keeps the invariant. -/
theorem World.Sound.dispatch (h : w.Sound) {action : Action OutboxPayload n}
    {kafka : State OutboxPayload n} (hno : ∀ rows, action ≠ .append rows)
    (hs : stepShared w.kafka action = some kafka) : World.Sound { w with kafka } := by
  refine ⟨Run.reach_step h.kafka hs, h.traced, fun chainId => (h.carried chainId).of_rows ?_⟩
  cases stepShared_cases hs with
  | inr hadvance => exact hadvance.choose_spec.rows
  | inl happend =>
    obtain ⟨rows, rfl, -⟩ := happend
    exact absurd rfl (hno rows)

/-- **Every step keeps the invariant.** -/
theorem World.step_sound (h : w.Sound) {event : Event n} (hs : w.step event = some w') : w'.Sound := by
  cases event with
  | applyBatch chainId batch eventIds =>
    simp only [World.step] at hs
    split at hs
    · cases hs
      exact h
    · rename_i report db hap
      split at hs
      · rename_i hlength
        obtain ⟨kafka, hkafka, rfl⟩ := Option.map_eq_some_iff.1 hs
        exact h.commit hap hlength hkafka
      · cases hs
  | dispatch action =>
    unfold World.step at hs
    split at hs
    · rename_i heq
      cases heq
    · cases hs
    · rename_i hno heq
      cases heq
      obtain ⟨kafka, hkafka, rfl⟩ := Option.map_eq_some_iff.1 hs
      exact h.dispatch hno hkafka

theorem World.run_sound (h : w.Sound) {events : List (Event n)} (hrun : w.run events = some w') :
    w'.Sound := Run.keeps (fun _ _ _ h hs => World.step_sound h hs) h hrun

theorem World.sound_init : (World.init : World n).Sound :=
  ⟨⟨[], rfl⟩, traced_empty, fun _ => ⟨[], rfl, rfl⟩⟩

/-! ## The view -/

/-- The messages of the first rows, and what they say. -/
theorem changes_of_prefix {chainId : Nat} {messages : List (KafkaOutboxMessage OutboxPayload)} :
    ∀ {eventIds : List Int} {rows : List Postgres.OutboxRow}, eventIds.length = rows.length →
      messages.map Except.ok <+: (eventIds.zipWith (columns chainId) rows).map rowToMessage →
        messages.map (·.change) =
          (rows.take messages.length).map fun row => row.change.map hashText := by
  induction messages with
  | nil => intros; rfl
  | cons message messages ih =>
    intro eventIds rows hlength hprefix
    cases rows with
    | nil =>
      rw [List.zipWith_nil_right] at hprefix
      cases List.prefix_nil.1 hprefix
    | cons row rows =>
      cases eventIds with
      | nil => cases hlength
      | cons eventId eventIds =>
        rw [List.zipWith_cons_cons, List.map_cons, List.map_cons, List.cons_prefix_cons] at hprefix
        obtain ⟨hrow, hrest⟩ := hprefix
        rw [List.map_cons, List.length_cons, List.take_succ_cons, List.map_cons,
          change_columns hrow.symm, ih (Nat.succ.inj hlength) hrest]

/-- Every marked row is among those the consumer knows. -/
theorem marked_le {J : Type} {outbox : List (OutboxEntry J)} {topic : List (KafkaOutboxMessage J)}
    (h : Delivered outbox topic) :
    outbox.countP (·.published) ≤ (firstSeen (·.eventId) [] topic).length := by
  have hsub : (outbox.filter (·.published)).map (·.row.eventId) ⊆
      (firstSeen (·.eventId) [] topic).map (·.eventId) := by
    intro eventId hid
    obtain ⟨entry, hentry, rfl⟩ := List.mem_map.1 hid
    obtain ⟨hmem, hp⟩ := List.mem_filter.1 hentry
    obtain ⟨message, hmessage, hrow⟩ := h.sent entry hmem hp
    obtain ⟨seen, hseen, hkey⟩ := exists_firstSeen hmessage (List.not_mem_nil (a := message.eventId))
    exact List.mem_map.2 ⟨seen, hseen, hkey.trans (rowToMessage_eventId hrow)⟩
  have hnodup : ((outbox.filter (·.published)).map (·.row.eventId)).Nodup :=
    List.pairwise_map.2 ((h.ascending.filter _).imp fun hlt => Int.ne_of_lt hlt)
  have hle := (List.subperm_of_subset hnodup hsub).length_le
  rwa [List.length_map, List.length_map, ← List.countP_eq_length_filter] at hle

/-- The view is that of the first rows of the chain's outbox, with all marked ones. -/
theorem World.Sound.view_prefix (h : w.Sound) (chainId : Nat) :
    ∃ k, (ofChain (toString chainId) w.kafka.outbox).countP (·.published) ≤ k ∧
      view (messagesOf (toString chainId) w.kafka.topic) =
        replay ∅ (((w.databases chainId).1.outbox.take k).map fun row => row.change.map hashText) := by
  obtain ⟨actions, hkafka⟩ := h.kafka
  obtain ⟨eventIds, hlength, hcarried⟩ := h.carried chainId
  have hdelivered : Delivered (ofChain (toString chainId) w.kafka.outbox)
      (messagesOf (toString chainId) w.kafka.topic) := by
    obtain ⟨v, ⟨own, hown⟩, hv⟩ := (runShared_shows actions hkafka).2 (toString chainId)
    have hv' := (Kafka.run_keeps Kafka.sound_init hown).delivered
    rwa [hv.outbox, hv.topic] at hv'
  -- The messages the consumer keeps are those of the first rows.
  have hprefix := hdelivered.firstSeen_prefix
  rw [← Function.comp_def rowToMessage (OutboxEntry.row (J := OutboxPayload)), ← List.map_map,
    hcarried] at hprefix
  exact ⟨_, marked_le hdelivered, by rw [view, changes_of_prefix hlength hprefix]⟩

/-- Once every row is marked, the view is the canonical set. -/
theorem World.Sound.view_marked (h : w.Sound) {chainId : Nat}
    (hall : ∀ entry ∈ ofChain (toString chainId) w.kafka.outbox, entry.published = true) :
    view (messagesOf (toString chainId) w.kafka.topic) =
      some (canonicalTexts (w.databases chainId).1) := by
  obtain ⟨k, hmarked, hview⟩ := h.view_prefix chainId
  obtain ⟨eventIds, hlength, hcarried⟩ := h.carried chainId
  have hk : (w.databases chainId).1.outbox.length ≤ k := by
    have hcount : (ofChain (toString chainId) w.kafka.outbox).countP (·.published) =
        (ofChain (toString chainId) w.kafka.outbox).length := List.countP_eq_length.2 hall
    have hrows := congrArg List.length hcarried
    rw [List.length_map, List.length_zipWith, hlength, Nat.min_self] at hrows
    omega
  rw [hview, List.take_of_length_le hk]
  exact replay_texts (h.traced chainId).logged

end

/-- **A consumer's view is a state of the tables.** After any calls of `apply_batch` by the writers
of any chains, those of one chain one after the other, and any attempts of the dispatchers: a
consumer of one chain that drops repeats meets no apply of a block it has and no rollback of one it
has not. What it holds is the canonical set of tables that satisfy the constraints and whose outbox
is a prefix of the chain's outbox, with all marked rows; when every row is marked it is the
canonical set of the chain's tables. -/
theorem view_exact {n : Nat} (events : List (Event n)) {w : World n}
    (hrun : World.init.run events = some w) (chainId : Nat) :
    let db := w.databases chainId
    let outbox := ofChain (toString chainId) w.kafka.outbox
    let topic := messagesOf (toString chainId) w.kafka.topic
    (∃ k, ∃ t : Tables, outbox.countP (·.published) ≤ k ∧ t.Valid ∧
      t.outbox = db.1.outbox.take k ∧ (∀ x ∈ t.headers, x ∈ db.1.headers) ∧
        view topic = some (canonicalTexts t)) ∧
      ((∀ entry ∈ outbox, entry.published = true) → view topic = some (canonicalTexts db.1)) := by
  intro db outbox topic
  have h := World.run_sound World.sound_init hrun
  refine ⟨?_, fun hall => h.view_marked hall⟩
  obtain ⟨k, hmarked, hview⟩ := h.view_prefix chainId
  obtain ⟨t, hv, hlogged, ht, hsub⟩ := (h.traced chainId).back k
  refine ⟨k, t, hmarked, hv, ht, hsub, ?_⟩
  rw [hview, ← ht]
  exact replay_texts hlogged

/-- A batch that applies one block at height 0. -/
def genesisBatch (hash : BlockHash) : DurableChainBatch where
  transition := .bootstrap
  commonAncestor := none
  events := [.apply {
    header := { height := 0, hash, parentHash := 0 }
    timestamp := 0
    status := .Safe
    statusSource := .Native
    logs := [] }]

/-- Two chains: one row is sent twice and marked, the other is sent once, its mark fails. -/
def twoChains : List (Event 1) :=
  [.applyBatch 1 (genesisBatch 7) [2], .dispatch (.start 0 none), .applyBatch 10 (genesisBatch 8) [1],
    .dispatch (.lock 0), .dispatch (.publish 0 2 (.ok ())), .dispatch (.mark 0), .dispatch (.commit 0),
    .dispatch (.start 0 none), .dispatch (.lock 0), .dispatch (.publish 0 1 (.ok ())),
    .dispatch (.fail 0)]

/-- `view_exact` for these events. -/
theorem view_exact_two : ∃ w, World.init.run twoChains = some w ∧
    w.kafka.topic.map (·.eventId) = [2, 2, 1] ∧
      view (messagesOf (toString 1) w.kafka.topic) = some (canonicalTexts (w.databases 1).1) := by
  have hrun : ((World.init.run twoChains).map fun w => (w.kafka.topic.map (·.eventId),
      (ofChain (toString 1) w.kafka.outbox).map (·.published))) = some ([2, 2, 1], [true]) := by
    decide +kernel
  obtain ⟨w, hw, hs⟩ := Option.map_eq_some_iff.1 hrun
  obtain ⟨hids, hmarks⟩ := Prod.mk.inj hs
  refine ⟨w, hw, hids, (view_exact twoChains hw 1).2 fun entry hentry => ?_⟩
  have hmem := List.mem_map_of_mem (f := (·.published)) hentry
  rw [hmarks] at hmem
  simpa using hmem

end Chainweave.Kafka
