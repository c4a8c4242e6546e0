import Chainweave.Sink.Chains

/-!
# Each row once, and the loop of a dispatcher

`crates/chainweave-sink/src/kafka.rs`: a dispatch loop calls `dispatch_once` until it is
cancelled or a call fails. The `UPDATE` of a call asks for a row that is not marked yet,
and a warning is there for the case that it finds none.

* `First.split`: the rows before the one in hand are marked, those after it are not.
* `settled`: the messages whose transactions commit, in a run of any number of dispatchers.
* `marked_once`: these are the messages of the first rows, each once, so that the `UPDATE`
  finds its row.
* `runUntilCancelled`: the loop of one dispatcher while the others rest. Each statement of a
  call may fail, and the last one may succeed unheard.
* `dispatched`: what it does, as a walk over the rows that are not marked.
* `loop_exact`: the loop does that. What stops it is the first row left, or the database.
-/
namespace Chainweave.Kafka

variable {J : Type} {n : Nat}

section
variable {outbox : List (OutboxEntry J)} {topic : List (KafkaOutboxMessage J)}
  {message : KafkaOutboxMessage J}

/-- The rows before the one in hand, and the rows after it. -/
theorem First.split (h : First outbox message) (hdelivered : Delivered outbox topic) :
    ∃ before entry after, outbox = before ++ entry :: after ∧ entry.published = false ∧
      rowToMessage entry.row = .ok message ∧ (∀ e ∈ before, e.published = true) ∧
      (∀ e ∈ after, e.published = false) := by
  obtain ⟨entry, hentry, hopen, hmessage⟩ := h.row
  obtain ⟨before, after, rfl⟩ := List.append_of_mem hentry
  obtain ⟨-, -, hbefore⟩ := List.pairwise_append.1 hdelivered.ascending
  obtain ⟨-, hmarks, -⟩ := List.pairwise_append.1 hdelivered.marks
  refine ⟨before, entry, after, rfl, hopen, hmessage, fun e he => ?_, fun e he => ?_⟩
  · have hlt := hbefore e he entry List.mem_cons_self
    have hid := rowToMessage_eventId hmessage
    exact h.before e (List.mem_append_left _ he) (hid ▸ hlt)
  · have hdown := (List.pairwise_cons.1 hmarks).1 e he
    cases hp : e.published with
    | false => rfl
    | true =>
      have := hdown hp
      rw [hopen] at this
      cases this

/-- A row that is marked, or another one, stays. -/
theorem mark_of_ne {entry : OutboxEntry J} {eventId : Int} (h : entry.row.eventId ≠ eventId) :
    entry.mark eventId = entry := by
  unfold OutboxEntry.mark
  rw [if_neg fun hboth => h hboth.1]

/-- The `UPDATE` finds the row in hand, and no other. -/
theorem markPublished_split {before after : List (OutboxEntry J)} {entry : OutboxEntry J}
    (h : Ascending (before ++ entry :: after)) (hopen : entry.published = false)
    (hid : entry.row.eventId = message.eventId) :
    markPublished message.eventId (before ++ entry :: after) =
      before ++ ⟨entry.row, true⟩ :: after := by
  obtain ⟨-, htail, hbefore⟩ := List.pairwise_append.1 h
  have hkeep : ∀ e ∈ before, e.mark message.eventId = e := fun e he => by
    have := hbefore e he entry List.mem_cons_self
    exact mark_of_ne (by omega)
  have hkeep' : ∀ e ∈ after, e.mark message.eventId = e := fun e he => by
    have := (List.pairwise_cons.1 htail).1 e he
    exact mark_of_ne (by omega)
  have hmark : entry.mark message.eventId = ⟨entry.row, true⟩ := by
    unfold OutboxEntry.mark
    rw [if_pos ⟨hid, hopen⟩]
  unfold markPublished
  rw [List.map_append, List.map_cons, hmark, List.map_congr_left hkeep, List.map_congr_left hkeep',
    List.map_id', List.map_id']

end

/-! ## Transactions that commit -/

/-- The message whose transaction a step commits. -/
def Action.settles (s : State J n) : Action J n → List (KafkaOutboxMessage J)
  | .commit d => (s.dispatchers d).message.toList
  | .lost d => (s.dispatchers d).message.toList
  | _ => []

/-- All of a run, in order. -/
def settled (s : State J n) : List (Action J n) → List (KafkaOutboxMessage J)
  | [] => []
  | action :: actions => action.settles s ++ ((step s action).map (settled · actions)).getD []

/-- The messages of the marked rows. -/
def markedMessages (outbox : List (OutboxEntry J)) :
    List (Except KafkaDispatchError (KafkaOutboxMessage J)) :=
  (outbox.filter (·.published)).map (rowToMessage ·.row)

section
variable {s s' : State J n} {d : Fin n}

theorem markedMessages_append (outbox : List (OutboxEntry J)) (rows : List (OutboxRow J)) :
    markedMessages (outbox ++ rows.map fun row => ⟨row, false⟩) = markedMessages outbox := by
  have hnone : (rows.map fun row => (⟨row, false⟩ : OutboxEntry J)).filter (·.published) = [] := by
    simp [List.filter_eq_nil_iff]
  unfold markedMessages
  rw [List.filter_append, hnone, List.append_nil]

theorem filter_split {before after : List (OutboxEntry J)} (hbefore : ∀ e ∈ before, e.published = true)
    (hafter : ∀ e ∈ after, e.published = false) :
    (before ++ after).filter (·.published) = before := by
  rw [List.filter_append, List.filter_eq_self.2 hbefore,
    List.filter_eq_nil_iff.2 fun e he => by simp [hafter e he], List.append_nil]

/-- A commit marks the next row. -/
theorem markedMessages_mark {message : KafkaOutboxMessage J} (h : First s.outbox message)
    (hdelivered : Delivered s.outbox s.topic) :
    markedMessages (markPublished message.eventId s.outbox) =
      markedMessages s.outbox ++ [.ok message] := by
  obtain ⟨before, entry, after, houtbox, hopen, hmessage, hbefore, hafter⟩ := h.split hdelivered
  have hascending := hdelivered.ascending
  rw [houtbox] at hascending ⊢
  have hmarked : ∀ e ∈ before ++ [⟨entry.row, true⟩], e.published = true := by
    intro e he
    cases List.mem_append.1 he with
    | inl hmem => exact hbefore e hmem
    | inr hmem =>
      rw [List.mem_singleton.1 hmem]
  unfold markedMessages
  rw [markPublished_split hascending hopen (rowToMessage_eventId hmessage).symm,
    filter_split hbefore (List.forall_mem_cons.2 ⟨hopen, hafter⟩), List.append_cons,
    filter_split hmarked hafter, List.map_append, List.map_singleton, hmessage]

/-- The transaction of the message in hand commits. -/
theorem settles_mark {message : KafkaOutboxMessage J} (h : s.Sound)
    (hphase : s.dispatchers d = .committing message) :
    markedMessages (markPublished message.eventId s.outbox) =
      markedMessages s.outbox ++ ((s.dispatchers d).message.toList).map .ok := by
  have hsound := h.phases d
  rw [hphase] at hsound
  rw [hphase]
  exact markedMessages_mark hsound.1 h.delivered

theorem lock_outbox {failure : Option KafkaDispatchFailurePoint} {candidates : List (OutboxRow J)}
    (hs : s.lock d failure candidates = some s') : s'.outbox = s.outbox := by
  unfold State.lock at hs
  cases candidates with
  | nil =>
    cases hs
    rfl
  | cons candidate rest =>
    dsimp only at hs
    split at hs
    · split at hs
      · cases hs
        rfl
      · cases hs
        rfl
    · cases hs

/-- A step marks what it settles. -/
theorem step_settles (h : s.Sound) {action : Action J n} (hs : step s action = some s') :
    markedMessages s'.outbox = markedMessages s.outbox ++ (action.settles s).map .ok := by
  have hkept : s'.outbox = s.outbox → action.settles s = [] →
      markedMessages s'.outbox = markedMessages s.outbox ++ (action.settles s).map .ok := by
    intro houtbox hnone
    rw [houtbox, hnone, List.map_nil, List.append_nil]
  cases action with
  | append rows =>
    simp only [step] at hs
    split at hs
    · cases hs
      rw [markedMessages_append]
      exact (List.append_nil _).symm
    · cases hs
  | commit d =>
    simp only [step] at hs
    split at hs
    · rename_i hphase
      cases hs
      exact settles_mark h hphase
    · cases hs
  | lost d =>
    simp only [step] at hs
    split at hs
    · rename_i hphase
      cases hs
      exact settles_mark h hphase
    · cases hs
  | start d failure =>
    refine hkept ?_ rfl
    simp only [step] at hs
    split at hs
    · cases hs
      rfl
    · cases hs
  | lock d =>
    refine hkept ?_ rfl
    simp only [step] at hs
    split at hs
    · exact lock_outbox hs
    · cases hs
  | publish d copies result =>
    refine hkept ?_ rfl
    simp only [step] at hs
    split at hs
    · split at hs
      · cases hs
      · cases hs
        rfl
    · cases hs
  | mark d =>
    refine hkept ?_ rfl
    simp only [step] at hs
    split at hs
    · cases hs
      rfl
    · cases hs
  | fail d =>
    refine hkept ?_ rfl
    simp only [step] at hs
    split at hs
    · cases hs
    · cases hs
      rfl

/-- A run marks what it settles. -/
theorem run_settles (h : s.Sound) (actions : List (Action J n)) (hrun : run s actions = some s') :
    markedMessages s'.outbox = markedMessages s.outbox ++ (settled s actions).map .ok := by
  induction actions generalizing s with
  | nil =>
    cases hrun
    exact (List.append_nil _).symm
  | cons action actions ih =>
    obtain ⟨next, hnext, hrun⟩ := Run.cons_some hrun
    have hsettled : settled s (action :: actions) = action.settles s ++ settled next actions := by
      simp only [settled, hnext]
      rfl
    rw [ih (step_keeps h hnext) hrun, step_settles h hnext, hsettled, List.map_append,
      List.append_assoc]

/-- The marked rows come first. -/
theorem marks_split {outbox : List (OutboxEntry J)}
    (h : outbox.Pairwise fun a b => b.published = true → a.published = true) :
    ∃ before after, outbox = before ++ after ∧ (∀ e ∈ before, e.published = true) ∧
      (∀ e ∈ after, e.published = false) := by
  induction outbox with
  | nil => exact ⟨[], [], rfl, by simp, by simp⟩
  | cons entry rest ih =>
    obtain ⟨hhead, htail⟩ := List.pairwise_cons.1 h
    cases hp : entry.published with
    | false =>
      refine ⟨[], entry :: rest, rfl, by simp, List.forall_mem_cons.2 ⟨hp, fun e he => ?_⟩⟩
      cases hmark : e.published with
      | false => rfl
      | true => exact absurd (hhead e he hmark) (by simp [hp])
    | true =>
      obtain ⟨before, after, rfl, hbefore, hafter⟩ := ih htail
      exact ⟨entry :: before, after, rfl, List.forall_mem_cons.2 ⟨hp, hbefore⟩, hafter⟩

/-- **Each row once.** In a run of any number of dispatchers, however their attempts fail, over an
outbox whose `event_id`s ascend in commit order, the transactions that commit have the messages of the
first rows of the outbox in hand, each row once and in order, and these rows are the marked ones. -/
theorem marked_once (actions : List (Action J n)) {s : State J n}
    (hrun : run State.init actions = some s) :
    (settled State.init actions).map .ok =
        (s.outbox.take (settled State.init actions).length).map (rowToMessage ·.row) ∧
      s.outbox.map (·.published) = List.replicate (settled State.init actions).length true ++
        List.replicate (s.outbox.length - (settled State.init actions).length) false := by
  have hmarked : markedMessages s.outbox = (settled State.init actions).map .ok :=
    run_settles sound_init actions hrun
  have hdelivered := (run_keeps sound_init hrun).delivered
  obtain ⟨before, after, houtbox, hbefore, hafter⟩ := marks_split hdelivered.marks
  have hmessages : (settled State.init actions).map .ok = before.map (rowToMessage ·.row) := by
    rw [← hmarked, houtbox, markedMessages, filter_split hbefore hafter]
  have hlength : (settled State.init actions).length = before.length := by
    simpa using congrArg List.length hmessages
  constructor
  · rw [hmessages, hlength, houtbox, List.take_left]
  · rw [hlength, houtbox, List.length_append, Nat.add_sub_cancel_left, List.map_append,
      List.eq_replicate_of_mem (a := true) (l := before.map (·.published)) (by simpa using hbefore),
      List.eq_replicate_of_mem (a := false) (l := after.map (·.published)) (by simpa using hafter),
      List.length_map, List.length_map]

/-- `marked_once` for two dispatchers that want the same row: three attempts, two marks. -/
theorem marked_once_retried : ∃ s, run State.init smallActions = some s ∧
    (settled State.init smallActions).map (·.eventId) = [1, 4] ∧
    s.outbox.map (·.published) = List.replicate (settled State.init smallActions).length true ++
      List.replicate (s.outbox.length - (settled State.init smallActions).length) false := by
  have hsome : (run State.init smallActions).isSome = true := by decide +kernel
  obtain ⟨s, hrun⟩ := Option.isSome_iff_exists.1 hsome
  exact ⟨s, hrun, by decide +kernel, (marked_once smallActions hrun).2⟩

end

/-! ## The loop -/

/-- Where the database fails a call. -/
inductive DatabaseFault where
  | begin
  | select
  | update
  | commit
  /-- the `COMMIT` happens, its answer gets lost -/
  | answer
  deriving DecidableEq, Repr

/-- What one turn of the loop meets: the token, what the producer does with a message, and the
statement that fails. -/
structure Turn where
  isCancelled : Bool
  copies : Nat
  result : Except String Unit
  fault : Option DatabaseFault

/-- A producer that reports success has delivered. -/
def Turn.Acknowledged (turn : Turn) : Prop :=
  ¬ (turn.result.toBool = true ∧ turn.copies = 0)

/-- No row is read. -/
def Turn.unread (turn : Turn) : Bool := turn.fault = some .begin || turn.fault = some .select

/-- The `COMMIT` has no answer. -/
def Turn.unanswered (turn : Turn) : Bool := turn.fault = some .commit || turn.fault = some .answer

/-- From the `UPDATE` on.
mirrors crates/chainweave-sink/src/kafka.rs:289-304 -/
def settle (s : State J n) (d : Fin n) (turn : Turn) : Option (State J n) :=
  if turn.fault = some .update then step s (.fail d)
  else
    (step s (.mark d)).bind fun marked =>
      if turn.fault = some .commit then step marked (.fail d)
      else if turn.fault = some .answer then step marked (.lost d)
      else step marked (.commit d)

/-- `dispatch_once`, while the others rest.
mirrors crates/chainweave-sink/src/kafka.rs:238-240, 254-316 -/
def dispatchOnce (s : State J n) (d : Fin n) (turn : Turn) : Option (State J n) :=
  (step s (.start d none)).bind fun selecting =>
    if turn.unread then step selecting (.fail d)
    -- an idle call commits, too
    else if (unpublishedRows s.outbox).isEmpty && turn.unanswered then step selecting (.fail d)
    else
      (step selecting (.lock d)).bind fun locked =>
        if (locked.dispatchers d).message.isNone then some locked
        else
          (step locked (.publish d turn.copies turn.result)).bind fun published =>
            if (published.dispatchers d).message.isNone then some published
            else settle published d turn

/-- What the loop returns, if it does.
mirrors crates/chainweave-sink/src/kafka.rs:211-231 -/
def runUntilCancelled (s : State J n) (d : Fin n) :
    List Turn → Option (State J n × Option (Except KafkaDispatchError Unit))
  | [] => some (s, none)
  | turn :: turns =>
    if turn.isCancelled then some (s, some (.ok ()))
    else
      (dispatchOnce s d turn).bind fun s =>
        match s.dispatchers d with
        | .returned (some (.error error)) => some (s, some (.error error))
        | _ => runUntilCancelled s d turns

/-- The work of a loop: rows delivered and marked, all that was sent, and what it returned. -/
structure Dispatched (J : Type) where
  delivered : List (KafkaOutboxMessage J)
  sent : List (KafkaOutboxMessage J)
  result : Option (Except KafkaDispatchError Unit)

/-- A walk over the rows. -/
def dispatched : List (OutboxRow J) → List Turn → Dispatched J
  | _, [] => ⟨[], [], none⟩
  | rows, turn :: turns =>
    if turn.isCancelled then ⟨[], [], some (.ok ())⟩
    else if turn.unread then ⟨[], [], some (.error .database)⟩
    else
      match rows with
      | [] => if turn.unanswered then ⟨[], [], some (.error .database)⟩ else dispatched [] turns
      | row :: rows =>
        match rowToMessage row, turn.result with
        | .error error, _ => ⟨[], [], some (.error error)⟩
        | .ok message, .error text =>
          ⟨[], List.replicate turn.copies message, some (.error (.publish message.eventId text))⟩
        | .ok message, .ok _ =>
          let sent := List.replicate turn.copies message
          let later := dispatched rows turns
          if turn.fault = some .update ∨ turn.fault = some .commit then
            ⟨[], sent, some (.error .database)⟩
          -- the row is marked, and the call does not know
          else if turn.fault = some .answer then ⟨[message], sent, some (.error .database)⟩
          else ⟨message :: later.delivered, sent ++ later.sent, later.result⟩

section
variable {s s' : State J n} {d : Fin n} {turn : Turn} {row : OutboxRow J} {rest : List (OutboxRow J)}
  {message : KafkaOutboxMessage J}

@[simp] theorem setPhase_self (s : State J n) (d : Fin n) (phase : Phase J) :
    (s.setPhase d phase).dispatchers d = phase := Function.update_self _ _ _

@[simp] theorem setPhase_outbox (s : State J n) (d : Fin n) (phase : Phase J) :
    (s.setPhase d phase).outbox = s.outbox := rfl

@[simp] theorem setPhase_topic (s : State J n) (d : Fin n) (phase : Phase J) :
    (s.setPhase d phase).topic = s.topic := rfl

@[simp] theorem setPhase_setPhase (s : State J n) (d : Fin n) (phase phase' : Phase J) :
    (s.setPhase d phase).setPhase d phase' = s.setPhase d phase' := by
  simp [State.setPhase]

/-- No dispatcher is at work. -/
def State.Rest (s : State J n) : Prop := ∀ d, ∃ result, s.dispatchers d = .returned result

theorem State.Rest.returns (h : s.Rest) (d : Fin n)
    (result : Option (Except KafkaDispatchError (KafkaDispatchOutcome J)))
    {outbox : List (OutboxEntry J)} {topic : List (KafkaOutboxMessage J)} :
    ({ s with outbox, topic }.setPhase d (.returned result)).Rest := by
  intro d'
  by_cases hd : d' = d
  · subst hd
    exact ⟨result, setPhase_self _ _ _⟩
  · obtain ⟨result', hd'⟩ := h d'
    exact ⟨result', (Function.update_of_ne hd _ _).trans hd'⟩

theorem State.Rest.start (h : s.Rest) (d : Fin n) (failure : Option KafkaDispatchFailurePoint) :
    step s (.start d failure) = some (s.setPhase d (.selecting failure (unpublishedRows s.outbox))) := by
  obtain ⟨result, hd⟩ := h d
  simp only [step, hd]

/-- The first row that is not marked, and its entry. -/
theorem unpublishedRows_cons (h : Ascending s.outbox) (hrows : unpublishedRows s.outbox = row :: rest) :
    ∃ entry ∈ s.outbox, entry.row = row ∧ entry.published = false := by
  have hmem : row ∈ unpublishedRows s.outbox := hrows ▸ List.mem_cons_self
  rw [unpublishedRows_eq h] at hmem
  obtain ⟨entry, hentry, rfl⟩ := List.mem_map.1 hmem
  obtain ⟨hentry, hopen⟩ := List.mem_filter.1 hentry
  exact ⟨entry, hentry, rfl, by simpa using hopen⟩

/-- At rest, the lock is free. -/
theorem State.Rest.lock (h : s.Rest) (hascending : Ascending s.outbox)
    (hrows : unpublishedRows s.outbox = row :: rest) :
    step (s.setPhase d (.selecting none (row :: rest))) (.lock d) =
      some (s.setPhase d (.locked none row)) := by
  obtain ⟨entry, hentry, rfl, hopen⟩ := unpublishedRows_cons hascending hrows
  have hfree : (s.setPhase d (.selecting none (entry.row :: rest))).Free entry.row.eventId := by
    intro d' message hmessage
    by_cases hd : d' = d
    · subst hd
      rw [setPhase_self] at hmessage
      cases hmessage
    · obtain ⟨result, hd'⟩ := h d'
      rw [show (s.setPhase d _).dispatchers d' = .returned result from
        (Function.update_of_ne hd _ _).trans hd'] at hmessage
      cases hmessage
  have hfound : s.outbox.find? (·.row.eventId = entry.row.eventId) = some entry := by
    cases hfind : s.outbox.find? (·.row.eventId = entry.row.eventId) with
    | none => simpa using List.find?_eq_none.1 hfind entry hentry
    | some other =>
      have hid := List.find?_some hfind
      rw [hascending.unique (List.mem_of_find?_eq_some hfind) hentry (by simpa using hid)]
  have hentryEq : entry = ⟨entry.row, false⟩ := by rw [← hopen]
  simp only [step, setPhase_self, State.lock, if_pos hfree, setPhase_outbox, hfound]
  rw [hentryEq]
  simp

/-! ### One call -/

/-- A call at work that fails. -/
theorem step_fail {phase : Phase J} (hphase : ∀ result, phase ≠ .returned result) :
    step (s.setPhase d phase) (.fail d) = some (s.setPhase d (.fail .database)) := by
  cases phase with
  | returned result => exact absurd rfl (hphase result)
  | selecting => simp [step]
  | publishing => simp [step]
  | marking => simp [step]
  | committing => simp [step]

theorem dispatchOnce_unread (h : s.Rest) (hread : turn.unread = true) :
    dispatchOnce s d turn = some (s.setPhase d (.fail .database)) := by
  unfold dispatchOnce
  rw [h.start d none, Option.bind_some, if_pos hread, step_fail (by simp)]

theorem dispatchOnce_idle (h : s.Rest) (hread : turn.unread = false)
    (hrows : unpublishedRows s.outbox = []) :
    dispatchOnce s d turn = some (s.setPhase d
      (if turn.unanswered then .fail .database else .returned (some (.ok .Idle)))) := by
  have hlock : step (s.setPhase d (.selecting none [])) (.lock d) =
      some (s.setPhase d (.returned (some (.ok .Idle)))) := by
    simp [step, State.lock]
  unfold dispatchOnce
  rw [h.start d none, Option.bind_some, if_neg (by simp [hread]), hrows]
  cases hanswer : turn.unanswered with
  | true =>
    rw [if_pos (by simp), if_pos rfl, step_fail (by simp)]
  | false => simp [hlock, Phase.message]

/-- A call that has a row goes on to lock it. -/
theorem dispatchOnce_row (h : s.Rest) (hascending : Ascending s.outbox) (hread : turn.unread = false)
    (hrows : unpublishedRows s.outbox = row :: rest) :
    dispatchOnce s d turn =
      if (Phase.locked none row).message.isNone then some (s.setPhase d (.locked none row))
      else
        (step (s.setPhase d (.locked none row)) (.publish d turn.copies turn.result)).bind
          fun published =>
            if (published.dispatchers d).message.isNone then some published
            else settle published d turn := by
  unfold dispatchOnce
  rw [h.start d none, Option.bind_some, if_neg (by simp [hread]), hrows, if_neg (by simp),
    h.lock hascending hrows, Option.bind_some, setPhase_self]

/-- A row that has no message. -/
theorem dispatchOnce_invalid (h : s.Rest) (hascending : Ascending s.outbox)
    (hread : turn.unread = false) (hrows : unpublishedRows s.outbox = row :: rest)
    {error : KafkaDispatchError} (hrow : rowToMessage row = .error error) :
    dispatchOnce s d turn = some (s.setPhase d (.fail error)) := by
  have hlocked : Phase.locked none row = .fail error := by simp [Phase.locked, hrow]
  rw [dispatchOnce_row h hascending hread hrows, hlocked]
  rfl

/-- A row that has one: what `publish` comes to. -/
theorem dispatchOnce_publish (h : s.Rest) (hascending : Ascending s.outbox)
    (hread : turn.unread = false) (hrows : unpublishedRows s.outbox = row :: rest)
    (hrow : rowToMessage row = .ok message) (hacked : turn.Acknowledged) :
    dispatchOnce s d turn =
      let published := { s with topic := s.topic ++ List.replicate turn.copies message }.setPhase d
        (.published none message turn.result)
      if turn.result.toBool then settle published d turn else some published := by
  have hlocked : Phase.locked none row = .publishing none message := by simp [Phase.locked, hrow]
  have hpublish : step (s.setPhase d (.publishing none message)) (.publish d turn.copies turn.result) =
      some ({ s with topic := s.topic ++ List.replicate turn.copies message }.setPhase d
        (.published none message turn.result)) := by
    simp only [step, setPhase_self]
    rw [if_neg hacked]
    simp [State.setPhase]
  rw [dispatchOnce_row h hascending hread hrows, hlocked, if_neg (by simp [Phase.message]), hpublish,
    Option.bind_some, setPhase_self]
  cases turn.result <;> simp [Phase.published, Phase.fail, Phase.message, Except.toBool]

theorem dispatchOnce_failed (h : s.Rest) (hascending : Ascending s.outbox)
    (hread : turn.unread = false) (hrows : unpublishedRows s.outbox = row :: rest)
    (hrow : rowToMessage row = .ok message) (hacked : turn.Acknowledged) {text : String}
    (hresult : turn.result = .error text) :
    dispatchOnce s d turn =
      some ({ s with topic := s.topic ++ List.replicate turn.copies message }.setPhase d
        (.fail (.publish message.eventId text))) := by
  rw [dispatchOnce_publish h hascending hread hrows hrow hacked, hresult]
  rfl

theorem dispatchOnce_acked (h : s.Rest) (hascending : Ascending s.outbox)
    (hread : turn.unread = false) (hrows : unpublishedRows s.outbox = row :: rest)
    (hrow : rowToMessage row = .ok message) (hacked : turn.Acknowledged)
    (hresult : turn.result = .ok ()) :
    dispatchOnce s d turn =
      settle ({ s with topic := s.topic ++ List.replicate turn.copies message }.setPhase d
        (.marking message)) d turn := by
  rw [dispatchOnce_publish h hascending hread hrows hrow hacked, hresult]
  rfl

theorem step_mark (s : State J n) (d : Fin n) (message : KafkaOutboxMessage J) :
    step (s.setPhase d (.marking message)) (.mark d) = some (s.setPhase d (.committing message)) := by
  simp [step]

/-- The `UPDATE` or the `COMMIT` fails: the row stays unmarked. -/
theorem settle_unmarked (hfault : turn.fault = some .update ∨ turn.fault = some .commit) :
    settle (s.setPhase d (.marking message)) d turn = some (s.setPhase d (.fail .database)) := by
  unfold settle
  by_cases hupdate : turn.fault = some .update
  · rw [if_pos hupdate, step_fail (by simp)]
  · rw [if_neg hupdate, step_mark, Option.bind_some, if_pos (hfault.resolve_left hupdate),
      step_fail (by simp)]

/-- Else it is marked, also where the answer gets lost. -/
theorem settle_marked (hfault : ¬ (turn.fault = some .update ∨ turn.fault = some .commit)) :
    settle (s.setPhase d (.marking message)) d turn =
      some ({ s with outbox := markPublished message.eventId s.outbox }.setPhase d
        (if turn.fault = some DatabaseFault.answer then .fail .database
        else .returned (some (.ok (.Delivered message))))) := by
  obtain ⟨hupdate, hcommit⟩ := not_or.1 hfault
  unfold settle
  rw [if_neg hupdate, step_mark, Option.bind_some, if_neg hcommit]
  by_cases hanswer : turn.fault = some .answer
  · rw [if_pos hanswer, if_pos hanswer]
    simp [step, State.setPhase]
  · rw [if_neg hanswer, if_neg hanswer]
    simp [step, State.setPhase]

theorem settle_keeps (h : s.Sound) (hs : settle s d turn = some s') : s'.Sound := by
  unfold settle at hs
  split at hs
  · exact step_keeps h hs
  · obtain ⟨marked, hmarked, hs⟩ := Option.bind_eq_some_iff.1 hs
    have hsound := step_keeps h hmarked
    split at hs
    · exact step_keeps hsound hs
    · split at hs
      · exact step_keeps hsound hs
      · exact step_keeps hsound hs

/-- A call keeps the invariant. -/
theorem dispatchOnce_keeps (h : s.Sound) (hs : dispatchOnce s d turn = some s') : s'.Sound := by
  unfold dispatchOnce at hs
  obtain ⟨selecting, hselecting, hs⟩ := Option.bind_eq_some_iff.1 hs
  have hsound := step_keeps h hselecting
  split at hs
  · exact step_keeps hsound hs
  · split at hs
    · exact step_keeps hsound hs
    · obtain ⟨locked, hlocked, hs⟩ := Option.bind_eq_some_iff.1 hs
      have hsound := step_keeps hsound hlocked
      split at hs
      · cases hs
        exact hsound
      · obtain ⟨published, hpublished, hs⟩ := Option.bind_eq_some_iff.1 hs
        have hsound := step_keeps hsound hpublished
        split at hs
        · cases hs
          exact hsound
        · exact settle_keeps hsound hs

/-- The rows that are left once the first is marked. -/
theorem unpublishedRows_mark (h : Delivered s.outbox s.topic)
    (hrows : unpublishedRows s.outbox = row :: rest) (hrow : rowToMessage row = .ok message) :
    unpublishedRows (markPublished message.eventId s.outbox) = rest := by
  obtain ⟨entry, hentry, hentryRow, hopen⟩ := unpublishedRows_cons h.ascending hrows
  have hscans := scans_unpublishedRows h.ascending
  rw [hrows] at hscans
  have hfirst : First s.outbox message :=
    hscans.first hentry (congrArg _ hentryRow) hopen (hentryRow ▸ hrow)
  obtain ⟨before, entry', after, houtbox, hopen', hmessage, hbefore, hafter⟩ := hfirst.split h
  have hascending := h.ascending
  have hnone : before.filter (!·.published) = [] :=
    List.filter_eq_nil_iff.2 fun e he => by simp [hbefore e he]
  have hall : after.filter (!·.published) = after :=
    List.filter_eq_self.2 fun e he => by simp [hafter e he]
  have hmarked : Ascending (markPublished message.eventId s.outbox) :=
    List.pairwise_map.2 (h.ascending.imp fun hlt => by simpa using hlt)
  rw [unpublishedRows_eq h.ascending] at hrows
  rw [unpublishedRows_eq hmarked]
  rw [houtbox] at hascending hrows ⊢
  rw [markPublished_split hascending hopen' (rowToMessage_eventId hmessage).symm]
  simp only [List.filter_append, hnone, List.nil_append, List.filter_cons, hopen', hall, Bool.not_false,
    Bool.not_true, if_true, List.map_cons] at hrows ⊢
  exact (List.cons.inj hrows).2

/-! ### All calls -/

/-- A call that returned: the loop goes on. -/
theorem runUntilCancelled_continues (hcancel : turn.isCancelled = false) {t : State J n}
    {outcome : KafkaDispatchOutcome J}
    (honce : dispatchOnce s d turn = some (t.setPhase d (.returned (some (.ok outcome)))))
    (turns : List Turn) :
    runUntilCancelled s d (turn :: turns) =
      runUntilCancelled (t.setPhase d (.returned (some (.ok outcome)))) d turns := by
  simp [runUntilCancelled, hcancel, honce]

/-- A call that failed: so does the loop. -/
theorem runUntilCancelled_stops (hcancel : turn.isCancelled = false) {t : State J n}
    {error : KafkaDispatchError} (honce : dispatchOnce s d turn = some (t.setPhase d (.fail error)))
    (turns : List Turn) :
    runUntilCancelled s d (turn :: turns) = some (t.setPhase d (.fail error), some (.error error)) := by
  simp [runUntilCancelled, hcancel, honce, Phase.fail]

/-- The state after the work. -/
structure Follows (s : State J n) (work : Dispatched J) (s' : State J n) : Prop where
  topic : s'.topic = s.topic ++ work.sent
  rows : s'.outbox.map (·.row) = s.outbox.map (·.row)
  left : unpublishedRows s'.outbox = (unpublishedRows s.outbox).drop work.delivered.length

/-! ### The walk -/

theorem dispatched_cancelled (rows : List (OutboxRow J)) (turns : List Turn)
    (hcancel : turn.isCancelled = true) :
    dispatched rows (turn :: turns) = ⟨[], [], some (.ok ())⟩ := by
  simp [dispatched, hcancel]

theorem dispatched_unread (rows : List (OutboxRow J)) (turns : List Turn)
    (hcancel : turn.isCancelled = false) (hread : turn.unread = true) :
    dispatched rows (turn :: turns) = ⟨[], [], some (.error .database)⟩ := by
  simp [dispatched, hcancel, hread]

theorem dispatched_idle (turns : List Turn) (hcancel : turn.isCancelled = false)
    (hread : turn.unread = false) :
    (dispatched [] (turn :: turns) : Dispatched J) =
      if turn.unanswered then ⟨[], [], some (.error .database)⟩ else dispatched [] turns := by
  simp [dispatched, hcancel, hread]

theorem dispatched_invalid (turns : List Turn) (hcancel : turn.isCancelled = false)
    (hread : turn.unread = false) {error : KafkaDispatchError} (hrow : rowToMessage row = .error error) :
    dispatched (row :: rest) (turn :: turns) = ⟨[], [], some (.error error)⟩ := by
  simp [dispatched, hcancel, hread, hrow]

theorem dispatched_failed (turns : List Turn) (hcancel : turn.isCancelled = false)
    (hread : turn.unread = false) (hrow : rowToMessage row = .ok message) {text : String}
    (hresult : turn.result = .error text) :
    dispatched (row :: rest) (turn :: turns) =
      ⟨[], List.replicate turn.copies message, some (.error (.publish message.eventId text))⟩ := by
  simp [dispatched, hcancel, hread, hrow, hresult]

theorem dispatched_acked (turns : List Turn) (hcancel : turn.isCancelled = false)
    (hread : turn.unread = false) (hrow : rowToMessage row = .ok message)
    (hresult : turn.result = .ok ()) :
    dispatched (row :: rest) (turn :: turns) =
      if turn.fault = some .update ∨ turn.fault = some .commit then
        ⟨[], List.replicate turn.copies message, some (.error .database)⟩
      else if turn.fault = some .answer then
        ⟨[message], List.replicate turn.copies message, some (.error .database)⟩
      else ⟨message :: (dispatched rest turns).delivered,
        List.replicate turn.copies message ++ (dispatched rest turns).sent,
        (dispatched rest turns).result⟩ := by
  simp only [dispatched, hcancel, hread, hrow, hresult, Bool.false_eq_true, if_false]

/-- No row left is before one that was sent. -/
theorem dispatched_ordered {rows : List (OutboxRow J)} (turns : List Turn)
    (hascending : rows.Pairwise fun a b => a.eventId < b.eventId) :
    ∀ message ∈ (dispatched rows turns).sent,
      ∀ row ∈ rows.drop (dispatched rows turns).delivered.length, message.eventId ≤ row.eventId := by
  induction turns generalizing rows with
  | nil => simp [dispatched]
  | cons turn turns ih =>
    cases hcancel : turn.isCancelled with
    | true => simp [dispatched_cancelled rows turns hcancel]
    | false =>
    cases hread : turn.unread with
    | true => simp [dispatched_unread rows turns hcancel hread]
    | false =>
    cases rows with
    | nil => simp
    | cons row rest =>
    obtain ⟨hhead, htail⟩ := List.pairwise_cons.1 hascending
    cases hrow : rowToMessage row with
    | error invalid => simp [dispatched_invalid turns hcancel hread hrow]
    | ok message =>
    have hid := rowToMessage_eventId hrow
    have hcopies : ∀ sent ∈ List.replicate turn.copies message, ∀ left ∈ row :: rest,
        sent.eventId ≤ left.eventId := by
      intro sent hsent left hleft
      rw [List.eq_of_mem_replicate hsent, hid]
      cases List.mem_cons.1 hleft with
      | inl heq => rw [heq]
      | inr hmem => exact Int.le_of_lt (hhead left hmem)
    cases hresult : turn.result with
    | error text =>
      rw [dispatched_failed turns hcancel hread hrow hresult]
      exact hcopies
    | ok =>
    rw [dispatched_acked turns hcancel hread hrow hresult]
    split
    · exact hcopies
    · split
      · exact fun sent hsent left hleft => hcopies sent hsent left (List.mem_cons_of_mem _ hleft)
      · intro sent hsent left hleft
        rw [List.length_cons, List.drop_succ_cons] at hleft
        cases List.mem_append.1 hsent with
        | inl hcopy =>
          exact hcopies sent hcopy left (List.mem_cons_of_mem _ (List.mem_of_mem_drop hleft))
        | inr hlater => exact ih htail sent hlater left hleft

/-- The first row left stops the walk, or the database does. -/
theorem dispatched_stopped {rows : List (OutboxRow J)} {turns : List Turn} {error : KafkaDispatchError}
    (h : (dispatched rows turns).result = some (.error error)) :
    (error = .database ∧ ∃ turn ∈ turns, turn.fault.isSome = true) ∨
      ∃ row rest, rows.drop (dispatched rows turns).delivered.length = row :: rest ∧
        (rowToMessage row = .error error ∨ ∃ text, error = .publish row.eventId text) := by
  induction turns generalizing rows with
  | nil => simp [dispatched] at h
  | cons turn turns ih =>
    have hdatabase : (some (.error .database) : Option (Except KafkaDispatchError Unit)) =
        some (.error error) → turn.fault.isSome = true →
        error = .database ∧ ∃ turn' ∈ turn :: turns, turn'.fault.isSome = true := by
      intro heq hfault
      cases heq
      exact ⟨rfl, turn, List.mem_cons_self, hfault⟩
    have hlater : (error = .database ∧ ∃ turn' ∈ turns, turn'.fault.isSome = true) →
        error = .database ∧ ∃ turn' ∈ turn :: turns, turn'.fault.isSome = true :=
      And.imp_right fun hex => hex.imp fun _ => And.imp_left (List.mem_cons_of_mem _)
    cases hcancel : turn.isCancelled with
    | true =>
      rw [dispatched_cancelled rows turns hcancel] at h
      cases h
    | false =>
    cases hread : turn.unread with
    | true =>
      rw [dispatched_unread rows turns hcancel hread] at h
      refine .inl (hdatabase h ?_)
      cases hfault : turn.fault with
      | none => simp [Turn.unread, hfault] at hread
      | some => rfl
    | false =>
    cases rows with
    | nil =>
      rw [dispatched_idle turns hcancel hread] at h ⊢
      cases hanswer : turn.unanswered with
      | true =>
        rw [hanswer, if_pos rfl] at h
        refine .inl (hdatabase h ?_)
        cases hfault : turn.fault with
        | none => simp [Turn.unanswered, hfault] at hanswer
        | some => rfl
      | false =>
        rw [hanswer, if_neg Bool.false_ne_true] at h
        rw [if_neg Bool.false_ne_true]
        exact (ih h).imp_left hlater
    | cons row rest =>
    cases hrow : rowToMessage row with
    | error invalid =>
      rw [dispatched_invalid turns hcancel hread hrow] at h ⊢
      cases h
      exact .inr ⟨row, rest, rfl, .inl hrow⟩
    | ok message =>
    cases hresult : turn.result with
    | error text =>
      rw [dispatched_failed turns hcancel hread hrow hresult] at h ⊢
      cases h
      exact .inr ⟨row, rest, rfl, .inr ⟨text, by rw [rowToMessage_eventId hrow]⟩⟩
    | ok =>
    rw [dispatched_acked turns hcancel hread hrow hresult] at h ⊢
    by_cases hfault : turn.fault = some .update ∨ turn.fault = some .commit
    · rw [if_pos hfault] at h
      exact .inl (hdatabase h (hfault.elim (by simp +contextual) (by simp +contextual)))
    rw [if_neg hfault] at h ⊢
    by_cases hanswer : turn.fault = some .answer
    · rw [if_pos hanswer] at h
      exact .inl (hdatabase h (by simp [hanswer]))
    · rw [if_neg hanswer] at h ⊢
      exact (ih h).imp_left hlater

/-- Turns enough, none of which is in the way. -/
theorem dispatched_all {rows : List (OutboxRow J)} {turns : List Turn}
    (hrows : ∀ row ∈ rows, ∃ message, rowToMessage row = .ok message)
    (hturns : ∀ turn ∈ turns, turn.isCancelled = false ∧ turn.result = .ok () ∧ turn.fault = none)
    (hlength : rows.length ≤ turns.length) :
    (dispatched rows turns).delivered.length = rows.length := by
  induction turns generalizing rows with
  | nil =>
    rw [List.eq_nil_of_length_eq_zero (Nat.le_zero.1 hlength)]
    rfl
  | cons turn turns ih =>
    obtain ⟨⟨hcancel, hresult, hfault⟩, hturns⟩ := List.forall_mem_cons.1 hturns
    have hread : turn.unread = false := by simp [Turn.unread, hfault]
    cases rows with
    | nil =>
      rw [dispatched_idle turns hcancel hread, if_neg (by simp [Turn.unanswered, hfault])]
      exact ih (by simp) hturns (Nat.zero_le _)
    | cons row rows =>
      obtain ⟨⟨message, hrow⟩, hrows⟩ := List.forall_mem_cons.1 hrows
      rw [dispatched_acked turns hcancel hread hrow hresult, if_neg (by simp [hfault]),
        if_neg (by simp [hfault]), List.length_cons, List.length_cons,
        ih hrows hturns (Nat.le_of_succ_le_succ hlength)]

/-! ### The loop and the walk -/

/-- The walk goes on from what a call left. -/
theorem Follows.delivered (h : s.Sound) (hrows : unpublishedRows s.outbox = row :: rest)
    (hrow : rowToMessage row = .ok message) {phase : Phase J}
    {sent delivered later : List (KafkaOutboxMessage J)}
    {result : Option (Except KafkaDispatchError Unit)}
    (hfollows : Follows ({ s with
        outbox := markPublished message.eventId s.outbox
        topic := s.topic ++ sent }.setPhase d phase) ⟨delivered, later, result⟩ s') :
    Follows s ⟨message :: delivered, sent ++ later, result⟩ s' := by
  have hleft := unpublishedRows_mark h.delivered hrows hrow
  refine ⟨?_, ?_, ?_⟩
  · rw [hfollows.topic, setPhase_topic, List.append_assoc]
  · rw [hfollows.rows, setPhase_outbox, map_row_markPublished]
  · rw [hfollows.left, setPhase_outbox, hleft, hrows, List.length_cons, List.drop_succ_cons]

theorem follows_refl (s : State J n) (result : Option (Except KafkaDispatchError Unit)) :
    Follows s ⟨[], [], result⟩ s := ⟨(List.append_nil _).symm, rfl, rfl⟩

/-- A message was sent, and no more happened. -/
theorem follows_sent (s : State J n) (d : Fin n) (phase : Phase J)
    (sent : List (KafkaOutboxMessage J)) (result : Option (Except KafkaDispatchError Unit)) :
    Follows s ⟨[], sent, result⟩ ({ s with topic := s.topic ++ sent }.setPhase d phase) :=
  ⟨rfl, rfl, rfl⟩

/-- A call ended, and no more happened. -/
theorem follows_returned (s : State J n) (d : Fin n) (phase : Phase J)
    (result : Option (Except KafkaDispatchError Unit)) :
    Follows s ⟨[], [], result⟩ (s.setPhase d phase) := ⟨(List.append_nil _).symm, rfl, rfl⟩

/-- The loop walks over the rows, from any state with the invariant. -/
theorem runUntilCancelled_follows (h : s.Sound) (hrest : s.Rest) (d : Fin n) (turns : List Turn)
    (hacked : ∀ turn ∈ turns, turn.Acknowledged) :
    ∃ s', runUntilCancelled s d turns =
        some (s', (dispatched (unpublishedRows s.outbox) turns).result) ∧
      Follows s (dispatched (unpublishedRows s.outbox) turns) s' := by
  induction turns generalizing s with
  | nil => exact ⟨s, rfl, follows_refl s none⟩
  | cons turn turns ih =>
    obtain ⟨hturn, hturns⟩ := List.forall_mem_cons.1 hacked
    have hascending := h.delivered.ascending
    cases hcancel : turn.isCancelled with
    | true =>
      rw [dispatched_cancelled _ turns hcancel]
      exact ⟨s, by simp [runUntilCancelled, hcancel], follows_refl s _⟩
    | false =>
    cases hread : turn.unread with
    | true =>
      rw [runUntilCancelled_stops hcancel (dispatchOnce_unread hrest hread),
        dispatched_unread _ turns hcancel hread]
      exact ⟨_, rfl, follows_returned s d _ _⟩
    | false =>
    cases hrows : unpublishedRows s.outbox with
    | nil =>
      have honce : dispatchOnce s d turn = _ := dispatchOnce_idle hrest hread hrows
      rw [dispatched_idle turns hcancel hread]
      cases hanswer : turn.unanswered with
      | true =>
        rw [hanswer, if_pos rfl] at honce
        rw [runUntilCancelled_stops hcancel honce, if_pos rfl]
        exact ⟨_, rfl, follows_returned s d _ _⟩
      | false =>
        rw [hanswer, if_neg Bool.false_ne_true] at honce
        obtain ⟨s', hrun, hfollows⟩ := ih (dispatchOnce_keeps h honce) (hrest.returns d _) hturns
        rw [setPhase_outbox, hrows] at hrun hfollows
        rw [runUntilCancelled_continues hcancel honce, if_neg Bool.false_ne_true]
        exact ⟨s', hrun, hfollows.topic, hfollows.rows, hfollows.left⟩
    | cons row rest =>
    cases hrow : rowToMessage row with
    | error error =>
      have honce : dispatchOnce s d turn = _ := dispatchOnce_invalid hrest hascending hread hrows hrow
      rw [runUntilCancelled_stops hcancel honce, dispatched_invalid turns hcancel hread hrow]
      exact ⟨_, rfl, follows_returned s d _ _⟩
    | ok message =>
    cases hresult : turn.result with
    | error text =>
      have honce : dispatchOnce s d turn = _ :=
        dispatchOnce_failed hrest hascending hread hrows hrow hturn hresult
      rw [runUntilCancelled_stops hcancel honce, dispatched_failed turns hcancel hread hrow hresult]
      exact ⟨_, rfl, follows_sent s d _ _ _⟩
    | ok =>
    have honce : dispatchOnce s d turn = _ :=
      dispatchOnce_acked hrest hascending hread hrows hrow hturn hresult
    rw [dispatched_acked turns hcancel hread hrow hresult]
    by_cases hfault : turn.fault = some .update ∨ turn.fault = some .commit
    · rw [settle_unmarked hfault] at honce
      rw [runUntilCancelled_stops hcancel honce, if_pos hfault]
      exact ⟨_, rfl, follows_sent s d _ _ _⟩
    rw [settle_marked hfault] at honce
    rw [if_neg hfault]
    by_cases hanswer : turn.fault = some .answer
    · rw [if_pos hanswer] at honce
      rw [runUntilCancelled_stops hcancel honce, if_pos hanswer]
      have hmarked := @Follows.delivered _ _ s _ d _ _ message h hrows hrow (.fail .database)
        (List.replicate turn.copies message) [] [] (some (.error .database)) (follows_refl _ _)
      rw [List.append_nil] at hmarked
      exact ⟨_, rfl, hmarked⟩
    · rw [if_neg hanswer] at honce
      obtain ⟨s', hrun, hfollows⟩ := ih (dispatchOnce_keeps h honce) (hrest.returns d _) hturns
      have hleft := unpublishedRows_mark h.delivered hrows hrow
      rw [setPhase_outbox, hleft] at hrun hfollows
      rw [runUntilCancelled_continues hcancel honce, if_neg hanswer]
      exact ⟨s', hrun, Follows.delivered h hrows hrow hfollows⟩

/-- **The loop.** From any state that the writer and the dispatchers reach, a dispatcher that loops
while the others rest walks over the rows that are not marked: it sends and marks one after the
other, in `event_id` order, and leaves the rest, and no row left is before one it sent. An error it
returns is of the first row left, or of the database; a row whose `COMMIT` has its answer lost is
not left. With enough calls that succeed, no row is left. -/
theorem loop_exact (actions : List (Action J n)) {s : State J n}
    (hrun : run State.init actions = some s) (hrest : s.Rest) (d : Fin n) (turns : List Turn)
    (hacked : ∀ turn ∈ turns, turn.Acknowledged) :
    ∃ s', runUntilCancelled s d turns =
        some (s', (dispatched (unpublishedRows s.outbox) turns).result) ∧
      Follows s (dispatched (unpublishedRows s.outbox) turns) s' ∧
      (∀ message ∈ (dispatched (unpublishedRows s.outbox) turns).sent,
        ∀ row ∈ unpublishedRows s'.outbox, message.eventId ≤ row.eventId) ∧
      (∀ error, (dispatched (unpublishedRows s.outbox) turns).result = some (.error error) →
        (error = .database ∧ ∃ turn ∈ turns, turn.fault.isSome = true) ∨
          ∃ row rest, unpublishedRows s'.outbox = row :: rest ∧
            (rowToMessage row = .error error ∨ ∃ text, error = .publish row.eventId text)) ∧
      ((∀ row ∈ unpublishedRows s.outbox, ∃ message, rowToMessage row = .ok message) →
        (∀ turn ∈ turns, turn.isCancelled = false ∧ turn.result = .ok () ∧ turn.fault = none) →
        (unpublishedRows s.outbox).length ≤ turns.length → unpublishedRows s'.outbox = []) := by
  have h := run_keeps sound_init hrun
  obtain ⟨s', hloop, hfollows⟩ := runUntilCancelled_follows h hrest d turns hacked
  refine ⟨s', hloop, hfollows, ?_, fun error herror => ?_, fun hrows hturns hlength => ?_⟩
  · rw [hfollows.left]
    exact dispatched_ordered turns (scans_unpublishedRows h.delivered.ascending).ascending
  · rw [hfollows.left]
    exact dispatched_stopped herror
  · rw [hfollows.left, dispatched_all hrows hturns hlength, List.drop_length]

end

/-- Three rows. -/
def threeRows : List (OutboxRow Unit) := [smallRow 1 0, smallRow 4 1, smallRow 6 2]

/-- `loop_exact` where the answer to the second `COMMIT` gets lost, and where the second row is
refused: the one is marked, the other stays first. -/
theorem loop_exact_unanswered :
    ∃ s s' s'', run (State.init (n := 2)) [.append threeRows] = some s ∧
      runUntilCancelled s 0 [⟨false, 1, .ok (), none⟩, ⟨false, 2, .ok (), some .answer⟩] =
        some (s', some (.error .database)) ∧
      s'.topic.map (·.eventId) = [1, 4, 4] ∧ (unpublishedRows s'.outbox).map (·.eventId) = [6] ∧
      runUntilCancelled s 0 [⟨false, 1, .ok (), none⟩, ⟨false, 2, .error "timed out", none⟩] =
        some (s'', some (.error (.publish 4 "timed out"))) ∧
      s''.topic.map (·.eventId) = [1, 4, 4] ∧
        (unpublishedRows s''.outbox).map (·.eventId) = [4, 6] := by
  have hsome : (run (State.init (n := 2)) [.append threeRows]).map (·.outbox) =
      some (threeRows.map fun row => ⟨row, false⟩) := by decide +kernel
  obtain ⟨s, hrun, houtbox⟩ := Option.map_eq_some_iff.1 hsome
  have hrest : s.Rest := by
    have hstep : step (State.init (n := 2)) (.append threeRows) = some s := by
      simpa [run] using hrun
    simp only [step] at hstep
    split at hstep
    · cases hstep
      exact fun _ => ⟨none, rfl⟩
    · cases hstep
  have htopic : s.topic = [] := by
    have hsent : (run (State.init (n := 2)) [.append threeRows]).map (·.topic) = some [] := by
      decide +kernel
    simpa [hrun] using hsent
  obtain ⟨s', hloop, hfollows, -⟩ := loop_exact _ hrun hrest 0
    [⟨false, 1, .ok (), none⟩, ⟨false, 2, .ok (), some .answer⟩]
    (by simp [Turn.Acknowledged, Except.toBool])
  obtain ⟨s'', hloop', hfollows', -⟩ := loop_exact _ hrun hrest 0
    [⟨false, 1, .ok (), none⟩, ⟨false, 2, .error "timed out", none⟩]
    (by simp [Turn.Acknowledged, Except.toBool])
  rw [houtbox] at hloop hloop'
  refine ⟨s, s', s'', hrun, hloop, ?_, ?_, hloop', ?_, ?_⟩
  · rw [hfollows.topic, htopic, houtbox]
    decide +kernel
  · rw [hfollows.left, houtbox]
    decide +kernel
  · rw [hfollows'.topic, htopic, houtbox]
    decide +kernel
  · rw [hfollows'.left, houtbox]
    decide +kernel

end Chainweave.Kafka
