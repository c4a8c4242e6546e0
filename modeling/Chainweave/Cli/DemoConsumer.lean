import Chainweave.Lib.Run
import Chainweave.Sink.Message

/-!
# The demo consumer

`crates/chainweave-cli/src/main.rs`: `run_kafka_demo_consumer` prints a line for each
event that it has not seen, and commits the offset of every message after that. A run
starts at the committed offsets, knows of no event, and can end at any point.

* `step`: the loop, one `await` after the other; the broker takes new messages meanwhile.
* `Sound`: what is committed was printed.
* `Prints`: the lines that a run prints, from its start on.
* `demo_loses_nothing`: over any runs, every event that is committed was printed, and the
  lines of a run are of distinct events. What cannot be read is never passed.
* `prints_rows`: of messages of the dispatchers, the lines are those of the outbox rows.
-/
namespace Chainweave.DemoConsumer

open Serde Kafka

/-- The payload of a message, if it has one. -/
abbrev Payload := Option (List UInt8)

inductive ConsumerError where
  | receive
  | decode
  | missingEventId
  | commit
  deriving DecidableEq, Repr

/-- The locals of a run: where it is in each partition, and the events it has seen. -/
structure Session (p : Nat) where
  position : Fin p → Nat
  seen : List Int

inductive Process (p : Nat) where
  | stopped (result : Option (Except ConsumerError Unit))
  | receiving (session : Session p)
  | committing (session : Session p) (partition : Fin p)

def Process.session {p : Nat} : Process p → Option (Session p)
  | .stopped _ => none
  | .receiving session => some session
  | .committing session _ => some session

structure State (p : Nat) where
  topic : Fin p → List Payload
  committed : Fin p → Nat
  /-- the lines, with their events -/
  printed : List (Int × String)
  process : Process p

inductive Action (p : Nat) where
  /-- a message arrives at the broker -/
  | produce (partition : Fin p) (payload : Payload)
  | start
  /-- the limit is reached -/
  | finish
  | receive (partition : Fin p)
  | receiveFails
  | commit
  /-- the broker has it or not -/
  | commitFails (recorded : Bool)
  | crash

section
variable (fromSlice : List UInt8 → Option Value) (maxMessages : Option Nat)

/-- mirrors crates/chainweave-cli/src/main.rs:633-638 -/
def readEvent (payload : List UInt8) : Except ConsumerError (Int × Value) :=
  match fromSlice payload with
  | none => .error .decode
  | some value =>
    match (value.get "event_id").bind Value.asI64 with
    | none => .error .missingEventId
    | some eventId => .ok (eventId, value)

/-- mirrors crates/chainweave-cli/src/main.rs:619-621 -/
def atLimit (seen : List Int) : Bool := maxMessages.any (· ≤ seen.length)

namespace State
variable {p : Nat}

def init : State p where
  topic _ := []
  committed _ := 0
  printed := []
  process := .stopped none

/-- A message in hand.
mirrors crates/chainweave-cli/src/main.rs:626-641 -/
def handle (s : State p) (session : Session p) (partition : Fin p) : Payload → State p
  | none => { s with process := .committing session partition }
  | some payload =>
    match readEvent fromSlice payload with
    | .error error => { s with process := .stopped (some (.error error)) }
    | .ok (eventId, value) =>
      if eventId ∈ session.seen then { s with process := .committing session partition }
      else
        { s with
          printed := s.printed ++ [(eventId, renderDemoConsumerEvent value)]
          process := .committing { session with seen := session.seen ++ [eventId] } partition }

/-- The broker takes the offset. -/
def commitOffset (s : State p) (session : Session p) (partition : Fin p) : State p :=
  { s with committed := Function.update s.committed partition (session.position partition + 1) }

/-- mirrors crates/chainweave-cli/src/main.rs:599-646 -/
def step (s : State p) : Action p → Option (State p)
  | .produce partition payload =>
    some { s with topic := Function.update s.topic partition (s.topic partition ++ [payload]) }
  | .start =>
    match s.process with
    | .stopped _ => some { s with process := .receiving ⟨s.committed, []⟩ }
    | _ => none
  | .finish =>
    match s.process with
    | .receiving session =>
      if atLimit maxMessages session.seen then some { s with process := .stopped (some (.ok ())) }
      else none
    | _ => none
  | .receive partition =>
    match s.process with
    | .receiving session =>
      if atLimit maxMessages session.seen then none
      else
        (s.topic partition)[session.position partition]?.map fun payload =>
          s.handle fromSlice session partition payload
    | _ => none
  | .receiveFails =>
    match s.process with
    | .receiving session =>
      if atLimit maxMessages session.seen then none
      else some { s with process := .stopped (some (.error .receive)) }
    | _ => none
  | .commit =>
    match s.process with
    | .committing session partition =>
      some { s.commitOffset session partition with
        process := .receiving { session with
          position := Function.update session.position partition (session.position partition + 1) } }
    | _ => none
  | .commitFails recorded =>
    match s.process with
    | .committing session partition =>
      let s := if recorded then s.commitOffset session partition else s
      some { s with process := .stopped (some (.error .commit)) }
    | _ => none
  | .crash => some { s with process := .stopped none }

def run (s : State p) (actions : List (Action p)) : Option (State p) :=
  actions.foldlM (step fromSlice maxMessages) s

end State

end

/-! ## What holds at every point -/

section
variable {fromSlice : List UInt8 → Option Value} {maxMessages : Option Nat} {p : Nat}

/-- Nothing is left to do for a message. -/
def Handled (fromSlice : List UInt8 → Option Value) (printed : List (Int × String)) : Payload → Prop
  | none => True
  | some payload => ∃ eventId value, readEvent fromSlice payload = .ok (eventId, value) ∧
      eventId ∈ printed.map (·.1)

/-- A line is one of a message of the topic. -/
def Printed (fromSlice : List UInt8 → Option Value) (topic : Fin p → List Payload)
    (line : Int × String) : Prop :=
  ∃ partition payload value, some payload ∈ topic partition ∧
    readEvent fromSlice payload = .ok (line.1, value) ∧ line.2 = renderDemoConsumerEvent value

/-- Why a run failed: at the broker, or over a message that cannot be read. -/
def Explained (fromSlice : List UInt8 → Option Value) (topic : Fin p → List Payload)
    (error : ConsumerError) : Prop :=
  error = .receive ∨ error = .commit ∨ ∃ partition payload, some payload ∈ topic partition ∧
    readEvent fromSlice payload = .error error

/-- A run goes on from the committed offsets, and printed what it has seen. -/
structure Session.Sound (committed : Fin p → Nat) (printed : List (Int × String))
    (session : Session p) : Prop where
  position : session.position = committed
  seen : session.seen ⊆ printed.map (·.1)

/-- **The invariant.** -/
structure State.Sound (fromSlice : List UInt8 → Option Value) (s : State p) : Prop where
  bounded : ∀ partition, s.committed partition ≤ (s.topic partition).length
  handled : ∀ partition, ∀ payload ∈ (s.topic partition).take (s.committed partition),
    Handled fromSlice s.printed payload
  lines : ∀ line ∈ s.printed, Printed fromSlice s.topic line
  receiving : ∀ session, s.process = .receiving session → session.Sound s.committed s.printed
  committing : ∀ session partition, s.process = .committing session partition →
    session.Sound s.committed s.printed ∧
    ∃ payload, (s.topic partition)[s.committed partition]? = some payload ∧
      Handled fromSlice s.printed payload
  stopped : ∀ error, s.process = .stopped (some (.error error)) → Explained fromSlice s.topic error

theorem Handled.mono {printed : List (Int × String)} {payload : Payload}
    (h : Handled fromSlice printed payload) (more : List (Int × String)) :
    Handled fromSlice (printed ++ more) payload := by
  cases payload with
  | none => trivial
  | some payload =>
    obtain ⟨eventId, value, hread, hmem⟩ := h
    exact ⟨eventId, value, hread, by rw [List.map_append]; exact List.mem_append_left _ hmem⟩

theorem sound_init : (State.init : State p).Sound fromSlice where
  bounded _ := Nat.le_refl 0
  handled _ _ h := by cases h
  lines _ h := by cases h
  receiving _ h := by cases h
  committing _ _ h := by cases h
  stopped _ h := by cases h

namespace State.Sound
variable {s s' : State p} {session : Session p} {partition : Fin p}

/-- A run that stops leaves all as it is. -/
theorem stop (h : s.Sound fromSlice) {result : Option (Except ConsumerError Unit)}
    (hresult : ∀ error, result = some (.error error) → Explained fromSlice s.topic error) :
    ({ s with process := .stopped result } : State p).Sound fromSlice := by
  refine ⟨h.bounded, h.handled, h.lines, fun _ heq => (by cases heq), fun _ _ heq => (by cases heq),
    fun error heq => ?_⟩
  cases heq
  exact hresult error rfl

theorem produce (h : s.Sound fromSlice) (partition : Fin p) (payload : Payload) :
    ({ s with topic := Function.update s.topic partition (s.topic partition ++ [payload]) } :
      State p).Sound fromSlice := by
  have hgrown : ∀ k, s.topic k <+: Function.update s.topic partition (s.topic partition ++ [payload]) k := by
    intro k
    by_cases hk : k = partition
    · subst hk
      rw [Function.update_self]
      exact List.prefix_append _ _
    · rw [Function.update_of_ne hk]
  refine ⟨fun k => Nat.le_trans (h.bounded k) (hgrown k).length_le, fun k payload' hmem => ?_,
    fun line hline => ?_, h.receiving, fun session k hprocess => ?_, fun error hprocess => ?_⟩
  · obtain ⟨rest, hrest⟩ := hgrown k
    dsimp only at hmem
    rw [← hrest, List.take_append_of_le_length (h.bounded k)] at hmem
    exact h.handled k payload' hmem
  · obtain ⟨k, bytes, value, hmem, hread, hrender⟩ := h.lines line hline
    exact ⟨k, bytes, value, (hgrown k).subset hmem, hread, hrender⟩
  · obtain ⟨hsession, payload', hget, hhandled⟩ := h.committing session k hprocess
    obtain ⟨rest, hrest⟩ := hgrown k
    have hlt := (List.getElem?_eq_some_iff.1 hget).1
    refine ⟨hsession, payload', ?_, hhandled⟩
    dsimp only
    rwa [← hrest, List.getElem?_append_left hlt]
  · obtain hbroker | hbroker | ⟨k, bytes, hmem, hread⟩ := h.stopped error hprocess
    · exact .inl hbroker
    · exact .inr (.inl hbroker)
    · exact .inr (.inr ⟨k, bytes, (hgrown k).subset hmem, hread⟩)

/-- A message is received: it is handled before the offset is committed. -/
theorem handle (h : s.Sound fromSlice) (hprocess : s.process = .receiving session)
    {payload : Payload}
    (hget : (s.topic partition)[session.position partition]? = some payload) :
    (s.handle fromSlice session partition payload).Sound fromSlice := by
  have hsession := h.receiving session hprocess
  rw [hsession.position] at hget
  have hpass : Handled fromSlice s.printed payload →
      ({ s with process := .committing session partition } : State p).Sound fromSlice := by
    intro hhandled
    refine ⟨h.bounded, h.handled, h.lines, fun _ heq => (by cases heq), fun other k heq => ?_,
      fun _ heq => (by cases heq)⟩
    cases heq
    exact ⟨hsession, payload, hget, hhandled⟩
  cases payload with
  | none => exact hpass trivial
  | some payload =>
    have hmem : some payload ∈ s.topic partition := List.mem_of_getElem? hget
    simp only [State.handle]
    cases hread : readEvent fromSlice payload with
    | error error =>
      refine h.stop fun other heq => ?_
      cases heq
      exact .inr (.inr ⟨partition, payload, hmem, hread⟩)
    | ok event =>
      obtain ⟨eventId, value⟩ := event
      dsimp only
      split
      · rename_i hseen
        exact hpass ⟨eventId, value, hread, hsession.seen hseen⟩
      · rename_i hnew
        refine ⟨h.bounded, fun k other hother => (h.handled k other hother).mono _, fun line hline => ?_,
          fun _ heq => (by cases heq), fun other k heq => ?_, fun _ heq => (by cases heq)⟩
        · cases List.mem_append.1 hline with
          | inl hold => exact h.lines line hold
          | inr hline =>
            rw [List.mem_singleton.1 hline]
            exact ⟨partition, payload, value, hmem, hread, rfl⟩
        · cases heq
          refine ⟨⟨hsession.position, ?_⟩, some payload, hget, eventId, value, hread, by simp⟩
          rw [List.map_append]
          exact List.append_subset.2
            ⟨List.subset_append_of_subset_left _ hsession.seen, List.subset_append_right _ _⟩

/-- The broker takes the offset of a message that is handled. -/
theorem commitOffset (h : s.Sound fromSlice)
    (hprocess : s.process = .committing session partition) {process : Process p}
    (hreceiving : ∀ other, process = .receiving other →
      other = { session with
        position := Function.update session.position partition (session.position partition + 1) })
    (hcommitting : ∀ other k, process ≠ .committing other k)
    (hstopped : ∀ error, process = .stopped (some (.error error)) → error = .commit) :
    ({ s.commitOffset session partition with process } : State p).Sound fromSlice := by
  obtain ⟨hsession, payload, hget, hhandled⟩ := h.committing session partition hprocess
  have hlt := (List.getElem?_eq_some_iff.1 hget).1
  refine ⟨fun k => ?_, fun k other hmem => ?_, h.lines, fun other heq => ?_,
    fun other k heq => absurd heq (hcommitting other k), fun error heq => .inr (.inl (hstopped error heq))⟩
  · by_cases hk : k = partition
    · subst hk
      simp only [State.commitOffset, Function.update_self, hsession.position]
      exact hlt
    · simp only [State.commitOffset, Function.update_of_ne hk]
      exact h.bounded k
  · by_cases hk : k = partition
    · subst hk
      simp only [State.commitOffset, Function.update_self, hsession.position, List.take_add_one, hget,
        Option.toList_some] at hmem
      cases List.mem_append.1 hmem with
      | inl hold => exact h.handled k other hold
      | inr hnew =>
        rw [List.mem_singleton.1 hnew]
        exact hhandled
    · simp only [State.commitOffset, Function.update_of_ne hk] at hmem
      exact h.handled k other hmem
  · rw [hreceiving other heq]
    exact ⟨by simp [State.commitOffset, hsession.position], hsession.seen⟩

end State.Sound

/-- Every step keeps the invariant. -/
theorem step_keeps {s s' : State p} (h : s.Sound fromSlice) {action : Action p}
    (hs : s.step fromSlice maxMessages action = some s') : s'.Sound fromSlice := by
  cases action with
  | produce partition payload =>
    cases hs
    exact h.produce partition payload
  | start =>
    simp only [State.step] at hs
    split at hs
    · cases hs
      refine ⟨h.bounded, h.handled, h.lines, fun session heq => ?_, fun _ _ heq => (by cases heq),
        fun _ heq => (by cases heq)⟩
      cases heq
      exact ⟨rfl, List.nil_subset _⟩
    · cases hs
  | finish =>
    simp only [State.step] at hs
    split at hs
    · split at hs
      · cases hs
        exact h.stop fun _ heq => (by cases heq)
      · cases hs
    · cases hs
  | receive partition =>
    simp only [State.step] at hs
    split at hs
    · rename_i session hprocess
      split at hs
      · cases hs
      · obtain ⟨payload, hget, hhandle⟩ := Option.map_eq_some_iff.1 hs
        subst hhandle
        exact h.handle hprocess hget
    · cases hs
  | receiveFails =>
    simp only [State.step] at hs
    split at hs
    · split at hs
      · cases hs
      · cases hs
        refine h.stop fun _ heq => ?_
        cases heq
        exact .inl rfl
    · cases hs
  | commit =>
    simp only [State.step] at hs
    split at hs
    · rename_i session partition hprocess
      cases hs
      refine h.commitOffset hprocess (fun other heq => ?_) (fun _ _ heq => (by cases heq))
        fun _ heq => (by cases heq)
      cases heq
      rfl
    · cases hs
  | commitFails recorded =>
    simp only [State.step] at hs
    split at hs
    · rename_i session partition hprocess
      cases hs
      cases recorded with
      | true =>
        refine h.commitOffset hprocess (fun _ heq => (by cases heq)) (fun _ _ heq => (by cases heq))
          fun _ heq => ?_
        cases heq
        rfl
      | false =>
        refine h.stop fun _ heq => ?_
        cases heq
        exact .inr (.inl rfl)
    · cases hs
  | crash =>
    cases hs
    exact h.stop fun _ heq => (by cases heq)

theorem run_keeps {actions : List (Action p)} {s : State p}
    (hrun : State.init.run fromSlice maxMessages actions = some s) : s.Sound fromSlice :=
  Run.keeps (fun _ _ _ h hs => step_keeps h hs) sound_init hrun

/-! ## The lines of a run -/

/-- After the lines of the runs before, those of the last: an event each, as many as the limit
allows, and exactly as many once it has ended of itself. These events it has seen. -/
structure State.Prints (maxMessages : Option Nat) (earlier lines : List (Int × String))
    (s : State p) : Prop where
  printed : s.printed = earlier ++ lines
  nodup : (lines.map (·.1)).Nodup
  limit : ∀ limit ∈ maxMessages, lines.length ≤ limit
  seen : ∀ session, s.process.session = some session → session.seen = lines.map (·.1)
  full : s.process = .stopped (some (.ok ())) → lines.length ∈ maxMessages

namespace State.Prints
variable {earlier lines : List (Int × String)} {s s' : State p} {session : Session p}

/-- A run that ends, not of itself, prints no more. -/
theorem stop (h : s.Prints maxMessages earlier lines) {result : Option (Except ConsumerError Unit)}
    (hresult : result ≠ some (.ok ())) :
    ({ s with process := .stopped result } : State p).Prints maxMessages earlier lines := by
  refine ⟨h.printed, h.nodup, h.limit, fun _ heq => (by cases heq), fun heq => ?_⟩
  cases heq
  exact absurd rfl hresult

/-- A run that goes on with the events it has seen. -/
theorem go (h : s.Prints maxMessages earlier lines) {process : Process p}
    (hsession : s.process.session = some session)
    (hprocess : process.session.map (·.seen) = some session.seen) :
    ({ s with process } : State p).Prints maxMessages earlier lines := by
  refine ⟨h.printed, h.nodup, h.limit, fun other hother => ?_, fun heq => ?_⟩
  · dsimp only at hother
    rw [hother, Option.map_some, Option.some.injEq] at hprocess
    rw [hprocess, h.seen session hsession]
  · dsimp only at heq
    rw [heq] at hprocess
    cases hprocess

/-- A message is printed unless its event is among the lines, and while they are below the limit. -/
theorem handle (h : s.Prints maxMessages earlier lines) (hprocess : s.process = .receiving session)
    (hlimit : atLimit maxMessages session.seen = false) (partition : Fin p) (payload : Payload) :
    ∃ lines, (s.handle fromSlice session partition payload).Prints maxMessages earlier lines := by
  have hsession : s.process.session = some session := by rw [hprocess]; rfl
  cases payload with
  | none => exact ⟨lines, h.go hsession rfl⟩
  | some payload =>
    simp only [State.handle]
    cases hread : readEvent fromSlice payload with
    | error error => exact ⟨lines, h.stop fun heq => by cases heq⟩
    | ok event =>
      obtain ⟨eventId, value⟩ := event
      dsimp only
      split
      · exact ⟨lines, h.go hsession rfl⟩
      · rename_i hnew
        have hseen := h.seen session hsession
        refine ⟨lines ++ [(eventId, renderDemoConsumerEvent value)], ?_, ?_, fun limit hlimited => ?_,
          fun other hother => ?_, fun heq => (by cases heq)⟩
        · dsimp only
          rw [h.printed, List.append_assoc]
        · rw [List.map_append, List.map_singleton, ← List.concat_eq_append]
          exact h.nodup.concat (hseen ▸ hnew)
        · rw [hlimited, atLimit, Option.any_some, decide_eq_false_iff_not, hseen, List.length_map] at hlimit
          rw [List.length_append, List.length_singleton]
          omega
        · cases hother
          rw [hseen, List.map_append, List.map_singleton]

end State.Prints

/-- Until the next start, every step adds to the lines of the run. -/
theorem step_prints {s s' : State p} {earlier lines : List (Int × String)}
    (h : s.Prints maxMessages earlier lines) {action : Action p} (hstart : action ≠ .start)
    (hs : s.step fromSlice maxMessages action = some s') :
    ∃ lines, s'.Prints maxMessages earlier lines := by
  cases action with
  | produce partition payload =>
    cases hs
    exact ⟨lines, h.printed, h.nodup, h.limit, h.seen, h.full⟩
  | start => exact absurd rfl hstart
  | finish =>
    simp only [State.step] at hs
    split at hs
    · rename_i session hprocess
      split at hs
      · rename_i hlimit
        cases hs
        refine ⟨lines, h.printed, h.nodup, h.limit, fun _ heq => (by cases heq), fun _ => ?_⟩
        -- As many as the limit, and no more than it.
        obtain ⟨limit, hlimited, hle⟩ := (Option.any_eq_true _ _).1 hlimit
        rw [decide_eq_true_iff, h.seen session (by rw [hprocess]; rfl), List.length_map] at hle
        rw [Nat.le_antisymm (h.limit limit hlimited) hle]
        exact hlimited
      · cases hs
    · cases hs
  | receive partition =>
    simp only [State.step] at hs
    split at hs
    · rename_i session hprocess
      split at hs
      · cases hs
      · rename_i hlimit
        obtain ⟨payload, -, hhandle⟩ := Option.map_eq_some_iff.1 hs
        subst hhandle
        exact h.handle hprocess (Bool.eq_false_iff.2 hlimit) partition payload
    · cases hs
  | receiveFails =>
    simp only [State.step] at hs
    split at hs
    · split at hs
      · cases hs
      · cases hs
        exact ⟨lines, h.stop fun heq => by cases heq⟩
    · cases hs
  | commit =>
    simp only [State.step] at hs
    split at hs
    · rename_i session partition hprocess
      cases hs
      have hsession : s.process.session = some session := by rw [hprocess]; rfl
      refine ⟨lines, h.printed, h.nodup, h.limit, fun other heq => ?_, fun heq => (by cases heq)⟩
      cases heq
      exact h.seen session hsession
    · cases hs
  | commitFails recorded =>
    simp only [State.step] at hs
    split at hs
    · cases hs
      refine ⟨lines, ?_, h.nodup, h.limit, fun _ heq => (by cases heq), fun heq => (by cases heq)⟩
      cases recorded <;> exact h.printed
    · cases hs
  | crash =>
    cases hs
    exact ⟨lines, h.stop fun heq => by cases heq⟩

/-- The lines of a run, whatever came before it. -/
theorem run_prints {before during : List (Action p)} {begun s : State p}
    (hbegun : State.init.run fromSlice maxMessages before = some begun) (hduring : .start ∉ during)
    (hrun : State.init.run fromSlice maxMessages (before ++ .start :: during) = some s) :
    ∃ lines, s.Prints maxMessages begun.printed lines := by
  rw [State.run, List.foldlM_append] at hrun
  obtain ⟨middle, hmiddle, hrun⟩ := Option.bind_eq_some_iff.1 hrun
  obtain rfl : begun = middle := Option.some.inj (hbegun.symm.trans hmiddle)
  obtain ⟨started, hstarted, hrun⟩ := Run.cons_some hrun
  refine Run.keeps_of (P := fun s : State p => ∃ lines, s.Prints maxMessages begun.printed lines)
    (fun s action haction s' h hs => ?_) ⟨[], ?_⟩ hrun
  · obtain ⟨lines, hlines⟩ := h
    exact step_prints hlines (fun heq => hduring (heq ▸ haction)) hs
  · simp only [State.step] at hstarted
    split at hstarted
    · cases hstarted
      exact ⟨(List.append_nil _).symm, .nil, fun _ _ => Nat.zero_le _, fun _ heq => (by cases heq; rfl),
        fun heq => (by cases heq)⟩
    · cases hstarted

/-! ## Over any runs -/

/-- **The demo consumer loses nothing.** However its runs end, at the broker or anywhere in between:
the event of every message whose offset is committed was printed; every line is one of a message of
the topic; the lines that a run prints from its start on are of distinct events, no more than its
limit and, if it returns, exactly as many; a message that cannot be read is never passed, and is the
only message that ends a run. -/
theorem demo_loses_nothing (actions : List (Action p)) {s : State p}
    (hrun : State.init.run fromSlice maxMessages actions = some s) :
    (∀ partition, ∀ payload ∈ (s.topic partition).take (s.committed partition),
      Handled fromSlice s.printed payload) ∧
    (∀ line ∈ s.printed, Printed fromSlice s.topic line) ∧
    (∀ before during begun, actions = before ++ .start :: during → .start ∉ during →
      State.init.run fromSlice maxMessages before = some begun →
      ∃ lines, s.printed = begun.printed ++ lines ∧ (lines.map (·.1)).Nodup ∧
        (∀ limit ∈ maxMessages, lines.length ≤ limit) ∧
        (s.process = .stopped (some (.ok ())) → lines.length ∈ maxMessages)) ∧
    (∀ partition i payload, (s.topic partition)[i]? = some (some payload) →
      (∀ event, readEvent fromSlice payload ≠ .ok event) → s.committed partition ≤ i) ∧
    ∀ error, s.process = .stopped (some (.error error)) → Explained fromSlice s.topic error := by
  have h := run_keeps hrun
  refine ⟨h.handled, h.lines, fun before during begun hsplit hduring hbegun => ?_,
    fun partition i payload hget hunread => ?_, h.stopped⟩
  · obtain ⟨lines, hlines⟩ := run_prints hbegun hduring (hsplit ▸ hrun)
    exact ⟨lines, hlines.printed, hlines.nodup, hlines.limit, hlines.full⟩
  · by_contra hlt
    rw [Nat.not_le] at hlt
    have hmem : some payload ∈ (s.topic partition).take (s.committed partition) := by
      refine List.mem_of_getElem? (i := i) ?_
      rw [List.getElem?_take, if_pos hlt, hget]
    obtain ⟨eventId, value, hread, -⟩ := h.handled partition _ hmem
    exact hunread _ hread

end

/-- The text `{"event_id":7}`. -/
def smallEvent : List UInt8 := [123, 34, 101, 118, 101, 110, 116, 95, 105, 100, 34, 58, 55, 125]

/-- A reader of that text. -/
def smallSlice (bytes : List UInt8) : Option Value :=
  if bytes = smallEvent then some (.ofFields [("event_id", .ofInt 7)]) else none

/-- The one partition. -/
def only : Fin 1 := ⟨0, Nat.one_pos⟩

/-- The event is delivered twice, before a message that cannot be read, and a commit fails. -/
def firstActions : List (Action 1) :=
  [.produce only (some smallEvent), .produce only (some smallEvent), .produce only (some []), .start,
    .receive only, .commitFails false]

/-- The next run receives all of them. -/
def secondActions : List (Action 1) :=
  [.receive only, .commit, .receive only, .commit, .receive only]

/-- `demo_loses_nothing` for an event that each of two runs prints, the second for both its messages,
before the message that cannot be read. -/
theorem demo_loses_nothing_again : ∃ begun s,
    State.init.run smallSlice (some 2) firstActions = some begun ∧
    State.init.run smallSlice (some 2) (firstActions ++ .start :: secondActions) = some s ∧
    begun.printed.map (·.1) = [7] ∧ s.printed.map (·.1) = [7, 7] ∧
    Handled smallSlice s.printed (some smallEvent) ∧ s.committed 0 ≤ 2 ∧
    ∃ lines, s.printed = begun.printed ++ lines ∧ (lines.map (·.1)).Nodup ∧ lines.length ≤ 2 := by
  have hfirst : ((State.init.run smallSlice (some 2) firstActions).map fun s => s.printed.map (·.1)) =
      some [7] := by decide +kernel
  have hrun : ((State.init.run smallSlice (some 2) (firstActions ++ .start :: secondActions)).map fun s =>
      (s.printed.map (·.1), s.topic 0, s.committed 0)) =
        some ([7, 7], [some smallEvent, some smallEvent, some []], 2) := by decide +kernel
  obtain ⟨begun, hbegun, hbegunPrinted⟩ := Option.map_eq_some_iff.1 hfirst
  obtain ⟨s, hs, hobserved⟩ := Option.map_eq_some_iff.1 hrun
  simp only [Prod.mk.injEq] at hobserved
  obtain ⟨hprinted, htopic, hcommitted⟩ := hobserved
  obtain ⟨hhandled, -, hlines, hunread, -⟩ := demo_loses_nothing _ hs
  obtain ⟨lines, happend, hnodup, hlimit, -⟩ :=
    hlines firstActions secondActions begun rfl (by simp [secondActions]) hbegun
  refine ⟨begun, s, hbegun, hs, hbegunPrinted, hprinted, hhandled 0 _ (by simp [htopic, hcommitted]),
    hunread 0 2 [] (by simp [htopic]) fun event heq => ?_, lines, happend, hnodup, hlimit 2 rfl⟩
  cases heq

section
variable {fromSlice : List UInt8 → Option Value} {maxMessages : Option Nat} {p : Nat}

/-- The bytes of the message of an outbox row, as `serde` writes and reads them. -/
def IsMessage (json : Postgres.Json → Value) (toVec : KafkaOutboxMessage Postgres.OutboxPayload → List UInt8)
    (fromSlice : List UInt8 → Option Value) (rows : Int → Postgres.OutboxRow) (eventId : Int)
    (payload : Payload) : Prop :=
  ∃ chainId message, RowFits eventId (rows eventId) ∧
    rowToMessage (columns chainId eventId (rows eventId)) = .ok message ∧
    payload = some (toVec message) ∧
    fromSlice (toVec message) = some (messageValue (payloadValue json) message)

section
variable {json : Postgres.Json → Value}
  {toVec : KafkaOutboxMessage Postgres.OutboxPayload → List UInt8} {rows : Int → Postgres.OutboxRow}

/-- What is read of the message of a row. -/
theorem IsMessage.readEvent {eventId : Int} {payload : List UInt8}
    (h : IsMessage json toVec fromSlice rows eventId (some payload)) (hnull : ∀ event, json event ≠ .null) :
    ∃ value, readEvent fromSlice payload = .ok (eventId, value) ∧
      renderDemoConsumerEvent value = renderedRow eventId (rows eventId) := by
  obtain ⟨chainId, message, hfits, hmessage, hpayload, hread⟩ := h
  cases hpayload
  refine ⟨messageValue (payloadValue json) message, ?_, render_message hnull hfits hmessage⟩
  have heventId : ((messageValue (payloadValue json) message).get "event_id").bind Value.asI64 =
      some eventId := by
    rw [message_of_row hmessage]
    simp [messageValue, List.lookup, Value.asI64_ofInt hfits.eventId.1 hfits.eventId.2]
  simp only [DemoConsumer.readEvent, hread, heventId]

/-- **Every row gets its line.** Of a topic that the dispatchers fill, one row for each `event_id`, the
consumer prints the lines of outbox rows, the line of every row whose message is committed among them, and
no message ends a run. -/
theorem prints_rows (hnull : ∀ event, json event ≠ .null) (actions : List (Action p)) {s : State p}
    (hrun : State.init.run fromSlice maxMessages actions = some s)
    (hfeeds : ∀ partition, ∀ payload ∈ s.topic partition,
      ∃ eventId, IsMessage json toVec fromSlice rows eventId payload) :
    (∀ line ∈ s.printed, line.2 = renderedRow line.1 (rows line.1)) ∧
    (∀ partition, ∀ payload ∈ (s.topic partition).take (s.committed partition),
      ∀ eventId, IsMessage json toVec fromSlice rows eventId payload →
        (eventId, renderedRow eventId (rows eventId)) ∈ s.printed) ∧
    ∀ error, s.process = .stopped (some (.error error)) → error = .receive ∨ error = .commit := by
  have h := run_keeps hrun
  have hlines : ∀ line ∈ s.printed, line.2 = renderedRow line.1 (rows line.1) := by
    intro line hline
    obtain ⟨partition, payload, value, hmem, hread, hrender⟩ := h.lines line hline
    obtain ⟨eventId, hmessage⟩ := hfeeds partition _ hmem
    obtain ⟨value', hread', hrender'⟩ := hmessage.readEvent hnull
    rw [hread] at hread'
    cases hread'
    rw [hrender, hrender']
  refine ⟨hlines, fun partition payload hmem eventId hmessage => ?_, fun error hprocess => ?_⟩
  · have hhandled := h.handled partition payload hmem
    cases payload with
    | none =>
      obtain ⟨_, _, _, _, hpayload, _⟩ := hmessage
      cases hpayload
    | some payload =>
      obtain ⟨printedId, value, hread, hprinted⟩ := hhandled
      obtain ⟨value', hread', -⟩ := hmessage.readEvent hnull
      rw [hread'] at hread
      cases hread
      obtain ⟨line, hline, hid⟩ := List.mem_map.1 hprinted
      have hrow := hlines line hline
      rw [hid] at hrow
      have hsame : (eventId, renderedRow eventId (rows eventId)) = line := Prod.ext hid.symm hrow.symm
      rw [hsame]
      exact hline
  · obtain hbroker | hbroker | ⟨partition, payload, hmem, hread⟩ := h.stopped error hprocess
    · exact .inl hbroker
    · exact .inr hbroker
    · obtain ⟨eventId, hmessage⟩ := hfeeds partition _ hmem
      obtain ⟨value, hread', -⟩ := hmessage.readEvent hnull
      rw [hread] at hread'
      cases hread'

end

end

/-- An object, from the texts of its fields. -/
def objectText (fields : List (String × String)) : String :=
  "\x7b" ++ ",".intercalate (fields.map fun field => "\"" ++ field.1 ++ "\":" ++ field.2) ++ "\x7d"

def stringText (text : String) : String := "\"" ++ text ++ "\""

/-- The text of the message of a rollback. -/
def rollbackText (message : KafkaOutboxMessage Postgres.OutboxPayload) : String := objectText [
  ("schema_version", toString message.schemaVersion),
  ("event_id", toString message.eventId),
  ("chain_id", stringText message.chainId),
  ("transition_kind", stringText message.transitionKind),
  ("block_hash", stringText message.blockHash),
  ("block_height", toString message.blockHeight),
  ("ordering", objectText [
    ("event_id", toString message.ordering.eventId),
    ("block_height", toString message.ordering.blockHeight)]),
  ("payload", objectText [
    ("block_hash", stringText (hashText message.payload.blockHash)),
    ("block_height", toString message.payload.blockHeight),
    ("chain_id", stringText (toString message.payload.chainId)),
    ("log_count", toString message.payload.logCount),
    ("logs", "[]"),
    ("parent_hash", stringText (hashText message.payload.parentHash)),
    ("schema_version", toString message.payload.schemaVersion),
    ("status", "null"),
    ("status_source", "null"),
    ("transition", stringText (kindText message.payload.transition))])]

/-- All its characters take a byte. -/
def rollbackVec (message : KafkaOutboxMessage Postgres.OutboxPayload) : List UInt8 :=
  (rollbackText message).toList.map fun c => UInt8.ofNat c.toNat

/-- The row of a rollback. -/
def rollbackRow : Postgres.OutboxRow where
  eventKind := .rollback
  blockHash := 7
  blockHeight := 5
  payload := {
    schemaVersion := 1
    transition := .rollback
    chainId := 1
    blockHash := 7
    parentHash := 6
    blockHeight := 5
    status := none
    statusSource := none
    logCount := 0
    logs := [] }

def rollbackMessage : KafkaOutboxMessage Postgres.OutboxPayload where
  schemaVersion := 1
  eventId := 4
  chainId := "1"
  transitionKind := "rollback"
  blockHash := hashText 7
  blockHeight := 5
  ordering := ⟨4, 5⟩
  payload := rollbackRow.payload

/-- A reader of its text. -/
def rollbackSlice (bytes : List UInt8) : Option Value :=
  if bytes = rollbackVec rollbackMessage then
    some (messageValue (payloadValue Value.string) rollbackMessage)
  else none

theorem rollback_isMessage :
    IsMessage Value.string rollbackVec rollbackSlice (fun _ => rollbackRow) 4
      (some (rollbackVec rollbackMessage)) := by
  refine ⟨1, rollbackMessage, ?_, rfl, rfl, if_pos rfl⟩
  constructor
  · decide
  · simp [rollbackRow]
  · constructor <;> simp [rollbackRow]

/-- A message is received and committed, before the broker fails. -/
def oneMessage (payload : List UInt8) : List (Action 1) :=
  [.produce only (some payload), .start, .receive only, .commit, .receiveFails]

theorem run_oneMessage {fromSlice : List UInt8 → Option Value} {payload : List UInt8} {eventId : Int}
    {value : Value} (h : readEvent fromSlice payload = .ok (eventId, value)) :
    ∃ s, State.init.run fromSlice none (oneMessage payload) = some s ∧ s.topic 0 = [some payload] ∧
      s.committed 0 = 1 := by
  have honly : only = 0 := rfl
  simp [State.run, oneMessage, honly, State.step, State.init, State.handle, State.commitOffset, atLimit, h]

/-- `prints_rows` for a rollback. -/
theorem prints_rows_rollback :
    ∃ s, State.init.run rollbackSlice none (oneMessage (rollbackVec rollbackMessage)) = some s ∧
      (4, renderedRow 4 rollbackRow) ∈ s.printed := by
  have hnull : ∀ event, Value.string event ≠ .null := fun _ heq => (by cases heq)
  obtain ⟨value, hread, -⟩ := rollback_isMessage.readEvent hnull
  obtain ⟨s, hs, htopic, hcommitted⟩ := run_oneMessage hread
  have hfeeds : ∀ partition, ∀ payload ∈ s.topic partition,
      ∃ eventId, IsMessage Value.string rollbackVec rollbackSlice (fun _ => rollbackRow) eventId payload := by
    intro partition payload hmem
    rw [Subsingleton.elim partition 0, htopic, List.mem_singleton] at hmem
    rw [hmem]
    exact ⟨4, rollback_isMessage⟩
  refine ⟨s, hs, (prints_rows hnull _ hs hfeeds).2.1 0 (some (rollbackVec rollbackMessage)) ?_ 4
    rollback_isMessage⟩
  rw [htopic, hcommitted]
  exact List.mem_singleton_self _

end Chainweave.DemoConsumer
