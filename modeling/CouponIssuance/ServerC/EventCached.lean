import CouponIssuance.ServerC.Lemmas.Events

/-!
This module contains how old the events are that `GET /api/v1/events/:eventId` answers with.
-/

namespace ServerC

open Js Caching Concurrency

namespace EventCache

structure Moment where
  clock : Nat
  events : EventTable

def Moment.snapshot (m : Moment) : Snapshot String String where
  time := m.clock
  source := m.events.source

def State.moment (s : State) : Moment where
  clock := s.shared.clock
  events := s.shared.events

def record (_ : State) (_ : Act) (t : State) : Option Moment :=
  some t.moment

/-- What a call has read is written, or answered, no more than `lag` later. -/
def Timely (lag : Nat) (s : State) : Act → Prop
  | .step i _ => ∀ c, s.calls[i]? = some c → ∀ p ∈ c.carried, s.shared.clock ≤ p.2 + lag
  | _ => True

def Shared.cache (σ : Shared) (past : List Moment) : Cache String String where
  now := σ.clock
  source := σ.events.source
  store := σ.redis
  past := past.map Moment.snapshot

structure Seen (past : List Moment) (view : EventView) (m : Moment) : Prop where
  mem : m ∈ past
  view : ∃ event ∈ m.events.rows, toEventView event = view

def WasRead (past : List Moment) (view : EventView) (readAt : Nat) : Prop :=
  ∃ m, Seen past view m ∧ m.clock = readAt

def WasFresh (config : Config) (lag : Nat) (past : List Moment) (eventId : JsNumber) (answer : Json)
    (answeredAt : Nat) : Prop :=
  ∃ view m, Seen past view m ∧ view.eventId = eventId ∧ answer = view.toJs
    ∧ m.clock ≤ answeredAt ∧ answeredAt ≤ m.clock + lag + config.ttl

def Call.Sound (config : Config) (lag : Nat) (past : List Moment) (c : Call) : Prop :=
  c.Holds (WasRead past) (WasFresh config lag past)

section Run

variable {config : Config} {lag : Nat} {past : List Moment} {c c' : Call} {σ σ' : Shared}

theorem Seen.append {view : EventView} {m : Moment} (h : Seen past view m) (more : List Moment)
    : Seen (past ++ more) view m :=
  ⟨List.mem_append_left _ h.mem, h.view⟩

theorem Call.Sound.append (h : c.Sound config lag past) (more : List Moment)
    : c.Sound config lag (past ++ more) := by
  apply h.mono
  . intro view readAt ⟨m, hseen, hclock⟩
    exact ⟨m, hseen.append more, hclock⟩
  . intro eventId answer answeredAt ⟨view, m, hseen, h⟩
    exact ⟨view, m, hseen.append more, h⟩

theorem seen_of_held {time : Nat} {eventId : JsNumber} {text : String}
    (h : Held (past.map Moment.snapshot) time (RedisKeys.event eventId) text)
    : ∃ view m, Seen past view m ∧ view.eventId = eventId ∧ m.clock = time
        ∧ Json.parse text = some view.toJs := by
  obtain ⟨snapshot, hmem, htime, hsource⟩ := h
  obtain ⟨m, hm, rfl⟩ := List.mem_map.mp hmem
  obtain ⟨event, hevent, hkey, rfl⟩ := EventTable.source_eq_some.mp hsource
  exact ⟨toEventView event, m, ⟨hm, event, hevent, rfl⟩, RedisKeys.event_injective hkey, htime,
    EventView.parse_stringify (m.events.integers event hevent)⟩

theorem Call.Sound.step {x : Input} (h : c.Sound config lag past) (hnow : ⟨σ.clock, σ.events⟩ ∈ past)
    (hlag : ∀ p ∈ c.carried, σ.clock ≤ p.2 + lag) (hpast : ∀ m ∈ past, m.clock ≤ σ.clock)
    (hfresh : ∀ eventId answer, EventCacheStore.get σ eventId = some answer
      → WasFresh config lag past eventId answer σ.clock)
    (hstep : c.step config σ x = some (σ', c'))
    : c'.Sound config lag past := by
  refine Call.Holds.step h ?_ hfresh ?_ hstep
  . intro event hevent
    exact ⟨_, ⟨hnow, event, hevent, rfl⟩, rfl⟩
  . intro p hp ⟨m, hseen, hclock⟩
    have hle := hlag p hp
    exact ⟨p.1, m, hseen, rfl, rfl, hpast m hseen.mem, by omega⟩

/-- The model refines a cache in front of the table, and its calls are sound. -/
structure Traced (config : Config) (lag : Nat) (start : Moment) (s : State) (l : List Moment)
    : Prop where
  cache : (Cache.machine config.ttl).Run (Cache.Timely lag)
    (Cache.init start.clock start.events.source) (s.shared.cache (start :: l))
  now : s.moment ∈ start :: l
  past : ∀ m ∈ start :: l, m.clock ≤ s.shared.clock
  calls : ∀ c ∈ s.calls, c.Sound config lag (start :: l)

theorem Traced.next {start : Moment} {s t : State} {l : List Moment}
    (h : Traced config lag start s l) (act : Cache.Act String String)
    (hok : Cache.Timely lag (s.shared.cache (start :: l)) act)
    (hstep : ((s.shared.cache (start :: l)).next config.ttl act).observe
      = t.shared.cache (start :: l ++ [t.moment]))
    (hclock : s.shared.clock ≤ t.shared.clock)
    (hcalls : ∀ c ∈ t.calls, c.Sound config lag (start :: l ++ [t.moment]))
    : Traced config lag start t (l ++ [t.moment]) := by
  refine ⟨?_, ?_, ?_, hcalls⟩
  . refine h.cache.tail (a := act) hok ?_
    exact congrArg some hstep
  . exact List.mem_append_right (start :: l) (List.mem_singleton.mpr rfl)
  . intro m hm
    rcases List.mem_append.mp (show m ∈ (start :: l) ++ [t.moment] from hm) with hm | hm
    . exact Nat.le_trans (h.past m hm) hclock
    . rw [List.mem_singleton.mp hm]
      exact Nat.le_refl _

theorem Traced.get {start : Moment} {s : State} {l : List Moment}
    (h : Traced config lag start s l) {eventId : JsNumber} {answer : Json}
    (hget : EventCacheStore.get s.shared eventId = some answer)
    : WasFresh config lag (start :: l) eventId answer s.shared.clock := by
  obtain ⟨text, htext, hparse⟩ := Option.bind_eq_some_iff.mp hget
  obtain ⟨time, hheld, hle, hlt⟩ := Cache.fresh h.cache htext
  obtain ⟨view, m, hseen, hid, rfl, hview⟩ := seen_of_held hheld
  refine ⟨view, m, hseen, hid, Option.some.inj (hparse.symm.trans hview), hle, ?_⟩
  exact Nat.le_of_lt hlt

def openEvent (name : String) : EventRow where
  id := .ofInt 1
  startedAt := 0
  endedAt := 0
  name := name
  content := none
  status := .inProgress

def oneEvent (name : String) : EventTable where
  rows := [openEvent name]
  nodup := List.nodup_singleton _
  integers := by
    intro event h
    rw [List.mem_singleton.mp h]
    exact (by decide : (JsNumber.ofInt 1).isInteger = true)

def defaults : Config where
  ttlSeconds := 300
  refreshIntervalMs := 60000

def newFind : Act :=
  .start (Call.find ⟨.ofInt 1, .get⟩)

end Run

end EventCache

end ServerC
