import CouponIssuance.ServerC.EventCache

/-!
This module contains what one statement of the event query and of its refresher does, and the
assertions of a call: what it carries to the cache, and what it answers with.
-/

namespace ServerC

open Js Caching

/--
A view comes back from the cache as it was written.
-/
theorem EventView.parse_stringify {view : EventView} (h : view.eventId.isInteger = true)
    : Json.parse (Json.stringify view.fields) = some view.toJs := by
  rw [Json.parse_stringify_eq_wire]
  refine congrArg some ((Json.wire_eq_self_iff _).mpr ?_)
  cases hcontent : view.content <;>
    simp [fields, hcontent, Json.ofScalars, Json.isFinite, Json.isFiniteFields, Json.Scalar.value, h]

theorem RedisKeys.event_injective {a b : JsNumber} (h : RedisKeys.event a = RedisKeys.event b)
    : a = b :=
  JsNumber.toString_injective (String.append_right_inj _ |>.mp h)

namespace EventTable

variable {events : EventTable} {event event' : EventRow} {eventId : JsNumber}

theorem eq_of_id (h : event ∈ events.rows) (h' : event' ∈ events.rows) (hid : event.id = event'.id)
    : event = event' :=
  Db.eq_of_map_nodup events.nodup h h' hid

theorem findById_eq_some
    : events.findById eventId = some event ↔ event ∈ events.rows ∧ event.id = eventId := by
  unfold findById
  constructor
  . intro h
    exact ⟨List.mem_of_find?_eq_some h, by simpa using List.find?_some h⟩
  . intro ⟨hmem, hid⟩
    cases hfind : events.rows.find? fun event => event.id == eventId with
    | none =>
      have := List.find?_eq_none.mp hfind event hmem
      simp [hid] at this
    | some event' =>
      have hid' : event'.id = eventId := by simpa using List.find?_some hfind
      rw [eq_of_id (List.mem_of_find?_eq_some hfind) hmem (hid'.trans hid.symm)]

def source (events : EventTable) (key : String) : Option String :=
  (events.rows.find? fun event => RedisKeys.event event.id == key).map
    fun event => Json.stringify (toEventView event).fields

theorem source_eq_some {key text : String}
    : events.source key = some text
        ↔ ∃ event ∈ events.rows, RedisKeys.event event.id = key
          ∧ Json.stringify (toEventView event).fields = text := by
  unfold source
  rw [Option.map_eq_some_iff]
  constructor
  . intro ⟨event, hfind, htext⟩
    exact ⟨event, List.mem_of_find?_eq_some hfind, by simpa using List.find?_some hfind, htext⟩
  . intro ⟨event, hmem, hkey, htext⟩
    cases hfind : events.rows.find? fun event => RedisKeys.event event.id == key with
    | none =>
      have := List.find?_eq_none.mp hfind event hmem
      simp [hkey] at this
    | some event' =>
      have hkey' : RedisKeys.event event'.id = key := by simpa using List.find?_some hfind
      have hid := RedisKeys.event_injective (hkey'.trans hkey.symm)
      rw [eq_of_id (List.mem_of_find?_eq_some hfind) hmem hid]
      exact ⟨event, rfl, htext⟩

end EventTable

namespace EventCache

def Call.carried : Call → List (EventView × Nat)
  | find ⟨_, .put view readAt⟩ => [(view, readAt)]
  | refresh (.put events readAt) => events.map fun event => (toEventView event, readAt)
  | _ => []

def Config.ttl (config : Config) : Nat :=
  config.ttlSeconds * 1000

inductive Writes (config : Config) (σ : Shared) (carried : List (EventView × Nat))
    : Store String String → Prop where
  | nothing : Writes config σ carried σ.redis
  | put (view : EventView) (readAt : Nat) : (view, readAt) ∈ carried
      → Writes config σ carried (σ.redis.set (RedisKeys.event view.eventId)
        (Json.stringify view.fields) (σ.clock + config.ttl))

section Step

variable {config : Config} {σ σ' : Shared} {c c' : Call} {x : Input}

theorem put_spec (config : Config) (σ : Shared) (view : EventView)
    : (EventCacheStore.put config σ view).clock = σ.clock
        ∧ (EventCacheStore.put config σ view).events = σ.events
        ∧ ∀ {carried readAt}, (view, readAt) ∈ carried
          → Writes config σ carried (EventCacheStore.put config σ view).redis := by
  unfold EventCacheStore.put
  split
  . exact ⟨rfl, rfl, fun _ => .nothing⟩
  . exact ⟨rfl, rfl, fun hmem => .put view _ hmem⟩

theorem next_spec (σ : Shared) (events : List EventRow) (readAt : Nat)
    : (RefreshPc.next σ events readAt).1.clock = σ.clock
        ∧ (RefreshPc.next σ events readAt).1.events = σ.events
        ∧ (RefreshPc.next σ events readAt).1.redis = σ.redis
        ∧ (Call.refresh (RefreshPc.next σ events readAt).2).carried
            = events.map fun event => (toEventView event, readAt) := by
  unfold RefreshPc.next
  split
  . next hempty =>
    rw [List.isEmpty_iff] at hempty
    subst hempty
    exact ⟨rfl, rfl, rfl, rfl⟩
  . exact ⟨rfl, rfl, rfl, rfl⟩

def Carries (σ : Shared) (c c' : Call) : Prop :=
  ∀ p ∈ c'.carried, p ∈ c.carried ∨ ∃ event ∈ σ.events.rows, p = (toEventView event, σ.clock)

inductive FindStep (σ : Shared) (f : Find) : FindPc → Prop where
  | miss : FindStep σ f .findById
  | hit (cached : Json) : EventCacheStore.get σ f.eventId = some cached
      → FindStep σ f (.returned cached σ.clock)
  | read (event : EventRow) : σ.events.findById f.eventId = some event
      → FindStep σ f (.put (toEventView event) σ.clock)
  | notFound : σ.events.findById f.eventId = none
      → FindStep σ f (.thrown (.eventNotFound ("event not found: " ++ toString f.eventId)))
  | failed : FindStep σ f (.thrown .queryFailed)
  | written (view : EventView) (readAt : Nat) : f.pc = .put view readAt
      → FindStep σ f (.returned view.toJs σ.clock)

theorem Find.step_spec {f f' : Find} (h : f.step config σ x = some (σ', f'))
    : f'.eventId = f.eventId ∧ FindStep σ f f'.pc
        ∧ σ'.clock = σ.clock ∧ σ'.events = σ.events
        ∧ Writes config σ (Call.find f).carried σ'.redis := by
  obtain ⟨eventId, pc⟩ := f
  cases pc with
  | get =>
    cases x with
    | ok =>
      simp only [step] at h
      split at h
      . cases h; exact ⟨rfl, .miss, rfl, rfl, .nothing⟩
      . cases h; exact ⟨rfl, .miss, rfl, rfl, .nothing⟩
      . next hcached =>
        cases h
        exact ⟨rfl, .hit _ hcached, rfl, rfl, .nothing⟩
    | fail executed => cases h; exact ⟨rfl, .miss, rfl, rfl, .nothing⟩
  | findById =>
    cases x with
    | ok =>
      simp only [step] at h
      split at h
      . next hnone =>
        cases h
        exact ⟨rfl, .notFound hnone, rfl, rfl, .nothing⟩
      . next event hsome =>
        cases h
        exact ⟨rfl, .read event hsome, rfl, rfl, .nothing⟩
    | fail executed => cases h; exact ⟨rfl, .failed, rfl, rfl, .nothing⟩
  | put view readAt =>
    obtain ⟨hclock, hevents, hwrites⟩ := put_spec config σ view
    have hmem : (view, readAt) ∈ (Call.find ⟨eventId, .put view readAt⟩).carried :=
      List.mem_singleton.mpr rfl
    cases x with
    | ok => cases h; exact ⟨rfl, .written view readAt rfl, hclock, hevents, hwrites hmem⟩
    | fail executed =>
      cases executed with
      | true => cases h; exact ⟨rfl, .written view readAt rfl, hclock, hevents, hwrites hmem⟩
      | false => cases h; exact ⟨rfl, .written view readAt rfl, rfl, rfl, .nothing⟩
  | returned view answeredAt => cases x <;> contradiction
  | thrown e => cases x <;> contradiction

theorem RefreshPc.step_spec {pc pc' : RefreshPc} (h : pc.step config σ x = some (σ', pc'))
    : Carries σ (.refresh pc) (.refresh pc')
        ∧ σ'.clock = σ.clock ∧ σ'.events = σ.events
        ∧ Writes config σ (Call.refresh pc).carried σ'.redis := by
  have hnone : ∀ {c : Call} {pc' : RefreshPc}, (Call.refresh pc').carried = []
      → Carries σ c (.refresh pc') := by
    intro c pc' hnil p hp
    rw [hnil] at hp
    contradiction
  -- the loop goes on after a write, or after a write that has failed
  have hloop : ∀ {event : EventRow} {events : List EventRow} {readAt : Nat} {σ₁ : Shared},
      σ₁.clock = σ.clock → σ₁.events = σ.events
      → Writes config σ (Call.refresh (.put (event :: events) readAt)).carried σ₁.redis
      → RefreshPc.next σ₁ events readAt = (σ', pc')
      → Carries σ (.refresh (.put (event :: events) readAt)) (.refresh pc')
        ∧ σ'.clock = σ.clock ∧ σ'.events = σ.events
        ∧ Writes config σ (Call.refresh (.put (event :: events) readAt)).carried σ'.redis := by
    intro event events readAt σ₁ hclock hevents hwrites hnext
    obtain ⟨hclock', hevents', hredis, hcarried⟩ := next_spec σ₁ events readAt
    rw [hnext] at hclock' hevents' hredis hcarried
    refine ⟨?_, hclock'.trans hclock, hevents'.trans hevents, by rw [hredis]; exact hwrites⟩
    intro p hp
    rw [hcarried] at hp
    exact Or.inl (List.mem_cons_of_mem _ hp)
  cases pc with
  | called =>
    cases x with
    | ok =>
      simp only [step] at h
      split at h
      . cases h; exact ⟨hnone rfl, rfl, rfl, .nothing⟩
      . cases h; exact ⟨hnone rfl, rfl, rfl, .nothing⟩
    | fail executed => contradiction
  | findByStatus =>
    cases x with
    | ok =>
      obtain ⟨hclock, hevents, hredis, hcarried⟩ :=
        next_spec σ (σ.events.findByStatus .inProgress) σ.clock
      rw [Option.some.inj h] at hclock hevents hredis hcarried
      refine ⟨?_, hclock, hevents, by rw [hredis]; exact .nothing⟩
      intro p hp
      rw [hcarried] at hp
      obtain ⟨event, hevent, rfl⟩ := List.mem_map.mp hp
      exact Or.inr ⟨event, (List.mem_filter.mp hevent).1, rfl⟩
    | fail executed => cases h; exact ⟨hnone rfl, rfl, rfl, .nothing⟩
  | put events readAt =>
    cases events with
    | nil =>
      have hend : RefreshPc.next σ [] readAt = (σ', pc') := by
        cases x <;> exact Option.some.inj h
      cases hend
      exact ⟨hnone rfl, rfl, rfl, .nothing⟩
    | cons event events =>
      obtain ⟨hclock, hevents, hwrites⟩ := put_spec config σ (toEventView event)
      have hmem : (toEventView event, readAt)
          ∈ (Call.refresh (.put (event :: events) readAt)).carried := List.mem_cons_self ..
      cases x with
      | ok => exact hloop hclock hevents (hwrites hmem) (Option.some.inj h)
      | fail executed =>
        cases executed with
        | true => exact hloop hclock hevents (hwrites hmem) (Option.some.inj h)
        | false => exact hloop rfl rfl .nothing (Option.some.inj h)
  | finished => cases x <;> contradiction
  | skipped => cases x <;> contradiction

/--
What a statement of any call does
-/
theorem Call.step_spec (h : c.step config σ x = some (σ', c'))
    : Carries σ c c' ∧ σ'.clock = σ.clock ∧ σ'.events = σ.events
        ∧ Writes config σ c.carried σ'.redis := by
  cases c with
  | find f =>
    obtain ⟨⟨σ'', f'⟩, hstep, heq⟩ := Option.map_eq_some_iff.mp h
    cases heq
    obtain ⟨_, hfind, hclock, hevents, hwrites⟩ := f.step_spec hstep
    refine ⟨?_, hclock, hevents, hwrites⟩
    intro p hp
    cases f' with
    | mk eventId pc =>
      cases hfind with
      | read event hevent =>
        rw [List.mem_singleton.mp hp]
        exact Or.inr ⟨event, (EventTable.findById_eq_some.mp hevent).1, rfl⟩
      | _ => contradiction
  | refresh pc =>
    obtain ⟨⟨σ'', pc'⟩, hstep, heq⟩ := Option.map_eq_some_iff.mp h
    cases heq
    exact RefreshPc.step_spec hstep

theorem Call.step_find {eventId : JsNumber} {pc : FindPc}
    (h : c.step config σ x = some (σ', .find ⟨eventId, pc⟩))
    : ∃ f, c = .find f ∧ f.eventId = eventId ∧ FindStep σ f pc := by
  cases c with
  | find f =>
    obtain ⟨⟨σ'', f'⟩, hstep, heq⟩ := Option.map_eq_some_iff.mp h
    cases heq
    obtain ⟨hid, hfind, _⟩ := f.step_spec hstep
    exact ⟨f, rfl, hid.symm, hfind⟩
  | refresh pc =>
    obtain ⟨_, _, heq⟩ := Option.map_eq_some_iff.mp h
    cases heq

end Step

structure Call.Holds (C : EventView → Nat → Prop) (A : JsNumber → Json → Nat → Prop) (c : Call)
    : Prop where
  carried : ∀ p ∈ c.carried, C p.1 p.2
  own : ∀ eventId view readAt, c = find ⟨eventId, .put view readAt⟩ → view.eventId = eventId
  answered : ∀ eventId answer answeredAt, c = find ⟨eventId, .returned answer answeredAt⟩
    → A eventId answer answeredAt

section Holds

variable {config : Config} {σ σ' : Shared} {c c' : Call} {x : Input}
variable {C C' : EventView → Nat → Prop} {A A' : JsNumber → Json → Nat → Prop}

theorem Call.Holds.mono (hC : ∀ view readAt, C view readAt → C' view readAt)
    (hA : ∀ eventId answer answeredAt, A eventId answer answeredAt → A' eventId answer answeredAt)
    (h : c.Holds C A)
    : c.Holds C' A' :=
  ⟨fun p hp => hC _ _ (h.carried p hp), h.own, fun _ _ _ heq => hA _ _ _ (h.answered _ _ _ heq)⟩

theorem Call.Holds.start (h : c.start = true) : c.Holds C A := by
  have hidle : c.carried = [] ∧ ∀ eventId answer answeredAt,
      c ≠ find ⟨eventId, .returned answer answeredAt⟩ := by
    unfold Call.start at h
    split at h
    . exact ⟨rfl, fun _ _ _ => by simp⟩
    . exact ⟨rfl, fun _ _ _ => by simp⟩
    . contradiction
  refine ⟨?_, ?_, ?_⟩
  . intro p hp
    rw [hidle.1] at hp
    contradiction
  . intro eventId view readAt heq
    rw [heq] at hidle
    exact absurd hidle.1 (List.cons_ne_nil _ _)
  . intro eventId answer answeredAt heq
    exact absurd heq (hidle.2 _ _ _)

theorem Call.Holds.step (h : c.Holds C A)
    (hread : ∀ event ∈ σ.events.rows, C (toEventView event) σ.clock)
    (hget : ∀ eventId answer, EventCacheStore.get σ eventId = some answer → A eventId answer σ.clock)
    (hwritten : ∀ p ∈ c.carried, C p.1 p.2 → A p.1.eventId p.1.toJs σ.clock)
    (hstep : c.step config σ x = some (σ', c'))
    : c'.Holds C A := by
  refine ⟨?_, ?_, ?_⟩
  . intro p hp
    rcases (Call.step_spec hstep).1 p hp with hold | ⟨event, hevent, rfl⟩
    . exact h.carried p hold
    . exact hread event hevent
  . intro eventId view readAt heq
    subst heq
    obtain ⟨f, rfl, hid, hfind⟩ := Call.step_find hstep
    cases hfind with
    | read event hevent => exact ((EventTable.findById_eq_some.mp hevent).2).trans hid
  . intro eventId answer answeredAt heq
    subst heq
    obtain ⟨f, rfl, rfl, hfind⟩ := Call.step_find hstep
    cases hfind with
    | hit _ hcached => exact hget _ _ hcached
    | written view readAt hpc =>
      have hf : Call.find f = .find ⟨f.eventId, .put view readAt⟩ := by rw [← hpc]
      rw [hf] at h hwritten
      have hmem : (view, readAt) ∈ (Call.find ⟨f.eventId, .put view readAt⟩).carried :=
        List.mem_singleton.mpr rfl
      have hanswer := hwritten _ hmem (h.carried _ hmem)
      rw [h.own _ _ _ rfl] at hanswer
      exact hanswer

end Holds

end EventCache

end ServerC
