import CouponIssuance.ServerC.EventCached

/-!
This module contains that the cache of the events is not seen from outside as long as the table
stays as it is, and that an event in progress does not drop out of the cache as long as the refresher
keeps its pace.
-/

namespace ServerC.EventCache

open Js Caching Concurrency

section Intact

variable {config : Config} {P : EventView → Prop} {s t : State}

def IsView (P : EventView → Prop) (eventId : JsNumber) (answer : Json) : Prop :=
  ∃ view, P view ∧ view.eventId = eventId ∧ answer = view.toJs

def IsEntry (P : EventView → Prop) (key : String) (entry : Entry String) : Prop :=
  ∃ view, P view ∧ RedisKeys.event view.eventId = key ∧ entry.value = Json.stringify view.fields

structure Intact (P : EventView → Prop) (s : State) : Prop where
  rows : ∀ event ∈ s.shared.events.rows, P (toEventView event)
  entries : s.shared.redis.All (IsEntry P)
  calls : ∀ c ∈ s.calls, c.Holds (fun view _ => P view) fun eventId answer _ =>
    IsView P eventId answer

theorem Intact.get {eventId : JsNumber} {answer : Json}
    (hP : ∀ view, P view → view.eventId.isInteger = true) (h : Intact P s)
    (hget : EventCacheStore.get s.shared eventId = some answer)
    : IsView P eventId answer := by
  obtain ⟨text, htext, hparse⟩ := Option.bind_eq_some_iff.mp hget
  obtain ⟨_, hentry, _⟩ := Store.get_eq_some.mp htext
  obtain ⟨view, hview, hkey, rfl⟩ := h.entries _ _ hentry
  rw [EventView.parse_stringify (hP view hview)] at hparse
  exact ⟨view, hview, RedisKeys.event_injective hkey, (Option.some.inj hparse).symm⟩

theorem Intact.writes {c : Call} {store : Store String String} (h : Intact P s) (hc : c ∈ s.calls)
    (hwrites : Writes config s.shared c.carried store)
    : store.All (IsEntry P) := by
  cases hwrites with
  | nothing => exact h.entries
  | put view readAt hmem => exact h.entries.set ⟨view, (h.calls c hc).carried _ hmem, rfl, rfl⟩

theorem Intact.next {act : Act} (hP : ∀ view, P view → view.eventId.isInteger = true)
    (h : Intact P s)
    (hchange : ∀ events, act = .env (.change events) → ∀ event ∈ events.rows, P (toEventView event))
    (hnext : (EventCache.calls config).next s act = some t)
    : Intact P t := by
  cases act with
  | start c =>
    obtain ⟨hstart, rfl⟩ := Calls.next_start hnext
    refine ⟨h.rows, h.entries, ?_⟩
    intro c' hc'
    rcases List.mem_append.mp hc' with hc' | hc'
    . exact h.calls c' hc'
    . rw [List.mem_singleton.mp hc']
      exact .start hstart
  | step i x =>
    obtain ⟨c, shared, c', hc, _, hstep, rfl⟩ := Calls.next_step hnext
    obtain ⟨_, _, hevents, hwrites⟩ := Call.step_spec hstep
    have hmem := List.mem_of_getElem? hc
    refine ⟨?_, h.writes hmem hwrites, ?_⟩
    . dsimp only
      rw [hevents]
      exact h.rows
    . intro c'' hc''
      rcases List.mem_or_eq_of_mem_set hc'' with hold | rfl
      . exact h.calls c'' hold
      . exact (h.calls c hmem).step h.rows (fun _ _ hget => h.get hP hget)
          (fun p _ hp => ⟨p.1, hp, rfl, rfl⟩) hstep
  | env e =>
    obtain ⟨shared, henv, rfl⟩ := Calls.next_env hnext
    cases e with
    | advance ms => cases henv; exact ⟨h.rows, h.entries, h.calls⟩
    | change events => cases henv; exact ⟨hchange events rfl, h.entries, h.calls⟩
    | evict key => cases henv; exact ⟨h.rows, h.entries.evict, h.calls⟩

theorem intact {ok : State → Act → Prop} {clock : Nat} {events : EventTable}
    (hP : ∀ view, P view → view.eventId.isInteger = true)
    (hrows : ∀ event ∈ events.rows, P (toEventView event))
    (hchange : ∀ s events, ok s (.env (.change events)) → ∀ event ∈ events.rows, P (toEventView event))
    (hrun : (calls config).machine.Run ok (init clock events) s)
    : Intact P s := by
  apply hrun.invariant
  . exact ⟨hrows, .empty, fun c hc => by contradiction⟩
  . intro u act v h hok hnext
    refine h.next hP ?_ hnext
    intro events heq
    rw [heq] at hok
    exact hchange u events hok

end Intact

section Transparent

variable {config : Config} {clock : Nat} {events : EventTable} {s : State}

def Unchanged (_ : State) (act : Act) : Prop :=
  ∀ events, act ≠ .env (.change events)

def isUnchanged : Act → Bool
  | .env (.change _) => false
  | _ => true

theorem unchanged_of_isUnchanged {s : State} {act : Act} (h : isUnchanged act = true)
    : Unchanged s act := by
  rintro events rfl
  contradiction

def respond (events : EventTable) (eventId : JsNumber) : ApiResponse Json :=
  match events.findById eventId with
  | some event => { status := 200, body := .ok (toEventView event).toJs }
  | none => { status := 404, body := .error (ErrorResponses.of "EVENT_NOT_FOUND" "event not found") }

theorem events_eq (hrun : (calls config).machine.Run Unchanged (init clock events) s)
    : s.shared.events = events := by
  apply hrun.invariant (I := fun s => s.shared.events = events) rfl
  intro u act v h hok hnext
  cases act with
  | start c =>
    obtain ⟨_, rfl⟩ := Calls.next_start hnext
    exact h
  | step i x =>
    obtain ⟨c, shared, c', _, _, hstep, rfl⟩ := Calls.next_step hnext
    exact (Call.step_spec hstep).2.2.1.trans h
  | env e =>
    obtain ⟨shared, henv, rfl⟩ := Calls.next_env hnext
    cases e with
    | change events => exact absurd rfl (hok events)
    | advance ms => cases henv; exact h
    | evict key => cases henv; exact h

theorem thrown_spec (hrun : (calls config).machine.Run Unchanged (init clock events) s)
    : ∀ c ∈ s.calls, ∀ eventId e, c = .find ⟨eventId, .thrown e⟩
        → e = .queryFailed ∨ (events.findById eventId = none ∧ ∃ message, e = .eventNotFound message) := by
  apply Calls.forall_calls hrun (K := fun s => s.shared.events = events)
    (J := fun _ c => ∀ eventId e, c = .find ⟨eventId, .thrown e⟩
      → e = .queryFailed ∨ (events.findById eventId = none ∧ ∃ message, e = .eventNotFound message))
  . exact fun u hu => events_eq hu
  . intro c hc
    contradiction
  . intro u c _ _ hstart eventId e heq
    rw [heq] at hstart
    contradiction
  . intro u i x c σ' c' hu _ _ _ hstep eventId e heq
    subst heq
    obtain ⟨f, rfl, rfl, hfind⟩ := Call.step_find hstep
    cases hfind with
    | notFound hnone =>
      rw [hu] at hnone
      exact Or.inr ⟨hnone, _, rfl⟩
    | failed => exact Or.inl rfl
  . exact fun _ _ _ _ _ _ _ h => h

/--
As long as nobody changes the events, a response is the one without a cache, or 500 when the table
could not be read, whatever is cached, written, dropped and refreshed in between.
-/
theorem cache_transparent {f : Find} {response : ApiResponse Json}
    (hrun : (calls config).machine.Run Unchanged (init clock events) s)
    (hcall : .find f ∈ s.calls) (hresponse : f.pc.response = some response)
    : response = respond events f.eventId
        ∨ (f.pc = .thrown .queryFailed ∧ response = failed .other) := by
  obtain ⟨eventId, pc⟩ := f
  cases pc with
  | returned answer answeredAt =>
    have hintact : Intact (fun view => ∃ event ∈ events.rows, toEventView event = view) s := by
      apply intact _ (fun event hevent => ⟨event, hevent, rfl⟩) _ hrun
      . rintro _ ⟨event, hevent, rfl⟩
        exact events.integers event hevent
      . exact fun s events hok => absurd rfl (hok events)
    obtain ⟨_, ⟨event, hevent, rfl⟩, rfl, rfl⟩ := (hintact.calls _ hcall).answered _ _ _ rfl
    have hfind : events.findById (toEventView event).eventId = some event :=
      EventTable.findById_eq_some.mpr ⟨hevent, rfl⟩
    cases hresponse
    left
    simp only [respond, hfind]
  | thrown e =>
    cases hresponse
    rcases thrown_spec hrun _ hcall eventId e rfl with rfl | ⟨hnone, message, rfl⟩
    . exact Or.inr ⟨rfl, rfl⟩
    . left
      unfold respond
      rw [hnone]
      rfl
  | _ => contradiction

def queriedTwice : List Act :=
  [newFind, .step 0 .ok, .step 0 .ok, .step 0 .ok, newFind, .step 1 (.fail true), .step 1 .ok,
    .step 1 (.fail false)]

def hasReturned : Call → Bool
  | .find ⟨_, .returned _ _⟩ => true
  | _ => false

theorem cache_transparent_timeout
    : ∃ s response, (calls defaults).machine.Run Unchanged (init 0 (oneEvent "a")) s
        ∧ ∃ f, .find f ∈ s.calls ∧ f.pc.response = some response
          ∧ (response = respond (oneEvent "a") f.eventId
            ∨ (f.pc = .thrown .queryFailed ∧ response = failed .other)) := by
  obtain ⟨s, hrun, hs⟩ := Machine.exists_run_of_exec (calls defaults).machine
    (fun _ act => isUnchanged act) Unchanged (fun _ _ => unchanged_of_isUnchanged) queriedTwice
    (init 0 (oneEvent "a")) (fun s => s.calls[1]?.any hasReturned) (by decide +kernel)
  obtain ⟨c, hc, hreturned⟩ := (Option.any_eq_true _ _).mp hs
  unfold hasReturned at hreturned
  split at hreturned
  . have hmem := List.mem_of_getElem? hc
    exact ⟨s, _, hrun, _, hmem, rfl, cache_transparent hrun hmem rfl⟩
  . contradiction

end Transparent

section Refresh

variable {config : Config} {late : Nat} {eventId : JsNumber} {σ σ' : Shared} {s : State}

def Call.isCycle : Call → Bool
  | refresh .findByStatus | refresh (.put _ _) => true
  | _ => false

inductive RefreshPc.Goes (config : Config) (σ : Shared) : RefreshPc → Shared × RefreshPc → Prop where
  | skip : σ.running = true → Goes config σ .called ({ σ with calledAt := σ.clock }, .skipped)
  | begin : σ.running = false
      → Goes config σ .called ({ σ with calledAt := σ.clock, running := true }, .findByStatus)
  | read : Goes config σ .findByStatus (next σ (σ.events.findByStatus .inProgress) σ.clock)
  | write (event : EventRow) (events : List EventRow) (readAt : Nat)
      : Goes config σ (.put (event :: events) readAt)
        (next (EventCacheStore.put config σ (toEventView event)) events readAt)
  | stop (readAt : Nat) : Goes config σ (.put [] readAt) (next σ [] readAt)

theorem RefreshPc.goes {pc : RefreshPc} {r : Shared × RefreshPc}
    (h : pc.step config σ .ok = some r)
    : pc.Goes config σ r := by
  cases pc with
  | called =>
    simp only [step] at h
    split at h
    . next hrunning => cases h; exact .skip hrunning
    . next hrunning => cases h; exact .begin (by simpa using hrunning)
  | findByStatus => rw [← Option.some.inj h]; exact .read
  | put events readAt =>
    cases events with
    | nil => rw [← Option.some.inj h]; exact .stop readAt
    | cons event events => rw [← Option.some.inj h]; exact .write event events readAt
  | finished => contradiction
  | skipped => contradiction

/--
The refresher keeps its pace: the timer fires after the interval, a cycle is over within `late` and
before the next one, its calls succeed, the event stays in progress, and Redis does not drop it.
-/
def Punctual (config : Config) (late : Nat) (eventId : JsNumber) (s : State) : Act → Prop
  | .start _ => True
  | .step i x => ∀ pc, s.calls[i]? = some (.refresh pc)
    → x = .ok ∧ (pc = .called → s.shared.running = false)
  | .env (.advance ms) =>
    s.shared.clock + ms ≤ s.shared.calledAt + config.refreshIntervalMs
      ∧ (s.shared.running = true → s.shared.clock + ms ≤ s.shared.calledAt + late)
  | .env (.change events) => ∃ event ∈ events.findByStatus .inProgress, event.id = eventId
  | .env (.evict key) => key ≠ RedisKeys.event eventId

def Shared.Has (config : Config) (eventId : JsNumber) (σ : Shared) (time : Nat) : Prop :=
  σ.redis.Kept (RedisKeys.event eventId) (time + config.ttl)

structure InTime (config : Config) (late : Nat) (eventId : JsNumber) (σ : Shared) : Prop where
  row : ∃ event ∈ σ.events.findByStatus .inProgress, event.id = eventId
  called : σ.calledAt ≤ σ.clock
  interval : σ.clock ≤ σ.calledAt + config.refreshIntervalMs
  cycle : σ.running = true → σ.clock ≤ σ.calledAt + late

def Stocked (config : Config) (eventId : JsNumber) (σ : Shared) : Prop :=
  ∃ time, σ.Has config eventId time ∧ time ≤ σ.clock
    ∧ σ.calledAt ≤ time + config.refreshIntervalMs ∧ (σ.running = false → σ.calledAt ≤ time)

def Call.Ahead (config : Config) (eventId : JsNumber) (σ : Shared) : Call → Prop
  | refresh .findByStatus => σ.running = true
  | refresh (.put events _) => σ.running = true
    ∧ ((∃ event ∈ events, event.id = eventId) ∨ σ.Has config eventId σ.calledAt)
  | refresh .finished => Stocked config eventId σ
  | _ => True

theorem Call.Ahead.running {c : Call} (h : c.Ahead config eventId σ) (hcycle : c.isCycle = true)
    : σ.running = true := by
  unfold isCycle at hcycle
  split at hcycle
  . exact h
  . exact h.1
  . contradiction

def Exclusive (c c' : Call) : Prop :=
  ¬(c.isCycle = true ∧ c'.isCycle = true)

theorem put_eq (config : Config) (σ : Shared) (view : EventView)
    : ∃ redis, EventCacheStore.put config σ view = { σ with redis := redis } := by
  unfold EventCacheStore.put
  split
  . exact ⟨σ.redis, rfl⟩
  . exact ⟨_, rfl⟩

theorem Shared.Has.put {time : Nat} (h : σ.Has config eventId time) (hle : time ≤ σ.clock)
    (view : EventView)
    : (EventCacheStore.put config σ view).Has config eventId time := by
  unfold EventCacheStore.put
  split
  . exact h
  . exact Store.Kept.set h (Nat.add_le_add_right hle _)

theorem has_put (httl : 0 < config.ttlSeconds) (σ : Shared) (view : EventView)
    : (EventCacheStore.put config σ view).Has config view.eventId σ.clock := by
  unfold EventCacheStore.put
  rw [if_neg (by omega)]
  exact Store.kept_set (Nat.le_refl _)

structure Keeps (config : Config) (eventId : JsNumber) (σ σ' : Shared) : Prop where
  running : σ'.running = σ.running
  calledAt : σ'.calledAt = σ.calledAt
  clock : σ.clock ≤ σ'.clock
  has : ∀ time ≤ σ.clock, σ.Has config eventId time → σ'.Has config eventId time

theorem keeps_put (config : Config) (eventId : JsNumber) (σ : Shared) (view : EventView)
    : Keeps config eventId σ (EventCacheStore.put config σ view) := by
  obtain ⟨redis, heq⟩ := put_eq config σ view
  refine ⟨?_, ?_, ?_, fun time hle h => h.put hle view⟩
  all_goals rw [heq]

theorem Stocked.keep (h : Stocked config eventId σ) (hkeeps : Keeps config eventId σ σ')
    : Stocked config eventId σ' := by
  obtain ⟨time, hhas, hle, hinterval, hcalled⟩ := h
  refine ⟨time, hkeeps.has time hle hhas, Nat.le_trans hle hkeeps.clock, ?_, ?_⟩
  . rw [hkeeps.calledAt]
    exact hinterval
  . rw [hkeeps.calledAt, hkeeps.running]
    exact hcalled

theorem Call.Ahead.keep {c : Call} (h : c.Ahead config eventId σ) (hcalled : σ.calledAt ≤ σ.clock)
    (hkeeps : Keeps config eventId σ σ')
    : c.Ahead config eventId σ' := by
  unfold Ahead at h ⊢
  split at h
  . exact hkeeps.running.trans h
  . refine ⟨hkeeps.running.trans h.1, h.2.imp_right fun hhas => ?_⟩
    rw [hkeeps.calledAt]
    exact hkeeps.has _ hcalled hhas
  . exact h.keep hkeeps
  . trivial

theorem InTime.keep (h : InTime config late eventId σ) (hkeeps : Keeps config eventId σ σ')
    (hclock : σ'.clock = σ.clock) (hevents : σ'.events = σ.events)
    : InTime config late eventId σ' := by
  refine ⟨hevents ▸ h.row, ?_, ?_, ?_⟩
  . rw [hkeeps.calledAt, hclock]
    exact h.called
  . rw [hkeeps.calledAt, hclock]
    exact h.interval
  . rw [hkeeps.calledAt, hkeeps.running, hclock]
    exact h.cycle

theorem stocked_of_has (h : σ.Has config eventId σ.calledAt) (hcalled : σ.calledAt ≤ σ.clock)
    : Stocked config eventId { σ with running := false } :=
  ⟨σ.calledAt, h, hcalled, Nat.le_add_right .., fun _ => Nat.le_refl _⟩

theorem has_of_write {event : EventRow} {events : List EventRow} (httl : 0 < config.ttlSeconds)
    (hcalled : σ.calledAt ≤ σ.clock)
    (h : (∃ e ∈ event :: events, e.id = eventId) ∨ σ.Has config eventId σ.calledAt)
    : (∃ e ∈ events, e.id = eventId)
        ∨ (EventCacheStore.put config σ (toEventView event)).Has config eventId σ.calledAt := by
  rcases h with ⟨e, he, hid⟩ | hhas
  . rcases List.mem_cons.mp he with rfl | he
    . right
      rw [← hid]
      exact Store.Kept.mono (has_put httl σ (toEventView e)) (Nat.add_le_add_right hcalled _)
    . exact Or.inl ⟨e, he, hid⟩
  . exact Or.inr (hhas.put hcalled _)

theorem RefreshPc.Goes.own {pc : RefreshPc} {r : Shared × RefreshPc} (h : pc.Goes config σ r)
    (httl : 0 < config.ttlSeconds) (hinTime : InTime config late eventId σ)
    (hahead : (Call.refresh pc).Ahead config eventId σ)
    : InTime config late eventId r.1 ∧ (Call.refresh r.2).Ahead config eventId r.1 := by
  cases h with
  | skip hrunning =>
    refine ⟨⟨hinTime.row, Nat.le_refl _, Nat.le_add_right .., fun _ => Nat.le_add_right ..⟩, trivial⟩
  | begin hrunning =>
    exact ⟨⟨hinTime.row, Nat.le_refl _, Nat.le_add_right .., fun _ => Nat.le_add_right ..⟩, rfl⟩
  | read =>
    obtain ⟨event, hevent, hid⟩ := hinTime.row
    cases hrows : σ.events.findByStatus .inProgress with
    | nil =>
      rw [hrows] at hevent
      contradiction
    | cons first rest =>
      rw [hrows] at hevent
      exact ⟨hinTime, hahead, Or.inl ⟨event, hevent, hid⟩⟩
  | write event events readAt =>
    have hkeeps := keeps_put config eventId σ (toEventView event)
    obtain ⟨hclock, hevents, _⟩ := put_spec config σ (toEventView event)
    have hinTime' := hinTime.keep hkeeps hclock hevents
    have hwrite := has_of_write httl hinTime.called hahead.2
    rw [← hkeeps.calledAt] at hwrite
    cases events with
    | nil =>
      obtain ⟨_, hnil, _⟩ | hhas := hwrite
      . contradiction
      . exact ⟨⟨hinTime'.row, hinTime'.called, hinTime'.interval, fun h => by contradiction⟩,
          stocked_of_has hhas hinTime'.called⟩
    | cons next rest => exact ⟨hinTime', hkeeps.running.trans hahead.1, hwrite⟩
  | stop readAt =>
    obtain ⟨_, hnil, _⟩ | hhas := hahead.2
    . contradiction
    . exact ⟨⟨hinTime.row, hinTime.called, hinTime.interval, fun h => by contradiction⟩,
        stocked_of_has hhas hinTime.called⟩

theorem RefreshPc.Goes.other {pc : RefreshPc} {r : Shared × RefreshPc} {c : Call}
    (h : pc.Goes config σ r) (httl : 0 < config.ttlSeconds) (hinTime : InTime config late eventId σ)
    (hahead : (Call.refresh pc).Ahead config eventId σ) (hcalled : pc = .called → σ.running = false)
    (hother : c.Ahead config eventId σ) (hexclusive : Exclusive (.refresh pc) c)
    : c.Ahead config eventId r.1 ∧ Exclusive (.refresh r.2) c := by
  have hown := (h.own httl hinTime hahead).2
  by_cases hcycle : c.isCycle = true
  . -- another cycle runs, so this one does not even begin
    have hflag := hother.running hcycle
    cases h with
    | skip _ => exact absurd (hcalled rfl) (by simp [hflag])
    | begin hdown => exact absurd hdown (by simp [hflag])
    | read => exact absurd ⟨rfl, hcycle⟩ hexclusive
    | write _ _ _ => exact absurd ⟨rfl, hcycle⟩ hexclusive
    | stop _ => exact absurd ⟨rfl, hcycle⟩ hexclusive
  . refine ⟨?_, fun hboth => hcycle hboth.2⟩
    cases c with
    | find f => trivial
    | refresh pc' =>
      cases pc' with
      | called => trivial
      | skipped => trivial
      | findByStatus => exact absurd rfl hcycle
      | put events readAt => exact absurd rfl hcycle
      | finished =>
        cases h with
        | skip hup => exact absurd (hcalled rfl) (by simp [hup])
        | begin hdown =>
          obtain ⟨time, hhas, hle, _, hlast⟩ := hother
          refine ⟨time, hhas, hle, ?_, fun h => by contradiction⟩
          exact Nat.le_trans hinTime.interval (Nat.add_le_add_right (hlast hdown) _)
        | read =>
          obtain ⟨event, hevent, _⟩ := hinTime.row
          cases hrows : σ.events.findByStatus .inProgress with
          | nil =>
            rw [hrows] at hevent
            contradiction
          | cons first rest => exact hother
        | write event events readAt =>
          cases events with
          | nil => exact hown
          | cons next rest =>
            exact hother.keep hinTime.called (keeps_put config eventId σ (toEventView event))
        | stop readAt => exact hown

theorem Find.step_shared {f f' : Find} {x : Input} (h : f.step config σ x = some (σ', f'))
    : σ' = σ ∨ ∃ view, σ' = EventCacheStore.put config σ view := by
  obtain ⟨id, pc⟩ := f
  cases pc with
  | get =>
    cases x with
    | ok =>
      simp only [step] at h
      split at h <;> cases h <;> exact Or.inl rfl
    | fail executed => cases h; exact Or.inl rfl
  | findById =>
    cases x with
    | ok =>
      simp only [step] at h
      split at h <;> cases h <;> exact Or.inl rfl
    | fail executed => cases h; exact Or.inl rfl
  | put view readAt =>
    cases x with
    | ok => cases h; exact Or.inr ⟨view, rfl⟩
    | fail executed =>
      cases executed with
      | true => cases h; exact Or.inr ⟨view, rfl⟩
      | false => cases h; exact Or.inl rfl
  | returned view answeredAt => cases x <;> contradiction
  | thrown e => cases x <;> contradiction

theorem Find.keeps {f f' : Find} {x : Input} (eventId : JsNumber)
    (h : f.step config σ x = some (σ', f'))
    : Keeps config eventId σ σ' ∧ σ'.clock = σ.clock ∧ σ'.events = σ.events := by
  obtain ⟨_, _, hclock, hevents, _⟩ := f.step_spec h
  refine ⟨?_, hclock, hevents⟩
  rcases f.step_shared h with rfl | ⟨view, rfl⟩
  . exact ⟨rfl, rfl, Nat.le_refl _, fun _ _ h => h⟩
  . exact keeps_put config eventId σ view

theorem Call.start_spec {c : Call} (h : c.start = true)
    : c.Ahead config eventId σ ∧ c.isCycle = false := by
  unfold Call.start at h
  split at h
  . exact ⟨trivial, rfl⟩
  . exact ⟨trivial, rfl⟩
  . contradiction

theorem aheadOutlined (config : Config) (late : Nat) (eventId : JsNumber)
    (httl : 0 < config.ttlSeconds)
    : Calls.Outlined (calls config) (Punctual config late eventId) (InTime config late eventId)
        (Call.Ahead config eventId) fun _ => Exclusive where
  symm _ _ _ h hboth := h hboth.symm
  start s f _ _ hstart := by
    obtain ⟨hahead, hcycle⟩ := Call.start_spec hstart
    refine ⟨hahead, fun j g _ hboth => ?_⟩
    rw [hcycle] at hboth
    exact absurd hboth.1 (by decide)
  own s i x c σ' c' h hok hc hstep := by
    cases c with
    | find f =>
      obtain ⟨⟨_, f'⟩, hfind, heq⟩ := Option.map_eq_some_iff.mp hstep
      cases heq
      obtain ⟨hkeeps, hclock, hevents⟩ := Find.keeps eventId hfind
      exact ⟨h.shared.keep hkeeps hclock hevents, trivial⟩
    | refresh pc =>
      obtain ⟨⟨_, pc'⟩, hrefresh, heq⟩ := Option.map_eq_some_iff.mp hstep
      cases heq
      obtain ⟨rfl, _⟩ := hok pc hc
      exact (RefreshPc.goes hrefresh).own httl h.shared (h.calls i _ hc)
  other s i x c σ' c' j g h hok hc hj hg _ hstep := by
    cases c with
    | find f =>
      obtain ⟨⟨_, f'⟩, hfind, heq⟩ := Option.map_eq_some_iff.mp hstep
      cases heq
      obtain ⟨hkeeps, _⟩ := Find.keeps eventId hfind
      exact ⟨(h.calls j g hg).keep h.shared.called hkeeps, fun hboth => Bool.false_ne_true hboth.1⟩
    | refresh pc =>
      obtain ⟨⟨_, pc'⟩, hrefresh, heq⟩ := Option.map_eq_some_iff.mp hstep
      cases heq
      obtain ⟨rfl, hcalled⟩ := hok pc hc
      exact (RefreshPc.goes hrefresh).other httl h.shared (h.calls i _ hc) hcalled (h.calls j g hg)
        (h.apart i j _ g (Ne.symm hj) hc hg)
  third s i x c σ' c' j g k g' h _ _ _ hg _ hg' hjk _ := h.apart j k g g' hjk hg hg'
  env s e σ' h hok henv := by
    cases e with
    | advance ms =>
      cases henv
      have hkeeps : Keeps config eventId s.shared { s.shared with clock := s.shared.clock + ms } :=
        ⟨rfl, rfl, Nat.le_add_right .., fun _ _ h => h⟩
      refine ⟨⟨h.shared.row, Nat.le_trans h.shared.called (Nat.le_add_right ..), hok.1, hok.2⟩, ?_, h.apart⟩
      exact fun i c hc => (h.calls i c hc).keep h.shared.called hkeeps
    | change events =>
      cases henv
      have hkeeps : Keeps config eventId s.shared { s.shared with events := events } :=
        ⟨rfl, rfl, Nat.le_refl _, fun _ _ h => h⟩
      refine ⟨⟨hok, h.shared.called, h.shared.interval, h.shared.cycle⟩, ?_, h.apart⟩
      exact fun i c hc => (h.calls i c hc).keep h.shared.called hkeeps
    | evict key =>
      cases henv
      have hkeeps : Keeps config eventId s.shared
          { s.shared with redis := s.shared.redis.evict key } :=
        ⟨rfl, rfl, Nat.le_refl _, fun _ _ h => h.evict (Ne.symm hok)⟩
      refine ⟨h.shared.keep hkeeps rfl rfl, ?_, h.apart⟩
      exact fun i c hc => (h.calls i c hc).keep h.shared.called hkeeps

theorem Find.step_hit {view : EventView}
    (h : EventCacheStore.get σ eventId = some view.toJs)
    : (⟨eventId, .get⟩ : Find).step config σ .ok
        = some (σ, ⟨eventId, .returned view.toJs σ.clock⟩) := by
  unfold Find.step
  dsimp only
  rw [h]
  rfl

theorem ahead {clock : Nat} {events : EventTable} (httl : 0 < config.ttlSeconds)
    (hrow : ∃ event ∈ events.findByStatus .inProgress, event.id = eventId)
    (hrun : (calls config).machine.Run (Punctual config late eventId) (init clock events) s)
    : Calls.Outline (InTime config late eventId) (Call.Ahead config eventId) (fun _ => Exclusive) s := by
  apply (aheadOutlined config late eventId httl).run hrun
  refine ⟨⟨hrow, Nat.le_refl _, Nat.le_add_right .., fun h => by contradiction⟩, ?_, ?_⟩
  . intro i c hc
    contradiction
  . intro i j c c' _ hc
    contradiction

/--
As long as the refresher keeps its pace, and a cycle ends in time for the next one to come before the
entries of the last one expire, an event in progress does not drop out of the cache: from the end of
the first cycle on, a query for it is answered without the table.
-/
theorem refresh_ahead {clock : Nat} {events : EventTable}
    (hpace : config.refreshIntervalMs + late < config.ttlSeconds * 1000)
    (hrow : ∃ event ∈ events.findByStatus .inProgress, event.id = eventId)
    (hrun : (calls config).machine.Run (Punctual config late eventId) (init clock events) s)
    (hcycle : .refresh .finished ∈ s.calls)
    : ∃ view : EventView, view.eventId = eventId
        ∧ (⟨eventId, .get⟩ : Find).step config s.shared .ok
          = some (s.shared, ⟨eventId, .returned view.toJs s.shared.clock⟩) := by
  have hahead := ahead (by omega) hrow hrun
  have hintact : Intact (fun view => view.eventId.isInteger = true) s :=
    intact (fun _ h => h) events.integers (fun _ events _ => events.integers) hrun
  obtain ⟨i, hi⟩ := List.mem_iff_getElem?.mp hcycle
  obtain ⟨time, hhas, _, hinterval, hlast⟩ : Stocked config eventId s.shared := hahead.calls i _ hi
  have hlive : s.shared.clock < time + config.ttl := by
    unfold Config.ttl
    cases hrunning : s.shared.running with
    | true =>
      have := hahead.shared.cycle hrunning
      omega
    | false =>
      have := hahead.shared.interval
      have := hlast hrunning
      omega
  obtain ⟨text, htext⟩ := Option.isSome_iff_exists.mp (hhas.isSome_get hlive)
  obtain ⟨_, hentry, _⟩ := Store.get_eq_some.mp htext
  obtain ⟨view, hview, hkey, rfl⟩ := hintact.entries _ _ hentry
  have hget : EventCacheStore.get s.shared eventId = some view.toJs := by
    unfold EventCacheStore.get
    rw [htext, Option.bind_some, EventView.parse_stringify hview]
  exact ⟨view, RedisKeys.event_injective hkey, Find.step_hit hget⟩

def isPunctual (config : Config) (late : Nat) (s : State) : Act → Bool
  | .start _ => true
  | .step i x =>
    match x, s.calls[i]? with
    | .ok, some (Call.refresh .called) => !s.shared.running
    | .fail _, some (Call.refresh _) => false
    | _, _ => true
  | .env (.advance ms) =>
    s.shared.clock + ms ≤ s.shared.calledAt + config.refreshIntervalMs
      && (!s.shared.running || s.shared.clock + ms ≤ s.shared.calledAt + late)
  | .env _ => false

theorem punctual_of_isPunctual {act : Act} (h : isPunctual config late s act = true)
    : Punctual config late eventId s act := by
  cases act with
  | start c => trivial
  | step i x =>
    intro pc hpc
    simp only [isPunctual, hpc] at h
    cases x with
    | ok =>
      refine ⟨rfl, ?_⟩
      rintro rfl
      simpa using h
    | fail executed => cases pc <;> contradiction
  | env e =>
    cases e with
    | advance ms =>
      simp only [isPunctual, Bool.and_eq_true, Bool.or_eq_true, decide_eq_true_eq,
        Bool.not_eq_true'] at h
      exact ⟨h.1, fun hrunning => h.2.resolve_left (by simp [hrunning])⟩
    | change events => contradiction
    | evict key => contradiction

def refreshedOnce : List Act :=
  [.start (.refresh .called), .step 0 .ok, .step 0 .ok, .step 0 .ok, .env (.advance 60000),
    .start (.refresh .called), .step 1 .ok, .env (.advance 1000)]

def hasRefreshed (s : State) : Bool :=
  match s.calls with
  | [.refresh .finished, .refresh .findByStatus] => s.shared.clock == 61000
  | _ => false

theorem refresh_ahead_between
    : ∃ s, (calls defaults).machine.Run (Punctual defaults 1000 (.ofInt 1)) (init 0 (oneEvent "a")) s
        ∧ s.shared.clock = 61000
        ∧ ∃ view : EventView, view.eventId = .ofInt 1
          ∧ (⟨.ofInt 1, .get⟩ : Find).step defaults s.shared .ok
            = some (s.shared, ⟨.ofInt 1, .returned view.toJs s.shared.clock⟩) := by
  obtain ⟨s, hrun, hs⟩ := Machine.exists_run_of_exec (calls defaults).machine
    (isPunctual defaults 1000) (Punctual defaults 1000 (.ofInt 1))
    (fun _ _ => punctual_of_isPunctual) refreshedOnce (init 0 (oneEvent "a")) hasRefreshed
    (by decide +kernel)
  unfold hasRefreshed at hs
  split at hs
  . next hcalls =>
    have hcycle : .refresh .finished ∈ s.calls := by
      rw [hcalls]
      exact List.mem_cons_self ..
    have hrow : ∃ event ∈ (oneEvent "a").findByStatus .inProgress, event.id = .ofInt 1 :=
      ⟨openEvent "a", List.mem_singleton.mpr rfl, rfl⟩
    exact ⟨s, hrun, by simpa using hs, refresh_ahead (by decide) hrow hrun hcycle⟩
  . contradiction

end Refresh

end ServerC.EventCache
