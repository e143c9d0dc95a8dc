import CouponIssuance.Caching.ReadThrough
import CouponIssuance.Concurrency.Calls
import CouponIssuance.Js.Wire
import CouponIssuance.ServerC.Query
import CouponIssuance.ServerC.RedeemApi

/-!
This module contains the event query of server-c: the view of an event, its cache in Redis
(`EventCacheStore`), the query behind `GET /api/v1/events/:eventId` (`EventQueryService`), the
refresher (`EventCacheRefresher`), and the machine that runs any number of them.
-/

namespace ServerC

open Js

inductive EventStatus where
  | created
  | inProgress
  | ended
  | cancelled
deriving DecidableEq

def EventStatus.text : EventStatus → String
  | created => "CREATED"
  | inProgress => "IN_PROGRESS"
  | ended => "ENDED"
  | cancelled => "CANCELLED"

structure EventRow extends Event where
  name : String
  content : Option String
  status : EventStatus

structure EventTable where
  rows : List EventRow
  nodup : (rows.map (·.id)).Nodup
  integers : ∀ event ∈ rows, event.id.isInteger = true

namespace EventTable

def findById (events : EventTable) (eventId : JsNumber) : Option EventRow :=
  events.rows.find? fun event => event.id == eventId

def findByStatus (events : EventTable) (status : EventStatus) : List EventRow :=
  events.rows.filter fun event => event.status == status

end EventTable

structure EventView where
  eventId : JsNumber
  name : String
  content : Option String
  startedAt : String
  endedAt : String
  status : String

def toEventView (event : EventRow) : EventView where
  eventId := event.id
  name := event.name
  content := event.content
  startedAt := LocalDateTime.toLocalDateTimeString event.startedAt
  endedAt := LocalDateTime.toLocalDateTimeString event.endedAt
  status := event.status.text

namespace EventView

def fields (view : EventView) : List (String × Json.Scalar) :=
  [("eventId", .num view.eventId), ("name", .str view.name)]
    ++ view.content.toList.map (fun content => ("content", .str content))
    ++ [("startedAt", .str view.startedAt), ("endedAt", .str view.endedAt),
      ("status", .str view.status)]

def toJs (view : EventView) : Json :=
  .obj (view.fields.map fun field => (field.1, field.2.value))

end EventView

def RedisKeys.event (eventId : JsNumber) : String :=
  "event:" ++ toString eventId

namespace EventCache

structure Config where
  ttlSeconds : Nat
  refreshIntervalMs : Nat

structure Shared where
  clock : Nat
  events : EventTable
  redis : Caching.Store String String
  /-- The flag of the refresher -/
  running : Bool
  /-- When the refresher was called for the last time -/
  calledAt : Nat

namespace EventCacheStore

/-- The value of the key, unless it is missing or does not parse -/
def get (σ : Shared) (eventId : JsNumber) : Option Json :=
  (σ.redis.get σ.clock (RedisKeys.event eventId)).bind Json.parse

/-- `SET ... EX 0` is an error reply. -/
def put (config : Config) (σ : Shared) (view : EventView) : Shared :=
  if config.ttlSeconds = 0 then
    σ
  else
    { σ with
      redis := σ.redis.set (RedisKeys.event view.eventId) (Json.stringify view.fields)
        (σ.clock + config.ttlSeconds * 1000)
    }

end EventCacheStore

inductive FindError where
  | eventNotFound (message : String)
  | queryFailed
deriving DecidableEq

inductive FindPc where
  | get
  | findById
  /-- The row was read at `readAt`. -/
  | put (view : EventView) (readAt : Nat)
  | returned (view : Json) (answeredAt : Nat)
  | thrown (e : FindError)

structure Find where
  eventId : JsNumber
  pc : FindPc

inductive RefreshPc where
  | called
  | findByStatus
  /-- The rows that are still to be written were read at `readAt`. -/
  | put (events : List EventRow) (readAt : Nat)
  | finished
  /-- An earlier cycle was still running. -/
  | skipped

inductive Call where
  | find (f : Find)
  | refresh (pc : RefreshPc)

inductive Input where
  | ok
  | fail (executed : Bool)

namespace Find

def goto (f : Find) (pc : FindPc) : Find :=
  { f with pc := pc }

def step (config : Config) (σ : Shared) (f : Find) : Input → Option (Shared × Find)
  | .ok =>
    match f.pc with
    | .get =>
      match EventCacheStore.get σ f.eventId with
      -- a cached `null` counts as a miss
      | none | some .null => some (σ, f.goto .findById)
      | some cached => some (σ, f.goto (.returned cached σ.clock))
    | .findById =>
      match σ.events.findById f.eventId with
      | none =>
        some (σ, f.goto (.thrown (.eventNotFound ("event not found: " ++ toString f.eventId))))
      | some event => some (σ, f.goto (.put (toEventView event) σ.clock))
    | .put view _ => some (EventCacheStore.put config σ view, f.goto (.returned view.toJs σ.clock))
    | .returned _ _ | .thrown _ => none
  | .fail executed =>
    match f.pc with
    | .get => some (σ, f.goto .findById)
    | .findById => some (σ, f.goto (.thrown .queryFailed))
    | .put view _ =>
      some (if executed then EventCacheStore.put config σ view else σ,
        f.goto (.returned view.toJs σ.clock))
    | .returned _ _ | .thrown _ => none

end Find

namespace RefreshPc

def next (σ : Shared) (events : List EventRow) (readAt : Nat) : Shared × RefreshPc :=
  if events.isEmpty then
    ({ σ with running := false }, .finished)
  else
    (σ, .put events readAt)

def step (config : Config) (σ : Shared) (pc : RefreshPc) : Input → Option (Shared × RefreshPc)
  | .ok =>
    match pc with
    | .called =>
      let σ := { σ with calledAt := σ.clock }
      if σ.running then
        some (σ, .skipped)
      else
        some ({ σ with running := true }, .findByStatus)
    | .findByStatus => some (next σ (σ.events.findByStatus .inProgress) σ.clock)
    | .put [] readAt => some (next σ [] readAt)
    | .put (event :: events) readAt =>
      some (next (EventCacheStore.put config σ (toEventView event)) events readAt)
    | .finished | .skipped => none
  | .fail executed =>
    match pc with
    | .called => none
    | .findByStatus => some ({ σ with running := false }, .finished)
    | .put [] readAt => some (next σ [] readAt)
    | .put (event :: events) readAt =>
      some (next (if executed then EventCacheStore.put config σ (toEventView event) else σ) events
        readAt)
    | .finished | .skipped => none

end RefreshPc

namespace Call

def start : Call → Bool
  | find ⟨_, .get⟩ | refresh .called => true
  | _ => false

def step (config : Config) (σ : Shared) (c : Call) (x : Input) : Option (Shared × Call) :=
  match c with
  | find f => (f.step config σ x).map fun r => (r.1, find r.2)
  | refresh pc => (pc.step config σ x).map fun r => (r.1, refresh r.2)

end Call

inductive Env where
  | advance (ms : Nat)
  | change (events : EventTable)
  | evict (key : String)

def env (σ : Shared) : Env → Option Shared
  | .advance ms => some { σ with clock := σ.clock + ms }
  | .change events => some { σ with events := events }
  | .evict key => some { σ with redis := σ.redis.evict key }

def calls (config : Config) : Concurrency.Calls Shared Call Input Env where
  start _ _ c := c.start
  waits _ _ _ := false
  step := Call.step config
  env := env

abbrev State := Concurrency.Calls.State Shared Call

abbrev Act := Concurrency.Calls.Act Call Input Env

def init (clock : Nat) (events : EventTable) : State where
  shared := {
    clock := clock
    events := events
    redis := .empty
    running := false
    calledAt := clock
  }
  calls := []

def FindError.exception : FindError → Exception DomainError
  | .eventNotFound message => .domain (.eventNotFound message)
  | .queryFailed => .other

def failed (exception : Exception DomainError) : ApiResponse Json :=
  let mapped := BaseExceptionFilter.catch mapDomain exception
  { status := mapped.status, body := .error mapped.error }

def FindPc.response : FindPc → Option (ApiResponse Json)
  | .returned view _ => some { status := 200, body := .ok view }
  | .thrown e => some (failed e.exception)
  | _ => none

end EventCache

end ServerC
