import CouponIssuance.Concurrency.Calls
import CouponIssuance.ServerB.Store

/-!
This module contains the flows of server-b (`CouponIssueAcceptService.accept`,
`PendingIssueScheduler.sweep` and `CouponIssueResultConsumer.deliver`), cut at every `await`, and
the machine that runs any number of them against one Redis.
-/

namespace ServerB

open Js

structure Config where
  cutoffSeconds : Nat
  batchSize : Nat
  maxPublishAttempts : Nat
  maxDeliveryAttempts : Nat

namespace Config

def cutoff (config : Config) : Nat :=
  config.cutoffSeconds * 1000

end Config

inductive AcceptPc where
  | save (pc : SavePc)
  | publish
  | returned (result : IssueAcceptanceResult)
  | thrown
  | crashed

/--
`generation` is a history variable: which hash of the pair the call has claimed, counted by the
hashes that expired before.
-/
structure Accept where
  save : Save
  generation : Option Nat
  pc : AcceptPc

namespace Accept

def payload (a : Accept) : CouponIssueRequestPayload where
  requestId := a.save.requestId
  userId := a.save.userId
  eventId := a.save.eventId
  couponTypeId := a.save.couponTypeId
  requestedAt := LocalDateTime.toInstantString a.save.createdAt

end Accept

inductive SweepPc where
  | zrangebyscore
  | hgetall (userId couponTypeId : JsNumber) (member : String) (members : List String)
      (result : List PendingIssue)
  | zrem (member : String) (members : List String) (result : List PendingIssue)
  | lookup (pending : PendingIssue) (stale : List PendingIssue)
  | markResult (mark : Mark) (gaveUp : Bool) (stale : List PendingIssue)
  | recordRepublish (pending : PendingIssue) (republish : Republish) (stale : List PendingIssue)
  | publishForScheduler (payload : CouponIssueRequestPayload) (stale : List PendingIssue)
  | finished
  | crashed

structure Sweep where
  cutoffMs : Int
  pc : SweepPc

namespace SweepPc

def isRunning : SweepPc → Bool
  | finished | crashed => false
  | _ => true

def visit : List PendingIssue → SweepPc
  | [] => finished
  | pending :: stale => lookup pending stale

def scan : List String → List PendingIssue → SweepPc
  | [], result => visit result
  | member :: members, result =>
    match parseMember member with
    | some (userId, couponTypeId) => hgetall userId couponTypeId member members result
    | none => scan members result

end SweepPc

inductive DeliverPc where
  | markResult (payload : CouponIssueResultPayload) (attempt : Nat) (mark : Mark)
  | returned
  | crashed
deriving DecidableEq

structure Deliver where
  value : String
  pc : DeliverPc

inductive Call where
  | accept (a : Accept)
  | sweep (s : Sweep)
  | deliver (d : Deliver)

/-- The part of the answer of server-c that the scheduler reads -/
structure UserCouponLookupResult where
  code : String
  status : String
deriving DecidableEq

inductive Await where
  | redis (command : Command)
  | publish (payload : CouponIssueRequestPayload)
  | lookup (userId couponTypeId : JsNumber)
  | nothing

inductive Input where
  /-- It succeeds. -/
  | ok
  /-- The lookup answers. -/
  | answer (result : Option UserCouponLookupResult)
  /-- It throws, though it may have been executed. -/
  | fail (executed : Bool)
  /-- The server goes down before it is executed. -/
  | crash

def Input.executes : Input → Bool
  | .ok | .fail true => true
  | _ => false

inductive Event where
  | visited (pending : PendingIssue)
  | publishedForScheduler (payload : CouponIssueRequestPayload)
deriving DecidableEq

/-- `history` is a history variable. -/
structure Shared where
  redis : Redis
  clock : Nat
  /-- The messages of `coupon-issue-request`, key and value -/
  topic : List (String × String)
  history : List Event

namespace Accept

def resume (a : Accept) (evictions : String → Nat) (reply : Reply) : Accept :=
  match a.pc with
  | .save .hsetnx =>
    match reply with
    | .integer 0 => { a with pc := .returned (IssueAcceptance.duplicate a.save.requestId) }
    | _ => { a with generation := some (evictions a.save.hashKey), pc := .save .hset }
  | .save .hset => { a with pc := .save .expire }
  | .save .expire => { a with pc := .save .zadd }
  | .save .zadd => { a with pc := .publish }
  | _ => a

/-- A failed publish is swallowed. -/
def published (a : Accept) : Accept :=
  { a with pc := .returned (IssueAcceptance.accepted a.save.requestId) }

end Accept

namespace Sweep

def mapStatus (status : String) : IssuePendingStatus :=
  if status = "SUCCESS" then
    .success
  else if status = "SOLD_OUT" then
    .soldOut
  else if status = "USED" then
    .success
  else
    .failed

def goto (s : Sweep) (pc : SweepPc) : Sweep :=
  { s with pc := pc }

def republishPayload (pending : PendingIssue) (createdAt : Int) : CouponIssueRequestPayload where
  requestId := pending.requestId
  userId := pending.userId
  eventId := pending.eventId
  couponTypeId := pending.couponTypeId
  requestedAt := LocalDateTime.toInstantString createdAt

def resume (s : Sweep) (reply : Reply) : Sweep :=
  match s.pc with
  | .zrangebyscore =>
    match reply with
    | .members members => s.goto (.scan members [])
    | _ => s
  | .hgetall userId couponTypeId member members result =>
    match reply with
    | .entries none => s.goto (.zrem member members result)
    | .entries (some entries) =>
      match readEntry userId couponTypeId entries with
      | none => s.goto (.scan members result)
      | some pending => s.goto (.scan members (result ++ [pending]))
    | _ => s
  | .zrem _ members result => s.goto (.scan members result)
  | .markResult mark gaveUp stale =>
    match mark.next with
    | some mark => s.goto (.markResult mark gaveUp stale)
    | none => s.goto (.visit stale)
  | .recordRepublish pending republish stale =>
    match republish.next with
    | some republish => s.goto (.recordRepublish pending republish stale)
    | none =>
      match pending.createdAt with
      -- `toISOString` of an `Invalid Date` throws, and the loop over the entries catches it
      | none => s.goto (.visit stale)
      | some createdAt => s.goto (.publishForScheduler (republishPayload pending createdAt) stale)
  | _ => s

def answered (config : Config) (now : Nat) (s : Sweep) (result : Option UserCouponLookupResult)
    : Sweep :=
  match s.pc with
  | .lookup pending stale =>
    match result with
    | some result =>
      let mark := ServerB.markResult pending.userId pending.couponTypeId (mapStatus result.status)
        (some result.code)
      s.goto (.markResult mark false stale)
    | none =>
      if JsNumber.lt pending.publishAttempts (JsNumber.ofInt config.maxPublishAttempts) then
        let republish := ServerB.recordRepublish pending.userId pending.couponTypeId now
        s.goto (.recordRepublish pending republish stale)
      else
        let mark := ServerB.markResult pending.userId pending.couponTypeId .failed none
        s.goto (.markResult mark true stale)
  | _ => s

/-- The loop over the entries goes on after an error, the search for them does not. -/
def reject (s : Sweep) : Sweep :=
  match s.pc with
  | .zrangebyscore | .hgetall _ _ _ _ _ | .zrem _ _ _ => s.goto .finished
  | .lookup _ stale | .markResult _ _ stale | .recordRepublish _ _ stale
  | .publishForScheduler _ stale => s.goto (.visit stale)
  | _ => s

end Sweep

namespace Deliver

def parse (value : String) : Option CouponIssueResultPayload :=
  match Json.parse value with
  | none => none
  | some payload =>
    match assertIssueResultPayload payload with
    | .ok _ => CouponIssueResultPayload.ofJs payload
    | .error _ => none

def mapStatus : CouponIssueResultStatus → IssuePendingStatus
  | .success => .success
  | .soldOut => .soldOut
  | .failed => .failed

def mark (payload : CouponIssueResultPayload) : Mark :=
  ServerB.markResult payload.userId payload.couponTypeId (mapStatus payload.status)
    payload.couponCode

def attempt (config : Config) (payload : CouponIssueResultPayload) (n : Nat) : DeliverPc :=
  if n ≤ config.maxDeliveryAttempts then .markResult payload n (mark payload) else .returned

def start (config : Config) (value : String) : DeliverPc :=
  match parse value with
  | none => .returned
  | some payload => attempt config payload 1

def resume (d : Deliver) : Deliver :=
  match d.pc with
  | .markResult payload attempt mark =>
    match mark.next with
    | some mark => { d with pc := .markResult payload attempt mark }
    | none => { d with pc := .returned }
  | _ => d

def reject (config : Config) (d : Deliver) : Deliver :=
  match d.pc with
  | .markResult payload n _ => { d with pc := attempt config payload (n + 1) }
  | _ => d

end Deliver

namespace Shared

/-- `publishWithTimeout`: a payload that fails its check is not sent. -/
def send (σ : Shared) (payload : CouponIssueRequestPayload) : Shared :=
  match assertIssueRequestPayload payload.toJs with
  | .ok _ =>
    { σ with topic := σ.topic ++ [(toString payload.userId, Json.stringify payload.fields)] }
  | .error _ => σ

def execute (σ : Shared) (command : Command) : Shared :=
  match σ.redis.exec command with
  | some (redis, _) => { σ with redis := redis }
  | none => σ

end Shared

namespace Call

def awaits (config : Config) : Call → Await
  | accept a =>
    match a.pc with
    | .save pc => .redis (a.save.command pc)
    | .publish => .publish a.payload
    | _ => .nothing
  | sweep s =>
    match s.pc with
    | .zrangebyscore => .redis (.zrangebyscore s.cutoffMs config.batchSize)
    | .hgetall userId couponTypeId _ _ _ =>
      .redis (.hgetall (RedisKeys.pendingHash userId couponTypeId))
    | .zrem member _ _ => .redis (.zrem member)
    | .lookup pending _ => .lookup pending.userId pending.couponTypeId
    | .markResult mark _ _ => .redis mark.command
    | .recordRepublish _ republish _ => .redis republish.command
    | .publishForScheduler payload _ => .publish payload
    | _ => .nothing
  | deliver d =>
    match d.pc with
    | .markResult _ _ mark => .redis mark.command
    | _ => .nothing

def resume (evictions : String → Nat) (reply : Reply) : Call → Call
  | accept a => accept (a.resume evictions reply)
  | sweep s => sweep (s.resume reply)
  | deliver d => deliver d.resume

def reject (config : Config) : Call → Call
  | accept a => accept { a with pc := .thrown }
  | sweep s => sweep s.reject
  | deliver d => deliver (d.reject config)

def published : Call → Call
  | accept a => accept a.published
  | sweep s => sweep s.reject
  | deliver d => deliver d

def answered (config : Config) (now : Nat) (result : Option UserCouponLookupResult) : Call → Call
  | sweep s => sweep (s.answered config now result)
  | c => c

def crash : Call → Call
  | accept a => accept { a with pc := .crashed }
  | sweep s => sweep (s.goto .crashed)
  | deliver d => deliver { d with pc := .crashed }

def events : Call → List Event
  | sweep s =>
    match s.pc with
    | .lookup pending _ => [.visited pending]
    | .publishForScheduler payload _ => [.publishedForScheduler payload]
    | _ => []
  | _ => []

def proceed (σ : Shared) (c : Call) : Shared × Call :=
  ({ σ with history := σ.history ++ c.events }, c)

def step (config : Config) (σ : Shared) (c : Call) : Input → Option (Shared × Call)
  | .ok =>
    match c.awaits config with
    | .redis command =>
      match σ.redis.exec command with
      | some (redis, reply) =>
        some (proceed { σ with redis := redis } (c.resume σ.redis.evictions reply))
      | none => some (proceed σ (c.reject config))
    | .publish payload => some (proceed (σ.send payload) c.published)
    | _ => none
  | .answer result =>
    match c.awaits config with
    | .lookup _ _ => some (proceed σ (c.answered config σ.clock result))
    | _ => none
  | .fail executed =>
    match c.awaits config with
    | .redis command =>
      some (proceed (if executed then σ.execute command else σ) (c.reject config))
    | .publish payload => some (proceed (if executed then σ.send payload else σ) c.published)
    | .lookup _ _ => some (proceed σ (c.reject config))
    | .nothing => none
  | .crash =>
    match c.awaits config with
    | .nothing => none
    | _ => some (σ, c.crash)

/-- `IssueRequestDto`, and the pattern of the header `X-User-Id` -/
def isAdmitted (s : Save) : Bool :=
  s.eventId.isInteger && JsNumber.lt (JsNumber.ofInt 0) s.eventId
    && s.couponTypeId.isInteger && JsNumber.lt (JsNumber.ofInt 0) s.couponTypeId
    && s.userId != .nan

def start (config : Config) (σ : Shared) (calls : List Call) : Call → Bool
  | accept ⟨save, none, .save .hsetnx⟩ => save.createdAt == σ.clock && isAdmitted save
  | sweep ⟨cutoffMs, .zrangebyscore⟩ =>
    cutoffMs == (σ.clock : Int) - config.cutoff && !calls.any fun c =>
      match c with
      | sweep s => s.pc.isRunning
      | _ => false
  | deliver ⟨value, pc⟩ => pc == Deliver.start config value
  | _ => false

end Call

inductive Env where
  | tick (ms : Nat)
  | expire (userId couponTypeId : JsNumber)

def env (σ : Shared) : Env → Option Shared
  | .tick ms =>
    if (σ.clock + ms : Int) ≤ Js.maxTime then some { σ with clock := σ.clock + ms } else none
  | .expire userId couponTypeId =>
    (σ.redis.evict (RedisKeys.pendingHash userId couponTypeId)).map fun redis =>
      { σ with redis := redis }

def calls (config : Config) : Concurrency.Calls Shared Call Input Env where
  start := Call.start config
  waits _ _ _ := false
  step := Call.step config
  env := env

abbrev State := Concurrency.Calls.State Shared Call

abbrev Act := Concurrency.Calls.Act Call Input Env

def init (clock : Nat) : State where
  shared := { redis := .empty, clock := clock, topic := [], history := [] }
  calls := []

end ServerB
