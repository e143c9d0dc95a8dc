import CouponIssuance.Concurrency.Programs
import CouponIssuance.ServerB.Lemmas.Mark

/-!
This module contains the scheduler as it is written, with its `try`, `catch` and `finally`: a cycle
that runs without any other flow in between and whose calls may all throw, and the `running` flag
under the ticks of the timer. The machine of `ServerB.calls` does what both of them do.
-/

namespace ServerB

open Concurrency Js

inductive Outcome where
  | value
  /-- It may have been executed. -/
  | exception (executed : Bool)

/-- How the calls for one entry end -/
structure Visit where
  /-- `none`: `findOne` throws. -/
  lookup : Option (Option UserCouponLookupResult)
  markResult : MarkPc → Outcome
  recordRepublish : RepublishPc → Outcome
  publishForScheduler : Outcome
  /-- The time of `republish` -/
  now : Nat

/-- How the commands of `findPendingOlderThan` end, the last two for each member -/
structure Search where
  zrangebyscore : Outcome
  hgetall : String → Outcome
  zrem : String → Outcome

namespace Scheduler

/-- The errors are only logged. -/
abbrev Flow := Program Unit Shared

def command (command : Command) : Outcome → Flow Reply
  | .value => ExceptT.mk fun σ =>
    match σ.redis.exec command with
    | some (redis, reply) => (.ok reply, { σ with redis := redis })
    | none => (.error (), σ)
  | .exception executed => ExceptT.mk fun σ =>
    (.error (), if executed then σ.execute command else σ)

theorem exec_command_value (c : Command) (σ : Shared)
    : (command c .value).exec σ
        = match σ.redis.exec c with
          | some (redis, reply) => (.ok reply, { σ with redis := redis })
          | none => (.error (), σ) := rfl

theorem exec_command_exception (c : Command) (executed : Bool) (σ : Shared)
    : (command c (.exception executed)).exec σ
        = (.error (), if executed then σ.execute c else σ) := rfl

def note (event : Event) : Flow PUnit :=
  modify fun σ => { σ with history := σ.history ++ [event] }

def findOne (pending : PendingIssue) (outcome : Option (Option UserCouponLookupResult))
    : Flow (Option UserCouponLookupResult) := do
  note (.visited pending)
  match outcome with
  | some result => return result
  | none => throw ()

def markResult (userId couponTypeId : JsNumber) (status : IssuePendingStatus)
    (code : Option String) (outcome : MarkPc → Outcome) : Flow PUnit := do
  let hashKey := RedisKeys.pendingHash userId couponTypeId
  let _ ← command (.hset hashKey [(.status, status.text)]) (outcome .hsetStatus)
  if let some code := code then
    let _ ← command (.hset hashKey [(.code, code)]) (outcome (.hsetCode code))
  let _ ← command (.expire hashKey) (outcome .expire)
  let _ ← command (.zrem (RedisKeys.pendingZsetMember userId couponTypeId)) (outcome .zrem)

/-- The answer is the one of `HINCRBY`. -/
def recordRepublish (userId couponTypeId : JsNumber) (publishedAt : Nat)
    (outcome : RepublishPc → Outcome) : Flow Reply := do
  let hashKey := RedisKeys.pendingHash userId couponTypeId
  let updatedAttempts ← command (.hincrby hashKey .publishAttempts 1) (outcome .hincrby)
  let lastPublishedAt := toString (JsNumber.ofInt publishedAt)
  let _ ← command (.hset hashKey [(.lastPublishedAt, lastPublishedAt)]) (outcome .hset)
  let _ ← command (.expire hashKey) (outcome .expire)
  let member := RedisKeys.pendingZsetMember userId couponTypeId
  let _ ← command (.zadd member publishedAt) (outcome .zadd)
  return updatedAttempts

def publishForScheduler (payload : CouponIssueRequestPayload) (outcome : Outcome)
    : Flow PUnit := do
  note (.publishedForScheduler payload)
  match assertIssueRequestPayload payload.toJs with
  | .error _ => throw ()
  | .ok _ =>
    match outcome with
    | .value => modify (·.send payload)
    | .exception executed =>
      if executed then
        modify (·.send payload)
      throw ()

/-- It throws for an `Invalid Date`. -/
def toInstantString : Option Int → Flow String
  | some createdAt => return LocalDateTime.toInstantString createdAt
  | none => throw ()

def republish (pending : PendingIssue) (visit : Visit) : Flow PUnit := do
  let _ ← recordRepublish pending.userId pending.couponTypeId visit.now visit.recordRepublish
  let requestedAt ← toInstantString pending.createdAt
  let payload : CouponIssueRequestPayload := {
    requestId := pending.requestId
    userId := pending.userId
    eventId := pending.eventId
    couponTypeId := pending.couponTypeId
    requestedAt
  }
  try
    publishForScheduler payload visit.publishForScheduler
  catch _ =>
    pure ()

def visitEntry (config : Config) (visit : Visit) (pending : PendingIssue) : Flow PUnit := do
  try
    let result ← findOne pending visit.lookup
    match result with
    | some result =>
      let status := Sweep.mapStatus result.status
      markResult pending.userId pending.couponTypeId status (some result.code) visit.markResult
    | none =>
      if JsNumber.lt pending.publishAttempts (JsNumber.ofInt config.maxPublishAttempts) then
        republish pending visit
      else
        markResult pending.userId pending.couponTypeId .failed none visit.markResult
  catch _ =>
    pure ()

theorem visitEntry_ok (config : Config) (visit : Visit) (pending : PendingIssue) (σ : Shared)
    : ((visitEntry config visit pending).exec σ).1 = .ok ⟨⟩ := by
  unfold visitEntry
  rw [Program.exec_tryCatch]
  split
  . next heq => rfl
  . rfl

def findMembers (search : Search) : List String → List PendingIssue → Flow (List PendingIssue)
  | [], result => return result
  | member :: members, result => do
    match parseMember member with
    | none => findMembers search members result
    | some (userId, couponTypeId) =>
      let hashKey := RedisKeys.pendingHash userId couponTypeId
      match ← command (.hgetall hashKey) (search.hgetall member) with
      | .entries (some entries) =>
        match readEntry userId couponTypeId entries with
        | none => findMembers search members result
        | some pending => findMembers search members (result ++ [pending])
      | _ =>
        let _ ← command (.zrem member) (search.zrem member)
        findMembers search members result

def findPendingOlderThan (search : Search) (cutoffEpochMs : Int) (batchSize : Nat)
    : Flow (List PendingIssue) := do
  match ← command (.zrangebyscore cutoffEpochMs batchSize) search.zrangebyscore with
  | .members members => findMembers search members []
  | _ => return []

/-- The first argument is `store.findPendingOlderThan`. -/
def sweep (find : Int → Nat → Flow (List PendingIssue)) (config : Config) (now : Nat)
    (visits : Pair → Visit) : Flow PUnit := do
  let cutoffMs := (now : Int) - config.cutoff
  let stale ← find cutoffMs config.batchSize
  if stale.isEmpty then
    return
  forM stale fun pending => visitEntry config (visits pending.pair) pending

end Scheduler

structure Scheduler (σ : Type) where
  running : Bool
  inner : σ

namespace Scheduler

def lift (flow : Flow PUnit) : Program Unit (Scheduler Shared) PUnit :=
  ExceptT.mk fun s =>
    match flow.exec s.inner with
    | (result, σ) => (result, { s with inner := σ })

def run (sweep : Flow PUnit) : Program Unit (Scheduler Shared) PUnit := do
  if (← get).running then
    return
  modify ({ · with running := true })
  try
    lift sweep
  catch _ =>
    pure ()
  finally
    modify ({ · with running := false })

inductive Act where
  /-- The timer calls `run`. -/
  | tick
  | other (act : ServerB.Act)

def ends (s t : State) : ServerB.Act → Bool
  | .step i _ =>
    match s.calls[i]?, t.calls[i]? with
    | some (.sweep _), some (.sweep sweep) => !sweep.pc.isRunning
    | _, _ => false
  | _ => false

/--
`run` up to its first `await`, and the actions of the flows. A crash takes the flag with it.
-/
def next (config : Config) (s : Scheduler State) : Act → Option (Scheduler State)
  | .tick =>
    if s.running then
      some s
    else
      let cutoffMs := (s.inner.shared.clock : Int) - config.cutoff
      some ⟨true, ⟨s.inner.shared, s.inner.calls ++ [.sweep ⟨cutoffMs, .zrangebyscore⟩]⟩⟩
  | .other (.start (.sweep _)) => none
  | .other act =>
    ((calls config).next s.inner act).map fun t => ⟨s.running && !ends s.inner t act, t⟩

def machine (config : Config) : Machine (Scheduler State) Act where
  step := next config

def idle (clock : Nat) : Scheduler State :=
  ⟨false, init clock⟩

end Scheduler

end ServerB
