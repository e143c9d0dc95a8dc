import CouponIssuance.Concurrency.Calls
import CouponIssuance.ServerC.Database

/-!
This module contains the calls of server-c (`CouponIssueProcessor.process`,
`RedeemCouponService.redeem` and `OutboxPoller.poll`), cut at every `await`, and the machine that
runs any number of them against one database.
-/

namespace ServerC

/-- The exclusive row locks that the calls compete for -/
inductive Lock where
  | inventory (eventId couponTypeId : JsNumber)
  | userCoupon (pair : JsNumber × JsNumber)
  | code (key : List Char)
  | couponRow (id : Nat)
deriving DecidableEq

/-- An open transaction: what it has locked, and what it will have written once it commits -/
structure Tx where
  locks : List Lock
  writes : List Write

namespace Tx

def empty : Tx where
  locks := []
  writes := []

def lock (tx : Tx) (locks : List Lock) : Tx :=
  { tx with locks := tx.locks ++ locks }

def write (tx : Tx) (w : Write) : Tx :=
  { tx with writes := tx.writes ++ [w] }

end Tx

inductive ProcessError where
  /-- `Error(message)` of the processor itself -/
  | error (message : String)
  | queryFailed
deriving DecidableEq

inductive ProcessPc where
  | existsByUserIdAndCouponTypeId
  | findEvent
  | findForUpdate (now : Int)
  | updateAvailableCount (now : Int) (inventory : CouponTypeInventory)
  | insert (now : Int) (status : CouponIssueResultStatus) (code : Option String)
  | append (now : Int) (status : CouponIssueResultStatus) (code : Option String)
  | commit (checkAvailability : Bool)
  | freshRead
  | markSoldOut
  | returned
  | thrown (e : ProcessError)
  | crashed

structure Process where
  request : CouponIssueRequestPayload
  tx : Tx
  pc : ProcessPc

inductive RedeemError where
  | couponNotFound (message : String)
  | invalidState (message : String)
  | optimisticLockFailure (message : String)
  | queryFailed
deriving DecidableEq

structure RedeemResult where
  code : String
  userId : JsNumber
  redeemedAt : Int
  newlyRedeemed : Bool
deriving DecidableEq

inductive RedeemPc where
  | findByCode
  | markUsed (coupon : UserCoupon) (now : Int)
  | commit (result : RedeemResult)
  | returned (result : RedeemResult)
  | thrown (e : RedeemError)
  | crashed

structure Redeem where
  code : String
  userId : JsNumber
  tx : Tx
  pc : RedeemPc

inductive PollPc where
  | findPending
  | publish (events : List OutboxRecord) (published : List Nat)
  | markPublished (ids : List Nat) (publishedAt : Int)
  | finished
  | crashed

inductive Call where
  | process (p : Process)
  | redeem (r : Redeem)
  | poll (pc : PollPc)

inductive Input where
  /-- It succeeds. The call goes on at time `now`, and `draws` are the next random numbers. -/
  | ok (now : Int) (draws : Fin 12 → Fin 32)
  /-- It throws, though it may have been executed. The call goes on at time `now`. -/
  | fail (executed : Bool) (now : Int)
  /-- The server goes down before it is executed. -/
  | crash

structure Shared where
  db : Db
  /-- The messages of `coupon-issue-result`, key and value -/
  topic : List (String × String)
  /-- The keys of the sold-out cache -/
  available : List String

def couponAvailableKey (eventId couponTypeId : JsNumber) : String :=
  "coupon:available:" ++ toString eventId ++ ":" ++ toString couponTypeId

def placeholderCode (requestId : String) : String :=
  String.ofList ('X' :: requestId.toList.take 11)

def toResultPayload (request : CouponIssueRequestPayload) (status : CouponIssueResultStatus)
    (couponCode : Option String) (processedAt : Int) : CouponIssueResultPayload where
  requestId := request.requestId
  userId := request.userId
  eventId := request.eventId
  couponTypeId := request.couponTypeId
  status := status
  couponCode := couponCode
  processedAt := LocalDateTime.toInstantString processedAt

namespace Process

def coupon (p : Process) (now : Int) (status : CouponIssueResultStatus) (code : Option String)
    : UserCoupon :=
  UserCoupon.issue (code.getD (placeholderCode p.request.requestId)) p.request.userId
    p.request.eventId p.request.couponTypeId (.ofResult status) now

def outboxEvent (p : Process) (id : Nat) (createdAt now : Int) (status : CouponIssueResultStatus)
    (code : Option String) : OutboxEvent where
  id := id
  aggregateId := (toResultPayload p.request status code now).requestId
  eventType := EVENT_TYPE_ISSUE_RESULT
  payload := Js.Json.stringify (toResultPayload p.request status code now).fields
  status := .pending
  createdAt := createdAt
  publishedAt := none

def goto (p : Process) (pc : ProcessPc) : Process :=
  { p with pc := pc }

def abort (p : Process) (pc : ProcessPc) : Process :=
  { p with tx := .empty, pc := pc }

def wants (p : Process) : List Lock :=
  match p.pc with
  | .findForUpdate _ => [.inventory p.request.eventId p.request.couponTypeId]
  | .insert now status code =>
    let c := p.coupon now status code
    [.userCoupon c.pair, .code (collationKey c.code)]
  | _ => []

def step (σ : Shared) (p : Process) : Input → Option (Shared × Process)
  | .ok now draws =>
    match p.pc with
    | .existsByUserIdAndCouponTypeId =>
      if σ.db.existsByUserIdAndCouponTypeId p.request.userId p.request.couponTypeId then
        some (σ, p.goto (.commit false))
      else
        some (σ, p.goto .findEvent)
    | .findEvent =>
      match σ.db.findEvent p.request.eventId with
      | none => some (σ, p.abort (.thrown (.error ("event not found: " ++ toString p.request.eventId))))
      | some event =>
        if event.isActive now then
          some (σ, p.goto (.findForUpdate now))
        else
          some (σ, p.goto (.insert now .failed none))
    | .findForUpdate now' =>
      match σ.db.findInventory p.request.eventId p.request.couponTypeId with
      | none =>
        some (σ, p.abort (.thrown (.error ("inventory not found: eventId="
          ++ toString p.request.eventId ++ ", couponTypeId=" ++ toString p.request.couponTypeId))))
      | some inventory =>
        let p := { p with tx := p.tx.lock p.wants }
        match inventory.decrement with
        | none => some (σ, p.goto (.insert now' .soldOut none))
        | some inventory => some (σ, p.goto (.updateAvailableCount now' inventory))
    | .updateAvailableCount now' inventory =>
      let p := { p with tx := p.tx.write (.updateAvailableCount inventory) }
      some (σ, p.goto (.insert now' .success (some (CouponCode.generate draws).value)))
    | .insert now' status code =>
      -- an insert that violates a key uses up its id as well
      let used := { σ with db := { σ.db with nextCouponId := σ.db.nextCouponId + 1 } }
      match σ.db.insertError (p.coupon now' status code) with
      | some .outOfRange => some (σ, p.abort (.thrown .queryFailed))
      | some .duplicateUserCoupon => some (used, p.abort .returned)
      | some _ => some (used, p.abort (.thrown .queryFailed))
      | none =>
        let row := { p.coupon now' status code with id := some σ.db.nextCouponId }
        let p := { p with tx := (p.tx.lock p.wants).write (.insertCoupon row) }
        some (used, p.goto (.append now' status code))
    | .append now' status code =>
      -- `aggregate_id` is a `VARCHAR(64)`
      if 64 < p.request.requestId.toList.length then
        some (σ, p.abort (.thrown .queryFailed))
      else
        let row := p.outboxEvent σ.db.nextOutboxId now now' status code
        let p := { p with tx := p.tx.write (.insertOutbox row) }
        some ({ σ with db := { σ.db with nextOutboxId := σ.db.nextOutboxId + 1 } },
          p.goto (.commit (status != .failed)))
    | .commit checkAvailability =>
      some ({ σ with db := σ.db.commit p.tx.writes },
        p.abort (if checkAvailability then .freshRead else .returned))
    | .freshRead =>
      if (σ.db.findInventory p.request.eventId p.request.couponTypeId).any (·.isDepleted) then
        some (σ, p.goto .markSoldOut)
      else
        some (σ, p.goto .returned)
    | .markSoldOut =>
      some ({ σ with
          available := couponAvailableKey p.request.eventId p.request.couponTypeId :: σ.available },
        p.goto .returned)
    | .returned | .thrown _ | .crashed => none
  | .fail executed _ =>
    match p.pc with
    | .commit _ =>
      if executed then
        some ({ σ with db := σ.db.commit p.tx.writes }, p.abort (.thrown .queryFailed))
      else
        some (σ, p.abort (.thrown .queryFailed))
    | .freshRead => some (σ, p.goto .returned)
    | .markSoldOut =>
      let key := couponAvailableKey p.request.eventId p.request.couponTypeId
      some ({ σ with available := if executed then key :: σ.available else σ.available },
        p.goto .returned)
    | .returned | .thrown _ | .crashed => none
    | _ => some (σ, p.abort (.thrown .queryFailed))
  | .crash =>
    match p.pc with
    | .returned | .thrown _ | .crashed => none
    | _ => some (σ, p.abort .crashed)

end Process

namespace Redeem

def goto (r : Redeem) (pc : RedeemPc) : Redeem :=
  { r with pc := pc }

def abort (r : Redeem) (pc : RedeemPc) : Redeem :=
  { r with tx := .empty, pc := pc }

def notFound (r : Redeem) : RedeemError :=
  .couponNotFound ("coupon not found: code=" ++ r.code)

def wants (r : Redeem) : List Lock :=
  match r.pc with
  | .markUsed coupon _ => coupon.id.toList.map .couponRow
  | _ => []

def step (σ : Shared) (r : Redeem) : Input → Option (Shared × Redeem)
  | .ok now _ =>
    match r.pc with
    | .findByCode =>
      match σ.db.findByCode r.code with
      | none => some (σ, r.abort (.thrown r.notFound))
      | some coupon =>
        if !coupon.isOwnedBy r.userId then
          some (σ, r.abort (.thrown r.notFound))
        else if coupon.isRedeemed then
          some (σ, r.goto (.commit ⟨coupon.code, coupon.userId, coupon.usedAt.getD 0, false⟩))
        else if !coupon.isRedeemable then
          some (σ, r.abort (.thrown (.invalidState
            ("coupon is not redeemable: status=" ++ coupon.status.text))))
        else
          some (σ, r.goto (.markUsed coupon now))
    | .markUsed coupon now' =>
      let id := coupon.id.getD 0
      if σ.db.coupons.any (Db.isMarkUsedTarget id coupon.version) then
        let r := { r with tx := (r.tx.lock r.wants).write (.markUsed id coupon.version now') }
        some (σ, r.goto (.commit ⟨coupon.code, coupon.userId, now', true⟩))
      else
        some (σ, r.abort (.thrown (.optimisticLockFailure
          ("concurrent redeem detected: code=" ++ r.code ++ ", version="
            ++ toString coupon.version))))
    | .commit result =>
      some ({ σ with db := σ.db.commit r.tx.writes }, r.abort (.returned result))
    | .returned _ | .thrown _ | .crashed => none
  | .fail executed _ =>
    match r.pc with
    | .commit _ =>
      if executed then
        some ({ σ with db := σ.db.commit r.tx.writes }, r.abort (.thrown .queryFailed))
      else
        some (σ, r.abort (.thrown .queryFailed))
    | .returned _ | .thrown _ | .crashed => none
    | _ => some (σ, r.abort (.thrown .queryFailed))
  | .crash =>
    match r.pc with
    | .returned _ | .thrown _ | .crashed => none
    | _ => some (σ, r.abort .crashed)

end Redeem

namespace PollPc

def next (events : List OutboxRecord) (published : List Nat) (now : Int) : PollPc :=
  if !events.isEmpty then
    .publish events published
  else if published.isEmpty then
    .finished
  else
    .markPublished published now

def step (batchSize : Nat) (σ : Shared) (pc : PollPc) : Input → Option (Shared × PollPc)
  | .ok now _ =>
    match pc with
    | .findPending => some (σ, next (σ.db.findPending batchSize) [] now)
    | .publish [] published => some (σ, next [] published now)
    | .publish (event :: events) published =>
      some ({ σ with topic := σ.topic ++ [(event.aggregateId, event.payload)] },
        next events (published ++ [event.id]) now)
    | .markPublished ids publishedAt =>
      some ({ σ with db := σ.db.markPublished ids publishedAt }, .finished)
    | .finished | .crashed => none
  | .fail executed now =>
    match pc with
    | .findPending => some (σ, .finished)
    | .publish [] published => some (σ, next [] published now)
    | .publish (event :: events) published =>
      let sent := if executed then [(event.aggregateId, event.payload)] else []
      some ({ σ with topic := σ.topic ++ sent }, next events published now)
    | .markPublished ids publishedAt =>
      some ({ σ with db := if executed then σ.db.markPublished ids publishedAt else σ.db },
        .finished)
    | .finished | .crashed => none
  | .crash =>
    match pc with
    | .finished | .crashed => none
    | _ => some (σ, .crashed)

def isRunning : PollPc → Bool
  | finished | crashed => false
  | _ => true

end PollPc

namespace Call

def tx : Call → Tx
  | process p => p.tx
  | redeem r => r.tx
  | poll _ => .empty

def wants (c : Call) : Input → List Lock
  | .ok _ _ =>
    match c with
    | process p => p.wants
    | redeem r => r.wants
    | poll _ => []
  | _ => []

/-- A statement waits as long as another transaction holds a lock that it takes. -/
def waits (c : Call) (x : Input) (other : Call) : Bool :=
  (c.wants x).any fun l => other.tx.locks.contains l

def start (calls : List Call) : Call → Bool
  | process ⟨_, ⟨[], []⟩, .existsByUserIdAndCouponTypeId⟩ => true
  | redeem ⟨_, _, ⟨[], []⟩, .findByCode⟩ => true
  | poll .findPending =>
    !calls.any fun c =>
      match c with
      | poll pc => pc.isRunning
      | _ => false
  | _ => false

def step (batchSize : Nat) (σ : Shared) (c : Call) (x : Input) : Option (Shared × Call) :=
  match c with
  | process p => (p.step σ x).map fun r => (r.1, process r.2)
  | redeem r => (r.step σ x).map fun r => (r.1, redeem r.2)
  | poll pc => (pc.step batchSize σ x).map fun r => (r.1, poll r.2)

end Call

/-- The keys of the sold-out cache expire at any time. -/
def expire (σ : Shared) (key : String) : Option Shared :=
  some { σ with available := σ.available.erase key }

def calls (batchSize : Nat) : Concurrency.Calls Shared Call Input String where
  start _ calls c := Call.start calls c
  waits := Call.waits
  step := Call.step batchSize
  env := expire

abbrev State := Concurrency.Calls.State Shared Call

abbrev Act := Concurrency.Calls.Act Call Input String

def init (db : Db) : State where
  shared := { db := db, topic := [], available := [] }
  calls := []

end ServerC
