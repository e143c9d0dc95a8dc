import CouponIssuance.Common.CouponCode
import CouponIssuance.Common.LocalDateTime
import CouponIssuance.Common.Payloads
import Mathlib.Data.List.Sort

/-!
This module contains the domain objects of server-c and its MySQL database: the tables, the
statements of the repositories, and the writes that a transaction applies when it commits.
-/

namespace ServerC

inductive UserCouponStatus where
  | success
  | soldOut
  | failed
  | used
deriving DecidableEq

def UserCouponStatus.text : UserCouponStatus → String
  | success => "SUCCESS"
  | soldOut => "SOLD_OUT"
  | failed => "FAILED"
  | used => "USED"

def UserCouponStatus.ofResult : CouponIssueResultStatus → UserCouponStatus
  | .success => success
  | .soldOut => soldOut
  | .failed => failed

inductive OutboxEventStatus where
  | pending
  | published
deriving DecidableEq

structure Event where
  id : JsNumber
  startedAt : Int
  endedAt : Int
deriving DecidableEq

/-- Both ends are included, and `status` does not matter. -/
def Event.isActive (e : Event) (now : Int) : Bool :=
  now ≥ e.startedAt && now ≤ e.endedAt

structure CouponType where
  couponTypeId : JsNumber
  eventId : JsNumber
deriving DecidableEq

structure CouponTypeInventory where
  id : Nat
  eventId : JsNumber
  couponTypeId : JsNumber
  availableCount : Int
deriving DecidableEq

namespace CouponTypeInventory

/--
`none` is the answer `false`: sold out, and nothing has changed.
-/
def decrement (i : CouponTypeInventory) : Option CouponTypeInventory :=
  if i.availableCount ≤ 0 then
    none
  else
    some { i with availableCount := i.availableCount - 1 }

def isDepleted (i : CouponTypeInventory) : Bool :=
  i.availableCount == 0

end CouponTypeInventory

/-- A row of `user_coupon` has an id, a coupon that is still to be inserted has none. -/
structure UserCoupon where
  id : Option Nat
  code : String
  userId : JsNumber
  eventId : JsNumber
  couponTypeId : JsNumber
  status : UserCouponStatus
  issuedAt : Int
  usedAt : Option Int
  version : Nat
deriving DecidableEq

namespace UserCoupon

def issue (code : String) (userId eventId couponTypeId : JsNumber) (status : UserCouponStatus)
    (issuedAt : Int) : UserCoupon where
  id := none
  code := code
  userId := userId
  eventId := eventId
  couponTypeId := couponTypeId
  status := status
  issuedAt := issuedAt
  usedAt := none
  version := 0

def isOwnedBy (c : UserCoupon) (userId : JsNumber) : Bool :=
  c.userId == userId

def isRedeemed (c : UserCoupon) : Bool :=
  c.usedAt.isSome

def isRedeemable (c : UserCoupon) : Bool :=
  c.status == .success && c.usedAt.isNone

/-- The key of `uk_user_coupon_user_type` -/
def pair (c : UserCoupon) : JsNumber × JsNumber :=
  (c.userId, c.couponTypeId)

end UserCoupon

def EVENT_TYPE_ISSUE_RESULT : String := "ISSUE_RESULT"

structure OutboxEvent where
  id : Nat
  aggregateId : String
  eventType : String
  payload : String
  status : OutboxEventStatus
  createdAt : Int
  publishedAt : Option Int
deriving DecidableEq

structure OutboxRecord where
  id : Nat
  aggregateId : String
  eventType : String
  payload : String
deriving DecidableEq

/--
The committed rows, in the order of their commits, and the two `AUTO_INCREMENT` counters.
-/
structure Db where
  events : List Event
  couponTypes : List CouponType
  inventories : List CouponTypeInventory
  coupons : List UserCoupon
  outbox : List OutboxEvent
  nextCouponId : Nat
  nextOutboxId : Nat

/--
Does `String(n)` fit into a `BIGINT` column?
-/
def isBigint : JsNumber → Bool
  | .int n _ =>
    let written := Js.applySign (n < 0) (JsNumber.shortest n.natAbs)
    written < 2 ^ 63 && -2 ^ 63 ≤ written
  | _ => false

/--
What `utf8mb4_unicode_ci` compares of an ASCII text: letters without their case, and no blanks at
the end.
-/
def collationKey (text : String) : List Char :=
  ((text.toList.map Char.toUpper).reverse.dropWhile fun c => c == ' ').reverse

namespace Db

def existsByUserIdAndCouponTypeId (db : Db) (userId couponTypeId : JsNumber) : Bool :=
  db.coupons.any fun c => c.pair == (userId, couponTypeId)

def findByUserIdAndCouponTypeId (db : Db) (userId couponTypeId : JsNumber) : Option UserCoupon :=
  db.coupons.find? fun c => c.pair == (userId, couponTypeId)

def findByCode (db : Db) (code : String) : Option UserCoupon :=
  db.coupons.find? fun c => collationKey c.code == collationKey code

def findEvent (db : Db) (eventId : JsNumber) : Option Event :=
  db.events.find? fun e => e.id == eventId

/-- `findForUpdate` reads the same row, and holds its lock. -/
def findInventory (db : Db) (eventId couponTypeId : JsNumber) : Option CouponTypeInventory :=
  db.inventories.find? fun i => i.eventId == eventId && i.couponTypeId == couponTypeId

inductive InsertError where
  | outOfRange
  | duplicateCode
  /-- the violation of `uk_user_coupon_user_type`, which becomes a `DuplicateUserCouponError` -/
  | duplicateUserCoupon
  | foreignKey
deriving DecidableEq

/--
The checks of `INSERT INTO user_coupon` against the committed rows, in the order of the columns,
the keys and the foreign key.
-/
def insertError (db : Db) (c : UserCoupon) : Option InsertError :=
  if !(isBigint c.userId && isBigint c.eventId && isBigint c.couponTypeId) then
    some .outOfRange
  else if db.coupons.any fun d => collationKey d.code == collationKey c.code then
    some .duplicateCode
  else if db.coupons.any fun d => d.pair == c.pair then
    some .duplicateUserCoupon
  else if !db.couponTypes.any fun t => t.couponTypeId == c.couponTypeId then
    some .foreignKey
  else
    none

/-- `created_at ASC`, the primary key on a tie -/
def CreatedBefore (a b : OutboxEvent) : Prop :=
  a.createdAt < b.createdAt ∨ (a.createdAt = b.createdAt ∧ a.id ≤ b.id)

instance : DecidableRel CreatedBefore :=
  fun a b =>
    inferInstanceAs (Decidable (a.createdAt < b.createdAt ∨ (a.createdAt = b.createdAt ∧ a.id ≤ b.id)))

def findPending (db : Db) (limit : Nat) : List OutboxRecord :=
  let rows := (db.outbox.filter fun o => o.status == .pending).insertionSort CreatedBefore
  (rows.take limit).map fun o => ⟨o.id, o.aggregateId, o.eventType, o.payload⟩

def markPublished (db : Db) (ids : List Nat) (publishedAt : Int) : Db :=
  { db with
    outbox := db.outbox.map fun o =>
      if ids.contains o.id then
        { o with status := .published, publishedAt := some publishedAt }
      else
        o
  }

def isMarkUsedTarget (id version : Nat) (c : UserCoupon) : Bool :=
  c.id == some id && c.version == version

end Db

inductive Write where
  | updateAvailableCount (inventory : CouponTypeInventory)
  | insertCoupon (row : UserCoupon)
  | insertOutbox (row : OutboxEvent)
  | markUsed (id version : Nat) (usedAt : Int)
deriving DecidableEq

namespace Db

def apply (db : Db) : Write → Db
  | .updateAvailableCount inventory =>
    { db with
      inventories := db.inventories.map fun i =>
        if i.id = inventory.id then { i with availableCount := inventory.availableCount } else i
    }
  | .insertCoupon row => { db with coupons := db.coupons ++ [row] }
  | .insertOutbox row => { db with outbox := db.outbox ++ [row] }
  | .markUsed id version usedAt =>
    { db with
      coupons := db.coupons.map fun c =>
        if isMarkUsedTarget id version c then
          { c with status := .used, usedAt := some usedAt, version := c.version + 1 }
        else
          c
    }

def commit (db : Db) (writes : List Write) : Db :=
  writes.foldl apply db

end Db

end ServerC
