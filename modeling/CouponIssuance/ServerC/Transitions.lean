import CouponIssuance.ServerC.Calls

/-!
This module contains the abstract view of server-c: its database changes by whole transactions
only, every transaction issues one coupon or redeems one coupon, and the outbox rows are sent before
they are marked.
-/

namespace ServerC

/--
The constraints of the schema.
-/
structure Db.Wf (db : Db) : Prop where
  couponIds : (db.coupons.map (·.id)).Nodup
  couponIds_lt : ∀ c ∈ db.coupons, ∃ id < db.nextCouponId, c.id = some id
  codes : (db.coupons.map fun c => collationKey c.code).Nodup
  pairs : (db.coupons.map (·.pair)).Nodup
  bigint : ∀ c ∈ db.coupons,
    isBigint c.userId = true ∧ isBigint c.eventId = true ∧ isBigint c.couponTypeId = true
  inventoryIds : (db.inventories.map (·.id)).Nodup
  inventoryKeys : (db.inventories.map fun i => (i.eventId, i.couponTypeId)).Nodup
  available_nonneg : ∀ i ∈ db.inventories, 0 ≤ i.availableCount
  outboxIds : (db.outbox.map (·.id)).Nodup
  outboxIds_lt : ∀ o ∈ db.outbox, o.id < db.nextOutboxId

structure Db.FreshCoupon (db : Db) (row : UserCoupon) : Prop where
  id : ∃ id < db.nextCouponId, row.id = some id ∧ ∀ c ∈ db.coupons, c.id ≠ some id
  code : ∀ c ∈ db.coupons, collationKey c.code ≠ collationKey row.code
  pair : ∀ c ∈ db.coupons, c.pair ≠ row.pair
  bigint :
    isBigint row.userId = true ∧ isBigint row.eventId = true ∧ isBigint row.couponTypeId = true

structure Db.FreshOutbox (db : Db) (row : OutboxEvent) : Prop where
  lt : row.id < db.nextOutboxId
  id : ∀ o ∈ db.outbox, o.id ≠ row.id

/--
The stock that an issue transaction takes: one unit for a `SUCCESS`, and nothing otherwise.
-/
def Db.Takes (db : Db) (eventId couponTypeId : JsNumber) (status : CouponIssueResultStatus)
    (writes : List Write) : Prop :=
  match status with
  | .success =>
    ∃ inventory,
      writes = [.updateAvailableCount inventory]
        ∧ inventory.eventId = eventId
        ∧ inventory.couponTypeId = couponTypeId
        ∧ 0 ≤ inventory.availableCount
        ∧ { inventory with availableCount := inventory.availableCount + 1 } ∈ db.inventories
  | _ => writes = []

/--
The coupon that `row` is with the outbox row `event` that announces it.
-/
structure Announces (row : UserCoupon) (event : OutboxEvent) (requestId : String)
    (status : CouponIssueResultStatus) (code : Option String) : Prop where
  status_eq : row.status = .ofResult status
  unused : row.usedAt = none ∧ row.version = 0
  code_eq : row.code = code.getD (placeholderCode requestId)
  code_isSome : status = .success ↔ code.isSome = true
  aggregateId : event.aggregateId = requestId
  pending : event.status = .pending
  payload : event.payload = Js.Json.stringify {
      requestId := requestId
      userId := row.userId
      eventId := row.eventId
      couponTypeId := row.couponTypeId
      status := status
      couponCode := code
      processedAt := LocalDateTime.toInstantString row.issuedAt
      : CouponIssueResultPayload }.fields

/--
One committed transaction.
-/
inductive Db.Step (db : Db) : Db → Prop where
  /-- Only `AUTO_INCREMENT` values are used up. -/
  | idle (nextCouponId nextOutboxId : Nat) (hcoupon : db.nextCouponId ≤ nextCouponId)
      (houtbox : db.nextOutboxId ≤ nextOutboxId)
      : Step db { db with nextCouponId := nextCouponId, nextOutboxId := nextOutboxId }
  | issue (row : UserCoupon) (event : OutboxEvent) (requestId : String)
      (status : CouponIssueResultStatus) (code : Option String) (writes : List Write)
      (htakes : db.Takes row.eventId row.couponTypeId status writes)
      (hcoupon : db.FreshCoupon row) (houtbox : db.FreshOutbox event)
      (hannounces : Announces row event requestId status code)
      : Step db (db.commit (writes ++ [.insertCoupon row, .insertOutbox event]))
  | redeem (coupon : UserCoupon) (id : Nat) (usedAt : Int) (hmem : coupon ∈ db.coupons)
      (hid : coupon.id = some id) (hredeemable : coupon.isRedeemable = true)
      : Step db (db.commit [.markUsed id coupon.version usedAt])

/-- What server-c has published to the outside: its committed rows, and its messages. -/
structure View where
  db : Db
  topic : List (String × String)

def Shared.view (σ : Shared) : View where
  db := σ.db
  topic := σ.topic

def OutboxEvent.record (o : OutboxEvent) : OutboxRecord :=
  ⟨o.id, o.aggregateId, o.eventType, o.payload⟩

def OutboxRecord.message (r : OutboxRecord) : String × String :=
  (r.aggregateId, r.payload)

def View.Sent (v : View) (ids : List Nat) : Prop :=
  ∀ id ∈ ids, ∃ o ∈ v.db.outbox, o.id = id ∧ o.record.message ∈ v.topic

/--
A view changes by a transaction, by a message that announces a committed row, and by the mark on
rows that have been sent.
-/
inductive View.Step (v : View) : View → Prop where
  | transaction (db : Db) (h : v.db.Step db) : Step v ⟨db, v.topic⟩
  | send (o : OutboxEvent) (hmem : o ∈ v.db.outbox)
      : Step v ⟨v.db, v.topic ++ [o.record.message]⟩
  | publish (ids : List Nat) (publishedAt : Int) (hsent : v.Sent ids)
      : Step v ⟨v.db.markPublished ids publishedAt, v.topic⟩

end ServerC
