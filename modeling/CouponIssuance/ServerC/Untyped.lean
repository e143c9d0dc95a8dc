import CouponIssuance.Js.Text
import CouponIssuance.Mysql.Bigint
import CouponIssuance.ServerC.Calls

/-!
This module contains `process` as it runs on what the consumer lets through. `parse` casts the
message to the payload type and makes the checks of the record, which no id has to be a number for:
`userId: 1.4`, `"7"` and `[7]` all pass `> 0`. The statements get `String(id)`, and the result carries
the id as it came.
-/

open Js

namespace ServerC.Untyped

structure Request where
  js : Json
  accepted : assertIssueRequestPayload js = .ok ()

namespace Request

def requestId (r : Request) : String :=
  match r.js.get? "requestId" with
  | some (.str requestId) => requestId
  | _ => ""

def userId (r : Request) : Json :=
  (r.js.get? "userId").getD .null

def eventId (r : Request) : Json :=
  (r.js.get? "eventId").getD .null

def couponTypeId (r : Request) : Json :=
  (r.js.get? "couponTypeId").getD .null

end Request

def equals (column : JsNumber) (id : Json) : Bool :=
  Mysql.equalsBigint column id.text

/-- Does the column take `id`? -/
def fits (id : Json) : Bool :=
  Mysql.fitsBigint id.text

/-- What the column makes of `id` -/
def stored (id : Json) : JsNumber :=
  Mysql.storeBigint id.text

/-- Is `id` what the payload type declares, a number without a fractional part? -/
def isIntegral : Json → Bool
  | .num n => n.isInteger
  | _ => false

section Ids

variable {id : Json}

theorem exists_of_isIntegral (h : isIntegral id = true) : ∃ n hn, id = .num (.int n hn) := by
  unfold isIntegral at h
  split at h
  . obtain ⟨n, hn, rfl⟩ := JsNumber.exists_int h
    exact ⟨n, hn, rfl⟩
  . contradiction

theorem stored_num {n : Int} (hn : IsDouble n) : stored (.num (.int n hn)) = .int n hn :=
  Mysql.storeBigint_toString hn

theorem eq_num_stored (h : isIntegral id = true) : id = .num (stored id) := by
  obtain ⟨n, hn, rfl⟩ := exists_of_isIntegral h
  rw [stored_num]

theorem text_eq (h : isIntegral id = true) : id.text = toString (stored id) := by
  obtain ⟨n, hn, rfl⟩ := exists_of_isIntegral h
  rw [stored_num]
  rfl

theorem equals_eq (h : isIntegral id = true) (column : JsNumber)
    : equals column id = (column == stored id) := by
  obtain ⟨n, hn, rfl⟩ := exists_of_isIntegral h
  rw [stored_num]
  exact Mysql.equalsBigint_toString column hn

theorem fits_eq (h : isIntegral id = true) : fits id = isBigint (stored id) := by
  obtain ⟨n, hn, rfl⟩ := exists_of_isIntegral h
  rw [stored_num]
  exact Mysql.fitsBigint_toString hn

theorem isFinite_of_fits (h : fits id = true) : id.isFinite = true := by
  by_contra hfinite
  rw [Bool.not_eq_true] at hfinite
  obtain ⟨c, hc, hnumeral⟩ := Json.exists_mem_textList hfinite
  rw [← Json.toList_text] at hc
  have := Mysql.isNumeral_of_fitsBigint h hc
  rcases hnumeral with rfl | rfl | rfl <;> contradiction

end Ids

-- from here on an id is known by what its column makes of it
attribute [irreducible] equals fits stored

section Statements

variable (db : Db)

def existsByUserIdAndCouponTypeId (userId couponTypeId : Json) : Bool :=
  db.coupons.any fun c => equals c.userId userId && equals c.couponTypeId couponTypeId

def findEvent (eventId : Json) : Option Event :=
  db.events.find? fun e => equals e.id eventId

def findInventory (eventId couponTypeId : Json) : Option CouponTypeInventory :=
  db.inventories.find? fun i => equals i.eventId eventId && equals i.couponTypeId couponTypeId

end Statements

def couponAvailableKey (eventId couponTypeId : Json) : String :=
  "coupon:available:" ++ eventId.text ++ ":" ++ couponTypeId.text

def toResultPayload (request : Request) (status : CouponIssueResultStatus)
    (couponCode : Option String) (processedAt : Int) : Json :=
  .obj [
    ("requestId", .str request.requestId),
    ("userId", request.userId),
    ("eventId", request.eventId),
    ("couponTypeId", request.couponTypeId),
    ("status", .str status.text),
    ("couponCode", match couponCode with | some code => .str code | none => .null),
    ("processedAt", .str (LocalDateTime.toInstantString processedAt))
  ]

structure Process where
  request : Request
  tx : Tx
  pc : ProcessPc

namespace Process

def coupon (p : Process) (now : Int) (status : CouponIssueResultStatus) (code : Option String)
    : UserCoupon :=
  UserCoupon.issue (code.getD (placeholderCode p.request.requestId))
    (stored p.request.userId) (stored p.request.eventId) (stored p.request.couponTypeId)
    (.ofResult status) now

def outboxEvent (p : Process) (id : Nat) (createdAt now : Int) (status : CouponIssueResultStatus)
    (code : Option String) : OutboxEvent where
  id := id
  aggregateId := p.request.requestId
  eventType := EVENT_TYPE_ISSUE_RESULT
  payload := Json.stringifyValue (toResultPayload p.request status code now)
  status := .pending
  createdAt := createdAt
  publishedAt := none

def goto (p : Process) (pc : ProcessPc) : Process :=
  { p with pc := pc }

def abort (p : Process) (pc : ProcessPc) : Process :=
  { p with tx := .empty, pc := pc }

def wants (p : Process) : List Lock :=
  match p.pc with
  | .findForUpdate _ =>
    [.inventory (stored p.request.eventId) (stored p.request.couponTypeId)]
  | .insert now status code =>
    let c := p.coupon now status code
    [.userCoupon c.pair, .code (collationKey c.code)]
  | _ => []

def step (σ : Shared) (p : Process) : Input → Option (Shared × Process)
  | .ok now draws =>
    match p.pc with
    | .existsByUserIdAndCouponTypeId =>
      if existsByUserIdAndCouponTypeId σ.db p.request.userId p.request.couponTypeId then
        some (σ, p.goto (.commit false))
      else
        some (σ, p.goto .findEvent)
    | .findEvent =>
      match findEvent σ.db p.request.eventId with
      | none => some (σ, p.abort (.thrown (.error ("event not found: " ++ p.request.eventId.text))))
      | some event =>
        if event.isActive now then
          some (σ, p.goto (.findForUpdate now))
        else
          some (σ, p.goto (.insert now .failed none))
    | .findForUpdate now' =>
      match findInventory σ.db p.request.eventId p.request.couponTypeId with
      | none =>
        some (σ, p.abort (.thrown (.error ("inventory not found: eventId="
          ++ p.request.eventId.text ++ ", couponTypeId=" ++ p.request.couponTypeId.text))))
      | some inventory =>
        let p := { p with tx := p.tx.lock p.wants }
        match inventory.decrement with
        | none => some (σ, p.goto (.insert now' .soldOut none))
        | some inventory => some (σ, p.goto (.updateAvailableCount now' inventory))
    | .updateAvailableCount now' inventory =>
      let p := { p with tx := p.tx.write (.updateAvailableCount inventory) }
      some (σ, p.goto (.insert now' .success (some (CouponCode.generate draws).value)))
    | .insert now' status code =>
      let used := { σ with db := { σ.db with nextCouponId := σ.db.nextCouponId + 1 } }
      if !(fits p.request.userId && fits p.request.eventId && fits p.request.couponTypeId) then
        some (σ, p.abort (.thrown .queryFailed))
      else
        match σ.db.insertError (p.coupon now' status code) with
        | some .outOfRange => some (σ, p.abort (.thrown .queryFailed))
        | some .duplicateUserCoupon => some (used, p.abort .returned)
        | some _ => some (used, p.abort (.thrown .queryFailed))
        | none =>
          let row := { p.coupon now' status code with id := some σ.db.nextCouponId }
          let p := { p with tx := (p.tx.lock p.wants).write (.insertCoupon row) }
          some (used, p.goto (.append now' status code))
    | .append now' status code =>
      if 64 < p.request.requestId.toList.length then
        some (σ, p.abort (.thrown .queryFailed))
      else
        let row := p.outboxEvent σ.db.nextOutboxId now now' status code
        let p := { p with tx := p.tx.write (.insertOutbox row) }
        some ({ σ with db := { σ.db with nextOutboxId := σ.db.nextOutboxId + 1 } },
          p.goto (.commit (status != .failed)))
    | .commit checkAvailability =>
      some ({ σ with db := σ.db.commit p.tx.writes },
        p.abort (if checkAvailability then .freshRead else .returned))
    | .freshRead =>
      if (findInventory σ.db p.request.eventId p.request.couponTypeId).any (·.isDepleted) then
        some (σ, p.goto .markSoldOut)
      else
        some (σ, p.goto .returned)
    | .markSoldOut =>
      some ({ σ with
          available := couponAvailableKey p.request.eventId p.request.couponTypeId :: σ.available },
        p.goto .returned)
    | .returned | .thrown _ | .crashed => none
  | .fail executed _ =>
    match p.pc with
    | .commit _ =>
      if executed then
        some ({ σ with db := σ.db.commit p.tx.writes }, p.abort (.thrown .queryFailed))
      else
        some (σ, p.abort (.thrown .queryFailed))
    | .freshRead => some (σ, p.goto .returned)
    | .markSoldOut =>
      let key := couponAvailableKey p.request.eventId p.request.couponTypeId
      some ({ σ with available := if executed then key :: σ.available else σ.available },
        p.goto .returned)
    | .returned | .thrown _ | .crashed => none
    | _ => some (σ, p.abort (.thrown .queryFailed))
  | .crash =>
    match p.pc with
    | .returned | .thrown _ | .crashed => none
    | _ => some (σ, p.abort .crashed)

end Process

inductive Call where
  | process (p : Process)
  | redeem (r : Redeem)
  | poll (pc : PollPc)

namespace Call

def tx : Call → Tx
  | process p => p.tx
  | redeem r => r.tx
  | poll _ => .empty

def wants (c : Call) : Input → List Lock
  | .ok _ _ =>
    match c with
    | process p => p.wants
    | redeem r => r.wants
    | poll _ => []
  | _ => []

def waits (c : Call) (x : Input) (other : Call) : Bool :=
  (c.wants x).any fun l => other.tx.locks.contains l

def isPolling : Call → Bool
  | poll pc => pc.isRunning
  | _ => false

def start (calls : List Call) : Call → Bool
  | process ⟨_, ⟨[], []⟩, .existsByUserIdAndCouponTypeId⟩ => true
  | redeem ⟨_, _, ⟨[], []⟩, .findByCode⟩ => true
  | poll .findPending => !calls.any isPolling
  | _ => false

def step (batchSize : Nat) (σ : Shared) (c : Call) (x : Input) : Option (Shared × Call) :=
  match c with
  | process p => (p.step σ x).map fun r => (r.1, process r.2)
  | redeem r => (r.step σ x).map fun r => (r.1, redeem r.2)
  | poll pc => (pc.step batchSize σ x).map fun r => (r.1, poll r.2)

end Call

def calls (batchSize : Nat) : Concurrency.Calls Shared Call Input String where
  start _ calls c := Call.start calls c
  waits := Call.waits
  step := Call.step batchSize
  env := expire

abbrev State := Concurrency.Calls.State Shared Call

abbrev Act := Concurrency.Calls.Act Call Input String

def init (db : Db) : State where
  shared := { db := db, topic := [], available := [] }
  calls := []

end ServerC.Untyped
