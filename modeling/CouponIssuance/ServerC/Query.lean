import CouponIssuance.ServerC.Lemmas.Transitions

/-!
This module contains the internal query of server-c that the scheduler of server-b calls.
-/

namespace ServerC

open Js

structure UserCouponInternalView where
  userId : JsNumber
  eventId : JsNumber
  couponTypeId : JsNumber
  code : String
  status : String
  issuedAt : String
deriving DecidableEq

def toUserCouponInternalView (coupon : UserCoupon) : UserCouponInternalView where
  userId := coupon.userId
  eventId := coupon.eventId
  couponTypeId := coupon.couponTypeId
  code := coupon.code
  status := coupon.status.text
  issuedAt := LocalDateTime.toLocalDateTimeString coupon.issuedAt

/-- `ParseLongPipe`: `none` when it throws -/
def parseLong (value : List Char) : Option JsNumber :=
  if isLong value then some (JsNumber.ofText value) else none

/--
`GET /internal/v1/users/:userId/coupons/:couponTypeId`: no answer for a malformed path, and
`some none` for a coupon that is not found.
-/
def findOne (db : Db) (userId couponTypeId : List Char) : Option (Option UserCouponInternalView) := do
  let userId ← parseLong userId
  let couponTypeId ← parseLong couponTypeId
  return (db.findByUserIdAndCouponTypeId userId couponTypeId).map toUserCouponInternalView

theorem parseLong_render (n : JsNumber)
    : parseLong n.render = if n.isDecimal then some n else none := by
  unfold parseLong
  rw [JsNumber.isLong_render, JsNumber.ofText_render]

theorem findByUserIdAndCouponTypeId_eq_some {db : Db} (hwf : db.Wf) {c : UserCoupon}
    : db.findByUserIdAndCouponTypeId c.userId c.couponTypeId = some c ↔ c ∈ db.coupons := by
  constructor
  . exact List.mem_of_find?_eq_some
  . intro hmem
    unfold Db.findByUserIdAndCouponTypeId
    cases hfind : db.coupons.find? fun d => d.pair == (c.userId, c.couponTypeId) with
    | none =>
      have := List.find?_eq_none.mp hfind c hmem
      simp [UserCoupon.pair] at this
    | some d =>
      have hd := List.mem_of_find?_eq_some hfind
      have hpair := List.find?_some hfind
      rw [beq_iff_eq] at hpair
      rw [Db.eq_of_map_nodup hwf.pairs hd hmem hpair]

end ServerC
