import CouponIssuance.Js.Wire

/-!
This module contains the messages that the servers exchange (`payloads.ts`, `statuses.ts`) and the
checks that both ends of a topic make on them.
-/

namespace Js
namespace Json

/--
`p[name] == null`
-/
def isNullish (name : String) (p : Json) : Bool :=
  match p.get? name with
  | none => true
  | some .null => true
  | some _ => false

/--
The characters that `String.prototype.trim` removes.
-/
def isWhiteSpace (c : Char) : Bool :=
  [9, 10, 11, 12, 13, 32, 0xa0, 0x1680, 0x2028, 0x2029, 0x202f, 0x205f, 0x3000, 0xfeff].contains
    c.toNat || (0x2000 ≤ c.toNat && c.toNat ≤ 0x200a)

def trim (s : String) : List Char :=
  ((s.toList.dropWhile isWhiteSpace).reverse.dropWhile isWhiteSpace).reverse

/--
A literal such as `0x1f`, `0o17` or `0b11` that is not zero.
-/
def isPositiveRadix : List Char → Bool
  | '0' :: mark :: digits =>
    let base :=
      if mark = 'x' ∨ mark = 'X' then 16
      else if mark = 'o' ∨ mark = 'O' then 8
      else if mark = 'b' ∨ mark = 'B' then 2
      else 0
    digits.all (fun c => (hexValue c).any (· < base)) && digits.any (· != '0')
  | _ => false

/--
`s > 0` for a string: its numeric literal is positive.
-/
def isPositiveText (s : String) : Bool :=
  let sign := (splitSign (trim s)).1
  let body := (splitSign (trim s)).2
  if body = "Infinity".toList then
    !sign
  else
    match readDecimal body with
    | some (mantissa, exponent) => !sign && scaleRounded mantissa exponent != some 0
    | none => isPositiveRadix (trim s)

mutual

/--
`v > 0`, for values of any type.
-/
def isPositive : Json → Bool
  | null => false
  | bool b => b
  | num n => JsNumber.lt (JsNumber.ofInt 0) n
  | fraction negative _ _ _ => !negative
  | str s => isPositiveText s
  | arr items => isPositiveItem items
  | obj _ => false

/--
An array is compared as the text of its items, which is no number when there are several.
-/
def isPositiveItem : List Json → Bool
  | [.bool _] => false
  | [item] => item.isPositive
  | _ => false

end

end Json
end Js

open Js

inductive IssueAcceptanceStatus where
  | accepted
  | duplicate
  | soldOut
  | internalError
deriving DecidableEq

inductive CouponIssueResultStatus where
  | success
  | soldOut
  | failed
deriving DecidableEq

def CouponIssueResultStatus.text : CouponIssueResultStatus → String
  | success => "SUCCESS"
  | soldOut => "SOLD_OUT"
  | failed => "FAILED"

def CouponIssueResultStatus.ofText? (text : String) : Option CouponIssueResultStatus :=
  [success, soldOut, failed].find? fun status => status.text == text

structure CouponIssueRequestPayload where
  requestId : String
  userId : JsNumber
  eventId : JsNumber
  couponTypeId : JsNumber
  /-- ISO-8601 -/
  requestedAt : String
deriving DecidableEq

structure CouponIssueResultPayload where
  requestId : String
  userId : JsNumber
  eventId : JsNumber
  couponTypeId : JsNumber
  status : CouponIssueResultStatus
  couponCode : Option String
  /-- ISO-8601 -/
  processedAt : String
deriving DecidableEq

inductive PayloadError where
  /-- `Error(field)`, or `Error` with the field and when it has to be there -/
  | required (field : String)
  | blank (field : String)
  | notPositive (field : String)
  | unknownStatus
  /-- A method is called on a value that does not have it. -/
  | typeError
deriving DecidableEq

theorem ok_iff_of_guard {c : Prop} [Decidable c] {e : ε} {k : PUnit → Except ε α} {r : Except ε α}
    {a : α}
    : (if c then (throw e : Except ε PUnit) >>= k else r) = .ok a ↔ ¬c ∧ r = .ok a := by
  split
  . next hc =>
    refine ⟨fun h => ?_, fun h => absurd hc h.1⟩
    contradiction
  . next hc => exact ⟨fun h => ⟨hc, h⟩, And.right⟩

theorem ok_iff_of_last_guard {c : Prop} [Decidable c] {e : ε}
    : (if c then throw e else pure () : Except ε Unit) = .ok () ↔ ¬c := by
  split
  . next hc =>
    refine ⟨fun h => ?_, fun h => absurd hc h⟩
    contradiction
  . next hc => exact ⟨fun _ => hc, fun _ => rfl⟩

namespace CouponIssueRequestPayload

def fields (p : CouponIssueRequestPayload) : List (String × Json.Scalar) :=
  [
    ("requestId", .str p.requestId),
    ("userId", .num p.userId),
    ("eventId", .num p.eventId),
    ("couponTypeId", .num p.couponTypeId),
    ("requestedAt", .str p.requestedAt)
  ]

def toJs (p : CouponIssueRequestPayload) : Json :=
  .obj [
    ("requestId", .str p.requestId),
    ("userId", .num p.userId),
    ("eventId", .num p.eventId),
    ("couponTypeId", .num p.couponTypeId),
    ("requestedAt", .str p.requestedAt)
  ]

end CouponIssueRequestPayload

def assertIssueRequestPayload (p : Json) : Except PayloadError Unit := do
  if p.isNullish "requestId" then throw (.required "requestId")
  match p.get? "requestId" with
  | some (.str requestId) => if (Json.trim requestId).isEmpty then throw (.blank "requestId")
  | _ => throw .typeError
  if !((p.get? "userId").any Json.isPositive) then throw (.notPositive "userId")
  if !((p.get? "eventId").any Json.isPositive) then throw (.notPositive "eventId")
  if !((p.get? "couponTypeId").any Json.isPositive) then throw (.notPositive "couponTypeId")
  if p.isNullish "requestedAt" then throw (.required "requestedAt")

namespace CouponIssueResultPayload

def fields (p : CouponIssueResultPayload) : List (String × Json.Scalar) :=
  [
    ("requestId", .str p.requestId),
    ("userId", .num p.userId),
    ("eventId", .num p.eventId),
    ("couponTypeId", .num p.couponTypeId),
    ("status", .str p.status.text),
    ("couponCode", match p.couponCode with | some code => .str code | none => .null),
    ("processedAt", .str p.processedAt)
  ]

def ofJs (p : Json) : Option CouponIssueResultPayload :=
  match p.get? "requestId", p.get? "userId", p.get? "eventId", p.get? "couponTypeId",
      p.get? "status", p.get? "processedAt" with
  | some (.str requestId), some (.num userId), some (.num eventId), some (.num couponTypeId),
      some (.str status), some (.str processedAt) => do
    let status ← CouponIssueResultStatus.ofText? status
    let couponCode ←
      match p.get? "couponCode" with
      | some (.str code) => some (some code)
      | some .null => some none
      | none => some none
      | _ => none
    return { requestId, userId, eventId, couponTypeId, status, couponCode, processedAt }
  | _, _, _, _, _, _ => none

end CouponIssueResultPayload

def assertIssueResultPayload (p : Json) : Except PayloadError Unit := do
  if p.isNullish "requestId" then throw (.required "requestId")
  if p.isNullish "status" then throw (.required "status")
  match p.get? "status" with
  | some (.str status) =>
    if (CouponIssueResultStatus.ofText? status).isNone then throw .unknownStatus
    if status = "SUCCESS" && p.isNullish "couponCode" then
      throw (.required "couponCode (status=SUCCESS)")
  | _ => throw .unknownStatus
  if p.isNullish "processedAt" then throw (.required "processedAt")

/--
What `parse` of the result consumer does with a message that was written from a payload.
-/
theorem CouponIssueResultPayload.parse_stringify (p : CouponIssueResultPayload)
    (huser : p.userId.isInteger = true) (hevent : p.eventId.isInteger = true)
    (htype : p.couponTypeId.isInteger = true) (hcode : p.status = .success → p.couponCode ≠ none)
    : ∃ j, Json.parse (Json.stringify p.fields) = some j
        ∧ assertIssueResultPayload j = .ok ()
        ∧ ofJs j = some p := by
  obtain ⟨requestId, userId, eventId, couponTypeId, status, couponCode, processedAt⟩ := p
  obtain ⟨_, _, rfl⟩ := JsNumber.exists_int huser
  obtain ⟨_, _, rfl⟩ := JsNumber.exists_int hevent
  obtain ⟨_, _, rfl⟩ := JsNumber.exists_int htype
  refine ⟨_, Json.parse_stringify _, ?_, ?_⟩
  . cases couponCode with
    | none => cases status <;> first | rfl | exact absurd rfl (hcode rfl)
    | some code => cases status <;> rfl
  . cases couponCode <;> cases status <;> rfl

structure IssueAcceptanceResult where
  requestId : Option String
  status : IssueAcceptanceStatus
  message : Option String
deriving DecidableEq

namespace IssueAcceptance

def accepted (requestId : String) : IssueAcceptanceResult where
  requestId := some requestId
  status := .accepted
  message := none

def duplicate (requestId : String) : IssueAcceptanceResult where
  requestId := some requestId
  status := .duplicate
  message := some "already requested for this coupon type"

def internalError (reason : String) : IssueAcceptanceResult where
  requestId := none
  status := .internalError
  message := some reason

end IssueAcceptance
