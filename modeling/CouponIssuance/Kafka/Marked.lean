import CouponIssuance.Js.Text
import CouponIssuance.Kafka.Parse
import CouponIssuance.ServerB.Lemmas.Mark

/-!
This module contains what the result consumer does with a message that it lets through: the fields go
to `markResult` as they are, and its keys hold whatever `String` makes of the ids.
-/

open Js

namespace CouponIssueResultConsumer

/-- A call of `markResult`. What the message leaves out is `undefined`. -/
structure MarkResult where
  userId : Option Json
  couponTypeId : Option Json
  status : ServerB.IssuePendingStatus
  code : Option Json

/-- `none` is the status for which `mapStatus` throws. -/
def markResult (payload : Json) : Option MarkResult :=
  match payload.get? "status" with
  | some (.str status) =>
    (CouponIssueResultStatus.ofText? status).map fun status => {
      userId := payload.get? "userId"
      couponTypeId := payload.get? "couponTypeId"
      status := ServerB.Deliver.mapStatus status
      code := payload.get? "couponCode"
    }
  | _ => none

def textOf : Option Json → String
  | none => "undefined"
  | some v => v.text

namespace MarkResult

def hashKey (m : MarkResult) : String :=
  "issue:pending:" ++ textOf m.userId ++ ":" ++ textOf m.couponTypeId

def commands (m : MarkResult) : List ServerB.Command :=
  [.hset m.hashKey [(.status, m.status.text)]]
    ++ (match m.code with
      | none => []
      | some code => if code.isNull then [] else [.hset m.hashKey [(.code, code.text)]])
    ++ [
      .expire m.hashKey,
      .zrem (textOf m.userId ++ ":" ++ textOf m.couponTypeId)
    ]

end MarkResult

end CouponIssueResultConsumer

namespace ServerB

theorem Deliver.markResult_ofScalars (p : CouponIssueResultPayload)
    : CouponIssueResultConsumer.markResult (Json.ofScalars p.fields)
        = some {
            userId := some (.num p.userId)
            couponTypeId := some (.num p.couponTypeId)
            status := mapStatus p.status
            code := some (p.couponCode.elim .null .str)
          } := by
  obtain ⟨requestId, userId, eventId, couponTypeId, status, couponCode, processedAt⟩ := p
  cases status <;> cases couponCode <;> rfl

/--
A message with the declared types makes the same commands as the flow of server-b.
-/
theorem Deliver.commands_mark (p : CouponIssueResultPayload)
    : (CouponIssueResultConsumer.markResult (Json.ofScalars p.fields)).map (·.commands)
        = some (mark p).commands := by
  have hhash : ∀ u t : JsNumber, RedisKeys.pendingHash u t
      = "issue:pending:" ++ toString u ++ ":" ++ toString t := by
    intro u t
    unfold RedisKeys.pendingHash
    rfl
  have hmember : ∀ u t : JsNumber, RedisKeys.pendingZsetMember u t
      = toString u ++ ":" ++ toString t := by
    intro u t
    unfold RedisKeys.pendingZsetMember
    rfl
  rw [markResult_ofScalars]
  unfold mark ServerB.markResult
  cases p.couponCode <;>
    simp [Mark.commands, Mark.closing, Mark.command, Mark.hashKey, hhash, hmember,
      CouponIssueResultConsumer.MarkResult.commands,
      CouponIssueResultConsumer.MarkResult.hashKey, CouponIssueResultConsumer.textOf,
      Json.text_num, Json.text_str, Json.isNull]

end ServerB
