import CouponIssuance.Common.UserId
import CouponIssuance.Kafka.Marked
import CouponIssuance.ServerC.Declared
import CouponIssuance.ServerC.Results
import CouponIssuance.System.Recovery

/-!
This module contains the way of a request and of its result through the two topics: what the
publisher lets through against what the consumer at the other end reads.
-/

open Js ServerC.Untyped

namespace RoundTrip

def hasFiniteIds (request : Request) : Bool :=
  request.userId.isFinite && request.eventId.isFinite && request.couponTypeId.isFinite

/--
`payload` is the result of the request, comes out as it went in, and marks the pair of the request.
-/
def Arrives (request : Request) (payload : String) : Prop :=
  ∃ status code now,
    payload = Json.stringifyValue (toResultPayload request status code now)
      ∧ CouponIssueResultConsumer.parse (some payload)
        = some (toResultPayload request status code now)
      ∧ CouponIssueResultConsumer.markResult (toResultPayload request status code now)
        = some {
            userId := some request.userId
            couponTypeId := some request.couponTypeId
            status := ServerB.Deliver.mapStatus status
            code := some (code.elim .null .str)
          }

theorem parse_request_iff {p : CouponIssueRequestPayload}
    (hassert : assertIssueRequestPayload p.toJs = .ok ()) (hevent : p.eventId.isInteger = true)
    (htype : p.couponTypeId.isInteger = true)
    : CouponIssueRequestConsumer.parse (some (Json.stringify p.fields)) = some p.toJs
        ↔ p.userId.isInteger = true := by
  have hparse : Json.parse (Json.stringify p.fields) = some p.toJs.wire :=
    Json.parse_stringify_eq_wire p.fields
  unfold CouponIssueRequestConsumer.parse
  rw [parseRecord_eq_some hparse, Json.wire_eq_self_iff]
  simp only [CouponIssueRequestPayload.toJs, Json.isFinite, Json.isFiniteFields, hevent, htype,
    Bool.and_true, Bool.true_and]
  constructor
  . exact And.left
  . intro huser
    have hfinite : p.toJs.isFinite = true := by
      simp only [CouponIssueRequestPayload.toJs, Json.isFinite, Json.isFiniteFields, huser, hevent,
        htype, Bool.and_true]
    have hwire := (Json.wire_eq_self_iff _).mpr hfinite
    unfold CouponIssueRequestPayload.toJs at hwire hassert
    rw [hwire]
    exact ⟨huser, hassert⟩

section Result

variable {request : Request} {status : CouponIssueResultStatus} {code : Option String} {now : Int}

theorem isFinite_toResultPayload
    : (toResultPayload request status code now).isFinite = hasFiniteIds request := by
  unfold toResultPayload hasFiniteIds
  cases code <;> simp [Json.isFinite, Json.isFiniteFields, Bool.and_assoc]

theorem assertIssueResultPayload_toResultPayload (hcode : status = .success ↔ code.isSome = true)
    : assertIssueResultPayload (toResultPayload request status code now) = .ok () := by
  cases code with
  | none => cases status <;> first | rfl | exact absurd (hcode.mp rfl) Bool.false_ne_true
  | some code => cases status <;> rfl

theorem parse_result_iff (hcode : status = .success ↔ code.isSome = true)
    : CouponIssueResultConsumer.parse
          (some (Json.stringifyValue (toResultPayload request status code now)))
        = some (toResultPayload request status code now)
        ↔ hasFiniteIds request = true := by
  unfold CouponIssueResultConsumer.parse
  rw [parseRecord_eq_some (Json.parse_stringifyValue _), Json.wire_eq_self_iff,
    isFinite_toResultPayload]
  constructor
  . exact And.left
  . intro hfinite
    refine ⟨hfinite, ?_⟩
    rw [(Json.wire_eq_self_iff _).mpr (isFinite_toResultPayload.trans hfinite)]
    exact assertIssueResultPayload_toResultPayload hcode

theorem markResult_toResultPayload
    : CouponIssueResultConsumer.markResult (toResultPayload request status code now)
        = some {
            userId := some request.userId
            couponTypeId := some request.couponTypeId
            status := ServerB.Deliver.mapStatus status
            code := some (code.elim .null .str)
          } := by
  cases status <;> cases code <;> rfl

theorem arrives_of_isResult {payload : String} (h : IsResult request status code now payload)
    : Arrives request payload := by
  have hfinite : hasFiniteIds request = true := by
    unfold hasFiniteIds
    rw [isFinite_of_fits h.userId, isFinite_of_fits h.eventId, isFinite_of_fits h.couponTypeId]
    rfl
  refine ⟨status, code, now, h.payload, ?_, markResult_toResultPayload⟩
  rw [h.payload]
  exact (parse_result_iff h.code_isSome).mpr hfinite

end Result

/--
Both topics give back what was sent on them, as long as the user of a request is a finite number:
what `process` comes to a result for is always written with finite ids.
-/
theorem payloads_arrive (raw : RawHeader) (p : CouponIssueRequestPayload) (value : Option String)
    (request : Request) (status : CouponIssueResultStatus) (code : Option String) (now : Int)
    (batchSize : Nat) (db : ServerC.Db) (s : State)
    : (UserId.decode raw = .ok p.userId
          → p.eventId.isInteger = true → p.couponTypeId.isInteger = true
          → assertIssueRequestPayload p.toJs = .ok ()
          → (CouponIssueRequestConsumer.parse (some (Json.stringify p.fields)) = some p.toJs
              ↔ p.userId.isInteger = true))
        ∧ (CouponIssueRequestConsumer.parse value = some request.js
            → (status = .success ↔ code.isSome = true)
            → (CouponIssueResultConsumer.parse
                  (some (Json.stringifyValue (toResultPayload request status code now)))
                = some (toResultPayload request status code now)
                ↔ hasFiniteIds request = true))
        ∧ (db.outbox = []
            → (calls batchSize).machine.Run (fun _ _ => True) (init db) s
            → ∀ o ∈ s.shared.db.outbox, ∃ p, .process p ∈ s.calls ∧ Arrives p.request o.payload) := by
  refine ⟨?_, ?_, ?_⟩
  . intro _ hevent htype hassert
    exact parse_request_iff hassert hevent htype
  . intro _ hcode
    exact parse_result_iff hcode
  . intro houtbox hrun o ho
    obtain ⟨request, hrequest, status, code, now, hresult⟩ := haveResults houtbox hrun o ho
    obtain ⟨c, hc, hrequest⟩ := List.mem_map.mp hrequest
    cases c with
    | process p =>
      injection hrequest with hrequest
      subst hrequest
      exact ⟨p, hc, arrives_of_isResult hresult⟩
    | redeem r => contradiction
    | poll pc => contradiction

def textual : Request :=
  ⟨issueRequest "b" (.str "2"), rfl⟩

/--
User 1 applies, and the results of two racing calls come out at server-b, although no id of their
users is an integer.
-/
theorem payloads_arrive_race
    : CouponIssueRequestConsumer.parse (some (Json.stringify (ServerC.issueRequest "a" 1).fields))
          = some (ServerC.issueRequest "a" 1).toJs
        ∧ CouponIssueResultConsumer.parse
            (some (Json.stringifyValue (toResultPayload fractional .soldOut none 5)))
          = some (toResultPayload fractional .soldOut none 5)
        ∧ ∃ s, (calls 1).machine.Run (fun _ _ => True) (init ServerC.lastCoupon) s
            ∧ s.shared.db.outbox.map (userIdOf ·.payload)
              = [some fractional.userId, some textual.userId]
            ∧ ∀ o ∈ s.shared.db.outbox, ∃ p, .process p ∈ s.calls ∧ Arrives p.request o.payload := by
  obtain ⟨s, hrun, hs⟩ := Concurrency.Machine.exists_run_of_exec (calls 1).machine
    (fun _ _ => true) (fun _ _ => True) (fun _ _ _ => trivial) (race fractional textual)
    (init ServerC.lastCoupon)
    (fun s => s.shared.db.outbox.map (·.payload)
      == [Json.stringifyValue (toResultPayload fractional .success (some "AAAAAAAAAAAA") 5),
        Json.stringifyValue (toResultPayload textual .soldOut none 5)])
    (by decide +kernel)
  rw [beq_iff_eq] at hs
  have hsent := payloads_arrive (.text "1") (ServerC.issueRequest "a" 1) none fractional .soldOut none
    5 1 ServerC.lastCoupon s
  have hread := payloads_arrive .absent (ServerC.issueRequest "a" 1)
    (some (Json.stringifyValue fractional.js)) fractional .soldOut none 5 1 ServerC.lastCoupon s
  refine ⟨(hsent.1 (by decide) (by decide) (by decide) (by decide)).mpr (by decide),
    (hread.2.1 parse_fractional (by decide)).mpr rfl, s, hrun, ?_, hsent.2.2 rfl hrun⟩
  have husers := congrArg (List.map userIdOf) hs
  rw [List.map_map] at husers
  refine husers.trans ?_
  simp only [List.map_cons, List.map_nil, userIdOf_toResultPayload]
  rfl

/-- 310 digits -/
def hugeUserId : RawHeader :=
  .text (String.ofList (UserId.write (10 ^ 309)))

/--
The decoder makes `Infinity` of such a header, the publisher sends `null` for it, and the consumer
skips the message.
-/
theorem payloads_lost
    : ¬∀ raw (p : CouponIssueRequestPayload), UserId.decode raw = .ok p.userId
        → p.eventId.isInteger = true → p.couponTypeId.isInteger = true
        → assertIssueRequestPayload p.toJs = .ok ()
        → CouponIssueRequestConsumer.parse (some (Json.stringify p.fields)) = some p.toJs := by
  intro h
  have hdecode : UserId.decode hugeUserId = .ok .posInf :=
    (UserId.decode_write (10 ^ 309)).trans (by decide +kernel)
  have harrives := h hugeUserId { ServerC.issueRequest "a" 1 with userId := .posInf } hdecode (by decide)
    (by decide) (by decide)
  have hfinite := (parse_request_iff (by decide) (by decide) (by decide)).mp harrives
  exact Bool.false_ne_true hfinite

end RoundTrip
