import CouponIssuance.Kafka.Parse

/-!
This module contains which messages get through `parse` of the two consumers although a field of
theirs does not have its type.
-/

open Js

namespace Js
namespace Json

def isString : Json → Bool
  | str _ => true
  | _ => false

def isNonBlank : Json → Bool
  | str s => !(trim s).isEmpty
  | _ => false

def isPositiveInteger : Json → Bool
  | num n => n.isInteger && JsNumber.lt (JsNumber.ofInt 0) n
  | _ => false

/--
A value that is no positive integer but passes for one in `v > 0`: `true`, a positive fraction, a
number so great that it has become `Infinity`, the text of a positive number, or an array whose only
item is positive.
-/
def isCoerced : Json → Bool
  | bool b => b
  | num n => !n.isInteger && JsNumber.lt (JsNumber.ofInt 0) n
  | fraction negative _ _ _ => !negative
  | str s => isPositiveText s
  | arr items => isPositiveItem items
  | _ => false

theorem isPositive_iff (v : Json)
    : v.isPositive = true ↔ v.isPositiveInteger = true ∨ v.isCoerced = true := by
  cases v with
  | num n =>
    simp only [isPositive, isPositiveInteger, isCoerced]
    cases n.isInteger <;> simp
  | _ => simp [isPositive, isPositiveInteger, isCoerced]

theorem isPositiveInteger_eq_false {v : Json} (h : v.isCoerced = true)
    : v.isPositiveInteger = false := by
  cases v with
  | num n =>
    simp only [isCoerced] at h
    simp only [isPositiveInteger]
    cases hn : n.isInteger <;> simp_all
  | _ => rfl

theorem isNullish_eq_false_iff {name : String} {p : Json}
    : p.isNullish name = false ↔ ∃ v, p.get? name = some v ∧ v ≠ .null := by
  unfold isNullish
  split
  . next h => simp [h]
  . next h => simp [h]
  . next v hnull h =>
    simp only [h, Option.some.injEq, ne_eq, exists_eq_left', true_iff]
    exact hnull

end Json
end Js

namespace CouponIssueRequestPayload

def ids : List String :=
  ["userId", "eventId", "couponTypeId"]

def isWellTyped (p : Json) : Bool :=
  (p.get? "requestId").any Json.isNonBlank
    && ids.all (fun id => (p.get? id).any Json.isPositiveInteger)
    && (p.get? "requestedAt").any Json.isString

def slips (p : Json) : Bool :=
  (p.get? "requestId").any Json.isNonBlank
    && ids.all (fun id => (p.get? id).any Json.isPositive)
    && !p.isNullish "requestedAt"
    && (ids.any (fun id => (p.get? id).any Json.isCoerced)
      || !(p.get? "requestedAt").any Json.isString)

end CouponIssueRequestPayload

namespace CouponIssueResultPayload

def ids : List String :=
  ["userId", "couponTypeId"]

def isStatus : Json → Bool
  | .str status => (CouponIssueResultStatus.ofText? status).isSome
  | _ => false

def isSuccess (p : Json) : Bool :=
  (p.get? "status").any fun
    | .str status => status == "SUCCESS"
    | _ => false

def isCode : Json → Bool
  | .str _ | .null => true
  | _ => false

def isWellTyped (p : Json) : Bool :=
  (p.get? "requestId").any Json.isString
    && ids.all (fun id => (p.get? id).any Json.isPositiveInteger)
    && (p.get? "status").any isStatus
    && (p.get? "couponCode").any (fun code => if isSuccess p then code.isString else isCode code)

def slips (p : Json) : Bool :=
  !p.isNullish "requestId"
    && (p.get? "status").any isStatus
    && (!isSuccess p || !p.isNullish "couponCode")
    && !p.isNullish "processedAt"
    && (!(p.get? "requestId").any Json.isString
      || ids.any (fun id => !(p.get? id).any Json.isPositiveInteger)
      || !(p.get? "couponCode").any isCode)

end CouponIssueResultPayload

theorem assertIssueRequestPayload_eq_ok_iff (p : Json)
    : assertIssueRequestPayload p = .ok ()
        ↔ (p.get? "requestId").any Json.isNonBlank = true
          ∧ CouponIssueRequestPayload.ids.all (fun id => (p.get? id).any Json.isPositive) = true
          ∧ p.isNullish "requestedAt" = false := by
  unfold assertIssueRequestPayload
  rw [ok_iff_of_guard]
  dsimp only
  split
  . next requestId hrequestId =>
    have hpresent : p.isNullish "requestId" = false :=
      Json.isNullish_eq_false_iff.mpr ⟨_, hrequestId, by simp⟩
    simp only [ok_iff_of_guard, ok_iff_of_last_guard]
    simp [hpresent, hrequestId, Json.isNonBlank, CouponIssueRequestPayload.ids, and_assoc]
  . next hother =>
    have hrequestId : (p.get? "requestId").any Json.isNonBlank = false := by
      cases hget : p.get? "requestId" with
      | none => rfl
      | some v =>
        cases v with
        | str requestId => exact absurd hget (hother requestId)
        | _ => rfl
    rw [hrequestId]
    exact ⟨fun h => absurd h.2 (by nofun), fun h => absurd h.1 (by decide)⟩

theorem assertIssueResultPayload_eq_ok_iff (p : Json)
    : assertIssueResultPayload p = .ok ()
        ↔ p.isNullish "requestId" = false
          ∧ (p.get? "status").any CouponIssueResultPayload.isStatus = true
          ∧ (CouponIssueResultPayload.isSuccess p = true → p.isNullish "couponCode" = false)
          ∧ p.isNullish "processedAt" = false := by
  unfold assertIssueResultPayload
  rw [ok_iff_of_guard, ok_iff_of_guard]
  dsimp only
  split
  . next status hstatus =>
    have hpresent : p.isNullish "status" = false :=
      Json.isNullish_eq_false_iff.mpr ⟨_, hstatus, by simp⟩
    simp only [ok_iff_of_guard, ok_iff_of_last_guard]
    simp [hpresent, hstatus, CouponIssueResultPayload.isStatus, CouponIssueResultPayload.isSuccess,
      Option.isSome_iff_ne_none]
  . next hother =>
    have hstatus : (p.get? "status").any CouponIssueResultPayload.isStatus = false := by
      cases hget : p.get? "status" with
      | none => rfl
      | some v =>
        cases v with
        | str status => exact absurd hget (hother status)
        | _ => rfl
    rw [hstatus]
    exact ⟨fun h => absurd h.2.2 (by nofun), fun h => absurd h.2.1 (by decide)⟩

theorem forall_parseRecord {check : Json → Except PayloadError Unit} {value : Option String}
    {P : Json → Prop}
    : (∀ p, parseRecord check value = some p → P p)
        ↔ ∀ p, value.bind Json.parse = some p → check p = .ok () → P p := by
  cases value with
  | none => simp [parseRecord]
  | some raw =>
    cases hparse : Json.parse raw with
    | none => simp [parseRecord, hparse]
    | some j => simp [parseRecord_eq_some hparse, hparse]

namespace CouponIssueRequestPayload

theorem any_isPositiveInteger {v : Option Json} (h : v.any Json.isPositive = true)
    : v.any Json.isPositiveInteger = !v.any Json.isCoerced := by
  cases v with
  | none => simp at h
  | some v =>
    rw [Option.any_some, Option.any_some]
    cases hcoerced : v.isCoerced with
    | true => exact Json.isPositiveInteger_eq_false hcoerced
    | false => simpa [hcoerced] using (Json.isPositive_iff v).mp h

theorem all_isPositiveInteger {p : Json} {names : List String}
    (h : names.all (fun id => (p.get? id).any Json.isPositive) = true)
    : names.all (fun id => (p.get? id).any Json.isPositiveInteger)
        = !names.any (fun id => (p.get? id).any Json.isCoerced) := by
  induction names with
  | nil => rfl
  | cons name names ih =>
    rw [List.all_cons, Bool.and_eq_true] at h
    rw [List.all_cons, List.any_cons, any_isPositiveInteger h.1, ih h.2, Bool.not_or]

theorem isWellTyped_eq {p : Json} (h : assertIssueRequestPayload p = .ok ())
    : isWellTyped p = !slips p := by
  rw [assertIssueRequestPayload_eq_ok_iff] at h
  obtain ⟨hrequestId, hids, hrequestedAt⟩ := h
  simp only [isWellTyped, slips, hrequestId, hids, hrequestedAt, all_isPositiveInteger hids,
    Bool.true_and, Bool.not_false, Bool.not_or, Bool.not_not]

end CouponIssueRequestPayload

namespace CouponIssueResultPayload

theorem any_isString {p : Json} {v : Option Json} (h : isSuccess p = true → v ≠ some .null)
    : v.any (fun code => if isSuccess p then code.isString else isCode code) = v.any isCode := by
  cases v with
  | none => rfl
  | some v =>
    rw [Option.any_some, Option.any_some]
    split
    . next hsuccess =>
      cases v with
      | null => exact absurd rfl (h hsuccess)
      | _ => rfl
    . rfl

theorem isWellTyped_eq {p : Json} (h : assertIssueResultPayload p = .ok ())
    : isWellTyped p = !slips p := by
  rw [assertIssueResultPayload_eq_ok_iff] at h
  obtain ⟨hrequestId, hstatus, hcode, hprocessedAt⟩ := h
  have hnull : isSuccess p = true → p.get? "couponCode" ≠ some .null := by
    intro hsuccess hget
    obtain ⟨v, hv, hne⟩ := Json.isNullish_eq_false_iff.mp (hcode hsuccess)
    rw [hget, Option.some.injEq] at hv
    exact hne hv.symm
  have hchecked : (!isSuccess p || !p.isNullish "couponCode") = true := by
    cases hsuccess : isSuccess p with
    | true => simp [hcode hsuccess]
    | false => rfl
  simp only [isWellTyped, slips, any_isString hnull, hrequestId, hstatus, hchecked, hprocessedAt]
  simp [List.not_any_eq_all_not]

end CouponIssueResultPayload

def slipsThrough (slips : Json → Bool) (value : Option String) : Bool :=
  (value.bind Json.parse).any slips

theorem forall_parseRecord_iff {check : Json → Except PayloadError Unit}
    {isWellTyped slips : Json → Bool} {value : Option String}
    (h : ∀ p, check p = .ok () → isWellTyped p = !slips p)
    (hslips : ∀ p, slips p = true → check p = .ok ())
    : (∀ p, parseRecord check value = some p → isWellTyped p = true)
        ↔ slipsThrough slips value = false := by
  rw [forall_parseRecord]
  unfold slipsThrough
  cases value.bind Json.parse with
  | none => simp
  | some p =>
    simp only [Option.some.injEq, forall_eq', Option.any_some]
    constructor
    . intro htyped
      by_contra hslip
      rw [Bool.not_eq_false] at hslip
      have hcheck := hslips p hslip
      have := htyped hcheck
      rw [h p hcheck, hslip] at this
      contradiction
    . intro hslip hcheck
      rw [h p hcheck, hslip]
      rfl

/--
Both parsers hand on well-typed messages only, exactly when the text holds no message that slips
through their checks.
-/
theorem parsers_wellTyped_iff (value : Option String)
    : ((∀ p, CouponIssueRequestConsumer.parse value = some p →
          CouponIssueRequestPayload.isWellTyped p = true)
        ↔ slipsThrough CouponIssueRequestPayload.slips value = false)
      ∧ ((∀ p, CouponIssueResultConsumer.parse value = some p →
          CouponIssueResultPayload.isWellTyped p = true)
        ↔ slipsThrough CouponIssueResultPayload.slips value = false) := by
  constructor
  . apply forall_parseRecord_iff (fun p => CouponIssueRequestPayload.isWellTyped_eq)
    intro p hslip
    rw [assertIssueRequestPayload_eq_ok_iff]
    simp only [CouponIssueRequestPayload.slips, Bool.and_eq_true, Bool.not_eq_true'] at hslip
    exact ⟨hslip.1.1.1, hslip.1.1.2, hslip.1.2⟩
  . apply forall_parseRecord_iff (fun p => CouponIssueResultPayload.isWellTyped_eq)
    intro p hslip
    rw [assertIssueResultPayload_eq_ok_iff]
    simp only [CouponIssueResultPayload.slips, Bool.and_eq_true, Bool.not_eq_true'] at hslip
    obtain ⟨⟨⟨⟨hrequestId, hstatus⟩, hcode⟩, hprocessedAt⟩, -⟩ := hslip
    refine ⟨hrequestId, hstatus, fun hsuccess => ?_, hprocessedAt⟩
    simpa [hsuccess] using hcode

def looseRequest : String :=
  "\x7b\"requestId\":\"r\",\"userId\":true,\"eventId\":0.5,\"couponTypeId\":\"7\","
    ++ "\"requestedAt\":0\x7d"

def looseResult : String :=
  "\x7b\"requestId\":1,\"couponTypeId\":\"7\",\"status\":\"FAILED\",\"processedAt\":0\x7d"

theorem parsers_not_wellTyped
    : (¬∀ value : Option String, ∀ p, CouponIssueRequestConsumer.parse value = some p →
        CouponIssueRequestPayload.isWellTyped p = true)
      ∧ ¬∀ value : Option String, ∀ p, CouponIssueResultConsumer.parse value = some p →
        CouponIssueResultPayload.isWellTyped p = true := by
  have hrequest : (CouponIssueRequestConsumer.parse (some looseRequest)).any
      (fun p => !CouponIssueRequestPayload.isWellTyped p) = true := by
    decide +kernel
  have hresult : (CouponIssueResultConsumer.parse (some looseResult)).any
      (fun p => !CouponIssueResultPayload.isWellTyped p) = true := by
    decide +kernel
  refine ⟨fun h => ?_, fun h => ?_⟩
  . obtain ⟨p, hparse, htyped⟩ := (Option.any_eq_true _ _).mp hrequest
    simp [h _ p hparse] at htyped
  . obtain ⟨p, hparse, htyped⟩ := (Option.any_eq_true _ _).mp hresult
    simp [h _ p hparse] at htyped
