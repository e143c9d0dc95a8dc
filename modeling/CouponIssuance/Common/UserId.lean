import CouponIssuance.Js.Number

/-!
This module contains the decorator `UserId`, which reads the header `X-User-Id` of a request.
-/

def USER_ID_HEADER : String := "X-User-Id"

def USER_ID_PARAM_NAME : String := "userId"

/-- `req.headers['x-user-id']` -/
inductive RawHeader where
  | absent
  | text (value : String)
  | list (values : List String)

inductive UserIdError where
  | missingHeader (header : String)
  | typeMismatch (param : String)
deriving DecidableEq

namespace UserId

open Js

def value : RawHeader → Option String
  | .absent => none
  | .text value => some value
  | .list values => values.head?

def decode (raw : RawHeader) : Except UserIdError JsNumber :=
  match value raw with
  | none => .error (.missingHeader USER_ID_HEADER)
  | some value =>
    if value = "" then
      .error (.missingHeader USER_ID_HEADER)
    else if !isLong value.toList then
      .error (.typeMismatch USER_ID_PARAM_NAME)
    else
      .ok (JsNumber.ofString value)

def write (n : Int) : List Char :=
  if n < 0 then '-' :: Nat.toDigits 10 n.natAbs else Nat.toDigits 10 n.natAbs

theorem splitSign_write (n : Int)
    : splitSign (write n) = (decide (n < 0), Nat.toDigits 10 n.natAbs) := by
  unfold write
  split
  . next h => simp [splitSign, h]
  . next h => rw [splitSign_of_isDigits (isDigits_toDigits _), decide_eq_false h]

theorem decode_write (n : Int)
    : decode (.text (String.ofList (write n))) = .ok (JsNumber.ofInt n) := by
  have hlong : isLong (write n) = true := by
    rw [isLong, splitSign_write]
    exact isDigits_toDigits _
  have hne : String.ofList (write n) ≠ "" := by
    intro heq
    have hnil := congrArg String.toList heq
    rw [String.toList_ofList] at hnil
    rw [hnil] at hlong
    contradiction
  have happly : applySign (decide (n < 0)) n.natAbs = n := by
    unfold applySign
    by_cases hneg : n < 0
    . rw [decide_eq_true hneg, if_pos rfl]
      omega
    . rw [decide_eq_false hneg, if_neg Bool.false_ne_true]
      omega
  have hread : JsNumber.ofString (String.ofList (write n)) = JsNumber.ofInt n := by
    rw [JsNumber.ofString, String.toList_ofList, JsNumber.ofText_of_isLong hlong, splitSign_write,
      Nat.ofDigitChars_ten_toDigits, happly]
  simp [decode, value, hne, hlong, hread]

end UserId
