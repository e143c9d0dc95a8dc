import CouponIssuance.ServerB.Calls

/-!
This module contains `parse` of the two consumers.
-/

open Js

/--
`parse` of a record value: `none` for what is skipped.
-/
def parseRecord (check : Json → Except PayloadError Unit) (value : Option String) : Option Json :=
  match value with
  | none => none
  | some raw =>
    match Json.parse raw with
    | none => none
    | some parsed =>
      match check parsed with
      | .ok _ => some parsed
      | .error _ => none

def CouponIssueRequestConsumer.parse (value : Option String) : Option Json :=
  parseRecord assertIssueRequestPayload value

def CouponIssueResultConsumer.parse (value : Option String) : Option Json :=
  parseRecord assertIssueResultPayload value

theorem parseRecord_eq_some {check : Json → Except PayloadError Unit} {raw : String} {p j : Json}
    (hparse : Json.parse raw = some j)
    : parseRecord check (some raw) = some p ↔ j = p ∧ check j = .ok () := by
  unfold parseRecord
  dsimp only
  rw [hparse]
  dsimp only
  split
  . next heq => simp [heq]
  . next heq => simp [heq]

/--
The flow of server-b reads the parsed message as the payload that it is typed as.
-/
theorem ServerB.Deliver.parse_eq (value : String)
    : ServerB.Deliver.parse value
        = (CouponIssueResultConsumer.parse (some value)).bind CouponIssueResultPayload.ofJs := by
  unfold parse CouponIssueResultConsumer.parse parseRecord
  dsimp only
  cases Json.parse value with
  | none => rfl
  | some payload =>
    dsimp only
    cases assertIssueResultPayload payload <;> rfl
