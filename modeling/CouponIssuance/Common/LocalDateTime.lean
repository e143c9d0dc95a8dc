import CouponIssuance.Js.Date

/-!
This module contains the two timestamp encodings of `local-date-time.ts`.
-/

namespace LocalDateTime

open Js.Date

/--
`text.replace(pattern, replacement)` for a pattern that is a string: the first occurrence only.
-/
def replaceFirst (pattern replacement : List Char) : List Char → List Char
  | [] => if pattern.isEmpty then replacement else []
  | c :: text =>
    if pattern.isPrefixOf (c :: text) then
      replacement ++ (c :: text).drop pattern.length
    else
      c :: replaceFirst pattern replacement text

def toLocalDateTimeString (value : Int) : String :=
  let t := Js.Date.utc value
  let yyyy := String.ofList (padYear t.year)
  let out := yyyy ++ "-" ++ padStart 2 t.month ++ "-" ++ padStart 2 t.day ++ "T"
    ++ padStart 2 t.hours ++ ":" ++ padStart 2 t.minutes
  let out :=
    if t.seconds ≠ 0 ∨ t.milliseconds ≠ 0 then out ++ ":" ++ padStart 2 t.seconds else out
  if t.milliseconds ≠ 0 then out ++ "." ++ padStart 3 t.milliseconds else out
where
  /-- `String(year).padStart(4, '0')`, which pads in front of the sign. -/
  padYear (year : Int) : List Char :=
    let text := (if year < 0 then ['-'] else []) ++ Nat.toDigits 10 year.natAbs
    List.replicate (4 - text.length) '0' ++ text

def toInstantString (value : Int) : String :=
  let iso := toISOString value
  if (utc value).milliseconds = 0 then
    String.ofList (replaceFirst ".000Z".toList "Z".toList iso.toList)
  else
    iso

end LocalDateTime
