import CouponIssuance.Js.Number

/-!
This module contains the UTC side of JavaScript's `Date`. A date is its time value, the number of
milliseconds since the epoch.
-/

namespace Js

def maxTime : Int := 8640000000000000

structure UtcTime where
  year : Int
  /-- 1 for January -/
  month : Nat
  day : Nat
  hours : Nat
  minutes : Nat
  seconds : Nat
  milliseconds : Nat
deriving DecidableEq

namespace Date

def msPerDay : Int := 86400000

/--
Year, month and day of a day that is counted from the epoch. The years begin in March, so that the
leap day is the last day of its year.
-/
def civil (day : Int) : Int × Nat × Nat :=
  let shifted := day + 719468
  let era := shifted / 146097
  let dayOfEra := (shifted % 146097).toNat
  let yearOfEra := (dayOfEra - dayOfEra / 1460 + dayOfEra / 36524 - dayOfEra / 146096) / 365
  let dayOfYear := dayOfEra - (365 * yearOfEra + yearOfEra / 4 - yearOfEra / 100)
  let marchMonth := (5 * dayOfYear + 2) / 153
  let month := if marchMonth < 10 then marchMonth + 3 else marchMonth - 9
  let year := yearOfEra + era * 400 + if month ≤ 2 then 1 else 0
  (year, month, dayOfYear - (153 * marchMonth + 2) / 5 + 1)

/--
The `getUTC...` components of a time value.
-/
def utc (time : Int) : UtcTime :=
  let date := civil (time / msPerDay)
  let ms := (time % msPerDay).toNat
  {
    year := date.1
    month := date.2.1
    day := date.2.2
    hours := ms / 3600000
    minutes := ms / 60000 % 60
    seconds := ms / 1000 % 60
    milliseconds := ms % 1000
  }

/--
`String(n).padStart(width, '0')`
-/
def padStart (width n : Nat) : String :=
  let digits := Nat.toDigits 10 n
  String.ofList (List.replicate (width - digits.length) '0' ++ digits)

def isoYear (year : Int) : String :=
  if 0 ≤ year ∧ year ≤ 9999 then
    padStart 4 year.toNat
  else if year < 0 then
    "-" ++ padStart 6 year.natAbs
  else
    "+" ++ padStart 6 year.toNat

def toISOString (time : Int) : String :=
  let t := utc time
  isoYear t.year ++ "-" ++ padStart 2 t.month ++ "-" ++ padStart 2 t.day ++ "T"
    ++ padStart 2 t.hours ++ ":" ++ padStart 2 t.minutes ++ ":" ++ padStart 2 t.seconds ++ "."
    ++ padStart 3 t.milliseconds ++ "Z"

/--
The time value of `new Date(n)`, `none` for an invalid date.
-/
def ofNumber : JsNumber → Option Int
  | .int n _ => if n.natAbs ≤ maxTime.natAbs then some n else none
  | _ => none

theorem ofNumber_of_le {n : Int} (h : n.natAbs ≤ maxTime.natAbs)
    : ofNumber (JsNumber.ofInt n) = some n := by
  rw [JsNumber.ofInt_of_natAbs_le (Nat.le_trans h (by decide))]
  simp [ofNumber, h]

theorem eq_of_ofNumber {n : Nat} {time : Int} (h : ofNumber (JsNumber.ofInt n) = some time)
    : time = n := by
  unfold JsNumber.ofInt at h
  split at h
  . rw [if_neg (by omega)] at h
    simp only [ofNumber, Int.natAbs_natCast] at h
    split at h
    . next hle =>
      have hround : roundNat n = n :=
        (roundNat_eq_of_lt (Nat.lt_of_le_of_lt hle (by decide)) rfl).symm
      rw [hround, Option.some.injEq] at h
      exact h.symm
    . contradiction
  . rw [if_neg (by omega)] at h
    contradiction

end Date

end Js
