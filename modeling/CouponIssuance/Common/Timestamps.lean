import CouponIssuance.Common.LocalDateTime
import CouponIssuance.Js.Calendar
import CouponIssuance.Js.Padded

/-!
This module contains the grammar that both timestamp encodings are read by, and that they lose
nothing.
-/

namespace LocalDateTime

open Js Js.Date

/--
A text of the form `yyyy-MM-ddTHH:mm[:ss[.SSS]]`, part by part.
-/
structure Timestamp where
  year : Nat
  month : Nat
  day : Nat
  hours : Nat
  minutes : Nat
  seconds : Option Nat
  fraction : Option Nat
deriving DecidableEq

def Timestamp.components (t : Timestamp) : UtcTime where
  year := t.year
  month := t.month
  day := t.day
  hours := t.hours
  minutes := t.minutes
  seconds := t.seconds.getD 0
  milliseconds := t.fraction.getD 0

def skip (mark : Char) : List Char → Option (List Char)
  | [] => none
  | c :: text => if c = mark then some text else none

def readOptional (mark : Char) (width : Nat) (text : List Char) : Option (Option Nat × List Char) :=
  match skip mark text with
  | some text => (readNumber width text).map fun (n, text) => (some n, text)
  | none => some (none, text)

def readMinutes (text : List Char) : Option (Timestamp × List Char) := do
  let (year, text) ← readNumber 4 text
  let text ← skip '-' text
  let (month, text) ← readNumber 2 text
  let text ← skip '-' text
  let (day, text) ← readNumber 2 text
  let text ← skip 'T' text
  let (hours, text) ← readNumber 2 text
  let text ← skip ':' text
  let (minutes, text) ← readNumber 2 text
  return ({ year, month, day, hours, minutes, seconds := none, fraction := none }, text)

def readTimestamp (text : List Char) : Option (Timestamp × List Char) := do
  let (timestamp, text) ← readMinutes text
  let (seconds, text) ← readOptional ':' 2 text
  if seconds.isSome then
    let (fraction, text) ← readOptional '.' 3 text
    return ({ timestamp with seconds, fraction }, text)
  else
    return (timestamp, text)

/-- `yyyy-MM-ddTHH:mm[:ss[.SSS]]` -/
def readLocalDateTime (text : String) : Option Timestamp := do
  let (timestamp, rest) ← readTimestamp text.toList
  if rest = [] then some timestamp else none

def readInstant (text : String) : Option Int := do
  let (timestamp, rest) ← readTimestamp text.toList
  if timestamp.seconds.isSome ∧ rest = ['Z'] then some (ofUtc timestamp.components) else none

def minutesText (t : UtcTime) : List Char :=
  digits 4 t.year.toNat ++ '-' :: (digits 2 t.month ++ '-' :: (digits 2 t.day ++
    'T' :: (digits 2 t.hours ++ ':' :: digits 2 t.minutes)))

def secondsText (t : UtcTime) : List Char :=
  ':' :: digits 2 t.seconds

def fractionText (t : UtcTime) : List Char :=
  if t.milliseconds ≠ 0 then '.' :: digits 3 t.milliseconds else []

def IsCommon (value : Int) : Prop :=
  0 ≤ (utc value).year ∧ (utc value).year ≤ 9999

section Texts

variable {value : Int}

theorem toList_padYear {year : Int} (h : 0 ≤ year ∧ year ≤ 9999)
    : toLocalDateTimeString.padYear year = digits 4 year.toNat := by
  have hpos : ¬year < 0 := by omega
  have habs : year.natAbs = year.toNat := by omega
  rw [← toList_padStart (by decide) (by omega)]
  simp only [toLocalDateTimeString.padYear, hpos, ↓reduceIte, List.nil_append, habs, padStart,
    String.toList_ofList]

theorem toList_padStart_utc (value : Int)
    : let t := utc value
      (padStart 2 t.month).toList = digits 2 t.month ∧ (padStart 2 t.day).toList = digits 2 t.day
        ∧ (padStart 2 t.hours).toList = digits 2 t.hours
        ∧ (padStart 2 t.minutes).toList = digits 2 t.minutes
        ∧ (padStart 2 t.seconds).toList = digits 2 t.seconds
        ∧ (padStart 3 t.milliseconds).toList = digits 3 t.milliseconds := by
  obtain ⟨hmonth, hday, hhours, hminutes, hseconds, hms⟩ := UtcTime.valid_utc value
  refine ⟨?_, ?_, ?_, ?_, ?_, ?_⟩
  . exact toList_padStart (by decide) (by omega)
  . exact toList_padStart (by decide) (by omega)
  . exact toList_padStart (by decide) (by omega)
  . exact toList_padStart (by decide) (by omega)
  . exact toList_padStart (by decide) (by omega)
  . exact toList_padStart (by decide) (by omega)

theorem toList_toLocalDateTimeString (h : IsCommon value)
    : (toLocalDateTimeString value).toList
        = minutesText (utc value)
            ++ (if (utc value).seconds ≠ 0 ∨ (utc value).milliseconds ≠ 0 then
                secondsText (utc value) ++ fractionText (utc value)
              else
                []) := by
  obtain ⟨hmonth, hday, hhours, hminutes, hseconds, hms⟩ := toList_padStart_utc value
  unfold toLocalDateTimeString minutesText secondsText fractionText
  simp only [toList_padYear h]
  by_cases hzero : (utc value).milliseconds = 0
  . by_cases hwhole : (utc value).seconds = 0
    . simp [hzero, hwhole, hmonth, hday, hhours, hminutes]
    . simp [hzero, hwhole, hmonth, hday, hhours, hminutes, hseconds]
  . simp [hzero, hmonth, hday, hhours, hminutes, hseconds, hms]

theorem toList_toISOString (h : IsCommon value)
    : (toISOString value).toList
        = minutesText (utc value) ++ secondsText (utc value)
            ++ '.' :: (digits 3 (utc value).milliseconds ++ ['Z']) := by
  obtain ⟨hmonth, hday, hhours, hminutes, hseconds, hms⟩ := toList_padStart_utc value
  have hyear : (isoYear (utc value).year).toList = digits 4 (utc value).year.toNat := by
    have hfour : 0 ≤ (utc value).year ∧ (utc value).year ≤ 9999 := h
    rw [isoYear, if_pos hfour]
    exact toList_padStart (by decide) (by omega)
  simp [toISOString, minutesText, secondsText, hyear, hmonth, hday, hhours, hminutes, hseconds, hms]

theorem replaceFirst_append {c : Char} {pattern replacement text : List Char} (h : c ∉ text)
    : replaceFirst (c :: pattern) replacement (text ++ c :: pattern) = text ++ replacement := by
  induction text with
  | nil => simp [replaceFirst]
  | cons d text ih =>
    rw [List.mem_cons, not_or] at h
    have hd : (c == d) = false := by simp [h.1]
    simp [replaceFirst, List.isPrefixOf, hd, ih h.2]

theorem not_mem_digits {c : Char} (hc : c.isDigit = false) (width n : Nat)
    : c ∉ digits width n := by
  intro hmem
  have hdigit := List.all_eq_true.mp (all_isDigit_digits width n) c hmem
  simp [hc] at hdigit

theorem toList_toInstantString (h : IsCommon value)
    : (toInstantString value).toList
        = minutesText (utc value) ++ secondsText (utc value) ++ fractionText (utc value)
            ++ ['Z'] := by
  have hiso := toList_toISOString h
  unfold toInstantString
  dsimp only
  split
  . next hzero =>
    have hpoint : '.' ∉ minutesText (utc value) ++ secondsText (utc value) := by
      have hdigits := not_mem_digits (c := '.') (by decide)
      simp [minutesText, secondsText, hdigits]
    rw [hiso, hzero, fractionText, if_neg (by simp [hzero]), List.append_nil,
      String.toList_ofList]
    exact replaceFirst_append hpoint
  . next hzero =>
    rw [hiso, fractionText, if_pos hzero]
    simp

end Texts

section Reads

variable {t : UtcTime} {value : Int}

@[simp]
theorem skip_cons (mark : Char) (text : List Char) : skip mark (mark :: text) = some text := by
  simp [skip]

theorem readOptional_cons {mark : Char} {width n : Nat} (rest : List Char) (h : n < 10 ^ width)
    : readOptional mark width (mark :: (digits width n ++ rest)) = some (some n, rest) := by
  simp [readOptional, readNumber_digits rest h]

def Timestamp.of (t : UtcTime) (seconds fraction : Option Nat) : Timestamp where
  year := t.year.toNat
  month := t.month
  day := t.day
  hours := t.hours
  minutes := t.minutes
  seconds := seconds
  fraction := fraction

theorem Timestamp.components_of {seconds fraction : Option Nat} (hyear : 0 ≤ t.year)
    (hseconds : seconds.getD 0 = t.seconds) (hfraction : fraction.getD 0 = t.milliseconds)
    : (of t seconds fraction).components = t :=
  UtcTime.ext (Int.toNat_of_nonneg hyear) rfl rfl rfl rfl hseconds hfraction

theorem readMinutes_text (rest : List Char) (hvalid : t.Valid) (hyear : t.year.toNat < 10000)
    : readMinutes (minutesText t ++ rest) = some (.of t none none, rest) := by
  obtain ⟨hmonth, hday, hhours, hminutes, -, -⟩ := hvalid
  simp only [readMinutes, minutesText, List.append_assoc, List.cons_append]
  rw [readNumber_digits _ hyear]
  simp only [Option.bind_eq_bind, Option.bind_some, skip_cons]
  rw [readNumber_digits _ (by omega)]
  simp only [Option.bind_some, skip_cons]
  rw [readNumber_digits _ (by omega)]
  simp only [Option.bind_some, skip_cons]
  rw [readNumber_digits _ (by omega)]
  simp only [Option.bind_some, skip_cons]
  rw [readNumber_digits _ (by omega)]
  rfl

theorem readTimestamp_minutes {rest : List Char} (hvalid : t.Valid) (hyear : t.year.toNat < 10000)
    (hrest : skip ':' rest = none)
    : readTimestamp (minutesText t ++ rest) = some (.of t none none, rest) := by
  simp [readTimestamp, readMinutes_text rest hvalid hyear, readOptional, hrest]

def writtenFraction (t : UtcTime) : Option Nat :=
  if t.milliseconds ≠ 0 then some t.milliseconds else none

theorem writtenFraction_eq_none : writtenFraction t = none ↔ t.milliseconds = 0 := by
  simp [writtenFraction]

theorem writtenFraction_getD (t : UtcTime) : (writtenFraction t).getD 0 = t.milliseconds := by
  unfold writtenFraction
  split
  . rfl
  . next hzero => exact (Decidable.not_not.mp hzero).symm

theorem readTimestamp_seconds {rest : List Char} (hvalid : t.Valid) (hyear : t.year.toNat < 10000)
    (hrest : skip '.' rest = none)
    : readTimestamp (minutesText t ++ secondsText t ++ fractionText t ++ rest)
        = some (.of t (some t.seconds) (writtenFraction t), rest) := by
  have hseconds : t.seconds < 10 ^ 2 := by
    have := hvalid.seconds
    omega
  have hms : t.milliseconds < 10 ^ 3 := by
    have := hvalid.milliseconds
    omega
  simp only [readTimestamp, List.append_assoc, readMinutes_text _ hvalid hyear, secondsText,
    List.cons_append, Option.bind_eq_bind, Option.bind_some, readOptional_cons _ hseconds]
  by_cases hzero : t.milliseconds = 0
  . simp [fractionText, writtenFraction, hzero, readOptional, hrest, Timestamp.of]
  . simp [fractionText, writtenFraction, hzero, readOptional_cons _ hms, Timestamp.of]

theorem year_lt (h : IsCommon value) : (utc value).year.toNat < 10000 := by
  have hyear := h.2
  omega

theorem readLocalDateTime_spec (h : IsCommon value)
    : ∃ timestamp : Timestamp, readLocalDateTime (toLocalDateTimeString value) = some timestamp
        ∧ timestamp.components = utc value
        ∧ (timestamp.seconds = none ↔ (utc value).seconds = 0 ∧ (utc value).milliseconds = 0)
        ∧ (timestamp.fraction = none ↔ (utc value).milliseconds = 0) := by
  have hvalid := UtcTime.valid_utc value
  unfold readLocalDateTime
  rw [toList_toLocalDateTimeString h]
  split
  . next hparts =>
    rw [← List.append_assoc, ← List.append_nil (_ ++ fractionText _),
      readTimestamp_seconds hvalid (year_lt h) rfl]
    refine ⟨_, rfl, ?_, ?_, ?_⟩
    . exact Timestamp.components_of h.1 rfl (writtenFraction_getD _)
    . simp [Timestamp.of]
      omega
    . exact writtenFraction_eq_none
  . next hparts =>
    have hzero : (utc value).seconds = 0 ∧ (utc value).milliseconds = 0 := by omega
    rw [readTimestamp_minutes hvalid (year_lt h) rfl]
    refine ⟨_, rfl, ?_, ?_, ?_⟩
    . exact Timestamp.components_of h.1 hzero.1.symm hzero.2.symm
    . simp [Timestamp.of, hzero]
    . simp [Timestamp.of, hzero]

theorem readInstant_toInstantString (h : IsCommon value)
    : readInstant (toInstantString value) = some value := by
  have hvalid := UtcTime.valid_utc value
  unfold readInstant
  rw [toList_toInstantString h, readTimestamp_seconds hvalid (year_lt h) rfl]
  have hcomponents : (Timestamp.of (utc value) (some (utc value).seconds)
      (writtenFraction (utc value))).components = utc value :=
    Timestamp.components_of h.1 rfl (writtenFraction_getD _)
  simp only [Option.bind_eq_bind, Option.bind_some, hcomponents, ofUtc_utc]
  rfl

end Reads

section Order

variable {value value' : Int}

theorem minutesText_append_lt {x y : List Char} {t t' : UtcTime} (hvalid : t.Valid)
    (hvalid' : t'.Valid) (hyear : 0 ≤ t.year ∧ t.year ≤ 9999)
    (hyear' : 0 ≤ t'.year ∧ t'.year ≤ 9999) (hlt : t.Lt t')
    (hrest : t.seconds < t'.seconds ∨ t.seconds = t'.seconds ∧ t.milliseconds < t'.milliseconds →
      x < y)
    : minutesText t ++ x < minutesText t' ++ y := by
  obtain ⟨hmonth, hday, hhours, hminutes, -, -⟩ := hvalid
  obtain ⟨hmonth', hday', hhours', hminutes', -, -⟩ := hvalid'
  have hmark : ∀ {c : Char} {x y : List Char}, x < y → c :: x < c :: y :=
    fun h => List.cons_lt_cons_iff.mpr (.inr ⟨rfl, h⟩)
  simp only [minutesText, List.append_assoc, List.cons_append]
  apply digits_append_lt (by omega) (by omega)
  refine Or.imp (fun h => by omega) ?_ hlt
  rintro ⟨hyears, hlt⟩
  refine ⟨by rw [hyears], hmark (digits_append_lt (by omega) (by omega) ?_)⟩
  refine Or.imp_right ?_ hlt
  rintro ⟨hmonths, hlt⟩
  refine ⟨hmonths, hmark (digits_append_lt (by omega) (by omega) ?_)⟩
  refine Or.imp_right ?_ hlt
  rintro ⟨hdays, hlt⟩
  refine ⟨hdays, hmark (digits_append_lt (by omega) (by omega) ?_)⟩
  refine Or.imp_right ?_ hlt
  rintro ⟨hhour, hlt⟩
  refine ⟨hhour, hmark (digits_append_lt (by omega) (by omega) ?_)⟩
  exact Or.imp_right (fun h => ⟨h.1, hrest h.2⟩) hlt

theorem toLocalDateTimeString_lt (h : IsCommon value) (h' : IsCommon value') (hlt : value < value')
    : toLocalDateTimeString value < toLocalDateTimeString value' := by
  have hvalid := UtcTime.valid_utc value
  have hvalid' := UtcTime.valid_utc value'
  rw [String.lt_iff, toList_toLocalDateTimeString h, toList_toLocalDateTimeString h']
  apply minutesText_append_lt hvalid hvalid' h h' (UtcTime.lt_of_lt hlt)
  intro hrest
  rw [if_pos (show (utc value').seconds ≠ 0 ∨ (utc value').milliseconds ≠ 0 by omega)]
  split
  . rw [secondsText, secondsText, List.cons_append, List.cons_append, List.cons_lt_cons_iff]
    obtain ⟨-, -, -, -, hseconds, hms⟩ := hvalid
    obtain ⟨-, -, -, -, hseconds', hms'⟩ := hvalid'
    refine .inr ⟨rfl, digits_append_lt (by omega) (by omega) (Or.imp_right ?_ hrest)⟩
    rintro ⟨hsame, hless⟩
    refine ⟨hsame, ?_⟩
    rw [fractionText, fractionText, if_pos (show (utc value').milliseconds ≠ 0 by omega)]
    split
    . rw [List.cons_lt_cons_iff]
      exact .inr ⟨rfl, digits_lt (by omega) (by omega) hless⟩
    . exact List.nil_lt_cons _ _
  . exact List.nil_lt_cons _ _

theorem toLocalDateTimeString_lt_iff (h : IsCommon value) (h' : IsCommon value')
    : toLocalDateTimeString value < toLocalDateTimeString value' ↔ value < value' := by
  refine ⟨fun hlt => ?_, toLocalDateTimeString_lt h h'⟩
  rcases Int.lt_trichotomy value value' with hless | rfl | hgreater
  . exact hless
  . exact absurd hlt (String.lt_irrefl _)
  . exact absurd (toLocalDateTimeString_lt h' h hgreater) (String.lt_asymm hlt)

end Order

/--
For the years 0 to 9999, reading a text gives back the time that was written. The local encoding
omits zeros only, and is ordered as the times are.
-/
theorem encodings_lossless (value value' : Int) (h : IsCommon value) (h' : IsCommon value')
    : (∃ timestamp : Timestamp, readLocalDateTime (toLocalDateTimeString value) = some timestamp
        ∧ timestamp.components = utc value
        ∧ (timestamp.seconds = none ↔ (utc value).seconds = 0 ∧ (utc value).milliseconds = 0)
        ∧ (timestamp.fraction = none ↔ (utc value).milliseconds = 0))
      ∧ (toLocalDateTimeString value < toLocalDateTimeString value' ↔ value < value')
      ∧ readInstant (toInstantString value) = some value
      ∧ (toLocalDateTimeString value = toLocalDateTimeString value' ↔ value = value')
      ∧ (toInstantString value = toInstantString value' ↔ value = value') := by
  refine ⟨readLocalDateTime_spec h, toLocalDateTimeString_lt_iff h h',
    readInstant_toInstantString h, ⟨fun heq => ?_, congrArg _⟩, ⟨fun heq => ?_, congrArg _⟩⟩
  . obtain ⟨timestamp, hread, hcomponents, -⟩ := readLocalDateTime_spec h
    obtain ⟨timestamp', hread', hcomponents', -⟩ := readLocalDateTime_spec h'
    rw [heq, hread', Option.some.injEq] at hread
    subst hread
    rw [← ofUtc_utc value, ← hcomponents, hcomponents', ofUtc_utc]
  . have hread := readInstant_toInstantString h
    rw [heq, readInstant_toInstantString h'] at hread
    exact (Option.some.inj hread).symm

theorem encodings_lossless_half_second
    : (∃ timestamp : Timestamp, readLocalDateTime (toLocalDateTimeString 500) = some timestamp
        ∧ timestamp.components = utc 500
        ∧ (timestamp.seconds = none ↔ (utc 500).seconds = 0 ∧ (utc 500).milliseconds = 0)
        ∧ (timestamp.fraction = none ↔ (utc 500).milliseconds = 0))
      ∧ (toLocalDateTimeString 500 < toLocalDateTimeString 1000 ↔ (500 : Int) < 1000)
      ∧ readInstant (toInstantString 500) = some 500
      ∧ (toLocalDateTimeString 500 = toLocalDateTimeString 1000 ↔ (500 : Int) = 1000)
      ∧ (toInstantString 500 = toInstantString 1000 ↔ (500 : Int) = 1000) :=
  encodings_lossless 500 1000 ⟨by decide, by decide⟩ ⟨by decide, by decide⟩

end LocalDateTime
