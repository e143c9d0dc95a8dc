import CouponIssuance.Js.Date

/-!
This module contains the inverse of `Date.utc` and the order of its components.
-/

namespace Js
namespace Date

def yearStart (year : Int) : Int :=
  365 * year + year / 4 - year / 100 + year / 400

theorem yearStart_le_of_le {year year' : Int} (h : year ≤ year')
    : yearStart year ≤ yearStart year' := by
  unfold yearStart
  omega

theorem yearStart_succ_le (year : Int) : yearStart (year + 1) ≤ yearStart year + 366 := by
  unfold yearStart
  omega

theorem yearStart_era (era year : Int)
    : yearStart (era * 400 + year) = era * 146097 + yearStart year := by
  unfold yearStart
  omega

def commonDays (dayOfEra : Nat) : Nat :=
  dayOfEra - dayOfEra / 1460 + dayOfEra / 36524 - dayOfEra / 146096

theorem commonDays_mono {n m : Nat} (h : n ≤ m) : commonDays n ≤ commonDays m := by
  induction h with
  | refl => exact Nat.le_refl _
  | step h ih =>
    refine Nat.le_trans ih ?_
    unfold commonDays
    omega

theorem commonDays_year
    : ∀ year : Nat, year < 400 → 365 * year ≤ commonDays (yearStart year).toNat
        ∧ commonDays ((yearStart (year + 1 : Nat)).toNat - 1) < 365 * (year + 1) := by
  decide +kernel

theorem yearOfEra_spec {dayOfEra : Nat} (h : dayOfEra < 146097)
    : yearStart (commonDays dayOfEra / 365 : Nat) ≤ dayOfEra
        ∧ dayOfEra < yearStart (commonDays dayOfEra / 365 + 1 : Nat)
        ∧ commonDays dayOfEra / 365 < 400 := by
  have hlast : commonDays dayOfEra ≤ commonDays 146096 := commonDays_mono (by omega)
  have hlt : commonDays dayOfEra / 365 < 400 := by
    rw [show commonDays 146096 = 145999 from rfl] at hlast
    omega
  generalize hyear : commonDays dayOfEra / 365 = year at hlt
  refine ⟨?_, ?_, hlt⟩
  . by_contra hbefore
    match year with
    | 0 => simp [yearStart] at hbefore
    | year + 1 =>
      have hend := (commonDays_year year (by omega)).2
      have hmono : commonDays dayOfEra ≤ commonDays ((yearStart (year + 1 : Nat)).toNat - 1) :=
        commonDays_mono (by omega)
      omega
  . by_contra hafter
    have hnext : year + 1 < 400 := by
      by_contra hnext
      rw [show year = 399 by omega] at hafter
      simp [yearStart] at hafter
      omega
    have hstart := (commonDays_year (year + 1) hnext).1
    have hmono : commonDays (yearStart (year + 1 : Nat)).toNat ≤ commonDays dayOfEra :=
      commonDays_mono (by omega)
    omega

def ofMarch (year : Int) (dayOfYear : Nat) : Int × Nat × Nat :=
  let marchMonth := (5 * dayOfYear + 2) / 153
  let month := if marchMonth < 10 then marchMonth + 3 else marchMonth - 9
  (year + if month ≤ 2 then 1 else 0, month, dayOfYear - (153 * marchMonth + 2) / 5 + 1)

def dayOf (year : Int) (month day : Nat) : Int :=
  let marchYear := if month ≤ 2 then year - 1 else year
  let marchMonth := if month ≤ 2 then month + 9 else month - 3
  yearStart marchYear + ((153 * marchMonth + 2) / 5 + day - 1 : Nat) - 719468

theorem civil_spec (day : Int)
    : ∃ (year : Int) (dayOfYear : Nat), civil day = ofMarch year dayOfYear
        ∧ yearStart year + dayOfYear = day + 719468 ∧ day + 719468 < yearStart (year + 1)
        ∧ dayOfYear < 366 := by
  generalize hshifted : day + 719468 = shifted
  have hera := Int.emod_add_mul_ediv shifted 146097
  have hlt := Int.emod_lt_of_pos shifted (show (0 : Int) < 146097 by decide)
  have hpos := Int.emod_nonneg shifted (show (146097 : Int) ≠ 0 by decide)
  generalize hrest : shifted % 146097 = rest at hera hlt hpos
  obtain ⟨dayOfEra, rfl⟩ := Int.eq_ofNat_of_zero_le hpos
  have hspec := yearOfEra_spec (show dayOfEra < 146097 by omega)
  generalize hyear : commonDays dayOfEra / 365 = year at hspec
  obtain ⟨hstart, hend, hyears⟩ := hspec
  have hera' := yearStart_era (shifted / 146097) year
  have hera'' := yearStart_era (shifted / 146097) (year + 1)
  have hlong := yearStart_succ_le year
  have hnat : 365 * year + year / 4 - year / 100 ≤ dayOfEra
      ∧ yearStart year = (365 * year + year / 4 - year / 100 : Nat) := by
    unfold yearStart at hstart ⊢
    omega
  refine ⟨year + shifted / 146097 * 400, dayOfEra - (365 * year + year / 4 - year / 100),
    ?_, ?_, ?_, ?_⟩
  . simp only [civil, ofMarch, hshifted, hrest, Int.toNat_natCast]
    simp only [commonDays] at hyear
    simp only [hyear]
  . rw [Int.add_comm (year : Int)]
    omega
  . rw [Int.add_comm (year : Int), Int.add_assoc]
    push_cast at hend
    omega
  . push_cast at hend
    omega

theorem dayOf_ofMarch {year : Int} {dayOfYear : Nat} (h : dayOfYear < 366)
    : dayOf (ofMarch year dayOfYear).1 (ofMarch year dayOfYear).2.1 (ofMarch year dayOfYear).2.2
        = yearStart year + dayOfYear - 719468 := by
  simp only [ofMarch]
  generalize hmonth : (5 * dayOfYear + 2) / 153 = marchMonth
  have hmonths : marchMonth < 12 := by omega
  have hday : (153 * marchMonth + 2) / 5 + (dayOfYear - (153 * marchMonth + 2) / 5 + 1) - 1
      = dayOfYear := by
    omega
  unfold dayOf
  by_cases hnext : marchMonth < 10
  . have hsame : ¬(marchMonth + 3 ≤ 2) := by omega
    simp only [hnext, hsame, ↓reduceIte, Int.add_zero, Nat.add_sub_cancel, hday]
  . have hjanuary : marchMonth - 9 ≤ 2 := by omega
    have hback : marchMonth - 9 + 9 = marchMonth := by omega
    simp only [hnext, hjanuary, ↓reduceIte, hback, hday, Int.add_sub_cancel]

theorem dayOf_civil (day : Int)
    : dayOf (civil day).1 (civil day).2.1 (civil day).2.2 = day := by
  obtain ⟨year, dayOfYear, hcivil, hday, -, hlt⟩ := civil_spec day
  rw [hcivil, dayOf_ofMarch hlt]
  omega

theorem civil_month_day (day : Int)
    : 1 ≤ (civil day).2.1 ∧ (civil day).2.1 ≤ 12 ∧ 1 ≤ (civil day).2.2 ∧ (civil day).2.2 ≤ 31 := by
  obtain ⟨year, dayOfYear, hcivil, -, -, hlt⟩ := civil_spec day
  rw [hcivil]
  simp only [ofMarch]
  refine ⟨?_, ?_, ?_, ?_⟩
  . split <;> omega
  . split <;> omega
  . omega
  . omega

theorem civil_lt {day day' : Int} (h : day < day')
    : (civil day).1 < (civil day').1
        ∨ (civil day).1 = (civil day').1
            ∧ ((civil day).2.1 < (civil day').2.1
                ∨ (civil day).2.1 = (civil day').2.1 ∧ (civil day).2.2 < (civil day').2.2) := by
  obtain ⟨year, dayOfYear, hcivil, hday, hend, hlt⟩ := civil_spec day
  obtain ⟨year', dayOfYear', hcivil', hday', hend', hlt'⟩ := civil_spec day'
  have hyears : year ≤ year' := by
    by_contra hbefore
    have hstart := yearStart_le_of_le (show year' + 1 ≤ year by omega)
    omega
  rw [hcivil, hcivil']
  simp only [ofMarch]
  by_cases hsame : year = year'
  . subst hsame
    have hdays : dayOfYear < dayOfYear' := by omega
    split <;> split <;> split <;> split <;> omega
  . split <;> split <;> split <;> split <;> omega

/--
`Date.UTC` of components that are those of a time value, with the year as it is.
-/
def ofUtc (t : UtcTime) : Int :=
  dayOf t.year t.month t.day * msPerDay
    + (((t.hours * 60 + t.minutes) * 60 + t.seconds) * 1000 + t.milliseconds : Nat)

theorem ofUtc_utc (time : Int) : ofUtc (utc time) = time := by
  have hday := dayOf_civil (time / msPerDay)
  unfold ofUtc
  simp only [utc, hday]
  unfold msPerDay
  omega

end Date

attribute [ext] UtcTime

namespace UtcTime

structure Valid (t : UtcTime) : Prop where
  month : 1 ≤ t.month ∧ t.month ≤ 12
  day : 1 ≤ t.day ∧ t.day ≤ 31
  hours : t.hours < 24
  minutes : t.minutes < 60
  seconds : t.seconds < 60
  milliseconds : t.milliseconds < 1000

theorem valid_utc (time : Int) : (Date.utc time).Valid := by
  obtain ⟨hmonth, hmonth', hday, hday'⟩ := Date.civil_month_day (time / Date.msPerDay)
  have hms := Int.emod_lt_of_pos time (show 0 < Date.msPerDay by decide)
  unfold Date.msPerDay at hms
  exact {
    month := ⟨hmonth, hmonth'⟩
    day := ⟨hday, hday'⟩
    hours := by simp only [Date.utc, Date.msPerDay]; omega
    minutes := Nat.mod_lt _ (by decide)
    seconds := Nat.mod_lt _ (by decide)
    milliseconds := Nat.mod_lt _ (by decide)
  }

def ClockLt (a b : UtcTime) : Prop :=
  a.hours < b.hours ∨ a.hours = b.hours
    ∧ (a.minutes < b.minutes ∨ a.minutes = b.minutes
      ∧ (a.seconds < b.seconds ∨ a.seconds = b.seconds ∧ a.milliseconds < b.milliseconds))

def Lt (a b : UtcTime) : Prop :=
  a.year < b.year ∨ a.year = b.year
    ∧ (a.month < b.month ∨ a.month = b.month
      ∧ (a.day < b.day ∨ a.day = b.day ∧ a.ClockLt b))

theorem clockLt_of_lt {time time' : Int} (hday : time / Date.msPerDay = time' / Date.msPerDay)
    (h : time < time')
    : (Date.utc time).ClockLt (Date.utc time') := by
  simp only [ClockLt, Date.utc]
  unfold Date.msPerDay at hday ⊢
  have hms : (time % 86400000).toNat < (time' % 86400000).toNat := by omega
  omega

theorem lt_of_lt {time time' : Int} (h : time < time')
    : (Date.utc time).Lt (Date.utc time') := by
  by_cases hday : time / Date.msPerDay = time' / Date.msPerDay
  . refine .inr ⟨?_, .inr ⟨?_, .inr ⟨?_, clockLt_of_lt hday h⟩⟩⟩
    . simp only [Date.utc, hday]
    . simp only [Date.utc, hday]
    . simp only [Date.utc, hday]
  . have hlt : time / Date.msPerDay < time' / Date.msPerDay := by
      have hle := Int.ediv_le_ediv (show 0 < Date.msPerDay by decide) (Int.le_of_lt h)
      omega
    rcases Date.civil_lt hlt with hyear | ⟨hyear, hmonth | ⟨hmonth, hdate⟩⟩
    . exact .inl hyear
    . exact .inr ⟨hyear, .inl hmonth⟩
    . exact .inr ⟨hyear, .inr ⟨hmonth, .inl hdate⟩⟩

end UtcTime
end Js
