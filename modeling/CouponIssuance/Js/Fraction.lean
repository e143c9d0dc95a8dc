import CouponIssuance.Js.Number

/-!
This module contains the floats with a fractional part. Each of them is kept as the decimal that
`String` writes for it, the shortest one that is read back as the same float.
-/

namespace Js

/--
The float nearest to `n / d` in units of `2 ^ -1074`, where `n / d` is below `2 ^ 53`.
-/
def units (n d : Nat) : Nat :=
  let bits := min 1074 (1126 - (n * 2 ^ 1074 / d).log2)
  roundHalfEven (n * 2 ^ bits) d * 2 ^ (1074 - bits)

/--
The float nearest to `m / 10 ^ j`, unless that is integral.
-/
def fractional (m j : Nat) : Option Nat :=
  if scaleRounded m (-j) = none then some (units m (10 ^ j)) else none

/--
The two decimals with `j` digits behind the point around the float `u`, the nearer one first, the
even one first on a tie.
-/
def decimalsAround (u j : Nat) : List Nat :=
  let lo := u * 10 ^ j / 2 ^ 1074
  let rest := u * 10 ^ j % 2 ^ 1074
  if 2 * rest < 2 ^ 1074 ∨ (2 * rest = 2 ^ 1074 ∧ lo % 2 = 0) then [lo, lo + 1] else [lo + 1, lo]

def shortestAt (u j : Nat) : Option Nat :=
  (decimalsAround u j).find? fun m => fractional m j == some u

/--
The decimal with the fewest digits behind the point that is read back as the float of `m / 10 ^ j`.
-/
def shortestFraction (m j : Nat) : Nat × Nat :=
  ((List.range' 1 j).findSome? fun k =>
    (shortestAt (units m (10 ^ j)) k).map fun s => (s, k)).getD (m, j)

/-- Is `m / 10 ^ j` the decimal that is written for a float with a fractional part? -/
def IsFraction (m j : Nat) : Prop :=
  (fractional m j).isSome = true ∧ shortestFraction m j = (m, j)

instance (m j : Nat) : Decidable (IsFraction m j) :=
  inferInstanceAs (Decidable (_ ∧ _))

theorem units_of_fractional {m j u : Nat} (h : fractional m j = some u) : units m (10 ^ j) = u := by
  unfold fractional at h
  split at h
  . exact Option.some.inj h
  . contradiction

theorem fractional_of_shortestAt {u j s : Nat} (h : shortestAt u j = some s)
    : fractional s j = some u :=
  beq_iff_eq.mp (List.find?_some (p := fun m => fractional m j == some u) h)

theorem range'_prefix {n k : Nat} {l r : List Nat} (h : List.range' 1 n = l ++ k :: r)
    : List.range' 1 k = l ++ [k] := by
  obtain ⟨i, _, hl, hr⟩ := List.range'_eq_append_iff.mp h
  have hk : k = 1 + i := by
    have := congrArg List.head? hr
    rw [List.head?_range'] at this
    split at this
    . contradiction
    . simpa using this
  rw [hl, hk, Nat.add_comm 1 i, List.range'_1_concat, Nat.add_comm 1 i]

theorem isFraction_shortestFraction {m j : Nat} (h : (fractional m j).isSome = true)
    : IsFraction (shortestFraction m j).1 (shortestFraction m j).2 := by
  cases hfind : (List.range' 1 j).findSome? fun k =>
      (shortestAt (units m (10 ^ j)) k).map fun s => (s, k) with
  | none =>
    have hkept : shortestFraction m j = (m, j) := by rw [shortestFraction, hfind]; rfl
    rw [hkept]
    exact ⟨h, hkept⟩
  | some r =>
    have hfound : shortestFraction m j = r := by rw [shortestFraction, hfind]; rfl
    obtain ⟨l, k, l', hrange, hk, hbefore⟩ := List.findSome?_eq_some_iff.mp hfind
    obtain ⟨s, hs, rfl⟩ := Option.map_eq_some_iff.mp hk
    have hfractional := fractional_of_shortestAt hs
    rw [hfound]
    refine ⟨by rw [hfractional]; rfl, ?_⟩
    unfold shortestFraction
    rw [units_of_fractional hfractional, range'_prefix hrange, List.findSome?_append,
      List.findSome?_eq_none_iff.mpr hbefore]
    simp [hs]

theorem fractional_of_scaleRounded {m : Nat} {e : Int} (h : scaleRounded m e = none)
    : (fractional m (-e).toNat).isSome = true := by
  have he : -((-e).toNat : Int) = e := by
    cases e with
    | ofNat e => contradiction
    | negSucc e => omega
  unfold fractional
  rw [he, if_pos h]
  rfl

theorem IsFraction.pos {m j : Nat} (h : IsFraction m j) : 0 < j := by
  rcases Nat.eq_zero_or_pos j with rfl | hpos
  . obtain ⟨hsome, _⟩ := h
    simp [fractional, scaleRounded, scale] at hsome
  . exact hpos

theorem IsFraction.ne_zero {m j : Nat} (h : IsFraction m j) : m ≠ 0 := by
  rintro rfl
  obtain ⟨hsome, _⟩ := h
  unfold fractional at hsome
  split at hsome
  . next hnone =>
    have hscale : scale 0 (-(j : Int)) = some 0 := by
      unfold scale
      split <;> simp
    rw [scaleRounded, hscale] at hnone
    contradiction
  . contradiction

end Js

namespace JsNumber

def renderFraction (m j : Nat) : List Char :=
  let digits := Nat.toDigits 10 m
  if j < digits.length then
    digits.take (digits.length - j) ++ '.' :: digits.drop (digits.length - j)
  else if j - digits.length < 6 then
    '0' :: '.' :: (List.replicate (j - digits.length) '0' ++ digits)
  else
    let exponent := 'e' :: '-' :: Nat.toDigits 10 (j - digits.length + 1)
    match digits with
    | [] => exponent
    | [d] => d :: exponent
    | d :: rest => d :: '.' :: (rest ++ exponent)

example : renderFraction 14 1 = "1.4".toList := by decide

end JsNumber
