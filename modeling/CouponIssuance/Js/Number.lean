import Mathlib.Algebra.Group.Nat.Defs
import Mathlib.Algebra.Ring.Int.Defs
import Mathlib.Data.List.TakeWhile

/-!
This module contains the integral numbers of JavaScript: 64-bit floats without a fractional part,
the two infinities and `NaN`, together with `String(n)` and `Number(s)` on them. The two zeros are
one number, and a text with a fractional value is read as `NaN`.
-/

namespace Js

def roundHalfEven (n d : Nat) : Nat :=
  if 2 * (n % d) < d then
    n / d
  else if d < 2 * (n % d) then
    n / d + 1
  else
    n / d + n / d % 2

def excessBits (n : Nat) : Nat :=
  n.log2 - 52

/--
`n` rounded to 53 binary digits.
-/
def roundNat (n : Nat) : Nat :=
  roundHalfEven n (2 ^ excessBits n) * 2 ^ excessBits n

theorem roundHalfEven_of_dvd {n d : Nat} (hd : 0 < d) (h : d ∣ n) : roundHalfEven n d = n / d := by
  unfold roundHalfEven
  rw [Nat.mod_eq_zero_of_dvd h]
  simp [hd]

theorem roundNat_of_dvd {n : Nat} (h : 2 ^ excessBits n ∣ n) : roundNat n = n := by
  unfold roundNat
  rw [roundHalfEven_of_dvd (Nat.two_pow_pos _) h]
  exact Nat.div_mul_cancel h

theorem excessBits_of_lt {n : Nat} (h : n < 2 ^ 53) : excessBits n = 0 := by
  unfold excessBits
  by_cases hn : n = 0
  . simp [hn]
  . have := (Nat.log2_lt hn).mpr h
    omega

theorem roundNat_of_le {n : Nat} (h : n ≤ 2 ^ 53) : roundNat n = n := by
  by_cases hlt : n < 2 ^ 53
  . apply roundNat_of_dvd
    simp [excessBits_of_lt hlt]
  . have : n = 2 ^ 53 := by omega
    subst this
    decide

theorem excessBits_eq {n e : Nat} (h1 : 2 ^ (52 + e) ≤ n) (h2 : n < 2 ^ (53 + e))
    : excessBits n = e := by
  have hn : n ≠ 0 := by
    have := Nat.two_pow_pos (52 + e)
    omega
  have hlog : n.log2 = 52 + e := (Nat.log2_eq_iff hn).mpr ⟨h1, by
    rw [show 52 + e + 1 = 53 + e by omega]
    exact h2⟩
  simp only [excessBits, hlog]
  omega

theorem roundHalfEven_bounds (n d : Nat)
    : n / d ≤ roundHalfEven n d ∧ roundHalfEven n d ≤ n / d + 1 := by
  unfold roundHalfEven
  split
  . omega
  . split <;> omega

theorem roundNat_mul_pow {m e : Nat} (h1 : 2 ^ 52 ≤ m) (h2 : m ≤ 2 ^ 53)
    : roundNat (m * 2 ^ e) = m * 2 ^ e := by
  apply roundNat_of_dvd
  by_cases hlt : m < 2 ^ 53
  . rw [@excessBits_eq _ e]
    . exact Nat.dvd_mul_left _ _
    . rw [Nat.pow_add]
      exact Nat.mul_le_mul_right _ h1
    . rw [Nat.pow_add]
      exact Nat.mul_lt_mul_of_pos_right hlt (Nat.two_pow_pos e)
  . have hm : m = 2 ^ 52 * 2 := by omega
    rw [hm, Nat.mul_assoc, Nat.mul_comm 2, ← Nat.pow_succ, @excessBits_eq _ (e + 1)]
    . exact Nat.dvd_mul_left _ _
    . rw [Nat.pow_add]
    . rw [← Nat.pow_add]
      exact Nat.pow_lt_pow_right (by decide) (by omega)

theorem roundNat_roundNat (n : Nat) : roundNat (roundNat n) = roundNat n := by
  by_cases hlt : n < 2 ^ 53
  . rw [roundNat_of_le (Nat.le_of_lt hlt), roundNat_of_le (Nat.le_of_lt hlt)]
  . have hn : n ≠ 0 := by omega
    have hlog : 53 ≤ n.log2 := (Nat.le_log2 hn).mpr (by omega)
    have hle : 2 ^ n.log2 ≤ n := Nat.log2_self_le hn
    have hgt : n < 2 ^ (n.log2 + 1) := Nat.lt_log2_self
    have hbounds := roundHalfEven_bounds n (2 ^ excessBits n)
    have hlo : 2 ^ 52 ≤ n / 2 ^ excessBits n := by
      rw [Nat.le_div_iff_mul_le (Nat.two_pow_pos _), ← Nat.pow_add]
      rw [show 52 + excessBits n = n.log2 by unfold excessBits; omega]
      exact hle
    have hhi : n / 2 ^ excessBits n < 2 ^ 53 := by
      rw [Nat.div_lt_iff_lt_mul (Nat.two_pow_pos _), ← Nat.pow_add]
      rw [show 53 + excessBits n = n.log2 + 1 by unfold excessBits; omega]
      exact hgt
    conv => lhs; arg 1; unfold roundNat
    rw [roundNat_mul_pow (by omega) (by omega)]
    rfl

theorem roundNat_eq_of_lt {n m : Nat} (hm : m < 2 ^ 53) (h : roundNat n = m) : n = m := by
  by_cases hn : n < 2 ^ 53
  . rw [← h, roundNat_of_le (Nat.le_of_lt hn)]
  . have hn0 : n ≠ 0 := by omega
    have hlog : 53 ≤ n.log2 := (Nat.le_log2 hn0).mpr (by omega)
    have hfloor : 2 ^ 52 ≤ n / 2 ^ excessBits n := by
      rw [Nat.le_div_iff_mul_le (Nat.two_pow_pos _), ← Nat.pow_add]
      rw [show 52 + excessBits n = n.log2 by unfold excessBits; omega]
      exact Nat.log2_self_le hn0
    have hpow : 2 ^ 1 ≤ 2 ^ excessBits n :=
      Nat.pow_le_pow_right (by decide) (by unfold excessBits; omega)
    have hge : 2 ^ 52 * 2 ^ 1 ≤ roundNat n :=
      Nat.mul_le_mul (Nat.le_trans hfloor (roundHalfEven_bounds n _).1) hpow
    omega

def IsDouble (n : Int) : Prop :=
  roundNat n.natAbs = n.natAbs ∧ n.natAbs.log2 < 1024

instance (n : Int) : Decidable (IsDouble n) :=
  inferInstanceAs (Decidable (_ ∧ _))

end Js

inductive JsNumber where
  | int (n : Int) (h : Js.IsDouble n)
  | posInf
  | negInf
  | nan
deriving DecidableEq

namespace JsNumber

open Js

def ofInt (n : Int) : JsNumber :=
  if h : (roundNat n.natAbs).log2 < 1024 then
    if n < 0 then
      .int (-roundNat n.natAbs) ⟨by simp [roundNat_roundNat], by simpa using h⟩
    else
      .int (roundNat n.natAbs) ⟨by simp [roundNat_roundNat], by simpa using h⟩
  else if n < 0 then
    .negInf
  else
    .posInf

def isInteger : JsNumber → Bool
  | int _ _ => true
  | _ => false

/--
`a < b`, which is false as soon as one of them is `NaN`.
-/
def lt : JsNumber → JsNumber → Bool
  | nan, _ => false
  | _, nan => false
  | _, negInf => false
  | negInf, _ => true
  | posInf, _ => false
  | _, posInf => true
  | int a _, int b _ => decide (a < b)

theorem exists_int {n : JsNumber} (h : n.isInteger = true) : ∃ k hk, n = .int k hk := by
  cases n with
  | int k hk => exact ⟨k, hk, rfl⟩
  | _ => contradiction

theorem isDouble_of_natAbs_le {n : Int} (h : n.natAbs ≤ 2 ^ 53) : IsDouble n := by
  refine ⟨roundNat_of_le h, ?_⟩
  by_cases h0 : n.natAbs = 0
  . simp [h0]
  . have : n.natAbs.log2 < 54 := (Nat.log2_lt h0).mpr (by omega)
    omega

theorem ofInt_of_isDouble {n : Int} (h : IsDouble n) : ofInt n = .int n h := by
  unfold ofInt
  simp only [h.1]
  rw [dif_pos h.2]
  split <;> simp only [int.injEq] <;> omega

theorem ofInt_of_natAbs_le {n : Int} (h : n.natAbs ≤ 2 ^ 53)
    : ofInt n = .int n (isDouble_of_natAbs_le h) :=
  ofInt_of_isDouble (isDouble_of_natAbs_le h)

/--
Of the two multiples of `10 ^ j` around `x`, the nearer one first, the even one first on a tie.
-/
def candidates (x j : Nat) : Nat × Nat :=
  let lo := x / 10 ^ j * 10 ^ j
  let hi := (x / 10 ^ j + 1) * 10 ^ j
  if x - lo < hi - x ∨ (x - lo = hi - x ∧ x / 10 ^ j % 2 = 0) then (lo, hi) else (hi, lo)

/--
The decimal with the fewest significant digits that is read back as the float `x`.
-/
def shortest (x : Nat) : Nat :=
  go (Nat.toDigits 10 x).length
where
  go : Nat → Nat
    | 0 => x
    | j + 1 =>
      if roundNat (candidates x j).1 = x then
        (candidates x j).1
      else if roundNat (candidates x j).2 = x then
        (candidates x j).2
      else
        go j

theorem roundNat_shortest {x : Nat} (h : roundNat x = x) : roundNat (shortest x) = x := by
  unfold shortest
  generalize (Nat.toDigits 10 x).length = j
  induction j with
  | zero => exact h
  | succ j ih =>
    unfold shortest.go
    split
    . assumption
    . split
      . assumption
      . exact ih

def significant (digits : List Char) : List Char :=
  (digits.reverse.dropWhile (· == '0')).reverse

/--
`d.ddde+x`, the point only before further digits.
-/
def exponential (digits : List Char) : List Char :=
  let exponent := '+' :: Nat.toDigits 10 (digits.length - 1)
  match significant digits with
  | [] => digits
  | [d] => d :: 'e' :: exponent
  | d :: rest => d :: '.' :: rest ++ 'e' :: exponent

def renderNat (x : Nat) : List Char :=
  let digits := Nat.toDigits 10 (shortest x)
  if digits.length ≤ 21 then digits else exponential digits

/--
`String(n)`
-/
def render : JsNumber → List Char
  | int n _ => if n < 0 then '-' :: renderNat n.natAbs else renderNat n.natAbs
  | posInf => "Infinity".toList
  | negInf => "-Infinity".toList
  | nan => "NaN".toList

instance : ToString JsNumber where
  toString n := String.ofList n.render

theorem render_int (n : Int) (h : IsDouble n)
    : (int n h).render = if n < 0 then '-' :: renderNat n.natAbs else renderNat n.natAbs := by
  rfl

end JsNumber

namespace Js

/--
`/^\d+$/`
-/
def isDigits (text : List Char) : Bool :=
  !text.isEmpty && text.all Char.isDigit

def splitSign : List Char → Bool × List Char
  | '-' :: text => (true, text)
  | '+' :: text => (false, text)
  | text => (false, text)

def applySign (sign : Bool) (n : Int) : Int :=
  if sign then -n else n

/--
`/^[+-]?\d+$/`
-/
def isLong (text : List Char) : Bool :=
  isDigits (splitSign text).2

def readExponent : List Char → Option Int
  | [] => some 0
  | c :: text =>
    if (c = 'e' ∨ c = 'E') ∧ isLong text then
      some (applySign (splitSign text).1 (Nat.ofDigitChars 10 (splitSign text).2 0))
    else
      none

/--
An unsigned decimal literal as a natural number and the power of ten to multiply it with.
-/
def readDecimal (text : List Char) : Option (Nat × Int) :=
  let whole := text.takeWhile Char.isDigit
  let rest := text.dropWhile Char.isDigit
  let fraction :=
    match rest with
    | '.' :: text => text.takeWhile Char.isDigit
    | _ => []
  let rest :=
    match rest with
    | '.' :: text => text.dropWhile Char.isDigit
    | _ => rest
  if (whole ++ fraction).isEmpty then
    none
  else
    (readExponent rest).map fun e =>
      (Nat.ofDigitChars 10 (whole ++ fraction) 0, e - fraction.length)

def scale (m : Nat) : Int → Option Nat
  | .ofNat e => some (m * 10 ^ e)
  | .negSucc e => if 10 ^ (e + 1) ∣ m then some (m / 10 ^ (e + 1)) else none

/--
The float nearest to `n / d` when that is integral, ties to even. Below `2 ^ 53` a float has as many
binary digits behind the point as its 53 leave room for, 1074 at most.
-/
def nearestIntegral (n d : Nat) : Option Nat :=
  if 2 ^ 53 ≤ n / d then
    let unit := 2 ^ excessBits (n / d)
    some (roundHalfEven n (d * unit) * unit)
  else
    let bits := min 1074 (1126 - (n * 2 ^ 1074 / d).log2)
    let mantissa := roundHalfEven (n * 2 ^ bits) d
    if 2 ^ bits ∣ mantissa then some (mantissa / 2 ^ bits) else none

/--
The float nearest to `m * 10 ^ e` when that is integral.
-/
def scaleRounded (m : Nat) (e : Int) : Option Nat :=
  match scale m e with
  | some n => some n
  | none => nearestIntegral m (10 ^ (-e).toNat)

end Js

namespace JsNumber

open Js

/--
`Number(s)`
-/
def ofText (text : List Char) : JsNumber :=
  let sign := (splitSign text).1
  let body := (splitSign text).2
  if body = "Infinity".toList then
    if sign then negInf else posInf
  else
    match readDecimal body with
    | none => nan
    | some (m, e) =>
      match scale m e with
      | none => nan
      | some n => ofInt (applySign sign n)

def ofString (s : String) : JsNumber :=
  ofText s.toList

end JsNumber

namespace Js

theorem takeWhile_digits {ds r : List Char} (hd : ds.all Char.isDigit = true)
    (hr : ∀ c, r.head? = some c → c.isDigit = false)
    : (ds ++ r).takeWhile Char.isDigit = ds ∧ (ds ++ r).dropWhile Char.isDigit = r := by
  have hall : ∀ c ∈ ds, c.isDigit = true := by simpa using hd
  rw [List.takeWhile_append_of_pos hall, List.dropWhile_append_of_pos hall]
  cases r with
  | nil => simp
  | cons c r => simp [hr c rfl]

theorem all_isDigit_toDigits (n : Nat) : (Nat.toDigits 10 n).all Char.isDigit = true := by
  simp only [List.all_eq_true]
  intro c hc
  exact Nat.isDigit_of_mem_toDigits (by decide) (by decide) hc

theorem isDigits_toDigits (n : Nat) : isDigits (Nat.toDigits 10 n) = true := by
  simp [isDigits, Nat.toDigits_ne_nil, all_isDigit_toDigits]

theorem splitSign_of_isDigits {ds : List Char} (h : isDigits ds = true)
    : splitSign ds = (false, ds) := by
  unfold splitSign
  split
  . contradiction
  . contradiction
  . rfl

theorem readDecimal_digits {ds : List Char} (h : isDigits ds = true)
    : readDecimal ds = some (Nat.ofDigitChars 10 ds 0, 0) := by
  simp only [isDigits, Bool.and_eq_true, Bool.not_eq_true', List.isEmpty_eq_false_iff] at h
  have hsplit := takeWhile_digits (r := []) h.2 (by simp)
  simp only [List.append_nil] at hsplit
  unfold readDecimal
  simp [hsplit.1, hsplit.2, h.1, readExponent]

theorem readDecimal_exponential {d : Char} {rest : List Char} (hd : d.isDigit = true)
    (hrest : rest.all Char.isDigit = true) (x : Nat)
    : readDecimal ((if rest = [] then [d] else d :: '.' :: rest) ++ 'e' :: '+' :: Nat.toDigits 10 x)
        = some (Nat.ofDigitChars 10 (d :: rest) 0, (x : Int) - rest.length) := by
  have hexp : readExponent ('e' :: '+' :: Nat.toDigits 10 x) = some (x : Int) := by
    simp [readExponent, isLong, splitSign, isDigits_toDigits, applySign]
  have hd' : [d].all Char.isDigit = true := by simp [hd]
  split
  . next hnil =>
    subst hnil
    have hsplit := takeWhile_digits (r := 'e' :: '+' :: Nat.toDigits 10 x) hd' (by simp)
    unfold readDecimal
    rw [hsplit.1, hsplit.2]
    simp [hexp]
  . next hnil =>
    have hsplit := takeWhile_digits (r := '.' :: rest ++ 'e' :: '+' :: Nat.toDigits 10 x) hd'
      (by simp)
    have hfraction := takeWhile_digits (r := 'e' :: '+' :: Nat.toDigits 10 x) hrest (by simp)
    have happend : d :: '.' :: rest ++ 'e' :: '+' :: Nat.toDigits 10 x
        = [d] ++ ('.' :: rest ++ 'e' :: '+' :: Nat.toDigits 10 x) := rfl
    unfold readDecimal
    rw [happend, hsplit.1, hsplit.2]
    simp only [List.cons_append, hfraction.1, hfraction.2, hexp]
    simp

end Js

namespace JsNumber

open Js

theorem significant_append (ds : List Char)
    : significant ds ++ List.replicate (ds.length - (significant ds).length) '0' = ds := by
  have hsplit := List.takeWhile_append_dropWhile (p := (· == '0')) (l := ds.reverse)
  have hzeros : ds.reverse.takeWhile (· == '0')
      = List.replicate (ds.reverse.takeWhile (· == '0')).length '0' := by
    rw [List.eq_replicate_iff]
    refine ⟨rfl, ?_⟩
    intro c hc
    simpa using List.mem_takeWhile_imp hc
  have hlen : ds.length - (significant ds).length = (ds.reverse.takeWhile (· == '0')).length := by
    have := congrArg List.length hsplit
    simp only [List.length_append, List.length_reverse] at this
    simp only [significant, List.length_reverse]
    omega
  rw [hlen]
  have := congrArg List.reverse hsplit
  rw [List.reverse_append, List.reverse_reverse] at this
  conv => rhs; rw [← this]
  rw [significant]
  congr 1
  conv => rhs; rw [hzeros]
  simp

theorem significant_ne_nil {n : Nat} (h : n ≠ 0) : significant (Nat.toDigits 10 n) ≠ [] := by
  intro hnil
  have hzeros := significant_append (Nat.toDigits 10 n)
  rw [hnil, List.nil_append] at hzeros
  have hvalue := congrArg (Nat.ofDigitChars 10 · 0) hzeros
  simp only [Nat.ofDigitChars_replicate_zero, Nat.ofDigitChars_ten_toDigits] at hvalue
  omega

theorem exponential_form {n : Nat} (h : n ≠ 0)
    : ∃ d rest x,
        exponential (Nat.toDigits 10 n)
            = (if rest = [] then [d] else d :: '.' :: rest) ++ 'e' :: '+' :: Nat.toDigits 10 x
          ∧ d.isDigit = true
          ∧ rest.all Char.isDigit = true
          ∧ rest.length ≤ x
          ∧ Nat.ofDigitChars 10 (d :: rest) 0 * 10 ^ (x - rest.length) = n := by
  have hsplit := significant_append (Nat.toDigits 10 n)
  have hvalue := congrArg (Nat.ofDigitChars 10 · 0) hsplit
  have hlen := congrArg List.length hsplit
  have hdigits := all_isDigit_toDigits n
  rw [← hsplit] at hdigits
  simp only [Nat.ofDigitChars_append, Nat.ofDigitChars_replicate_zero,
    Nat.ofDigitChars_ten_toDigits] at hvalue
  simp only [List.length_append, List.length_replicate] at hlen
  cases hsig : significant (Nat.toDigits 10 n) with
  | nil => exact absurd hsig (significant_ne_nil h)
  | cons d rest =>
    rw [hsig] at hdigits hvalue hlen
    simp only [List.cons_append, List.all_cons, List.all_append, Bool.and_eq_true] at hdigits
    simp only [List.length_cons] at hlen hvalue
    refine ⟨d, rest, (Nat.toDigits 10 n).length - 1, ?_, hdigits.1, hdigits.2.1, by omega, ?_⟩
    . unfold exponential
      rw [hsig]
      cases rest <;> simp
    . rw [Nat.mul_comm, Nat.sub_sub, Nat.add_comm 1]
      exact hvalue

theorem readDecimal_renderNat_exponential {n : Nat} (h : n ≠ 0)
    : ∃ m z : Nat, readDecimal (exponential (Nat.toDigits 10 n)) = some (m, (z : Int))
        ∧ m * 10 ^ z = n := by
  obtain ⟨d, rest, x, hform, hd, hrest, hle, hvalue⟩ := exponential_form h
  refine ⟨Nat.ofDigitChars 10 (d :: rest) 0, x - rest.length, ?_, hvalue⟩
  rw [hform, readDecimal_exponential hd hrest]
  congr 2
  omega

theorem readDecimal_renderNat (x : Nat)
    : ∃ m z : Nat, readDecimal (renderNat x) = some (m, (z : Int)) ∧ m * 10 ^ z = shortest x := by
  unfold renderNat
  dsimp
  split
  . refine ⟨shortest x, 0, ?_, by simp⟩
    rw [readDecimal_digits (isDigits_toDigits _), Nat.ofDigitChars_ten_toDigits]
    rfl
  . next hlong =>
    apply readDecimal_renderNat_exponential
    intro hzero
    simp [hzero] at hlong

theorem exponential_head {n : Nat} (h : n ≠ 0)
    : ∃ d rest, exponential (Nat.toDigits 10 n) = d :: rest ∧ d.isDigit = true := by
  obtain ⟨d, rest, x, hform, hd, _⟩ := exponential_form h
  rw [hform]
  by_cases hrest : rest = []
  . exact ⟨d, _, by rw [if_pos hrest]; rfl, hd⟩
  . exact ⟨d, _, by rw [if_neg hrest]; rfl, hd⟩

theorem renderNat_head (x : Nat) : ∃ d rest, renderNat x = d :: rest ∧ d.isDigit = true := by
  unfold renderNat
  dsimp
  split
  . have hdigits := all_isDigit_toDigits (shortest x)
    cases hds : Nat.toDigits 10 (shortest x) with
    | nil => exact absurd hds Nat.toDigits_ne_nil
    | cons d rest =>
      rw [hds] at hdigits
      simp only [List.all_cons, Bool.and_eq_true] at hdigits
      exact ⟨d, rest, rfl, hdigits.1⟩
  . next hlong =>
    apply exponential_head
    intro hzero
    simp [hzero] at hlong

theorem splitSign_of_head {d : Char} {rest : List Char} (h : d.isDigit = true)
    : splitSign (d :: rest) = (false, d :: rest) := by
  unfold splitSign
  split
  . next heq =>
    cases heq
    contradiction
  . next heq =>
    cases heq
    contradiction
  . rfl

theorem ofText_renderNat (x : Nat) (sign : Bool)
    : ofText (if sign then '-' :: renderNat x else renderNat x)
        = ofInt (applySign sign (shortest x)) := by
  obtain ⟨d, rest, hbody, hd⟩ := renderNat_head x
  obtain ⟨m, z, hread, hvalue⟩ := readDecimal_renderNat x
  have hsplit : splitSign (if sign then '-' :: renderNat x else renderNat x)
      = (sign, renderNat x) := by
    cases sign
    . simp only [hbody]
      exact splitSign_of_head hd
    . rfl
  have hne : renderNat x ≠ "Infinity".toList := by
    rw [hbody]
    intro heq
    injection heq with hI _
    subst hI
    contradiction
  unfold ofText
  simp only [hsplit, if_neg hne, hread]
  rw [← hvalue]
  rfl

theorem ofInt_eq {v n : Int} (h : IsDouble n) (hround : roundNat v.natAbs = n.natAbs)
    (hsign : v < 0 ↔ n < 0)
    : ofInt v = .int n h := by
  unfold ofInt
  simp only [hround]
  rw [dif_pos h.2]
  split <;> simp only [int.injEq] <;> omega

theorem ofText_render (n : JsNumber) : ofText n.render = n := by
  cases n with
  | posInf => decide
  | negInf => decide
  | nan => decide
  | int n h =>
    have hround := roundNat_shortest h.1
    have hread := ofText_renderNat n.natAbs (decide (n < 0))
    simp only [decide_eq_true_eq] at hread
    rw [render_int, hread]
    by_cases hn : n < 0
    . have hpos : 0 < shortest n.natAbs := by
        by_contra hzero
        rw [Nat.eq_zero_of_not_pos hzero] at hround
        have : roundNat 0 = 0 := rfl
        omega
      apply ofInt_eq h
      . simpa [applySign, hn] using hround
      . simp [applySign, hn]
        omega
    . apply ofInt_eq h
      . simpa [applySign, hn] using hround
      . simp [applySign, hn]

theorem render_injective {a b : JsNumber} (h : a.render = b.render) : a = b := by
  rw [← ofText_render a, ← ofText_render b, h]

theorem toList_toString (n : JsNumber) : (toString n).toList = n.render :=
  String.toList_ofList

theorem ofString_toString (n : JsNumber) : ofString (toString n) = n := by
  rw [ofString, toList_toString, ofText_render]

theorem toString_injective {a b : JsNumber} (h : toString a = toString b) : a = b := by
  rw [← ofString_toString a, ← ofString_toString b, h]

theorem ofText_of_isLong {text : List Char} (h : isLong text = true)
    : ofText text
        = ofInt (applySign (splitSign text).1 (Nat.ofDigitChars 10 (splitSign text).2 0)) := by
  have hne : (splitSign text).2 ≠ "Infinity".toList := by
    intro heq
    rw [isLong, heq] at h
    contradiction
  unfold ofText
  simp only [if_neg hne, readDecimal_digits h, scale, Nat.pow_zero, Nat.mul_one]

def isDecimal : JsNumber → Bool
  | int n _ => decide ((Nat.toDigits 10 (shortest n.natAbs)).length ≤ 21)
  | _ => false

theorem isDigits_exponential {n : Nat} (h : n ≠ 0)
    : isDigits (exponential (Nat.toDigits 10 n)) = false := by
  obtain ⟨d, rest, x, hform, _⟩ := exponential_form h
  rw [hform]
  simp [isDigits]

theorem isDigits_renderNat (x : Nat)
    : isDigits (renderNat x) = decide ((Nat.toDigits 10 (shortest x)).length ≤ 21) := by
  unfold renderNat
  dsimp
  split
  . next hshort => simp only [isDigits_toDigits, hshort, decide_true]
  . next hlong =>
    rw [isDigits_exponential, decide_eq_false hlong]
    intro hzero
    simp [hzero] at hlong

theorem isLong_render (n : JsNumber) : isLong n.render = n.isDecimal := by
  cases n with
  | posInf => decide
  | negInf => decide
  | nan => decide
  | int n h =>
    rw [isDecimal, ← isDigits_renderNat]
    obtain ⟨d, rest, hbody, hd⟩ := renderNat_head n.natAbs
    rw [render_int]
    split
    . rfl
    . rw [isLong, hbody, splitSign_of_head hd]

theorem colon_notMem_of_all_isDigit {ds : List Char} (h : ds.all Char.isDigit = true)
    : ':' ∉ ds := by
  intro hmem
  have := List.all_eq_true.mp h ':' hmem
  contradiction

theorem colon_notMem_exponential {n : Nat} (h : n ≠ 0)
    : ':' ∉ exponential (Nat.toDigits 10 n) := by
  obtain ⟨d, rest, x, hform, hd, hrest, _⟩ := exponential_form h
  have hfirst : ':' ∉ [d] := colon_notMem_of_all_isDigit (by simp [hd])
  have hrest := colon_notMem_of_all_isDigit hrest
  have hexponent := colon_notMem_of_all_isDigit (all_isDigit_toDigits x)
  rw [hform]
  split <;> simp_all

theorem colon_notMem_renderNat (x : Nat) : ':' ∉ renderNat x := by
  unfold renderNat
  dsimp
  split
  . exact colon_notMem_of_all_isDigit (all_isDigit_toDigits _)
  . next hlong =>
    apply colon_notMem_exponential
    intro hzero
    simp [hzero] at hlong

theorem colon_notMem_render (n : JsNumber) : ':' ∉ n.render := by
  cases n with
  | posInf => decide
  | negInf => decide
  | nan => decide
  | int n h =>
    rw [render_int]
    split
    . simp [colon_notMem_renderNat]
    . exact colon_notMem_renderNat _

end JsNumber
