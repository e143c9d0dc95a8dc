import CouponIssuance.Js.Date

/-!
This module contains decimal numbers of a fixed width: how they are read and how they are ordered.
-/

namespace Js

theorem lt_append_of_lt {a b : List Char} (x y : List Char) (hlength : a.length = b.length)
    (h : a < b)
    : a ++ x < b ++ y := by
  induction a generalizing b with
  | nil =>
    match b with
    | [] => exact absurd h (List.not_lt_nil [])
    | c :: b => simp at hlength
  | cons c a ih =>
    match b with
    | [] => simp at hlength
    | d :: b =>
      rw [List.cons_append, List.cons_append, List.cons_lt_cons_iff]
      rcases List.cons_lt_cons_iff.mp h with hlt | ⟨heq, hlt⟩
      . exact .inl hlt
      . exact .inr ⟨heq, ih (by simpa using hlength) hlt⟩

theorem digitChar_lt {m n : Nat} (hn : n < 10) (h : m < n)
    : m.digitChar < n.digitChar := by
  have hall : ∀ n < 10, ∀ m < n, m.digitChar < n.digitChar := by decide
  exact hall n hn m h

namespace Date

def digits : Nat → Nat → List Char
  | 0, _ => []
  | width + 1, n => digits width (n / 10) ++ [(n % 10).digitChar]

@[simp]
theorem length_digits (width n : Nat) : (digits width n).length = width := by
  induction width generalizing n with
  | zero => rfl
  | succ width ih => simp [digits, ih]

theorem digits_zero (width : Nat) : digits width 0 = List.replicate width '0' := by
  induction width with
  | zero => rfl
  | succ width ih => rw [digits, Nat.zero_div, ih, List.replicate_succ']; rfl

theorem toList_padStart {width n : Nat} (hwidth : 0 < width) (h : n < 10 ^ width)
    : (padStart width n).toList = digits width n := by
  unfold padStart
  rw [String.toList_ofList]
  induction width generalizing n with
  | zero => omega
  | succ width ih =>
    rw [digits]
    by_cases hsmall : n < 10
    . rw [Nat.toDigits_of_lt_base hsmall, Nat.div_eq_of_lt hsmall, digits_zero,
        Nat.mod_eq_of_lt hsmall]
      rfl
    . have hdiv : n / 10 < 10 ^ width := by
        rw [Nat.pow_succ] at h
        omega
      have hpos : 0 < width := by
        by_contra hzero
        rw [show width = 0 by omega] at hdiv
        omega
      rw [Nat.toDigits_of_base_le (by decide) (by omega), ← ih hpos hdiv]
      simp only [List.length_append, List.length_singleton, Nat.add_sub_add_right,
        List.append_assoc]

theorem digits_lt {width m n : Nat} (hm : m < 10 ^ width) (hn : n < 10 ^ width) (h : m < n)
    : digits width m < digits width n := by
  induction width generalizing m n with
  | zero => omega
  | succ width ih =>
    rw [Nat.pow_succ] at hm hn
    rw [digits, digits]
    by_cases hdiv : m / 10 = n / 10
    . rw [hdiv]
      apply List.append_left_lt
      rw [List.cons_lt_cons_iff]
      exact .inl (digitChar_lt (Nat.mod_lt _ (by decide)) (by omega))
    . apply lt_append_of_lt
      . simp
      . exact ih (by omega) (by omega) (by omega)

theorem digits_append_lt {width m n : Nat} {x y : List Char} (hm : m < 10 ^ width)
    (hn : n < 10 ^ width) (h : m < n ∨ m = n ∧ x < y)
    : digits width m ++ x < digits width n ++ y := by
  rcases h with hlt | ⟨rfl, hlt⟩
  . exact lt_append_of_lt _ _ (by simp) (digits_lt hm hn hlt)
  . exact List.append_left_lt hlt

theorem all_isDigit_digits (width n : Nat) : (digits width n).all Char.isDigit = true := by
  induction width generalizing n with
  | zero => rfl
  | succ width ih =>
    have hdigit : ∀ d < 10, d.digitChar.isDigit = true := by decide
    simp [digits, ih, hdigit (n % 10) (Nat.mod_lt _ (by decide))]

theorem ofDigitChars_digits {width n : Nat} (h : n < 10 ^ width)
    : Nat.ofDigitChars 10 (digits width n) 0 = n := by
  induction width generalizing n with
  | zero => simp [digits]; omega
  | succ width ih =>
    rw [Nat.pow_succ] at h
    rw [digits, Nat.ofDigitChars_append, ih (by omega),
      Nat.ofDigitChars_cons_digitChar_of_lt_ten (Nat.mod_lt _ (by decide)), Nat.ofDigitChars_nil]
    omega

def readNumber (width : Nat) (text : List Char) : Option (Nat × List Char) :=
  let front := text.take width
  if front.length = width ∧ front.all Char.isDigit = true then
    some (Nat.ofDigitChars 10 front 0, text.drop width)
  else
    none

theorem readNumber_digits {width n : Nat} (rest : List Char) (h : n < 10 ^ width)
    : readNumber width (digits width n ++ rest) = some (n, rest) := by
  have htake : (digits width n ++ rest).take width = digits width n :=
    List.take_left' (length_digits width n)
  have hdrop : (digits width n ++ rest).drop width = rest :=
    List.drop_left' (length_digits width n)
  simp [readNumber, htake, hdrop, all_isDigit_digits, ofDigitChars_digits h]

end Date
end Js
