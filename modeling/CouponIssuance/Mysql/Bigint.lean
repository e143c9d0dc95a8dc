import CouponIssuance.Js.Json

/-!
This module contains how MySQL reads a text where a `BIGINT` is expected: what a comparison makes of
it, and what an `INSERT` in strict mode stores. A stored number is known by the float that `Number`
makes of it.
-/

namespace Mysql

open Js

/-- The number at the head of a text, and what stands behind it -/
structure Literal where
  negative : Bool
  mantissa : Nat
  exponent : Int
  rest : List Char

def isSpace (c : Char) : Bool :=
  c == ' ' || (9 ≤ c.toNat && c.toNat ≤ 13)

def readUnsigned (negative : Bool) (text : List Char) : Option Literal :=
  let whole := text.takeWhile Char.isDigit
  let rest := text.dropWhile Char.isDigit
  let decimals :=
    match rest with
    | '.' :: text => text.takeWhile Char.isDigit
    | _ => []
  let rest :=
    match rest with
    | '.' :: text => text.dropWhile Char.isDigit
    | _ => rest
  if (whole ++ decimals).isEmpty then
    none
  else
    -- an `e` without digits is no exponent
    let exponent := (Json.readExponent rest).getD (0, rest)
    some {
      negative
      mantissa := Nat.ofDigitChars 10 (whole ++ decimals) 0
      exponent := exponent.1 - decimals.length
      rest := exponent.2
    }

def readLiteral (text : List Char) : Option Literal :=
  let signed := splitSign (text.dropWhile isSpace)
  readUnsigned signed.1 signed.2

/-- `m * 10 ^ e`, rounded half up -/
def roundScaled (m : Nat) : Int → Nat
  | .ofNat e => m * 10 ^ e
  | .negSucc e => (2 * m + 10 ^ (e + 1)) / (2 * 10 ^ (e + 1))

namespace Literal

def round (l : Literal) : Int :=
  applySign l.negative (roundScaled l.mantissa l.exponent)

def isClean (l : Literal) : Bool :=
  l.rest.all isSpace

end Literal

/--
`column = 'text'`: both sides are compared as floats, and a text without a number is zero.
-/
def equalsBigint (column : JsNumber) (text : String) : Bool :=
  match readLiteral text.toList with
  | none => column == JsNumber.ofInt 0
  | some l =>
    match scaleRounded l.mantissa l.exponent with
    | none => false
    | some n => column == JsNumber.ofInt (applySign l.negative n)

/--
Does an `INSERT` take the text? It refuses a text that is no number, or goes on behind it, and a
number that is out of range.
-/
def fitsBigint (text : String) : Bool :=
  match readLiteral text.toList with
  | none => false
  | some l => l.isClean && l.round < 2 ^ 63 && -2 ^ 63 ≤ l.round

/-- What an `INSERT` that takes the text stores -/
def storeBigint (text : String) : JsNumber :=
  match readLiteral text.toList with
  | none => JsNumber.ofInt 0
  | some l => JsNumber.ofInt l.round

section Chars

def isNumeral (c : Char) : Bool :=
  c.isDigit || isSpace c || ['+', '-', '.', 'e', 'E'].contains c

variable {c : Char} {text : List Char}

theorem isNumeral_of_isDigit (h : c.isDigit = true) : isNumeral c = true := by
  simp [isNumeral, h]

theorem isNumeral_of_isSpace (h : isSpace c = true) : isNumeral c = true := by
  simp [isNumeral, h]

theorem mem_dropWhile {p : Char → Bool} (hp : ∀ c, p c = true → isNumeral c = true)
    (h : c ∈ text)
    : isNumeral c = true ∨ c ∈ text.dropWhile p := by
  rw [← List.takeWhile_append_dropWhile (p := p) (l := text)] at h
  rcases List.mem_append.mp h with h | h
  . exact Or.inl (hp c (List.mem_takeWhile_imp h))
  . exact Or.inr h

theorem mem_splitSign (h : c ∈ text) : isNumeral c = true ∨ c ∈ (splitSign text).2 := by
  unfold splitSign
  split
  . rcases List.mem_cons.mp h with rfl | h
    . exact Or.inl rfl
    . exact Or.inr h
  . rcases List.mem_cons.mp h with rfl | h
    . exact Or.inl rfl
    . exact Or.inr h
  . exact Or.inr h

theorem mem_readExponent (h : c ∈ text)
    : isNumeral c = true ∨ c ∈ ((Json.readExponent text).getD (0, text)).2 := by
  unfold Json.readExponent
  split
  . contradiction
  . next d text =>
    split
    . next hd =>
      dsimp only
      split
      . exact Or.inr h
      . rcases List.mem_cons.mp h with rfl | h
        . left
          rcases hd with rfl | rfl <;> rfl
        . rcases mem_splitSign h with h | h
          . exact Or.inl h
          . exact mem_dropWhile (fun _ => isNumeral_of_isDigit) h
    . exact Or.inr h

theorem mem_rest_of_exponent {digits : List Char} {value : Literal}
    {l : Literal} (hread : (if digits.isEmpty = true then none else some value) = some l)
    (hrest : value.rest = ((Json.readExponent text).getD (0, text)).2) (h : c ∈ text)
    : isNumeral c = true ∨ c ∈ l.rest := by
  split at hread
  . contradiction
  . rw [← Option.some.inj hread, hrest]
    exact mem_readExponent h

theorem mem_readUnsigned {negative : Bool} {l : Literal} (hread : readUnsigned negative text = some l)
    (h : c ∈ text)
    : isNumeral c = true ∨ c ∈ l.rest := by
  unfold readUnsigned at hread
  dsimp only at hread
  rcases mem_dropWhile (fun _ => isNumeral_of_isDigit) h with h | h
  . exact Or.inl h
  split at hread
  . next fraction heq =>
    rw [heq] at h
    rcases List.mem_cons.mp h with rfl | h
    . exact Or.inl rfl
    rcases mem_dropWhile (fun _ => isNumeral_of_isDigit) h with h | h
    . exact Or.inl h
    . exact mem_rest_of_exponent hread rfl h
  . exact mem_rest_of_exponent hread rfl h

theorem isNumeral_of_fitsBigint {text : String} (hfits : fitsBigint text = true)
    (h : c ∈ text.toList)
    : isNumeral c = true := by
  unfold fitsBigint readLiteral at hfits
  dsimp only at hfits
  split at hfits
  . contradiction
  . next l hread =>
    simp only [Bool.and_eq_true, Literal.isClean, List.all_eq_true] at hfits
    rcases mem_dropWhile (fun _ => isNumeral_of_isSpace) h with h | h
    . exact h
    rcases mem_splitSign h with h | h
    . exact h
    rcases mem_readUnsigned hread h with h | h
    . exact h
    . exact isNumeral_of_isSpace (hfits.1.1 c h)

end Chars

/--
Where `Number` reads the whole text as an exponent, nothing is left behind it.
-/
theorem readExponent_of_js {text : List Char} {e : Int} (h : Js.readExponent text = some e)
    : Json.readExponent text = some (e, []) := by
  unfold Js.readExponent at h
  split at h
  . rw [← Option.some.inj h]
    rfl
  . next c text =>
    split at h
    . next hc =>
      obtain ⟨hc, hlong⟩ := hc
      simp only [isLong, isDigits, Bool.and_eq_true, Bool.not_eq_true'] at hlong
      have hsplit := takeWhile_digits (r := []) hlong.2 (by simp)
      rw [List.append_nil] at hsplit
      unfold Json.readExponent
      simp only [if_pos hc, hsplit.1, hsplit.2, hlong.1, Bool.false_eq_true, if_false]
      rw [Option.some.inj h]
    . contradiction

theorem literal_of_exponent (negative : Bool) {digits text : List Char} {m k : Nat} {e : Int}
    {decimals : List Char}
    (h : (if digits.isEmpty = true then none
      else (Js.readExponent text).map fun e => (m, e - (decimals.length : Int))) = some (k, e))
    : (if digits.isEmpty = true then none
        else some {
          negative
          mantissa := m
          exponent := ((Json.readExponent text).getD (0, text)).1 - decimals.length
          rest := ((Json.readExponent text).getD (0, text)).2
        }) = some (Literal.mk negative k e []) := by
  split at h
  . contradiction
  . next hne =>
    obtain ⟨x, hx, heq⟩ := Option.map_eq_some_iff.mp h
    rw [if_neg hne, readExponent_of_js hx]
    simp only [Option.getD_some, ← (Prod.mk.inj heq).1, ← (Prod.mk.inj heq).2]

theorem readUnsigned_of_readDecimal (negative : Bool) {text : List Char} {m : Nat} {e : Int}
    (h : readDecimal text = some (m, e))
    : readUnsigned negative text = some ⟨negative, m, e, []⟩ := by
  unfold readDecimal at h
  exact literal_of_exponent negative h

theorem readLiteral_render {n : Int} (h : IsDouble n)
    : ∃ m z : Nat, readLiteral (JsNumber.int n h).render = some ⟨decide (n < 0), m, z, []⟩
        ∧ m * 10 ^ z = JsNumber.shortest n.natAbs := by
  obtain ⟨m, z, hread, hvalue⟩ := JsNumber.readDecimal_renderNat n.natAbs
  obtain ⟨d, rest, hbody, hd⟩ := JsNumber.renderNat_head n.natAbs
  have hspace : ∀ {c : Char}, isSpace c = false → ∀ text, (c :: text).dropWhile isSpace = c :: text :=
    fun hc text => by rw [List.dropWhile_cons, hc]; rfl
  refine ⟨m, z, ?_, hvalue⟩
  rw [JsNumber.render_int]
  unfold readLiteral
  split
  . next hn =>
    rw [hspace rfl]
    simp only [splitSign, hn, decide_true]
    exact readUnsigned_of_readDecimal true hread
  . next hn =>
    have hdigit : isSpace d = false := by
      have hrange : 48 ≤ d.toNat ∧ d.toNat ≤ 57 := Char.isDigit_iff_toNat.mp hd
      have hne : d ≠ ' ' := by
        rintro rfl
        contradiction
      unfold isSpace
      simp only [Bool.or_eq_false_iff, beq_eq_false_iff_ne, Bool.and_eq_false_iff,
        decide_eq_false_iff_not]
      exact ⟨hne, Or.inr (by omega)⟩
    rw [hbody, hspace hdigit, JsNumber.splitSign_of_head hd, ← hbody]
    simp only [hn, decide_false]
    exact readUnsigned_of_readDecimal false hread

theorem ofInt_shortest {n : Int} (h : IsDouble n)
    : JsNumber.ofInt (applySign (decide (n < 0)) (JsNumber.shortest n.natAbs)) = .int n h := by
  have hread := JsNumber.ofText_renderNat n.natAbs (decide (n < 0))
  have hrender := JsNumber.ofText_render (.int n h)
  rw [JsNumber.render_int] at hrender
  simp only [decide_eq_true_eq] at hread
  rw [← hread, hrender]

theorem equalsBigint_toString (column : JsNumber) {n : Int} (h : IsDouble n)
    : equalsBigint column (toString (JsNumber.int n h)) = (column == .int n h) := by
  obtain ⟨m, z, hread, hvalue⟩ := readLiteral_render h
  unfold equalsBigint
  rw [JsNumber.toList_toString, hread]
  have hscale : scaleRounded m z = some (JsNumber.shortest n.natAbs) := by
    rw [scaleRounded, ← hvalue]
    rfl
  dsimp only
  rw [hscale]
  dsimp only
  rw [ofInt_shortest h]

theorem storeBigint_toString {n : Int} (h : IsDouble n)
    : storeBigint (toString (JsNumber.int n h)) = .int n h := by
  obtain ⟨m, z, hread, hvalue⟩ := readLiteral_render h
  unfold storeBigint
  rw [JsNumber.toList_toString, hread]
  change JsNumber.ofInt (applySign (decide (n < 0)) ((m * 10 ^ z : Nat) : Int)) = _
  rw [hvalue, ofInt_shortest h]

theorem fitsBigint_toString {n : Int} (h : IsDouble n)
    : fitsBigint (toString (JsNumber.int n h))
        = (decide (applySign (decide (n < 0)) (JsNumber.shortest n.natAbs) < 2 ^ 63)
          && decide (-2 ^ 63 ≤ applySign (decide (n < 0)) (JsNumber.shortest n.natAbs))) := by
  obtain ⟨m, z, hread, hvalue⟩ := readLiteral_render h
  unfold fitsBigint
  rw [JsNumber.toList_toString, hread, ← hvalue]
  rfl

end Mysql
