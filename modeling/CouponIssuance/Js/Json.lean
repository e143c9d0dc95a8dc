import CouponIssuance.Js.Fraction

/-!
This module contains `JSON.parse`, `JSON.stringify` of flat objects, and how the numbers and the
texts that are written are read.
-/

namespace Js

/-- A JSON value. The digits of a number with a fractional part are those that `String` writes. -/
inductive Json where
  | null
  | bool (b : Bool)
  | num (n : JsNumber)
  | fraction (negative : Bool) (mantissa digits : Nat) (h : IsFraction mantissa digits)
  | str (s : String)
  | arr (items : List Json)
  | obj (fields : List (String × Json))

namespace Json

/--
`p[name]`, where the last one of several fields with the same name counts.
-/
def get? (name : String) : Json → Option Json
  | obj fields => (fields.reverse.find? fun field => field.1 == name).map (·.2)
  | _ => none

inductive Scalar where
  | null
  | num (n : JsNumber)
  | str (s : String)

/--
What `JSON.parse` gives back for a scalar: numbers that are not finite have become `null`.
-/
def Scalar.toJson : Scalar → Json
  | null => .null
  | num (.int n h) => .num (.int n h)
  | num _ => .null
  | str s => .str s

def hexDigit (n : Nat) : Char :=
  if n < 10 then Char.ofNat (n + 48) else Char.ofNat (n + 87)

def escapeChar (c : Char) : List Char :=
  if c = '"' then ['\\', '"']
  else if c = '\\' then ['\\', '\\']
  else if c.toNat = 8 then ['\\', 'b']
  else if c.toNat = 12 then ['\\', 'f']
  else if c = '\n' then ['\\', 'n']
  else if c = '\r' then ['\\', 'r']
  else if c = '\t' then ['\\', 't']
  else if c.toNat < 32 then ['\\', 'u', '0', '0', hexDigit (c.toNat / 16), hexDigit (c.toNat % 16)]
  else [c]

def writeString (s : String) : List Char :=
  '"' :: s.toList.flatMap escapeChar ++ ['"']

def Scalar.write : Scalar → List Char
  | null => "null".toList
  | num (.int n h) => (JsNumber.int n h).render
  | num _ => "null".toList
  | str s => writeString s

def writeField (field : String × Scalar) : List Char :=
  writeString field.1 ++ ':' :: field.2.write

/--
`JSON.stringify` of an object whose fields are scalars.
-/
def stringify (fields : List (String × Scalar)) : String :=
  String.ofList ('{' :: [','].intercalate (fields.map writeField) ++ ['}'])

def skipSpace (text : List Char) : List Char :=
  text.dropWhile fun c => c = ' ' ∨ c = '\t' ∨ c = '\n' ∨ c = '\r'

def hexValue (c : Char) : Option Nat :=
  if c.isDigit then some (c.toNat - 48)
  else if 'a' ≤ c ∧ c ≤ 'f' then some (c.toNat - 87)
  else if 'A' ≤ c ∧ c ≤ 'F' then some (c.toNat - 55)
  else none

def unescape : Char → Option Nat
  | '"' => some 34
  | '\\' => some 92
  | '/' => some 47
  | 'b' => some 8
  | 'f' => some 12
  | 'n' => some 10
  | 'r' => some 13
  | 't' => some 9
  | _ => none

def hexPoint (a b c d : Char) : Option Nat := do
  return 4096 * (← hexValue a) + 256 * (← hexValue b) + 16 * (← hexValue c) + (← hexValue d)

def pushPoint (point : Nat) (r : List Nat × List Char) : List Nat × List Char :=
  (point :: r.1, r.2)

def readCodePoints : List Char → Option (List Nat × List Char)
  | [] => none
  | c :: text =>
    if c = '"' then
      some ([], text)
    else if c = '\\' then
      match text with
      | [] => none
      | e :: text =>
        if e = 'u' then
          match text with
          | a :: b :: c :: d :: text =>
            (hexPoint a b c d).bind fun point => (readCodePoints text).map (pushPoint point)
          | _ => none
        else
          (unescape e).bind fun point => (readCodePoints text).map (pushPoint point)
    else if c.toNat < 32 then
      none
    else
      (readCodePoints text).map (pushPoint c.toNat)

/--
Two halves of a surrogate pair are one character. A half alone, which is no character of a Lean
string, becomes the replacement character.
-/
def joinSurrogates : List Nat → List Char
  | [] => []
  | [point] => [character point]
  | high :: low :: points =>
    if 0xd800 ≤ high ∧ high < 0xdc00 ∧ 0xdc00 ≤ low ∧ low < 0xe000 then
      Char.ofNat (0x10000 + (high - 0xd800) * 1024 + (low - 0xdc00)) :: joinSurrogates points
    else
      character high :: joinSurrogates (low :: points)
where
  character (point : Nat) : Char :=
    if 0xd800 ≤ point ∧ point < 0xe000 then Char.ofNat 0xfffd else Char.ofNat point

def readString (text : List Char) : Option (String × List Char) :=
  (readCodePoints text).map fun (points, rest) => (String.ofList (joinSurrogates points), rest)

def readFraction : List Char → Option (List Char × List Char)
  | '.' :: text =>
    let digits := text.takeWhile Char.isDigit
    if digits.isEmpty then none else some (digits, text.dropWhile Char.isDigit)
  | text => some ([], text)

def readExponent : List Char → Option (Int × List Char)
  | [] => some (0, [])
  | c :: text =>
    if c = 'e' ∨ c = 'E' then
      let (sign, body) := splitSign text
      let digits := body.takeWhile Char.isDigit
      if digits.isEmpty then
        none
      else
        some (applySign sign (Nat.ofDigitChars 10 digits 0), body.dropWhile Char.isDigit)
    else
      some (0, c :: text)

/-- The float nearest to `mantissa * 10 ^ exponent` -/
def ofDecimal (negative : Bool) (mantissa : Nat) (exponent : Int) : Json :=
  match h : scaleRounded mantissa exponent with
  | some n => .num (JsNumber.ofInt (applySign negative n))
  | none =>
    let digits := (-exponent).toNat
    .fraction negative (shortestFraction mantissa digits).1 (shortestFraction mantissa digits).2
      (isFraction_shortestFraction (fractional_of_scaleRounded h))

def readUnsigned (negative : Bool) (text : List Char) : Option (Json × List Char) := do
  let whole := text.takeWhile Char.isDigit
  guard (whole.length = 1 ∨ (1 < whole.length ∧ whole.head? ≠ some '0'))
  let (decimals, text) ← readFraction (text.dropWhile Char.isDigit)
  let (exponent, text) ← readExponent text
  return (ofDecimal negative (Nat.ofDigitChars 10 (whole ++ decimals) 0)
    (exponent - decimals.length), text)

def readNumber : List Char → Option (Json × List Char)
  | '-' :: text => readUnsigned true text
  | text => readUnsigned false text

mutual

/--
One value and the text behind it. The first argument bounds the nesting.
-/
def readValue : Nat → List Char → Option (Json × List Char)
  | 0, _ => none
  | fuel + 1, text =>
    match skipSpace text with
    | 'n' :: 'u' :: 'l' :: 'l' :: text => some (.null, text)
    | 't' :: 'r' :: 'u' :: 'e' :: text => some (.bool true, text)
    | 'f' :: 'a' :: 'l' :: 's' :: 'e' :: text => some (.bool false, text)
    | '"' :: text => (readString text).map fun (s, text) => (.str s, text)
    | '[' :: text =>
      match skipSpace text with
      | ']' :: text => some (.arr [], text)
      | text => (readItems fuel text).map fun (items, text) => (.arr items, text)
    | '{' :: text =>
      match skipSpace text with
      | '}' :: text => some (.obj [], text)
      | text => (readFields fuel text).map fun (fields, text) => (.obj fields, text)
    | text => readNumber text

def readItems : Nat → List Char → Option (List Json × List Char)
  | 0, _ => none
  | fuel + 1, text => do
    let (item, text) ← readValue fuel text
    match skipSpace text with
    | ',' :: text =>
      let (items, text) ← readItems fuel text
      return (item :: items, text)
    | ']' :: text => return ([item], text)
    | _ => none

def readFields : Nat → List Char → Option (List (String × Json) × List Char)
  | 0, _ => none
  | fuel + 1, text => do
    let (name, text) ← readName (skipSpace text)
    let (value, text) ← readValue fuel text
    match skipSpace text with
    | ',' :: text =>
      let (fields, text) ← readFields fuel text
      return ((name, value) :: fields, text)
    | '}' :: text => return ([(name, value)], text)
    | _ => none
where
  readName : List Char → Option (String × List Char)
    | '"' :: text => do
      let (name, text) ← readString text
      match skipSpace text with
      | ':' :: text => return (name, text)
      | _ => none
    | _ => none

end

/--
`JSON.parse`, where `none` is the `SyntaxError`
-/
def parse (text : String) : Option Json := do
  let (value, rest) ← readValue (text.toList.length + 1) text.toList
  guard (skipSpace rest).isEmpty
  return value

theorem hexValue_hexDigit : ∀ n < 16, hexValue (hexDigit n) = some n := by
  decide

inductive Delimited : List Char → Prop where
  | nil : Delimited []
  | comma (rest : List Char) : Delimited (',' :: rest)
  | bracket (rest : List Char) : Delimited (']' :: rest)
  | brace (rest : List Char) : Delimited ('}' :: rest)

theorem readCodePoints_quote (text : List Char)
    : readCodePoints ('"' :: text) = some ([], text) := by
  rw [readCodePoints.eq_def]
  simp

theorem readCodePoints_escape {e : Char} {point : Nat} (he : e ≠ 'u')
    (hpoint : unescape e = some point) (text : List Char)
    : readCodePoints ('\\' :: e :: text) = (readCodePoints text).map (pushPoint point) := by
  rw [readCodePoints.eq_def]
  simp [he, hpoint]

theorem readCodePoints_hex {a b c d : Char} {point : Nat} (hpoint : hexPoint a b c d = some point)
    (text : List Char)
    : readCodePoints ('\\' :: 'u' :: a :: b :: c :: d :: text)
        = (readCodePoints text).map (pushPoint point) := by
  rw [readCodePoints.eq_def]
  simp [hpoint]

theorem readCodePoints_plain {c : Char} (hquote : c ≠ '"') (hbackslash : c ≠ '\\')
    (hcontrol : ¬c.toNat < 32) (text : List Char)
    : readCodePoints (c :: text) = (readCodePoints text).map (pushPoint c.toNat) := by
  rw [readCodePoints.eq_def]
  simp [hquote, hbackslash, hcontrol]

theorem readCodePoints_escapeChar (c : Char) (text : List Char)
    : readCodePoints (escapeChar c ++ text) = (readCodePoints text).map (pushPoint c.toNat) := by
  unfold escapeChar
  split
  . next h =>
    subst h
    exact readCodePoints_escape (by decide) rfl text
  split
  . next h =>
    subst h
    exact readCodePoints_escape (by decide) rfl text
  split
  . next h =>
    rw [h]
    exact readCodePoints_escape (by decide) rfl text
  split
  . next h =>
    rw [h]
    exact readCodePoints_escape (by decide) rfl text
  split
  . next h =>
    subst h
    exact readCodePoints_escape (by decide) rfl text
  split
  . next h =>
    subst h
    exact readCodePoints_escape (by decide) rfl text
  split
  . next h =>
    subst h
    exact readCodePoints_escape (by decide) rfl text
  split
  . next h =>
    apply readCodePoints_hex
    have hhigh := hexValue_hexDigit (c.toNat / 16) (by omega)
    have hlow := hexValue_hexDigit (c.toNat % 16) (by omega)
    simp only [hexPoint, hhigh, hlow, show hexValue '0' = some 0 by decide]
    simp
    omega
  . next hquote hbackslash _ _ _ _ _ hcontrol =>
    exact readCodePoints_plain hquote hbackslash hcontrol text

theorem readCodePoints_flatMap (s text : List Char)
    : readCodePoints (s.flatMap escapeChar ++ '"' :: text) = some (s.map Char.toNat, text) := by
  induction s with
  | nil => exact readCodePoints_quote text
  | cons c s ih =>
    rw [List.flatMap_cons, List.append_assoc, readCodePoints_escapeChar, ih]
    rfl

theorem not_surrogate (c : Char) : ¬(0xd800 ≤ c.toNat ∧ c.toNat < 0xe000) := by
  have hvalid : c.val.toNat < 0xd800 ∨ (0xdfff < c.val.toNat ∧ c.val.toNat < 0x110000) := c.valid
  simp only [Char.toNat_val] at hvalid
  omega

theorem character_toNat (c : Char) : joinSurrogates.character c.toNat = c := by
  unfold joinSurrogates.character
  rw [if_neg (not_surrogate c), Char.ofNat_toNat]

theorem joinSurrogates_map (s : List Char) : joinSurrogates (s.map Char.toNat) = s := by
  induction s with
  | nil => rfl
  | cons c s ih =>
    cases s with
    | nil => simp [joinSurrogates, character_toNat]
    | cons d s =>
      have hpair : ¬(0xd800 ≤ c.toNat ∧ c.toNat < 0xdc00 ∧ 0xdc00 ≤ d.toNat ∧ d.toNat < 0xe000) := by
        have := not_surrogate c
        omega
      simp only [List.map_cons] at ih ⊢
      rw [joinSurrogates, if_neg hpair, ih, character_toNat]

theorem readString_writeString (s : String) (text : List Char)
    : readString (s.toList.flatMap escapeChar ++ '"' :: text) = some (s, text) := by
  rw [readString, readCodePoints_flatMap]
  simp [joinSurrogates_map]

theorem head_toDigits (n : Nat) (h : n ≠ 0) : (Nat.toDigits 10 n).head? ≠ some '0' := by
  induction n using Nat.strong_induction_on with
  | _ n ih =>
    by_cases hlt : n < 10
    . rw [Nat.toDigits_of_lt_base hlt]
      have hall : ∀ n < 10, n ≠ 0 → [Nat.digitChar n].head? ≠ some '0' := by decide
      exact hall n hlt h
    . rw [Nat.toDigits_of_base_le (by decide) (by omega)]
      rw [List.head?_append, Option.or_of_isSome (by simp [Nat.toDigits_ne_nil])]
      exact ih (n / 10) (by omega) (by omega)

theorem whole_toDigits (n : Nat)
    : (Nat.toDigits 10 n).length = 1
        ∨ (1 < (Nat.toDigits 10 n).length ∧ (Nat.toDigits 10 n).head? ≠ some '0') := by
  by_cases h : n = 0
  . subst h
    decide
  . have := @Nat.length_toDigits_pos 10 n
    by_cases hlen : (Nat.toDigits 10 n).length = 1
    . exact Or.inl hlen
    . exact Or.inr ⟨by omega, head_toDigits n h⟩

theorem Delimited.head {text : List Char} (h : Delimited text)
    : ∀ c, text.head? = some c → c.isDigit = false := by
  cases h <;> simp

theorem readExponent_of_delimited {text : List Char} (h : Delimited text)
    : readExponent text = some (0, text) := by
  cases h <;> rfl

theorem guard_of {p : Prop} [Decidable p] (h : p) : (guard p : Option Unit) = some () :=
  if_pos h

theorem ofDecimal_of_scale {negative : Bool} {mantissa n : Nat} {exponent : Int}
    (h : scale mantissa exponent = some n)
    : ofDecimal negative mantissa exponent = .num (JsNumber.ofInt (applySign negative n)) := by
  have hscaled : scaleRounded mantissa exponent = some n := by
    rw [scaleRounded, h]
  unfold ofDecimal
  split
  . next n' heq =>
    rw [hscaled, Option.some.injEq] at heq
    rw [heq]
  . next heq =>
    rw [hscaled] at heq
    contradiction

theorem readUnsigned_whole (negative : Bool) {whole text rest : List Char} {e : Int}
    (hdigits : whole.all Char.isDigit = true)
    (hwhole : whole.length = 1 ∨ (1 < whole.length ∧ whole.head? ≠ some '0'))
    (hhead : ∀ c, text.head? = some c → c.isDigit = false ∧ c ≠ '.')
    (hexponent : readExponent text = some (e, rest))
    : readUnsigned negative (whole ++ text)
        = some (ofDecimal negative (Nat.ofDigitChars 10 whole 0) e, rest) := by
  have hsplit := takeWhile_digits hdigits fun c hc => (hhead c hc).1
  have hfraction : readFraction text = some ([], text) := by
    unfold readFraction
    split
    . exact absurd rfl (hhead '.' rfl).2
    . rfl
  unfold readUnsigned
  rw [hsplit.1, hsplit.2]
  dsimp only
  rw [guard_of hwhole]
  simp [hfraction, hexponent]

theorem readUnsigned_point (negative : Bool) {whole decimals text rest : List Char} {e : Int}
    (hdigits : whole.all Char.isDigit = true)
    (hwhole : whole.length = 1 ∨ (1 < whole.length ∧ whole.head? ≠ some '0'))
    (hdecimals : decimals.all Char.isDigit = true) (hne : decimals ≠ [])
    (hhead : ∀ c, text.head? = some c → c.isDigit = false)
    (hexponent : readExponent text = some (e, rest))
    : readUnsigned negative (whole ++ '.' :: (decimals ++ text))
        = some (ofDecimal negative (Nat.ofDigitChars 10 (whole ++ decimals) 0)
            (e - decimals.length), rest) := by
  have hsplit := takeWhile_digits (r := '.' :: (decimals ++ text)) hdigits (by simp)
  have hrest := takeWhile_digits hdecimals hhead
  unfold readUnsigned
  rw [hsplit.1, hsplit.2]
  dsimp only
  rw [guard_of hwhole]
  simp [readFraction, hrest.1, hrest.2, hne, hexponent]

theorem Delimited.head_ne {text : List Char} (h : Delimited text)
    : ∀ c, text.head? = some c → c.isDigit = false ∧ c ≠ '.' := by
  cases h <;> simp

theorem readUnsigned_toDigits (negative : Bool) (n : Nat) {text : List Char} (h : Delimited text)
    : readUnsigned negative (Nat.toDigits 10 n ++ text)
        = some (.num (JsNumber.ofInt (applySign negative n)), text) := by
  rw [readUnsigned_whole negative (all_isDigit_toDigits n) (whole_toDigits n) h.head_ne
    (readExponent_of_delimited h), Nat.ofDigitChars_ten_toDigits,
    ofDecimal_of_scale (show scale n 0 = some n by simp [scale])]

theorem readExponent_toDigits (sign : Bool) (x : Nat) {text : List Char} (h : Delimited text)
    : readExponent ('e' :: (if sign then '-' else '+') :: (Nat.toDigits 10 x ++ text))
        = some (applySign sign x, text) := by
  have hsplit := takeWhile_digits (all_isDigit_toDigits x) h.head
  unfold readExponent
  cases sign <;> simp [splitSign, hsplit.1, hsplit.2, Nat.toDigits_ne_nil]

theorem readUnsigned_exponential (negative : Bool) {n : Nat} (hn : n ≠ 0) {text : List Char}
    (h : Delimited text)
    : readUnsigned negative (JsNumber.exponential (Nat.toDigits 10 n) ++ text)
        = some (.num (JsNumber.ofInt (applySign negative n)), text) := by
  obtain ⟨d, rest, x, hform, hd, hrest, hle, hvalue⟩ := JsNumber.exponential_form hn
  have hd : [d].all Char.isDigit = true := by simp [hd]
  have hexponent := readExponent_toDigits false x h
  have hscale : ofDecimal negative (Nat.ofDigitChars 10 (d :: rest) 0)
      (applySign false x - rest.length) = .num (JsNumber.ofInt (applySign negative n)) := by
    rw [show applySign false x = x from rfl, ← Int.ofNat_sub hle, ← hvalue]
    exact ofDecimal_of_scale rfl
  rw [hform]
  split
  . next hnil =>
    subst hnil
    rw [List.append_assoc]
    refine (readUnsigned_whole negative hd (Or.inl rfl) (by simp) hexponent).trans ?_
    simpa using hscale
  . next hnil =>
    have hread := readUnsigned_point negative hd (Or.inl rfl) hrest hnil (by simp) hexponent
    rw [show [d] ++ rest = d :: rest from rfl, hscale] at hread
    simpa using hread

theorem readUnsigned_renderNat (negative : Bool) (x : Nat) {text : List Char} (h : Delimited text)
    : readUnsigned negative (JsNumber.renderNat x ++ text)
        = some (.num (JsNumber.ofInt (applySign negative (JsNumber.shortest x))), text) := by
  unfold JsNumber.renderNat
  dsimp
  split
  . exact readUnsigned_toDigits negative _ h
  . next hlong =>
    apply readUnsigned_exponential negative _ h
    intro hzero
    simp [hzero] at hlong

theorem ofDecimal_of_isFraction (negative : Bool) {m j : Nat} (h : IsFraction m j)
    : ofDecimal negative m (-j) = .fraction negative m j h := by
  unfold ofDecimal
  split
  . next n heq =>
    obtain ⟨hsome, _⟩ := h
    simp [fractional, heq] at hsome
  . simp only [Int.neg_neg, Int.toNat_natCast, h.2]

theorem readUnsigned_renderFraction (negative : Bool) {m j : Nat} (hm : m ≠ 0) (hj : 0 < j)
    {text : List Char} (h : Delimited text)
    : readUnsigned negative (JsNumber.renderFraction m j ++ text)
        = some (ofDecimal negative m (-j), text) := by
  have hdigits := all_isDigit_toDigits m
  have hpos := @Nat.length_toDigits_pos 10 m
  have hvalue : Nat.ofDigitChars 10 (Nat.toDigits 10 m) 0 = m := Nat.ofDigitChars_ten_toDigits
  have hhead := head_toDigits m hm
  unfold JsNumber.renderFraction
  dsimp only
  generalize Nat.toDigits 10 m = digits at hdigits hpos hvalue hhead ⊢
  have hpart : ∀ l : List Char, l.Sublist digits → l.all Char.isDigit = true := by
    intro l hl
    simp only [List.all_eq_true] at hdigits ⊢
    exact fun c hc => hdigits c (hl.subset hc)
  split
  . next hlt =>
    have hwhole : (digits.take (digits.length - j)).length = 1
        ∨ (1 < (digits.take (digits.length - j)).length
          ∧ (digits.take (digits.length - j)).head? ≠ some '0') := by
      rw [List.length_take, List.head?_take, if_neg (by omega)]
      by_cases hone : digits.length - j = 1
      . exact Or.inl (by omega)
      . exact Or.inr ⟨by omega, hhead⟩
    have hread := readUnsigned_point negative
      (hpart _ (List.take_sublist (digits.length - j) _)) hwhole
      (hpart _ (List.drop_sublist (digits.length - j) _))
      (List.ne_nil_of_length_pos (by rw [List.length_drop]; omega)) h.head
      (readExponent_of_delimited h)
    rw [List.take_append_drop, hvalue, List.length_drop] at hread
    rw [List.append_assoc, List.cons_append, hread]
    congr 3
    omega
  split
  . next hle hnear =>
    have hzeros : (List.replicate (j - digits.length) '0' ++ digits).all Char.isDigit = true := by
      rw [List.all_append, hdigits, Bool.and_true]
      simp
    have hread := readUnsigned_point negative (show ['0'].all Char.isDigit = true from rfl) (Or.inl rfl) hzeros
      (by simp [List.ne_nil_of_length_pos hpos]) h.head (readExponent_of_delimited h)
    have hsame : Nat.ofDigitChars 10 (['0'] ++ (List.replicate (j - digits.length) '0' ++ digits)) 0
        = m := by
      rw [Nat.ofDigitChars_append, Nat.ofDigitChars_append, show Nat.ofDigitChars 10 ['0'] 0 = 0 from rfl,
        Nat.ofDigitChars_replicate_zero, Nat.mul_zero, hvalue]
    rw [hsame, List.length_append, List.length_replicate] at hread
    simp only [List.cons_append, List.nil_append] at hread ⊢
    rw [hread]
    congr 3
    omega
  . next hle hfar =>
    have hexponent := readExponent_toDigits true (j - digits.length + 1) h
    match digits with
    | [] => contradiction
    | [d] =>
      have hread := readUnsigned_whole negative hdigits (Or.inl rfl) (by simp) hexponent
      rw [hvalue] at hread
      simp only [List.cons_append, List.nil_append, if_true] at hread ⊢
      rw [hread]
      congr 3
      simp only [applySign, if_true, List.length_singleton] at hle ⊢
      omega
    | d :: e :: rest =>
      have hread := readUnsigned_point negative (hpart [d] (by simp)) (Or.inl rfl)
        (hpart (e :: rest) (by simp)) (by simp) (by simp) hexponent
      rw [show [d] ++ e :: rest = d :: e :: rest from rfl, hvalue] at hread
      simp only [List.cons_append, List.nil_append, List.append_assoc, if_true] at hread ⊢
      rw [hread]
      congr 3
      simp only [applySign, if_true, List.length_cons] at hle ⊢
      omega

theorem skipSpace_of_head {c : Char} {text : List Char}
    (h : ¬(c = ' ' ∨ c = '\t' ∨ c = '\n' ∨ c = '\r'))
    : skipSpace (c :: text) = c :: text := by
  simp [skipSpace, h]

theorem readValue_number {c : Char} {text : List Char} (fuel : Nat)
    (h : c = '-' ∨ c.isDigit = true)
    : readValue (fuel + 1) (c :: text) = readNumber (c :: text) := by
  have hspace : ¬(c = ' ' ∨ c = '\t' ∨ c = '\n' ∨ c = '\r') := by
    rintro (rfl | rfl | rfl | rfl) <;> exact absurd h (by decide)
  rw [readValue, skipSpace_of_head hspace]
  split
  case h_7 => rfl
  all_goals
    next heq =>
      cases heq
      simp at h

theorem readNumber_render {n : Int} (h : IsDouble n) {text : List Char} (htext : Delimited text)
    : readNumber ((JsNumber.int n h).render ++ text) = some (.num (.int n h), text) := by
  have hread := JsNumber.ofText_render (.int n h)
  rw [JsNumber.render_int] at hread ⊢
  obtain ⟨d, rest, hbody, hd⟩ := JsNumber.renderNat_head n.natAbs
  split
  . next hn =>
    have := JsNumber.ofText_renderNat n.natAbs true
    simp only [if_pos hn, if_true] at hread this
    rw [List.cons_append, readNumber, readUnsigned_renderNat true _ htext, ← this, hread]
  . next hn =>
    have := JsNumber.ofText_renderNat n.natAbs false
    simp only [if_neg hn, Bool.false_eq_true, if_false] at hread this
    rw [hbody, List.cons_append, readNumber, ← List.cons_append, ← hbody,
      readUnsigned_renderNat false _ htext, ← this, hread]
    intro text heq
    injection heq with hminus
    subst hminus
    contradiction

theorem render_head {n : Int} (h : IsDouble n)
    : ∃ c rest, (JsNumber.int n h).render = c :: rest ∧ (c = '-' ∨ c.isDigit = true) := by
  obtain ⟨d, rest, hbody, hd⟩ := JsNumber.renderNat_head n.natAbs
  rw [JsNumber.render_int]
  split
  . exact ⟨_, _, rfl, Or.inl rfl⟩
  . exact ⟨d, rest, hbody, Or.inr hd⟩

theorem readValue_scalar (v : Scalar) (fuel : Nat) {text : List Char} (h : Delimited text)
    : readValue (fuel + 1) (v.write ++ text) = some (v.toJson, text) := by
  cases v with
  | null => rw [readValue]; rfl
  | str s =>
    rw [readValue]
    simp only [Scalar.write, writeString, List.cons_append, List.append_assoc]
    rw [skipSpace_of_head (by decide)]
    simp [readString_writeString, Scalar.toJson]
  | num n =>
    cases n with
    | posInf => rw [readValue]; rfl
    | negInf => rw [readValue]; rfl
    | nan => rw [readValue]; rfl
    | int n hn =>
      obtain ⟨c, rest, hform, hc⟩ := render_head hn
      have hread := readNumber_render hn h
      simp only [Scalar.write, Scalar.toJson]
      rw [hform, List.cons_append] at hread ⊢
      rw [readValue_number fuel hc, hread]

theorem readName_writeString (name : String) (text : List Char)
    : readFields.readName (skipSpace (writeString name ++ ':' :: text)) = some (name, text) := by
  simp only [writeString, List.cons_append, List.append_assoc]
  rw [skipSpace_of_head (by decide)]
  simp only [readFields.readName, List.nil_append, readString_writeString]
  simp [skipSpace_of_head]

end Json

end Js
