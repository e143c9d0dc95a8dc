import CouponIssuance.Js.Json

/-!
This module contains `JSON.stringify`, and what is left of a JavaScript value after `JSON.stringify`
and `JSON.parse`.
-/

namespace Js
namespace Json

mutual

/--
`JSON.parse(JSON.stringify(v))`: numbers that are not finite have become `null`.
-/
def wire : Json → Json
  | null => null
  | bool b => bool b
  | num (.int n h) => num (.int n h)
  | num _ => null
  | fraction negative mantissa digits h => fraction negative mantissa digits h
  | str s => str s
  | arr items => arr (wireItems items)
  | obj fields => obj (wireFields fields)

def wireItems : List Json → List Json
  | [] => []
  | item :: items => item.wire :: wireItems items

def wireFields : List (String × Json) → List (String × Json)
  | [] => []
  | (name, value) :: fields => (name, value.wire) :: wireFields fields

end

mutual

def isFinite : Json → Bool
  | num n => n.isInteger
  | arr items => isFiniteItems items
  | obj fields => isFiniteFields fields
  | _ => true

def isFiniteItems : List Json → Bool
  | [] => true
  | item :: items => item.isFinite && isFiniteItems items

def isFiniteFields : List (String × Json) → Bool
  | [] => true
  | (_, value) :: fields => value.isFinite && isFiniteFields fields

end

mutual

theorem wire_eq_self_iff (v : Json) : v.wire = v ↔ v.isFinite = true := by
  cases v with
  | num n => cases n <;> simp [wire, isFinite, JsNumber.isInteger]
  | arr items => simp [wire, isFinite, wireItems_eq_self_iff items]
  | obj fields => simp [wire, isFinite, wireFields_eq_self_iff fields]
  | _ => simp [wire, isFinite]

theorem wireItems_eq_self_iff (items : List Json)
    : wireItems items = items ↔ isFiniteItems items = true := by
  cases items with
  | nil => simp [wireItems, isFiniteItems]
  | cons item items =>
    simp [wireItems, isFiniteItems, wire_eq_self_iff item, wireItems_eq_self_iff items]

theorem wireFields_eq_self_iff (fields : List (String × Json))
    : wireFields fields = fields ↔ isFiniteFields fields = true := by
  cases fields with
  | nil => simp [wireFields, isFiniteFields]
  | cons field fields =>
    obtain ⟨name, value⟩ := field
    simp [wireFields, isFiniteFields, wire_eq_self_iff value, wireFields_eq_self_iff fields]

end

mutual

def write : Json → List Char
  | null => "null".toList
  | bool true => "true".toList
  | bool false => "false".toList
  | num n => (Scalar.num n).write
  | fraction negative mantissa digits _ =>
    if negative then
      '-' :: JsNumber.renderFraction mantissa digits
    else
      JsNumber.renderFraction mantissa digits
  | str s => writeString s
  | arr items => '[' :: (writeItems items ++ [']'])
  | obj fields => '{' :: (writeFields fields ++ ['}'])

def writeItems : List Json → List Char
  | [] => []
  | [item] => item.write
  | item :: next :: items => item.write ++ ',' :: writeItems (next :: items)

def writeFields : List (String × Json) → List Char
  | [] => []
  | [(name, value)] => writeString name ++ ':' :: value.write
  | (name, value) :: next :: fields =>
    writeString name ++ ':' :: (value.write ++ ',' :: writeFields (next :: fields))

end

/--
`JSON.stringify(v)`, where no object has a name twice or a name that is an index.
-/
def stringifyValue (v : Json) : String :=
  String.ofList v.write

theorem renderFraction_head (m j : Nat)
    : ∃ d rest, JsNumber.renderFraction m j = d :: rest ∧ d.isDigit = true := by
  have hdigits := all_isDigit_toDigits m
  have hpos := @Nat.length_toDigits_pos 10 m
  unfold JsNumber.renderFraction
  dsimp only
  generalize Nat.toDigits 10 m = digits at hdigits hpos ⊢
  match digits with
  | [] => contradiction
  | d :: rest =>
    have hd : d.isDigit = true := by
      simp only [List.all_cons, Bool.and_eq_true] at hdigits
      exact hdigits.1
    split
    . next hlt =>
      obtain ⟨k, hk⟩ := Nat.exists_eq_add_of_lt hlt
      rw [show (d :: rest).length - j = k + 1 by omega]
      exact ⟨d, _, rfl, hd⟩
    split
    . exact ⟨_, _, rfl, rfl⟩
    . cases rest <;> exact ⟨_, _, rfl, hd⟩

theorem readNumber_fraction (negative : Bool) {m j : Nat} (h : IsFraction m j) {text : List Char}
    (htext : Delimited text)
    : readNumber ((fraction negative m j h).write ++ text)
        = some (fraction negative m j h, text) := by
  have hread := readUnsigned_renderFraction negative h.ne_zero h.pos htext
  rw [ofDecimal_of_isFraction negative h] at hread
  obtain ⟨d, rest, hbody, hd⟩ := renderFraction_head m j
  unfold write
  cases negative with
  | true => exact hread
  | false =>
    simp only [Bool.false_eq_true, if_false]
    rw [hbody, List.cons_append] at hread ⊢
    unfold readNumber
    split
    . next heq =>
      injection heq with hminus
      subst hminus
      contradiction
    . exact hread

def IsFirst (c : Char) : Prop :=
  ¬(c = ' ' ∨ c = '\t' ∨ c = '\n' ∨ c = '\r') ∧ c ≠ ']' ∧ c ≠ '}'

instance (c : Char) : Decidable (IsFirst c) :=
  inferInstanceAs (Decidable (_ ∧ _))

theorem isFirst_of_number {c : Char} (h : c = '-' ∨ c.isDigit = true) : IsFirst c := by
  rcases h with rfl | h
  . decide
  . refine ⟨?_, ?_, ?_⟩
    . rintro (rfl | rfl | rfl | rfl) <;> contradiction
    . rintro rfl
      contradiction
    . rintro rfl
      contradiction

theorem write_head (v : Json) : ∃ c rest, v.write = c :: rest ∧ IsFirst c := by
  cases v with
  | null => exact ⟨_, _, rfl, by decide⟩
  | bool b =>
    cases b
    . exact ⟨_, _, rfl, by decide⟩
    . exact ⟨_, _, rfl, by decide⟩
  | num n =>
    cases n with
    | int n h =>
      obtain ⟨c, rest, hform, hc⟩ := render_head h
      exact ⟨c, rest, hform, isFirst_of_number hc⟩
    | _ => exact ⟨_, _, rfl, by decide⟩
  | fraction negative m j h =>
    obtain ⟨d, rest, hform, hd⟩ := renderFraction_head m j
    unfold write
    split
    . exact ⟨_, _, rfl, isFirst_of_number (Or.inl rfl)⟩
    . exact ⟨d, rest, hform, isFirst_of_number (Or.inr hd)⟩
  | str s => exact ⟨_, _, rfl, by decide⟩
  | arr items => exact ⟨_, _, rfl, by decide⟩
  | obj fields => exact ⟨_, _, rfl, by decide⟩

theorem readValue_array (fuel : Nat) {text : List Char} (hspace : skipSpace text = text)
    (hclose : ∀ rest, text ≠ ']' :: rest)
    : readValue (fuel + 1) ('[' :: text)
        = (readItems fuel text).map fun (items, rest) => (.arr items, rest) := by
  rw [readValue, skipSpace_of_head (by decide)]
  simp only [hspace]

theorem readValue_object (fuel : Nat) {text : List Char} (hspace : skipSpace text = text)
    (hclose : ∀ rest, text ≠ '}' :: rest)
    : readValue (fuel + 1) ('{' :: text)
        = (readFields fuel text).map fun (fields, rest) => (.obj fields, rest) := by
  rw [readValue, skipSpace_of_head (by decide)]
  simp only [hspace]

theorem exists_writeItems (item : Json) (items : List Json)
    : ∃ rest, writeItems (item :: items) = item.write ++ rest := by
  cases items with
  | nil => exact ⟨[], by simp [writeItems]⟩
  | cons next items => exact ⟨_, by rw [writeItems]⟩

theorem exists_writeFields (name : String) (value : Json) (fields : List (String × Json))
    : ∃ rest, writeFields ((name, value) :: fields) = '"' :: rest := by
  cases fields <;> exact ⟨_, by rw [writeFields, writeString]; rfl⟩

theorem fraction_head (negative : Bool) {m j : Nat} (h : IsFraction m j)
    : ∃ c rest, (fraction negative m j h).write = c :: rest ∧ (c = '-' ∨ c.isDigit = true) := by
  obtain ⟨d, rest, hform, hd⟩ := renderFraction_head m j
  unfold write
  split
  . exact ⟨_, _, rfl, Or.inl rfl⟩
  . exact ⟨d, rest, hform, Or.inr hd⟩

mutual

/--
A value that was written is read back. The length of its text is enough for the nesting.
-/
theorem readValue_write (v : Json) (fuel : Nat) (hfuel : v.write.length ≤ fuel) {text : List Char}
    (htext : Delimited text)
    : readValue (fuel + 1) (v.write ++ text) = some (v.wire, text) := by
  cases v with
  | null => rw [readValue]; rfl
  | bool b => cases b <;> (rw [readValue]; rfl)
  | num n =>
    have hread := readValue_scalar (.num n) fuel htext
    unfold write
    rw [hread]
    cases n <;> rfl
  | str s => exact readValue_scalar (.str s) fuel htext
  | fraction negative m j h =>
    have hread := readNumber_fraction negative h htext
    obtain ⟨c, rest, hform, hc⟩ := fraction_head negative h
    rw [hform, List.cons_append] at hread ⊢
    rw [readValue_number fuel hc, hread]
    rfl
  | arr items =>
    cases items with
    | nil => rw [readValue]; rfl
    | cons item items =>
      obtain ⟨rest, hrest⟩ := exists_writeItems item items
      obtain ⟨c, tail, hform, hc⟩ := item.write_head
      have hhead : writeItems (item :: items) ++ ']' :: text
          = c :: (tail ++ (rest ++ ']' :: text)) := by
        simp [hrest, hform]
      rw [write, List.length_cons, List.length_append, List.length_singleton] at hfuel
      obtain ⟨fuel, rfl⟩ := Nat.exists_eq_add_one.mpr (show 0 < fuel by omega)
      have hread := readItems_write item items fuel (by omega) text
      rw [write, List.cons_append, List.append_assoc, List.singleton_append, readValue_array, hread]
      . rfl
      . rw [hhead]
        exact skipSpace_of_head hc.1
      . rw [hhead]
        intro rest heq
        exact hc.2.1 (List.cons.inj heq).1
  | obj fields =>
    cases fields with
    | nil => rw [readValue]; rfl
    | cons field fields =>
      obtain ⟨name, value⟩ := field
      obtain ⟨rest, hrest⟩ := exists_writeFields name value fields
      rw [write, List.length_cons, List.length_append, List.length_singleton] at hfuel
      obtain ⟨fuel, rfl⟩ := Nat.exists_eq_add_one.mpr (show 0 < fuel by omega)
      have hread := readFields_write name value fields fuel (by omega) text
      rw [write, List.cons_append, List.append_assoc, List.singleton_append, readValue_object, hread]
      . rfl
      . rw [hrest]
        exact skipSpace_of_head (by decide)
      . rw [hrest]
        intro rest heq
        exact absurd (List.cons.inj heq).1 (by decide)
termination_by fuel

theorem readItems_write (item : Json) (items : List Json) (fuel : Nat)
    (hfuel : (writeItems (item :: items)).length < fuel) (text : List Char)
    : readItems (fuel + 1) (writeItems (item :: items) ++ ']' :: text)
        = some (wireItems (item :: items), text) := by
  obtain ⟨fuel, rfl⟩ := Nat.exists_eq_add_one.mpr (show 0 < fuel by omega)
  cases items with
  | nil =>
    rw [writeItems] at hfuel ⊢
    have hread := readValue_write item fuel (by omega) (.bracket text)
    rw [readItems, hread]
    simp [skipSpace_of_head, wireItems]
  | cons next items =>
    rw [writeItems, List.length_append, List.length_cons] at hfuel
    have hread := readValue_write item fuel (by omega)
      (.comma (writeItems (next :: items) ++ ']' :: text))
    have hrest := readItems_write next items fuel (by omega) text
    rw [writeItems, List.append_assoc, List.cons_append, readItems, hread]
    simp [skipSpace_of_head, hrest, wireItems]
termination_by fuel

theorem readFields_write (name : String) (value : Json) (fields : List (String × Json)) (fuel : Nat)
    (hfuel : (writeFields ((name, value) :: fields)).length < fuel) (text : List Char)
    : readFields (fuel + 1) (writeFields ((name, value) :: fields) ++ '}' :: text)
        = some (wireFields ((name, value) :: fields), text) := by
  obtain ⟨fuel, rfl⟩ := Nat.exists_eq_add_one.mpr (show 0 < fuel by omega)
  cases fields with
  | nil =>
    rw [writeFields, List.length_append, List.length_cons] at hfuel
    have hread := readValue_write value fuel (by omega) (.brace text)
    rw [writeFields, List.append_assoc, List.cons_append, readFields, readName_writeString]
    simp [hread, skipSpace_of_head, wireFields]
  | cons next fields =>
    obtain ⟨next, nextValue⟩ := next
    rw [writeFields, List.length_append, List.length_cons, List.length_append, List.length_cons]
      at hfuel
    have hread := readValue_write value fuel (by omega)
      (.comma (writeFields ((next, nextValue) :: fields) ++ '}' :: text))
    have hrest := readFields_write next nextValue fields fuel (by omega) text
    rw [writeFields, List.append_assoc, List.cons_append, List.append_assoc, List.cons_append,
      readFields, readName_writeString]
    simp [hread, skipSpace_of_head, hrest, wireFields]
termination_by fuel

end

/--
`JSON.parse` of what `JSON.stringify` wrote.
-/
theorem parse_stringifyValue (v : Json) : parse (stringifyValue v) = some v.wire := by
  have hread := readValue_write v v.write.length (Nat.le_refl _) .nil
  rw [List.append_nil] at hread
  unfold parse stringifyValue
  rw [String.toList_ofList, hread]
  rfl

section Flat

def Scalar.value : Scalar → Json
  | null => .null
  | num n => .num n
  | str s => .str s

def ofScalars (fields : List (String × Scalar)) : Json :=
  .obj (fields.map fun field => (field.1, field.2.value))

theorem Scalar.wire_value (v : Scalar) : v.value.wire = v.toJson := by
  cases v with
  | num n => cases n <;> rfl
  | _ => rfl

theorem Scalar.write_value (v : Scalar) : v.value.write = v.write := by
  cases v with
  | num n => unfold value write; rfl
  | _ => rfl

theorem writeFields_scalars (fields : List (String × Scalar))
    : writeFields (fields.map fun field => (field.1, field.2.value))
        = [','].intercalate (fields.map writeField) := by
  induction fields with
  | nil => rfl
  | cons field fields ih =>
    cases fields with
    | nil => simp [writeFields, writeField, Scalar.write_value]
    | cons next fields =>
      simp only [List.map_cons] at ih ⊢
      rw [writeFields, ih, List.intercalate_cons_cons, Scalar.write_value]
      simp [writeField]

theorem stringifyValue_ofScalars (fields : List (String × Scalar))
    : stringifyValue (ofScalars fields) = stringify fields := by
  rw [stringifyValue, ofScalars, write, writeFields_scalars]
  rfl

theorem parse_stringify_eq_wire (fields : List (String × Scalar))
    : parse (stringify fields) = some (ofScalars fields).wire := by
  rw [← stringifyValue_ofScalars, parse_stringifyValue]

theorem parse_stringify (fields : List (String × Scalar))
    : parse (stringify fields)
        = some (.obj (fields.map fun field => (field.1, field.2.toJson))) := by
  rw [parse_stringify_eq_wire, ofScalars, wire]
  congr 2
  induction fields with
  | nil => rfl
  | cons field fields ih => simp [wireFields, Scalar.wire_value, ih]

end Flat

end Json
end Js
