import CouponIssuance.Js.Wire

/-!
This module contains `String(v)` for values of any type, which template literals use as well.
-/

namespace Js
namespace Json

def isNull : Json → Bool
  | null => true
  | _ => false

mutual

def textList : Json → List Char
  | null => "null".toList
  | bool true => "true".toList
  | bool false => "false".toList
  | num n => n.render
  | fraction negative mantissa digits _ =>
    if negative then
      '-' :: JsNumber.renderFraction mantissa digits
    else
      JsNumber.renderFraction mantissa digits
  | str s => s.toList
  | arr items => joinItems items
  | obj _ => "[object Object]".toList

/-- `join(',')`, where `null` leaves no text -/
def joinItems : List Json → List Char
  | [] => []
  | [item] => if item.isNull then [] else item.textList
  | item :: next :: items =>
    (if item.isNull then [] else item.textList) ++ ',' :: joinItems (next :: items)

end

/-- `String(v)` -/
def text (v : Json) : String :=
  String.ofList v.textList

theorem text_num (n : JsNumber) : (num n).text = toString n := by
  rfl

theorem text_str (s : String) : (str s).text = s :=
  String.ofList_toList

theorem toList_text (v : Json) : v.text.toList = v.textList :=
  String.toList_ofList

def IsNonNumeral (c : Char) : Prop :=
  c = 'I' ∨ c = 'N' ∨ c = '['

mutual

theorem exists_mem_textList {v : Json} (h : v.isFinite = false)
    : ∃ c ∈ v.textList, IsNonNumeral c := by
  cases v with
  | num n =>
    cases n with
    | int n hn => contradiction
    | posInf => exact ⟨'I', List.mem_cons_self .., Or.inl rfl⟩
    | negInf => exact ⟨'I', List.mem_cons_of_mem _ (List.mem_cons_self ..), Or.inl rfl⟩
    | nan => exact ⟨'N', List.mem_cons_self .., Or.inr (Or.inl rfl)⟩
  | arr items =>
    unfold isFinite at h
    exact exists_mem_joinItems h
  | obj fields => exact ⟨'[', List.mem_cons_self .., Or.inr (Or.inr rfl)⟩
  | _ => contradiction

theorem exists_mem_joinItems {items : List Json} (h : isFiniteItems items = false)
    : ∃ c ∈ joinItems items, IsNonNumeral c := by
  match items with
  | [] => contradiction
  | item :: items =>
    rw [isFiniteItems, Bool.and_eq_false_iff] at h
    by_cases hitem : item.isFinite = true
    . have hitems := h.resolve_left (by simp [hitem])
      match items with
      | [] => contradiction
      | next :: items =>
        obtain ⟨c, hc, hnumeral⟩ := exists_mem_joinItems hitems
        exact ⟨c, List.mem_append_right _ (List.mem_cons_of_mem _ hc), hnumeral⟩
    . rw [Bool.not_eq_true] at hitem
      obtain ⟨c, hc, hnumeral⟩ := exists_mem_textList hitem
      have hnull : item.isNull = false := by
        cases item with
        | null => contradiction
        | _ => rfl
      refine ⟨c, ?_, hnumeral⟩
      cases items <;> simp [joinItems, hnull, hc]

end

end Json
end Js
