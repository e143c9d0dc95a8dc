import Mathlib.Data.List.Basic

/-!
This module contains `String.prototype.split` with a separator of one character.
-/

namespace Js

def split (separator : Char) : List Char → List (List Char)
  | [] => [[]]
  | c :: text =>
    match split separator text with
    | [] => [[c]]
    | part :: parts => if c = separator then [] :: part :: parts else (c :: part) :: parts

theorem split_ne_nil (separator : Char) (text : List Char) : split separator text ≠ [] := by
  cases text with
  | nil => simp [split]
  | cons c text =>
    unfold split
    split
    . simp
    . split <;> simp

theorem split_of_notMem {separator : Char} {text : List Char} (h : separator ∉ text)
    : split separator text = [text] := by
  induction text with
  | nil => rfl
  | cons c text ih =>
    simp only [List.mem_cons, not_or] at h
    unfold split
    rw [ih h.2]
    dsimp only
    rw [if_neg (Ne.symm h.1)]

theorem split_append {separator : Char} {text : List Char} (h : separator ∉ text)
    (rest : List Char)
    : split separator (text ++ separator :: rest) = text :: split separator rest := by
  induction text with
  | nil =>
    rw [List.nil_append, split.eq_def]
    dsimp only
    cases hrest : split separator rest with
    | nil => exact absurd hrest (split_ne_nil _ _)
    | cons part parts => simp
  | cons c text ih =>
    simp only [List.mem_cons, not_or] at h
    rw [List.cons_append, split.eq_def]
    dsimp only
    rw [ih h.2]
    dsimp only
    rw [if_neg (Ne.symm h.1)]

theorem split_pair {separator : Char} {a b : List Char} (ha : separator ∉ a) (hb : separator ∉ b)
    : split separator (a ++ separator :: b) = [a, b] := by
  rw [split_append ha, split_of_notMem hb]

theorem pair_injective {separator : Char} {a b a' b' : List Char} (ha : separator ∉ a)
    (hb : separator ∉ b) (ha' : separator ∉ a') (hb' : separator ∉ b')
    (h : a ++ separator :: b = a' ++ separator :: b')
    : a = a' ∧ b = b' := by
  have hsplit := congrArg (split separator) h
  rw [split_pair ha hb, split_pair ha' hb'] at hsplit
  simpa using hsplit

end Js
