import Mathlib.Data.List.Infix

/-!
This module contains regular expressions as JavaScript executes them: the alternatives of a pattern
are tried in their order, and the first one that the rest of the pattern accepts counts.
-/

namespace Js

inductive Regex where
  | empty
  /-- one character -/
  | set (p : Char → Bool)
  | seq (r s : Regex)
  /-- `(?:r)?` -/
  | optional (r : Regex)
  /-- `p*` -/
  | star (p : Char → Bool)
  /-- `p+?` -/
  | lazyPlus (p : Char → Bool)
  /-- the `index`-th pair of parentheses -/
  | group (index : Nat) (r : Regex)

namespace Regex

abbrev Captures := List (Nat × List Char)

def starRests (p : Char → Bool) : List Char → List (List Char)
  | [] => [[]]
  | c :: text => if p c then starRests p text ++ [c :: text] else [c :: text]

def lazyPlusRests (p : Char → Bool) : List Char → List (List Char)
  | [] => []
  | c :: text => if p c then text :: lazyPlusRests p text else []

/--
The ways to match at the front of a text, in the order in which they are tried: what is left of the
text, and the captures. A round of `optional` that takes nothing does not count.
-/
def results : Regex → List Char → Captures → List (List Char × Captures)
  | empty, text, captures => [(text, captures)]
  | set _, [], _ => []
  | set p, c :: text, captures => if p c then [(text, captures)] else []
  | seq r s, text, captures =>
    (r.results text captures).flatMap fun (rest, captures) => s.results rest captures
  | optional r, text, captures =>
    (r.results text captures).filter (fun result => result.1.length < text.length)
      ++ [(text, captures)]
  | star p, text, captures => (starRests p text).map fun rest => (rest, captures)
  | lazyPlus p, text, captures => (lazyPlusRests p text).map fun rest => (rest, captures)
  | group index r, text, captures =>
    (r.results text captures).map fun (rest, captures) =>
      (rest, (index, text.take (text.length - rest.length)) :: captures)

/--
`r.exec(text)`: the captures of the leftmost match.
-/
def exec (r : Regex) : List Char → Option Captures
  | [] => (r.results [] []).head?.map (·.2)
  | c :: text =>
    match r.results (c :: text) [] with
    | (_, captures) :: _ => some captures
    | [] => exec r text

/-- `/text/` -/
def literal : List Char → Regex
  | [] => empty
  | c :: text => seq (set (· == c)) (literal text)

/-- `/./` -/
def dot (c : Char) : Bool :=
  c != '\n' && c != '\r' && c.toNat != 0x2028 && c.toNat != 0x2029

theorem suffix_of_mem_starRests {p : Char → Bool} {text rest : List Char}
    (h : rest ∈ starRests p text)
    : rest <:+ text := by
  induction text with
  | nil =>
    rw [starRests, List.mem_singleton] at h
    rw [h]
  | cons c text ih =>
    unfold starRests at h
    split at h
    . rcases List.mem_append.mp h with hmore | hnone
      . exact (ih hmore).trans (List.suffix_cons _ _)
      . rw [List.mem_singleton.mp hnone]
    . rw [List.mem_singleton.mp h]

theorem suffix_of_mem_lazyPlusRests {p : Char → Bool} {text rest : List Char}
    (h : rest ∈ lazyPlusRests p text)
    : rest <:+ text := by
  induction text with
  | nil => simp [lazyPlusRests] at h
  | cons c text ih =>
    unfold lazyPlusRests at h
    split at h
    . rcases List.mem_cons.mp h with rfl | hmore
      . exact List.suffix_cons _ _
      . exact (ih hmore).trans (List.suffix_cons _ _)
    . simp at h

def Within (text : List Char) (captures : Captures) : Prop :=
  ∀ capture ∈ captures, capture.2 <:+: text

theorem Within.mono {text text' : List Char} {captures : Captures} (h : Within text captures)
    (hwithin : text <:+: text')
    : Within text' captures :=
  fun capture hmem => (h capture hmem).trans hwithin

theorem results_spec {r : Regex} {whole text rest : List Char} {captures captures' : Captures}
    (htext : text <:+: whole) (hwithin : Within whole captures)
    (h : (rest, captures') ∈ r.results text captures)
    : rest <:+ text ∧ Within whole captures' := by
  induction r generalizing text rest captures captures' with
  | empty =>
    rw [results, List.mem_singleton, Prod.mk.injEq] at h
    obtain ⟨rfl, rfl⟩ := h
    exact ⟨List.suffix_refl _, hwithin⟩
  | set p =>
    match text with
    | [] => simp [results] at h
    | c :: text =>
      rw [results] at h
      split at h
      . rw [List.mem_singleton, Prod.mk.injEq] at h
        obtain ⟨rfl, rfl⟩ := h
        exact ⟨List.suffix_cons _ _, hwithin⟩
      . simp at h
  | seq r s ihr ihs =>
    rw [results, List.mem_flatMap] at h
    obtain ⟨⟨middle, captured⟩, hr, hs⟩ := h
    obtain ⟨hmiddle, hcaptured⟩ := ihr htext hwithin hr
    obtain ⟨hrest, hcaptures⟩ := ihs (hmiddle.isInfix.trans htext) hcaptured hs
    exact ⟨hrest.trans hmiddle, hcaptures⟩
  | optional r ih =>
    rw [results, List.mem_append] at h
    rcases h with htaken | hskipped
    . exact ih htext hwithin (List.mem_of_mem_filter htaken)
    . rw [List.mem_singleton, Prod.mk.injEq] at hskipped
      obtain ⟨rfl, rfl⟩ := hskipped
      exact ⟨List.suffix_refl _, hwithin⟩
  | star p =>
    rw [results, List.mem_map] at h
    obtain ⟨rest, hmem, heq⟩ := h
    obtain ⟨rfl, rfl⟩ := Prod.mk.inj heq
    exact ⟨suffix_of_mem_starRests hmem, hwithin⟩
  | lazyPlus p =>
    rw [results, List.mem_map] at h
    obtain ⟨rest, hmem, heq⟩ := h
    obtain ⟨rfl, rfl⟩ := Prod.mk.inj heq
    exact ⟨suffix_of_mem_lazyPlusRests hmem, hwithin⟩
  | group index r ih =>
    rw [results, List.mem_map] at h
    obtain ⟨⟨rest, captured⟩, hmem, heq⟩ := h
    obtain ⟨rfl, rfl⟩ := Prod.mk.inj heq
    obtain ⟨hrest, hcaptured⟩ := ih htext hwithin hmem
    refine ⟨hrest, fun capture hcapture => ?_⟩
    rcases List.mem_cons.mp hcapture with rfl | hold
    . exact (List.take_prefix _ _).isInfix.trans htext
    . exact hcaptured capture hold

theorem within_of_exec {r : Regex} {text : List Char} {captures : Captures}
    (h : r.exec text = some captures)
    : Within text captures := by
  induction text with
  | nil =>
    rw [exec, Option.map_eq_some_iff] at h
    obtain ⟨⟨rest, captured⟩, hhead, rfl⟩ := h
    exact (results_spec (List.infix_refl _) (by simp [Within]) (List.mem_of_mem_head? hhead)).2
  | cons c text ih =>
    rw [exec] at h
    split at h
    . next rest captured more heq =>
      obtain rfl := Option.some.inj h
      refine (results_spec (List.infix_refl _) ?_ (heq ▸ List.mem_cons_self)).2
      simp [Within]
    . exact (ih h).mono (List.suffix_cons _ _).isInfix

theorem exec_append {c : Char} {l : List Char} {r : Regex} {before : List Char} (text : List Char)
    (h : c ∉ before)
    : (seq (literal (c :: l)) r).exec (before ++ text) = (seq (literal (c :: l)) r).exec text := by
  induction before with
  | nil => rfl
  | cons d before ih =>
    rw [List.mem_cons, not_or] at h
    have hd : (d == c) = false := by simpa using Ne.symm h.1
    have hnone : (seq (literal (c :: l)) r).results (d :: (before ++ text)) [] = [] := by
      simp [literal, results, hd]
    rw [List.cons_append, exec, hnone]
    exact ih h.2

end Regex
end Js
