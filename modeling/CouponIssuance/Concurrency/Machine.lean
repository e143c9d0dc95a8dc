import Mathlib.Data.List.Basic

/-!
This module contains state machines whose step is a partial function of the state and the action,
their runs, and the induction rule for what holds in every state of a run.
-/

namespace Concurrency

structure Machine (σ : Type u) (α : Type v) where
  step : σ → α → Option σ

namespace Machine

/--
`M.Run ok s t`: from `s` the machine reaches `t` by steps that all satisfy `ok`.
-/
inductive Run (M : Machine σ α) (ok : σ → α → Prop) (s : σ) : σ → Prop where
  | refl : Run M ok s s
  | tail {t u : σ} {a : α} : Run M ok s t → ok t a → M.step t a = some u → Run M ok s u

variable {M : Machine σ α} {ok : σ → α → Prop}

theorem Run.trans {s t u : σ} (h1 : M.Run ok s t) (h2 : M.Run ok t u) : M.Run ok s u := by
  induction h2 with
  | refl => exact h1
  | tail _ hok hstep ih => exact ih.tail hok hstep

theorem Run.single {s t : σ} {a : α} (hok : ok s a) (hstep : M.step s a = some t)
    : M.Run ok s t :=
  Run.refl.tail hok hstep

theorem Run.mono {ok' : σ → α → Prop} (himp : ∀ s a, ok s a → ok' s a) {s t : σ}
    (h : M.Run ok s t)
    : M.Run ok' s t := by
  induction h with
  | refl => exact Run.refl
  | tail _ hok hstep ih => exact ih.tail (himp _ _ hok) hstep

theorem Run.invariant {I : σ → Prop} {s t : σ} (h : M.Run ok s t) (hinit : I s)
    (hstep : ∀ u a v, I u → ok u a → M.step u a = some v → I v)
    : I t := by
  induction h with
  | refl => exact hinit
  | tail _ hok hs ih => exact hstep _ _ _ ih hok hs

theorem Run.invariant_of {K I : σ → Prop} {s t : σ} (h : M.Run ok s t)
    (hknown : ∀ u, M.Run ok s u → K u) (hinit : I s)
    (hstep : ∀ u a v, K u → K v → I u → ok u a → M.step u a = some v → I v)
    : I t := by
  induction h with
  | refl => exact hinit
  | tail hrun hok hs ih =>
    exact hstep _ _ _ (hknown _ hrun) (hknown _ (hrun.tail hok hs)) ih hok hs

/--
A map under which every step of `M` is a run of `N` maps runs of `M` to runs of `N`.
-/
theorem Run.simulate {N : Machine τ β} {ok' : τ → β → Prop} (f : σ → τ) {s t : σ}
    (h : M.Run ok s t)
    (hstep : ∀ u a v, ok u a → M.step u a = some v → N.Run ok' (f u) (f v))
    : N.Run ok' (f s) (f t) := by
  induction h with
  | refl => exact Run.refl
  | tail _ hok hs ih => exact ih.trans (hstep _ _ _ hok hs)

def exec (M : Machine σ α) (allowed : σ → α → Bool) : σ → List α → Option σ
  | s, [] => some s
  | s, a :: as => if allowed s a then (M.step s a).bind (exec M allowed · as) else none

theorem exec_append {allowed : σ → α → Bool} (s : σ) (as bs : List α)
    : M.exec allowed s (as ++ bs) = (M.exec allowed s as).bind (M.exec allowed · bs) := by
  induction as generalizing s with
  | nil => rfl
  | cons a as ih =>
    simp only [List.cons_append, exec]
    split
    . rw [Option.bind_assoc]
      exact congrArg _ (funext ih)
    . rfl

theorem run_of_exec {allowed : σ → α → Bool} (hok : ∀ s a, allowed s a = true → ok s a)
    {as : List α} {s t : σ} (h : M.exec allowed s as = some t)
    : M.Run ok s t := by
  induction as generalizing s with
  | nil =>
    simp only [exec, Option.some.injEq] at h
    rw [← h]
    exact Run.refl
  | cons a as ih =>
    simp only [exec] at h
    split at h
    . next ha =>
      obtain ⟨u, hu, ht⟩ := Option.bind_eq_some_iff.mp h
      exact (Run.single (hok s a ha) hu).trans (ih ht)
    . contradiction

/--
A list of actions that ends in a state with property `p` shows that such a state is reachable.
-/
theorem exists_run_of_exec (M : Machine σ α) (allowed : σ → α → Bool) (ok : σ → α → Prop)
    (hok : ∀ s a, allowed s a = true → ok s a) (as : List α) (s : σ) (p : σ → Bool)
    (h : (M.exec allowed s as).any p = true)
    : ∃ t, M.Run ok s t ∧ p t = true := by
  cases hexec : M.exec allowed s as with
  | none => simp [hexec] at h
  | some t =>
    simp only [hexec, Option.any_some] at h
    exact ⟨t, run_of_exec hok hexec, h⟩

/--
`M.Logged ok record s t l`: a run from `s` to `t`, and `l` is what `record` notes of its steps, the
earliest first.
-/
inductive Logged (M : Machine σ α) (ok : σ → α → Prop) (record : σ → α → σ → Option ε) (s : σ)
    : σ → List ε → Prop where
  | refl : Logged M ok record s s []
  | tail {t u : σ} {a : α} {l : List ε} : Logged M ok record s t l → ok t a → M.step t a = some u
      → Logged M ok record s u (l ++ (record t a u).toList)

section Logged

variable {record : σ → α → σ → Option ε} {s t : σ} {l : List ε}

theorem Logged.invariant {I : σ → List ε → Prop} (h : M.Logged ok record s t l) (hinit : I s [])
    (hstep : ∀ u a v l, I u l → ok u a → M.step u a = some v → I v (l ++ (record u a v).toList))
    : I t l := by
  induction h with
  | refl => exact hinit
  | tail _ hok hs ih => exact hstep _ _ _ _ ih hok hs

theorem Logged.trans {u : σ} {l' : List ε} (h1 : M.Logged ok record s t l)
    (h2 : M.Logged ok record t u l')
    : M.Logged ok record s u (l ++ l') := by
  induction h2 with
  | refl =>
    rw [List.append_nil]
    exact h1
  | tail _ hok hstep ih =>
    rw [← List.append_assoc]
    exact ih.tail hok hstep

theorem Logged.at {x : ε} {before after : List ε}
    (h : M.Logged ok record s t (before ++ x :: after))
    : ∃ u a v, M.Logged ok record s u before ∧ ok u a ∧ M.step u a = some v
        ∧ record u a v = some x ∧ M.Logged ok record v t after := by
  generalize hl : before ++ x :: after = l at h
  induction h generalizing after with
  | refl => simp at hl
  | @tail u v a l hrun hok hstep ih =>
    cases hrecord : record u a v with
    | none =>
      rw [hrecord, Option.toList_none, List.append_nil] at hl
      obtain ⟨u', a', v', hbefore, hok', hstep', hrecord', hafter⟩ := ih hl
      have htail := hafter.tail hok hstep
      rw [hrecord, Option.toList_none, List.append_nil] at htail
      exact ⟨u', a', v', hbefore, hok', hstep', hrecord', htail⟩
    | some y =>
      rw [hrecord, Option.toList_some] at hl
      rcases List.eq_nil_or_concat after with rfl | ⟨rest, z, rfl⟩
      . obtain ⟨rfl, hxy⟩ := List.append_inj' hl rfl
        rw [List.singleton_inj.mp hxy]
        exact ⟨u, a, v, hrun, hok, hstep, hrecord, .refl⟩
      . rw [List.concat_eq_append, ← List.cons_append, ← List.append_assoc] at hl
        obtain ⟨hl, hzy⟩ := List.append_inj' hl rfl
        obtain ⟨u', a', v', hbefore, hok', hstep', hrecord', hafter⟩ := ih hl
        have htail := hafter.tail hok hstep
        rw [hrecord, Option.toList_some, ← hzy, ← List.concat_eq_append] at htail
        exact ⟨u', a', v', hbefore, hok', hstep', hrecord', htail⟩

def log (M : Machine σ α) (allowed : σ → α → Bool) (record : σ → α → σ → Option ε)
    : σ → List α → Option (σ × List ε)
  | s, [] => some (s, [])
  | s, a :: as =>
    if allowed s a then
      (M.step s a).bind fun t =>
        (log M allowed record t as).map fun r => (r.1, (record s a t).toList ++ r.2)
    else
      none

theorem logged_of_log {allowed : σ → α → Bool} (hok : ∀ s a, allowed s a = true → ok s a)
    {as : List α} (h : M.log allowed record s as = some (t, l))
    : M.Logged ok record s t l := by
  induction as generalizing s t l with
  | nil =>
    simp only [log, Option.some.injEq, Prod.mk.injEq] at h
    rw [← h.1, ← h.2]
    exact .refl
  | cons a as ih =>
    simp only [log] at h
    split at h
    . next ha =>
      obtain ⟨u, hu, h⟩ := Option.bind_eq_some_iff.mp h
      obtain ⟨⟨v, l'⟩, hlog, heq⟩ := Option.map_eq_some_iff.mp h
      rw [Prod.mk.injEq] at heq
      obtain ⟨rfl, rfl⟩ := heq
      exact (Logged.refl.tail (hok s a ha) hu).trans (ih hlog)
    . contradiction

theorem exists_logged_of_log (M : Machine σ α) (allowed : σ → α → Bool) (ok : σ → α → Prop)
    (hok : ∀ s a, allowed s a = true → ok s a) (record : σ → α → σ → Option ε) (as : List α) (s : σ)
    (p : σ → List ε → Bool) (h : (M.log allowed record s as).any (fun r => p r.1 r.2) = true)
    : ∃ t l, M.Logged ok record s t l ∧ p t l = true := by
  cases hlog : M.log allowed record s as with
  | none => simp [hlog] at h
  | some r =>
    simp only [hlog, Option.any_some] at h
    exact ⟨r.1, r.2, logged_of_log hok hlog, h⟩

end Logged

end Machine

end Concurrency
