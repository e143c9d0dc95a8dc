import CouponIssuance.Concurrency.Machine

/-!
This module contains concurrent calls over a shared state. Every call runs one statement at a time,
the statements of different calls interleave in any order, and a statement may have to wait for
another call. The invariant rule follows Owicki and Gries: every call has an assertion that its own
statements establish and that the statements of the other calls do not disturb.
-/

namespace Concurrency

structure Calls (σ : Type u) (φ : Type v) (ι : Type w) (ε : Type x) where
  /-- May this call begin now? -/
  start : σ → List φ → φ → Bool
  /-- Does this statement of the first call have to wait for the second call? -/
  waits : φ → ι → φ → Bool
  step : σ → φ → ι → Option (σ × φ)
  /-- What happens to the shared state without any call. -/
  env : σ → ε → Option σ

namespace Calls

structure State (σ : Type u) (φ : Type v) where
  shared : σ
  calls : List φ

inductive Act (φ : Type v) (ι : Type w) (ε : Type x) where
  | start (f : φ)
  | step (i : Nat) (x : ι)
  | env (e : ε)

def next (C : Calls σ φ ι ε) (s : State σ φ) : Act φ ι ε → Option (State σ φ)
  | .start f => if C.start s.shared s.calls f then some ⟨s.shared, s.calls ++ [f]⟩ else none
  | .step i x =>
    match s.calls[i]? with
    | none => none
    | some f =>
      if (s.calls.eraseIdx i).any (C.waits f x) then
        none
      else
        (C.step s.shared f x).map fun r => ⟨r.1, s.calls.set i r.2⟩
  | .env e => (C.env s.shared e).map fun shared => ⟨shared, s.calls⟩

def machine (C : Calls σ φ ι ε) : Machine (State σ φ) (Act φ ι ε) where
  step := C.next

variable {C : Calls σ φ ι ε}

theorem next_start {s t : State σ φ} {f : φ} (h : C.next s (.start f) = some t)
    : C.start s.shared s.calls f = true ∧ t = ⟨s.shared, s.calls ++ [f]⟩ := by
  simp only [next] at h
  split at h
  . next hstart => exact ⟨hstart, by simpa using h.symm⟩
  . contradiction

theorem next_env {s t : State σ φ} {e : ε} (h : C.next s (.env e) = some t)
    : ∃ shared, C.env s.shared e = some shared ∧ t = ⟨shared, s.calls⟩ := by
  simp only [next, Option.map_eq_some_iff] at h
  obtain ⟨shared, henv, ht⟩ := h
  exact ⟨shared, henv, ht.symm⟩

theorem next_step {s t : State σ φ} {i : Nat} {x : ι} (h : C.next s (.step i x) = some t)
    : ∃ f shared f',
        s.calls[i]? = some f
          ∧ (∀ j g, j ≠ i → s.calls[j]? = some g → C.waits f x g = false)
          ∧ C.step s.shared f x = some (shared, f')
          ∧ t = ⟨shared, s.calls.set i f'⟩ := by
  simp only [next] at h
  split at h
  . contradiction
  . next f hf =>
    split at h
    . contradiction
    . next hwaits =>
      simp only [Option.map_eq_some_iff] at h
      obtain ⟨⟨shared, f'⟩, hstep, ht⟩ := h
      refine ⟨f, shared, f', hf, ?_, hstep, ht.symm⟩
      intro j g hj hg
      simp only [List.any_eq_true, not_exists, not_and, Bool.not_eq_true] at hwaits
      apply hwaits
      rw [List.mem_eraseIdx_iff_getElem?]
      exact ⟨j, hj, hg⟩

theorem getElem?_set_cases {l : List φ} {i j : Nat} {f g : φ} (h : (l.set i f)[j]? = some g)
    : (j = i ∧ g = f) ∨ (j ≠ i ∧ l[j]? = some g) := by
  by_cases hij : j = i
  . subst hij
    rw [List.getElem?_set_self'] at h
    cases hl : l[j]? with
    | none => simp [hl] at h
    | some _ =>
      simp only [hl, Functor.map, Option.map_some, Function.const_apply, Option.some.injEq] at h
      exact Or.inl ⟨rfl, h.symm⟩
  . rw [List.getElem?_set_ne (Ne.symm hij)] at h
    exact Or.inr ⟨hij, h⟩

theorem mem_set_cases {l : List φ} {i : Nat} {f g : φ} (h : g ∈ l.set i f)
    : g = f ∨ ∃ j, j ≠ i ∧ l[j]? = some g := by
  obtain ⟨j, hj⟩ := List.mem_iff_getElem?.mp h
  rcases getElem?_set_cases hj with ⟨_, rfl⟩ | ⟨hne, hj⟩
  . exact Or.inl rfl
  . exact Or.inr ⟨j, hne, hj⟩

theorem getElem?_append_cases {l : List φ} {j : Nat} {f g : φ} (h : (l ++ [f])[j]? = some g)
    : l[j]? = some g ∨ (j = l.length ∧ g = f) := by
  by_cases hj : j < l.length
  . rw [List.getElem?_append_left hj] at h
    exact Or.inl h
  . rw [List.getElem?_append_right (by omega)] at h
    have : j - l.length = 0 := by
      by_contra hne
      rw [List.getElem?_eq_none (by simp; omega)] at h
      contradiction
    simp only [this, List.length_cons, List.length_nil, Nat.zero_add, Nat.lt_add_one,
      getElem?_pos, List.getElem_cons_zero, Option.some.injEq] at h
    exact Or.inr ⟨by omega, h.symm⟩

theorem getElem?_next {s t : State σ φ} {a : Act φ ι ε} {j : Nat} {f' : φ}
    (hnext : C.next s a = some t) (hj : t.calls[j]? = some f')
    : s.calls[j]? = some f'
        ∨ (∃ x f, a = .step j x ∧ s.calls[j]? = some f
          ∧ C.step s.shared f x = some (t.shared, f'))
        ∨ (a = .start f' ∧ j = s.calls.length) := by
  cases a with
  | start f =>
    obtain ⟨_, rfl⟩ := next_start hnext
    rcases getElem?_append_cases hj with hold | ⟨hlast, rfl⟩
    . exact Or.inl hold
    . exact Or.inr (Or.inr ⟨rfl, hlast⟩)
  | step i x =>
    obtain ⟨f, shared, g, hf, _, hstep, rfl⟩ := next_step hnext
    rcases getElem?_set_cases hj with ⟨rfl, rfl⟩ | ⟨_, hj⟩
    . exact Or.inr (Or.inl ⟨x, f, rfl, hf, hstep⟩)
    . exact Or.inl hj
  | env e =>
    obtain ⟨_, _, rfl⟩ := next_env hnext
    exact Or.inl hj

theorem getElem?_of_next {s t : State σ φ} {a : Act φ ι ε} {j : Nat} {f : φ}
    (hnext : C.next s a = some t) (hj : s.calls[j]? = some f)
    : t.calls[j]? = some f
        ∨ ∃ x f', a = .step j x ∧ t.calls[j]? = some f'
          ∧ C.step s.shared f x = some (t.shared, f') := by
  have hlt := (List.getElem?_eq_some_iff.mp hj).1
  cases a with
  | start g =>
    obtain ⟨_, rfl⟩ := next_start hnext
    exact Or.inl ((List.getElem?_append_left hlt).trans hj)
  | step i x =>
    obtain ⟨g, shared, g', hg, _, hstep, rfl⟩ := next_step hnext
    by_cases hij : i = j
    . subst hij
      rw [hj, Option.some.injEq] at hg
      subst hg
      exact Or.inr ⟨x, g', rfl, List.getElem?_set_self hlt, hstep⟩
    . exact Or.inl ((List.getElem?_set_ne hij).trans hj)
  | env e =>
    obtain ⟨_, _, rfl⟩ := next_env hnext
    exact Or.inl hj

/--
The assertions of a proof outline hold: `G` of the shared state, `A` of every call, and `R` between
any two different calls.
-/
structure Outline (G : σ → Prop) (A : σ → φ → Prop) (R : σ → φ → φ → Prop) (s : State σ φ)
    : Prop where
  shared : G s.shared
  calls : ∀ (i : Nat) f, s.calls[i]? = some f → A s.shared f
  apart : ∀ (i j : Nat) f g, i ≠ j → s.calls[i]? = some f → s.calls[j]? = some g → R s.shared f g

/--
A proof outline: a call that begins satisfies its assertion, its own statements establish the next
assertion, and no statement disturbs the assertions of the other calls.
-/
structure Outlined (C : Calls σ φ ι ε) (ok : State σ φ → Act φ ι ε → Prop) (G : σ → Prop)
    (A : σ → φ → Prop) (R : σ → φ → φ → Prop) : Prop where
  symm : ∀ σ f g, R σ f g → R σ g f
  start : ∀ s f, Outline G A R s → ok s (.start f) → C.start s.shared s.calls f = true
    → A s.shared f ∧ ∀ (j : Nat) g, s.calls[j]? = some g → R s.shared f g
  own : ∀ s i x f σ' f', Outline G A R s → ok s (.step i x) → s.calls[i]? = some f
    → C.step s.shared f x = some (σ', f') → G σ' ∧ A σ' f'
  other : ∀ s i x f σ' f' j g, Outline G A R s → ok s (.step i x) → s.calls[i]? = some f
    → j ≠ i → s.calls[j]? = some g → C.waits f x g = false → C.step s.shared f x = some (σ', f')
    → A σ' g ∧ R σ' f' g
  third : ∀ s i x f σ' f' j g k h, Outline G A R s → ok s (.step i x) → s.calls[i]? = some f
    → j ≠ i → s.calls[j]? = some g → k ≠ i → s.calls[k]? = some h → j ≠ k
    → C.step s.shared f x = some (σ', f') → R σ' g h
  env : ∀ s e σ', Outline G A R s → ok s (.env e) → C.env s.shared e = some σ'
    → G σ' ∧ (∀ (i : Nat) f, s.calls[i]? = some f → A σ' f)
      ∧ ∀ (i j : Nat) f g, i ≠ j → s.calls[i]? = some f → s.calls[j]? = some g → R σ' f g

section Outlined

variable {ok : State σ φ → Act φ ι ε → Prop} {G : σ → Prop} {A : σ → φ → Prop}
variable {R : σ → φ → φ → Prop} {s t : State σ φ}

theorem Outlined.next_start (hproof : Outlined C ok G A R) (h : Outline G A R s) {f : φ}
    (hok : ok s (.start f)) (hnext : C.next s (.start f) = some t)
    : Outline G A R t := by
  obtain ⟨hstart, rfl⟩ := Calls.next_start hnext
  obtain ⟨hA, hR⟩ := hproof.start s f h hok hstart
  refine ⟨h.shared, ?_, ?_⟩
  . intro i g hg
    cases getElem?_append_cases hg with
    | inl hg => exact h.calls i g hg
    | inr heq => rw [heq.2]; exact hA
  . intro i j g g' hij hg hg'
    rcases getElem?_append_cases hg with hi | ⟨hi, hgf⟩
    . rcases getElem?_append_cases hg' with hj | ⟨_, hgf⟩
      . exact h.apart i j g g' hij hi hj
      . rw [hgf]
        exact hproof.symm _ _ _ (hR i g hi)
    . rcases getElem?_append_cases hg' with hj | ⟨hj, _⟩
      . rw [hgf]
        exact hR j g' hj
      . omega

theorem Outlined.next_step (hproof : Outlined C ok G A R) (h : Outline G A R s) {i : Nat} {x : ι}
    (hok : ok s (.step i x)) (hnext : C.next s (.step i x) = some t)
    : Outline G A R t := by
  obtain ⟨f, shared, f', hf, hwaits, hstep, rfl⟩ := Calls.next_step hnext
  obtain ⟨hG, hA⟩ := hproof.own s i x f shared f' h hok hf hstep
  have hother : ∀ (j : Nat) g, j ≠ i → s.calls[j]? = some g → A shared g ∧ R shared f' g := by
    intro j g hj hg
    exact hproof.other s i x f shared f' j g h hok hf hj hg (hwaits j g hj hg) hstep
  refine ⟨hG, ?_, ?_⟩
  . intro j g hg
    rcases getElem?_set_cases hg with ⟨_, rfl⟩ | ⟨hj, hg⟩
    . exact hA
    . exact (hother j g hj hg).1
  . intro j k g g' hjk hg hg'
    rcases getElem?_set_cases hg with ⟨hj, hgf⟩ | ⟨hj, hgj⟩
    . rcases getElem?_set_cases hg' with ⟨hk, _⟩ | ⟨hk, hgk⟩
      . omega
      . rw [hgf]
        exact (hother k g' hk hgk).2
    . rcases getElem?_set_cases hg' with ⟨_, hgf⟩ | ⟨hk, hgk⟩
      . rw [hgf]
        exact hproof.symm _ _ _ (hother j g hj hgj).2
      . exact hproof.third s i x f shared f' j g k g' h hok hf hj hgj hk hgk hjk hstep

theorem Outlined.next_env (hproof : Outlined C ok G A R) (h : Outline G A R s) {e : ε}
    (hok : ok s (.env e)) (hnext : C.next s (.env e) = some t)
    : Outline G A R t := by
  obtain ⟨shared, henv, rfl⟩ := Calls.next_env hnext
  obtain ⟨hG, hA, hR⟩ := hproof.env s e shared h hok henv
  exact ⟨hG, hA, hR⟩

/--
The assertions of a proof outline hold in every state of a run.
-/
theorem Outlined.run (hproof : Outlined C ok G A R) (hrun : C.machine.Run ok s t)
    (hinit : Outline G A R s)
    : Outline G A R t := by
  apply hrun.invariant hinit
  intro u a v hu hok hnext
  cases a with
  | start f => exact hproof.next_start hu hok hnext
  | step i x => exact hproof.next_step hu hok hnext
  | env e => exact hproof.next_env hu hok hnext

end Outlined

theorem forall_calls {ok : State σ φ → Act φ ι ε → Prop} {K : State σ φ → Prop} {J : σ → φ → Prop}
    {s t : State σ φ} (hrun : C.machine.Run ok s t) (hknown : ∀ u, C.machine.Run ok s u → K u)
    (hinit : ∀ f ∈ s.calls, J s.shared f)
    (hstart : ∀ u f, K u → ok u (.start f) → C.start u.shared u.calls f = true → J u.shared f)
    (hown : ∀ u i x f σ' f', K u → ok u (.step i x) → u.calls[i]? = some f → J u.shared f
      → C.step u.shared f x = some (σ', f') → J σ' f')
    (hstable : ∀ u a v f, K u → ok u a → C.next u a = some v → J u.shared f → J v.shared f)
    : ∀ f ∈ t.calls, J t.shared f := by
  refine hrun.invariant_of (I := fun t => ∀ f ∈ t.calls, J t.shared f) hknown hinit ?_
  intro u a v hu _ h hok hnext f hf
  obtain ⟨j, hj⟩ := List.mem_iff_getElem?.mp hf
  cases a with
  | start g =>
    obtain ⟨hstart', rfl⟩ := Calls.next_start hnext
    rcases getElem?_append_cases hj with hj | ⟨_, rfl⟩
    . exact h f (List.mem_of_getElem? hj)
    . exact hstart u f hu hok hstart'
  | step i x =>
    have hnext' := hnext
    obtain ⟨g, shared, g', hg, _, hstep, rfl⟩ := Calls.next_step hnext
    rcases getElem?_set_cases hj with ⟨_, rfl⟩ | ⟨_, hj⟩
    . exact hown u i x g shared f hu hok hg (h g (List.mem_of_getElem? hg)) hstep
    . exact hstable u _ _ f hu hok hnext' (h f (List.mem_of_getElem? hj))
  | env e =>
    have hnext' := hnext
    obtain ⟨shared, _, rfl⟩ := Calls.next_env hnext
    exact hstable u _ _ f hu hok hnext' (h f hf)

theorem forall_pairs {ok : State σ φ → Act φ ι ε → Prop} {K : State σ φ → Prop} {R : φ → φ → Prop}
    {s t : State σ φ} (hrun : C.machine.Run ok s t) (hknown : ∀ u, C.machine.Run ok s u → K u)
    (hsymm : ∀ f g, R f g → R g f)
    (hinit : ∀ (i j : Nat) f g, i ≠ j → s.calls[i]? = some f → s.calls[j]? = some g → R f g)
    (hstart : ∀ u f, K u → ok u (.start f) → C.start u.shared u.calls f = true
      → ∀ g ∈ u.calls, R f g)
    (hstep : ∀ u i x f σ' f' j g, K u → ok u (.step i x) → u.calls[i]? = some f → j ≠ i
      → u.calls[j]? = some g → R f g → C.step u.shared f x = some (σ', f') → R f' g)
    : ∀ (i j : Nat) f g, i ≠ j → t.calls[i]? = some f → t.calls[j]? = some g → R f g := by
  refine hrun.invariant_of (K := K) (I := fun t => ∀ (i j : Nat) f g, i ≠ j → t.calls[i]? = some f
    → t.calls[j]? = some g → R f g) hknown hinit ?_
  intro u a v hu _ h hok hnext i j f g hij hf hg
  cases a with
  | start c =>
    obtain ⟨hstart', rfl⟩ := Calls.next_start hnext
    have hnew := hstart u c hu hok hstart'
    rcases getElem?_append_cases hf with hf' | ⟨hi, rfl⟩
    . rcases getElem?_append_cases hg with hg' | ⟨_, rfl⟩
      . exact h i j f g hij hf' hg'
      . exact hsymm _ _ (hnew f (List.mem_of_getElem? hf'))
    . rcases getElem?_append_cases hg with hg' | ⟨hj, _⟩
      . exact hnew g (List.mem_of_getElem? hg')
      . omega
  | step k x =>
    obtain ⟨c, shared, c', hc, _, hstep', rfl⟩ := Calls.next_step hnext
    rcases getElem?_set_cases hf with ⟨hi, rfl⟩ | ⟨hi, hf'⟩
    . rcases getElem?_set_cases hg with ⟨hj, _⟩ | ⟨hj, hg'⟩
      . omega
      . exact hstep u k x c shared f j g hu hok hc hj hg' (h k j c g (Ne.symm hj) hc hg') hstep'
    . rcases getElem?_set_cases hg with ⟨hj, rfl⟩ | ⟨_, hg'⟩
      . exact hsymm _ _
          (hstep u k x c shared g i f hu hok hc hi hf' (h k i c f (Ne.symm hi) hc hf') hstep')
      . exact h i j f g hij hf' hg'
  | env e =>
    obtain ⟨_, _, rfl⟩ := Calls.next_env hnext
    exact h i j f g hij hf hg

def changed [DecidableEq τ] (view : σ → τ) (i : Nat) (s t : State σ φ) : Act φ ι ε → List (τ × τ)
  | .step j _ =>
    if j = i ∧ view s.shared ≠ view t.shared then [(view s.shared, view t.shared)] else []
  | _ => []

/--
A run, and what the statements of call `i` have changed in `view` one after the other.
-/
inductive Changes [DecidableEq τ] (C : Calls σ φ ι ε) (ok : State σ φ → Act φ ι ε → Prop)
    (view : σ → τ) (i : Nat) (s : State σ φ) : State σ φ → List (τ × τ) → Prop where
  | refl : Changes C ok view i s s []
  | tail {t u : State σ φ} {l : List (τ × τ)} {a : Act φ ι ε} : Changes C ok view i s t l → ok t a
      → C.next t a = some u → Changes C ok view i s u (l ++ changed view i t u a)

section Changes

variable [DecidableEq τ] {ok : State σ φ → Act φ ι ε → Prop} {view : σ → τ} {i : Nat}
variable {s t : State σ φ} {l : List (τ × τ)}

theorem Changes.run (h : Changes C ok view i s t l) : C.machine.Run ok s t := by
  induction h with
  | refl => exact .refl
  | tail _ hok hnext ih => exact ih.tail hok hnext

theorem exists_changes (h : C.machine.Run ok s t) : ∃ l, Changes C ok view i s t l := by
  induction h with
  | refl => exact ⟨[], .refl⟩
  | tail _ hok hnext ih =>
    obtain ⟨l, hl⟩ := ih
    exact ⟨_, hl.tail hok hnext⟩

theorem Changes.invariant {J : φ → List (τ × τ) → Prop} {K : State σ φ → Prop}
    (h : Changes C ok view i s t l) (hinit : s.calls[i]? = none)
    (hknown : ∀ u, C.machine.Run ok s u → K u)
    (hstart : ∀ u f, K u → ok u (.start f) → C.start u.shared u.calls f = true → J f [])
    (hstep : ∀ u x f σ' f' l, K u → ok u (.step i x) → u.calls[i]? = some f
      → C.step u.shared f x = some (σ', f') → J f l
      → J f' (l ++ if view u.shared ≠ view σ' then [(view u.shared, view σ')] else []))
    : (t.calls[i]? = none → l = []) ∧ ∀ f, t.calls[i]? = some f → J f l := by
  induction h with
  | refl =>
    refine ⟨fun _ => rfl, fun f hf => ?_⟩
    rw [hinit] at hf
    contradiction
  | @tail t u l a h hok hnext ih =>
    cases a with
    | start g =>
      obtain ⟨hstart', rfl⟩ := Calls.next_start hnext
      simp only [changed, List.append_nil]
      refine ⟨fun hnone => ?_, fun f hf => ?_⟩
      . refine ih.1 ?_
        rw [List.getElem?_eq_none_iff] at hnone ⊢
        rw [List.length_append] at hnone
        omega
      . rcases getElem?_append_cases hf with hf | ⟨hi, rfl⟩
        . exact ih.2 f hf
        . rw [ih.1 (List.getElem?_eq_none_iff.mpr (Nat.le_of_eq hi.symm))]
          exact hstart t f (hknown t h.run) hok hstart'
    | step j x =>
      obtain ⟨g, shared, g', hg, _, hstep', rfl⟩ := Calls.next_step hnext
      refine ⟨fun hnone => ?_, fun f hf => ?_⟩
      . rw [List.getElem?_eq_none_iff, List.length_set, ← List.getElem?_eq_none_iff] at hnone
        have hne : j ≠ i := by
          rintro rfl
          rw [hnone] at hg
          contradiction
        simp [changed, hne, ih.1 hnone]
      . rcases getElem?_set_cases hf with ⟨rfl, rfl⟩ | ⟨hne, hf⟩
        . have := hstep t x g shared f l (hknown t h.run) hok hg hstep' (ih.2 g hg)
          simpa only [changed, true_and] using this
        . simp [changed, Ne.symm hne, ih.2 f hf]
    | env e =>
      obtain ⟨_, _, rfl⟩ := Calls.next_env hnext
      simpa only [changed, List.append_nil] using ih

theorem Changes.eq_nil {P : φ → Prop} {K : State σ φ → Prop} (h : Changes C ok view i s t l)
    (hinit : s.calls[i]? = none) (hknown : ∀ u, C.machine.Run ok s u → K u)
    (hstep : ∀ u x f σ' f', K u → ok u (.step i x) → u.calls[i]? = some f
      → C.step u.shared f x = some (σ', f') → P f' → P f ∧ view σ' = view u.shared)
    : ∀ f, t.calls[i]? = some f → P f → l = [] := by
  refine (h.invariant (J := fun f l => P f → l = []) hinit hknown (fun _ _ _ _ _ _ => rfl) ?_).2
  intro u x f σ' f' l hu hok hf hstep' hnil hP
  obtain ⟨hP', hview⟩ := hstep u x f σ' f' hu hok hf hstep' hP
  simp [hnil hP', hview]

end Changes

section Embeds

def State.map (f : φ → ψ) (s : State σ φ) : State σ ψ :=
  ⟨s.shared, s.calls.map f⟩

def Act.map (f : φ → ψ) : Act φ ι ε → Act ψ ι ε
  | start c => start (f c)
  | step i x => step i x
  | env e => env e

def Act.Starts (P : φ → Prop) : Act φ ι ε → Prop
  | start c => P c
  | _ => True

/--
Calls with `P` stay so, and do in `D` what they do in `C`.
-/
structure Embeds (C : Calls σ φ ι ε) (D : Calls σ ψ ι ε) (f : φ → ψ) (P : φ → Prop) : Prop where
  start : ∀ σ calls c, (∀ d ∈ calls, P d) → P c → C.start σ calls c = true
    → D.start σ (calls.map f) (f c) = true
  waits : ∀ c x d, P c → P d → C.waits c x d = false → D.waits (f c) x (f d) = false
  step : ∀ σ c x σ' c', P c → C.step σ c x = some (σ', c')
    → P c' ∧ D.step σ (f c) x = some (σ', f c')
  env : ∀ σ e σ', C.env σ e = some σ' → D.env σ e = some σ'

variable {D : Calls σ ψ ι ε} {f : φ → ψ} {P : φ → Prop} {s t : State σ φ}

theorem Embeds.next_step (h : Embeds C D f P) (hs : ∀ c ∈ s.calls, P c) {i : Nat} {x : ι}
    (hnext : C.next s (.step i x) = some t)
    : D.next (s.map f) (.step i x) = some (t.map f) ∧ ∀ c ∈ t.calls, P c := by
  obtain ⟨c, shared, c', hc, hwaits, hstep, rfl⟩ := Calls.next_step hnext
  have hP := hs c (List.mem_of_getElem? hc)
  obtain ⟨hP', hstep'⟩ := h.step _ _ _ _ _ hP hstep
  constructor
  . have hget : (s.map f).calls[i]? = some (f c) := by
      simp only [State.map, List.getElem?_map, hc, Option.map_some]
    have hnone : ((s.map f).calls.eraseIdx i).any (D.waits (f c) x) = false := by
      rw [List.any_eq_false]
      intro e he
      obtain ⟨j, hj, hget⟩ := List.mem_eraseIdx_iff_getElem?.mp he
      rw [State.map, List.getElem?_map, Option.map_eq_some_iff] at hget
      obtain ⟨d, hd, rfl⟩ := hget
      rw [h.waits c x d hP (hs d (List.mem_of_getElem? hd)) (hwaits j d hj hd)]
      exact Bool.false_ne_true
    simp only [next, hget, hnone, Bool.false_eq_true, if_false]
    rw [show (s.map f).shared = s.shared from rfl, hstep']
    simp [State.map]
  . intro d hd
    rcases List.mem_or_eq_of_mem_set hd with hd | rfl
    . exact hs d hd
    . exact hP'

theorem Embeds.next (h : Embeds C D f P) (hs : ∀ c ∈ s.calls, P c) {a : Act φ ι ε}
    (ha : a.Starts P) (hnext : C.next s a = some t)
    : D.next (s.map f) (a.map f) = some (t.map f) ∧ ∀ c ∈ t.calls, P c := by
  cases a with
  | start c =>
    obtain ⟨hstart, rfl⟩ := Calls.next_start hnext
    have hstart' := h.start _ _ _ hs ha hstart
    refine ⟨by simp [Act.map, State.map, Calls.next, hstart'], ?_⟩
    intro d hd
    rcases List.mem_append.mp hd with hd | hd
    . exact hs d hd
    . rw [List.mem_singleton.mp hd]
      exact ha
  | step i x => exact h.next_step hs hnext
  | env e =>
    obtain ⟨shared, henv, rfl⟩ := Calls.next_env hnext
    exact ⟨by simp [Act.map, State.map, Calls.next, h.env _ _ _ henv], hs⟩

theorem Embeds.changes [DecidableEq τ] {view : σ → τ} {i : Nat} {l : List (τ × τ)}
    {ok : State σ φ → Act φ ι ε → Prop} {ok' : State σ ψ → Act ψ ι ε → Prop}
    (h : Embeds C D f P) (hs : ∀ c ∈ s.calls, P c) (hstarts : ∀ u a, ok u a → a.Starts P)
    (hok : ∀ u a, (∀ c ∈ u.calls, P c) → ok u a → ok' (u.map f) (a.map f))
    (hrun : Changes C ok view i s t l)
    : Changes D ok' view i (s.map f) (t.map f) l ∧ ∀ c ∈ t.calls, P c := by
  induction hrun with
  | refl => exact ⟨.refl, hs⟩
  | @tail t u l a hrun hallowed hnext ih =>
    obtain ⟨hnext', hu⟩ := h.next ih.2 (hstarts _ _ hallowed) hnext
    have hchanged : changed view i t u a = changed view i (t.map f) (u.map f) (a.map f) := by
      cases a <;> rfl
    rw [hchanged]
    exact ⟨ih.1.tail (hok _ _ ih.2 hallowed) hnext', hu⟩

theorem Embeds.run {ok : State σ φ → Act φ ι ε → Prop} {ok' : State σ ψ → Act ψ ι ε → Prop}
    (h : Embeds C D f P) (hs : ∀ c ∈ s.calls, P c) (hstarts : ∀ u a, ok u a → a.Starts P)
    (hok : ∀ u a, (∀ c ∈ u.calls, P c) → ok u a → ok' (u.map f) (a.map f))
    (hrun : C.machine.Run ok s t)
    : D.machine.Run ok' (s.map f) (t.map f) ∧ ∀ c ∈ t.calls, P c := by
  induction hrun with
  | refl => exact ⟨.refl, hs⟩
  | tail hrun hallowed hnext ih =>
    obtain ⟨hnext', hu⟩ := h.next ih.2 (hstarts _ _ hallowed) hnext
    exact ⟨ih.1.tail (hok _ _ ih.2 hallowed) hnext', hu⟩

end Embeds

end Calls

end Concurrency
