import CouponIssuance.Concurrency.Machine

/-!
This module contains programs that run without interference and may throw. Over a state that is read
as cells and a log, a program that acts on one cell does not depend on the others, and therefore
programs on different cells, one after the other, do what each of them does alone. A machine that is
cut into steps implements a program when it comes from one control point to another one with what the
program leaves.
-/

namespace Concurrency

/-- What a program has done stays done when it throws. -/
abbrev Program (ε σ : Type u) := ExceptT ε (StateM σ)

/-- The state as cells and a log, the earliest entry first -/
structure Cells (σ : Type u) (κ : Type v) (τ : Type w) (μ : Type x) where
  cell : σ → κ → τ
  log : σ → List μ

def Cells.Alike (V : Cells σ κ τ μ) (k : κ) (s s' t t' : σ) : Prop :=
  V.cell s' k = V.cell t' k ∧ ∃ l, V.log s' = V.log s ++ l ∧ V.log t' = V.log t ++ l

namespace Cells

variable {V : Cells σ κ τ μ} {k : κ} {s s' s'' t t' t'' : σ}

theorem Alike.refl (h : V.cell s k = V.cell t k) : V.Alike k s s t t :=
  ⟨h, [], (List.append_nil _).symm, (List.append_nil _).symm⟩

theorem Alike.trans (h : V.Alike k s s' t t') (h' : V.Alike k s' s'' t' t'')
    : V.Alike k s s'' t t'' := by
  obtain ⟨_, l, hs, ht⟩ := h
  obtain ⟨hcell, l', hs', ht'⟩ := h'
  refine ⟨hcell, l ++ l', ?_, ?_⟩
  . rw [hs', hs, List.append_assoc]
  . rw [ht', ht, List.append_assoc]

end Cells

namespace Program

variable {ε σ α β : Type u}

def exec (x : Program ε σ α) (s : σ) : Except ε α × σ :=
  (ExceptT.run x).run s

section Exec

variable {s : σ}

@[simp]
theorem exec_pure (a : α) : (pure a : Program ε σ α).exec s = (.ok a, s) := rfl

@[simp]
theorem exec_throw (e : ε) : (throw e : Program ε σ α).exec s = (.error e, s) := rfl

theorem exec_get : (get : Program ε σ σ).exec s = (.ok s, s) := rfl

theorem exec_modify (f : σ → σ) : (modify f : Program ε σ PUnit).exec s = (.ok ⟨⟩, f s) := rfl

theorem exec_bind (x : Program ε σ α) (f : α → Program ε σ β)
    : (x >>= f).exec s
        = match x.exec s with
          | (.ok a, t) => (f a).exec t
          | (.error e, t) => (.error e, t) := by
  change (ExceptT.bindCont f (x.exec s).1).run (x.exec s).2 = _
  rcases x.exec s with ⟨_ | _, _⟩ <;> rfl

theorem exec_tryCatch (x : Program ε σ α) (handle : ε → Program ε σ α)
    : (tryCatch x handle).exec s
        = match x.exec s with
          | (.ok a, t) => (.ok a, t)
          | (.error e, t) => (handle e).exec t := by
  have h : (tryCatch x handle).exec s
      = (match (x.exec s).1 with
        | .ok a => pure (.ok a)
        | .error e => (handle e).run : StateM σ (Except ε α)).run (x.exec s).2 := rfl
  rw [h]
  rcases x.exec s with ⟨_ | _, _⟩ <;> rfl

theorem exec_tryFinally (x : Program ε σ α) (y : Program ε σ β)
    : (tryFinally x y).exec s
        = match x.exec s with
          | (r, t) =>
            match y.exec t with
            | (.ok _, u) => (r, u)
            | (.error e, u) => (.error e, u) := by
  unfold tryFinally exec
  simp only [ExceptT.run_map, tryFinally', ExceptT.run_mk, StateT.run_map, StateT.run_bind]
  simp only [StateT.run, bind, ExceptT.run, Functor.map]
  rcases x s with ⟨_ | _, t⟩ <;> dsimp only <;> rcases y t with ⟨_ | _, _⟩ <;> rfl

end Exec

/-- A program that reads and writes no cell but the one of `k` -/
structure ActsOn (V : Cells σ κ τ μ) (k : κ) (x : Program ε σ α) : Prop where
  own : ∀ s t, V.cell s k = V.cell t k
    → (x.exec s).1 = (x.exec t).1 ∧ V.Alike k s (x.exec s).2 t (x.exec t).2
  frame : ∀ s j, j ≠ k → V.cell (x.exec s).2 j = V.cell s j

section ActsOn

variable {V : Cells σ κ τ μ} {k : κ} {x : Program ε σ α}

theorem ActsOn.pure (a : α) : (Pure.pure a : Program ε σ α).ActsOn V k where
  own _ _ h := ⟨rfl, .refl h⟩
  frame _ _ _ := rfl

theorem ActsOn.throw (e : ε) : (throw e : Program ε σ α).ActsOn V k where
  own _ _ h := ⟨rfl, .refl h⟩
  frame _ _ _ := rfl

theorem ActsOn.bind {f : α → Program ε σ β} (hx : x.ActsOn V k) (hf : ∀ a, (f a).ActsOn V k)
    : (x >>= f).ActsOn V k where
  own s t h := by
    obtain ⟨hresult, halike⟩ := hx.own s t h
    simp only [exec_bind]
    rcases hs : x.exec s with ⟨e | a, s'⟩ <;> rcases ht : x.exec t with ⟨e' | a', t'⟩
      <;> simp only [hs, ht] at hresult halike ⊢
    . cases hresult
      exact ⟨rfl, halike⟩
    . contradiction
    . contradiction
    . cases hresult
      obtain ⟨hresult', halike'⟩ := (hf a).own s' t' halike.1
      exact ⟨hresult', halike.trans halike'⟩
  frame s j hj := by
    have hframe := hx.frame s j hj
    rw [exec_bind]
    rcases hs : x.exec s with ⟨_ | a, s'⟩ <;> rw [hs] at hframe
    . exact hframe
    . exact ((hf a).frame s' j hj).trans hframe

theorem ActsOn.tryCatch {handle : ε → Program ε σ α} (hx : x.ActsOn V k)
    (hhandle : ∀ e, (handle e).ActsOn V k)
    : (tryCatch x handle).ActsOn V k where
  own s t h := by
    obtain ⟨hresult, halike⟩ := hx.own s t h
    simp only [exec_tryCatch]
    rcases hs : x.exec s with ⟨e | a, s'⟩ <;> rcases ht : x.exec t with ⟨e' | a', t'⟩
      <;> simp only [hs, ht] at hresult halike ⊢
    . cases hresult
      obtain ⟨hresult', halike'⟩ := (hhandle e).own s' t' halike.1
      exact ⟨hresult', halike.trans halike'⟩
    . contradiction
    . contradiction
    . exact ⟨hresult, halike⟩
  frame s j hj := by
    have hframe := hx.frame s j hj
    rw [exec_tryCatch]
    rcases hs : x.exec s with ⟨e | _, s'⟩ <;> rw [hs] at hframe
    . exact ((hhandle e).frame s' j hj).trans hframe
    . exact hframe

def added (V : Cells σ κ τ μ) (x : Program ε σ α) (s : σ) : List μ :=
  (V.log (x.exec s).2).drop (V.log s).length

theorem ActsOn.log (hx : x.ActsOn V k) (s : σ)
    : V.log (x.exec s).2 = V.log s ++ x.added V s := by
  obtain ⟨_, _, l, hl, _⟩ := hx.own s s rfl
  rw [added, hl, List.drop_left]

theorem ActsOn.added_eq (hx : x.ActsOn V k) {s t : σ} (h : V.cell s k = V.cell t k)
    : x.added V s = x.added V t := by
  obtain ⟨_, _, l, hs, ht⟩ := hx.own s t h
  rw [added, added, hs, ht, List.drop_left, List.drop_left]

end ActsOn

section ForM

variable {V : Cells σ κ τ μ} {body : ι → Program ε σ PUnit} {key : ι → κ} {l : List ι}

theorem forM_exec_cons (hok : ∀ i s, ((body i).exec s).1 = .ok ⟨⟩) (i : ι) (l : List ι) (s : σ)
    : (forM (i :: l) body).exec s = (forM l body).exec ((body i).exec s).2 := by
  have hi := hok i s
  rw [List.forM_cons, exec_bind]
  rcases hexec : (body i).exec s with ⟨_ | _, t⟩
  . rw [hexec] at hi
    contradiction
  . rfl

/--
The rounds of a loop that act on different cells do not depend on each other.
-/
theorem forM_independent (hacts : ∀ i, (body i).ActsOn V (key i))
    (hok : ∀ i s, ((body i).exec s).1 = .ok ⟨⟩) (hnodup : (l.map key).Nodup) (s : σ)
    : (∀ i ∈ l, V.cell ((forM l body).exec s).2 (key i) = V.cell ((body i).exec s).2 (key i))
        ∧ (∀ k ∉ l.map key, V.cell ((forM l body).exec s).2 k = V.cell s k)
        ∧ V.log ((forM l body).exec s).2 = V.log s ++ l.flatMap fun i => (body i).added V s := by
  induction l generalizing s with
  | nil => exact ⟨fun _ h => (List.not_mem_nil h).elim, fun _ _ => rfl, (List.append_nil _).symm⟩
  | cons i l ih =>
    rw [List.map_cons, List.nodup_cons] at hnodup
    obtain ⟨hi, hnodup⟩ := hnodup
    have hcell : ∀ j ∈ l, V.cell ((body i).exec s).2 (key j) = V.cell s (key j) := by
      intro j hj
      apply (hacts i).frame
      intro heq
      exact hi (heq ▸ List.mem_map_of_mem hj)
    rw [forM_exec_cons hok]
    obtain ⟨hown, hframe, hlog⟩ := ih hnodup ((body i).exec s).2
    refine ⟨?_, ?_, ?_⟩
    . intro j hj
      rcases List.mem_cons.mp hj with rfl | hj
      . exact hframe _ hi
      . exact (hown j hj).trans ((hacts j).own _ _ (hcell j hj)).2.1
    . intro k hk
      rw [List.map_cons, List.mem_cons, not_or] at hk
      exact (hframe k hk.2).trans ((hacts i).frame s k hk.1)
    . have hadded : l.flatMap (fun j => (body j).added V ((body i).exec s).2)
          = l.flatMap fun j => (body j).added V s := by
        apply List.flatMap_congr
        intro j hj
        exact (hacts j).added_eq (hcell j hj)
      rw [hlog, hadded, (hacts i).log, List.flatMap_cons, List.append_assoc]

end ForM

end Program

/--
`M.Implements ok At pc x k`: from the control point `pc` the machine does what `x` does, and comes to
the control point that `k` has for the value or the error. `At` relates both states.
-/
def Machine.Implements {ε σ α : Type u} (M : Machine S A) (ok : S → A → Prop)
    (At : σ → π → S → Prop) (pc : π) (x : Program ε σ α) (k : Except ε α → π) : Prop :=
  ∀ σ s, At σ pc s → ∃ t, M.Run ok s t ∧ At (x.exec σ).2 (k (x.exec σ).1) t

namespace Machine.Implements

variable {ε σ α β : Type u} {M : Machine S A} {ok : S → A → Prop} {At : σ → π → S → Prop} {pc : π}

theorem pure {a : α} {k : Except ε α → π} (h : k (.ok a) = pc)
    : M.Implements ok At pc (Pure.pure a : Program ε σ α) k :=
  fun _ s hat => ⟨s, .refl, h ▸ hat⟩

theorem throw {e : ε} {k : Except ε α → π} (h : k (.error e) = pc)
    : M.Implements ok At pc (throw e : Program ε σ α) k :=
  fun _ s hat => ⟨s, .refl, h ▸ hat⟩

theorem bind {x : Program ε σ α} {f : α → Program ε σ β} {k : Except ε α → π}
    {k' : Except ε β → π} (hx : M.Implements ok At pc x k)
    (hf : ∀ a, (∃ σ, (x.exec σ).1 = .ok a) → M.Implements ok At (k (.ok a)) (f a) k')
    (herror : ∀ e, k (.error e) = k' (.error e))
    : M.Implements ok At pc (x >>= f) k' := by
  intro σ s h
  obtain ⟨t, hrun, ht⟩ := hx σ s h
  rw [Program.exec_bind]
  rcases hexec : x.exec σ with ⟨e | a, τ⟩ <;> rw [hexec] at ht
  . exact ⟨t, hrun, herror e ▸ ht⟩
  . obtain ⟨u, hrun', hu⟩ := hf a ⟨σ, by rw [hexec]⟩ τ t ht
    exact ⟨u, hrun.trans hrun', hu⟩

theorem tryCatch {x : Program ε σ α} {handle : ε → Program ε σ α} {k k' : Except ε α → π}
    (hx : M.Implements ok At pc x k) (hok : ∀ a, k (.ok a) = k' (.ok a))
    (hhandle : ∀ e, M.Implements ok At (k (.error e)) (handle e) k')
    : M.Implements ok At pc (tryCatch x handle) k' := by
  intro σ s h
  obtain ⟨t, hrun, ht⟩ := hx σ s h
  rw [Program.exec_tryCatch]
  rcases hexec : x.exec σ with ⟨e | a, τ⟩ <;> rw [hexec] at ht
  . obtain ⟨u, hrun', hu⟩ := hhandle e τ t ht
    exact ⟨u, hrun.trans hrun', hu⟩
  . exact ⟨t, hrun, hok a ▸ ht⟩

end Machine.Implements

end Concurrency
