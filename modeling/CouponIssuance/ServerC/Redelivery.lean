import CouponIssuance.ServerC.Lemmas.Rows

/-!
This module contains what a second delivery of a request does: nothing, once a delivery for the same
pair has been completed.
-/

namespace ServerC

/--
One delivery of a request, with the outcomes of the statements that its call awaits. A call that is
left behind in the middle of its transaction has no effect.
-/
structure Delivery where
  request : CouponIssueRequestPayload
  inputs : List Input

namespace Process

def init (request : CouponIssueRequestPayload) : Process where
  request := request
  tx := .empty
  pc := .existsByUserIdAndCouponTypeId

def run (σ : Shared) (p : Process) : List Input → Shared × Process
  | [] => (σ, p)
  | x :: inputs =>
    match p.step σ x with
    | some (σ', p') => p'.run σ' inputs
    | none => (σ, p)

end Process

namespace Delivery

def pair (d : Delivery) : JsNumber × JsNumber :=
  (d.request.userId, d.request.couponTypeId)

def process (σ : Shared) (d : Delivery) : Shared × Process :=
  (Process.init d.request).run σ d.inputs

def processAll (σ : Shared) (deliveries : List Delivery) : Shared :=
  deliveries.foldl (fun σ d => (d.process σ).1) σ

def Completed (σ : Shared) (deliveries : List Delivery) (pair : JsNumber × JsNumber) : Prop :=
  ∃ before d after, deliveries = before ++ d :: after ∧ d.pair = pair
    ∧ (d.process (processAll σ before)).2.pc = .returned

/--
The second list is the first one with further deliveries, each of them after a completed delivery for
the same pair.
-/
inductive Redelivered (σ : Shared) (deliveries : List Delivery) : List Delivery → Prop where
  | refl : Redelivered σ deliveries deliveries
  | insert {before after : List Delivery} (h : Redelivered σ deliveries (before ++ after))
      (d : Delivery) (hdone : Completed σ before d.pair)
      : Redelivered σ deliveries (before ++ d :: after)

end Delivery

section Exists

variable {σ σ' : Shared} {p p' : Process} {x : Input} {userId couponTypeId : JsNumber}

theorem Process.Moves.exists_of_exists (h : p.Moves σ σ' x p')
    (hexists : σ.db.existsByUserIdAndCouponTypeId userId couponTypeId = true)
    : σ'.db.existsByUserIdAndCouponTypeId userId couponTypeId = true := by
  cases h with
  | committed now draws check hpc hσ =>
    subst hσ
    exact Db.exists_commit _ hexists
  | lost now check hpc hσ =>
    subst hσ
    exact Db.exists_commit _ hexists
  | _ => subst_vars; exact hexists

theorem Process.run_settled {inputs : List Input} (h : p.Settled σ.db)
    : (p.run σ inputs).2.Settled (p.run σ inputs).1.db
        ∧ (p.run σ inputs).2.request = p.request
        ∧ ∀ userId couponTypeId, σ.db.existsByUserIdAndCouponTypeId userId couponTypeId = true
            → (p.run σ inputs).1.db.existsByUserIdAndCouponTypeId userId couponTypeId = true := by
  induction inputs generalizing σ p with
  | nil => exact ⟨h, rfl, fun _ _ hexists => hexists⟩
  | cons x inputs ih =>
    unfold run
    split
    . next σ' p' hstep =>
      have hmoves := moves_of_step hstep
      obtain ⟨hsettled, hrequest, hkept⟩ := ih (step_settled h hmoves)
      exact ⟨hsettled, hrequest.trans hmoves.request, fun _ _ hexists =>
        hkept _ _ (hmoves.exists_of_exists hexists)⟩
    . exact ⟨h, rfl, fun _ _ hexists => hexists⟩

structure Process.IsIdle (p : Process) : Prop where
  pc : p.pc = .existsByUserIdAndCouponTypeId ∨ p.pc = .commit false ∨ p.pc.isOver = true
  writes : p.tx.writes = []

theorem Process.isIdle_abort {pc : ProcessPc} (hover : pc.isOver = true)
    : (p.abort pc).IsIdle :=
  ⟨Or.inr (Or.inr hover), rfl⟩

theorem Process.step_idle (h : p.IsIdle)
    (hexists : σ.db.existsByUserIdAndCouponTypeId p.request.userId p.request.couponTypeId = true)
    (hstep : p.step σ x = some (σ', p'))
    : σ' = σ ∧ p'.IsIdle := by
  have hcommit : σ.db.commit p.tx.writes = σ.db := by
    rw [h.writes]
    rfl
  rcases h.pc with hpc | hpc | hover
  . cases x with
    | ok now draws =>
      simp only [step, hpc, hexists, ↓reduceIte, Option.some.injEq, Prod.mk.injEq] at hstep
      rw [← hstep.1, ← hstep.2]
      exact ⟨rfl, Or.inr (Or.inl rfl), h.writes⟩
    | fail executed now =>
      simp only [step, hpc, Option.some.injEq, Prod.mk.injEq] at hstep
      rw [← hstep.1, ← hstep.2]
      exact ⟨rfl, isIdle_abort rfl⟩
    | crash =>
      simp only [step, hpc, Option.some.injEq, Prod.mk.injEq] at hstep
      rw [← hstep.1, ← hstep.2]
      exact ⟨rfl, isIdle_abort rfl⟩
  . cases x with
    | ok now draws =>
      simp only [step, hpc, hcommit, Option.some.injEq, Prod.mk.injEq] at hstep
      rw [← hstep.1, ← hstep.2]
      exact ⟨rfl, isIdle_abort rfl⟩
    | fail executed now =>
      simp only [step, hpc, hcommit, ite_self, Option.some.injEq, Prod.mk.injEq] at hstep
      rw [← hstep.1, ← hstep.2]
      exact ⟨rfl, isIdle_abort rfl⟩
    | crash =>
      simp only [step, hpc, Option.some.injEq, Prod.mk.injEq] at hstep
      rw [← hstep.1, ← hstep.2]
      exact ⟨rfl, isIdle_abort rfl⟩
  . have hnone : p.step σ x = none := by
      cases hpc : p.pc <;> simp only [hpc, ProcessPc.isOver] at hover <;> try contradiction
      all_goals cases x <;> simp only [step, hpc]
    rw [hnone] at hstep
    contradiction

theorem Process.run_idle {inputs : List Input} (h : p.IsIdle)
    (hexists : σ.db.existsByUserIdAndCouponTypeId p.request.userId p.request.couponTypeId = true)
    : (p.run σ inputs).1 = σ := by
  induction inputs generalizing σ p with
  | nil => rfl
  | cons x inputs ih =>
    unfold run
    split
    . next σ' p' hstep =>
      obtain ⟨rfl, hidle⟩ := step_idle h hexists hstep
      have hrequest := (moves_of_step hstep).request
      rw [← hrequest] at hexists
      exact ih hidle hexists
    . rfl

end Exists

namespace Delivery

variable {σ : Shared} {d : Delivery} {deliveries deliveries' : List Delivery}
variable {userId couponTypeId : JsNumber}

theorem settled_init (request : CouponIssueRequestPayload) : (Process.init request).Settled σ.db :=
  trivial

theorem exists_process
    (hexists : σ.db.existsByUserIdAndCouponTypeId userId couponTypeId = true)
    : (d.process σ).1.db.existsByUserIdAndCouponTypeId userId couponTypeId = true :=
  (Process.run_settled (settled_init d.request)).2.2 _ _ hexists

theorem exists_processAll
    (hexists : σ.db.existsByUserIdAndCouponTypeId userId couponTypeId = true)
    : (processAll σ deliveries).db.existsByUserIdAndCouponTypeId userId couponTypeId = true := by
  induction deliveries generalizing σ with
  | nil => exact hexists
  | cons d deliveries ih => exact ih (exists_process hexists)

theorem exists_of_returned (h : (d.process σ).2.pc = .returned)
    : (d.process σ).1.db.existsByUserIdAndCouponTypeId d.request.userId d.request.couponTypeId
        = true := by
  have hsettled : (d.process σ).2.Settled (d.process σ).1.db :=
    (Process.run_settled (settled_init d.request)).1
  have hrequest : (d.process σ).2.request = d.request :=
    (Process.run_settled (settled_init d.request)).2.1
  simp only [Process.Settled, h, hrequest] at hsettled
  exact hsettled

theorem processAll_append (before after : List Delivery)
    : processAll σ (before ++ after) = processAll (processAll σ before) after := by
  simp [processAll]

theorem processAll_cons (d : Delivery) (after : List Delivery)
    : processAll σ (d :: after) = processAll (d.process σ).1 after :=
  rfl

theorem exists_of_completed (h : Completed σ deliveries d.pair)
    : (processAll σ deliveries).db.existsByUserIdAndCouponTypeId d.request.userId
        d.request.couponTypeId = true := by
  obtain ⟨before, d', after, rfl, hpair, hreturned⟩ := h
  have := exists_of_returned hreturned
  simp only [pair, Prod.mk.injEq] at hpair
  rw [hpair.1, hpair.2] at this
  rw [processAll_append, processAll_cons]
  exact exists_processAll this

theorem process_idle
    (hexists : σ.db.existsByUserIdAndCouponTypeId d.request.userId d.request.couponTypeId = true)
    : (d.process σ).1 = σ :=
  Process.run_idle ⟨Or.inl rfl, rfl⟩ hexists

/--
Redelivery is harmless: whatever is delivered again after it has been completed, at whatever time, with
whatever event and request id, the database and the cache end up the same.
-/
theorem redelivery_harmless (h : Redelivered σ deliveries deliveries')
    : processAll σ deliveries' = processAll σ deliveries := by
  induction h with
  | refl => rfl
  | @insert before after _ d hdone ih =>
    have hidle := process_idle (exists_of_completed hdone)
    rw [processAll_append] at ih
    rw [processAll_append, processAll_cons, hidle, ih]

def served : List Delivery :=
  [⟨issueRequest "a" 1, List.replicate 9 (okAt 5)⟩,
    ⟨issueRequest "b" 2, [okAt 5, .fail false 5]⟩, ⟨issueRequest "b" 2, List.replicate 6 (okAt 6)⟩]

def again : Delivery :=
  ⟨{ issueRequest "c" 1 with eventId := .ofInt 30 }, List.replicate 7 (okAt 5000)⟩

theorem redelivery_harmless_again
    : (processAll ⟨lastCoupon, [], []⟩ served).db.coupons.map (·.status) = [.success, .soldOut]
        ∧ processAll ⟨lastCoupon, [], []⟩ (served.take 1 ++ again :: served.drop 1)
            = processAll ⟨lastCoupon, [], []⟩ served := by
  have hserved : Redelivered ⟨lastCoupon, [], []⟩ served (served.take 1 ++ served.drop 1) := .refl
  exact ⟨by decide, redelivery_harmless (.insert hserved again ⟨[], _, [], rfl, rfl, rfl⟩)⟩

end Delivery

end ServerC
