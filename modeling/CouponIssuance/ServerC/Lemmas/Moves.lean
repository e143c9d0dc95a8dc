import CouponIssuance.ServerC.Lemmas.Steps

/-!
This module contains the steps of `process` and of `redeem`, one for each way in which an awaited
statement can end, and what the calls learn on their way.
-/

namespace ServerC

open Concurrency

def ProcessPc.isOpen : ProcessPc → Bool
  | freshRead | markSoldOut | returned | thrown _ | crashed => false
  | _ => true

def ProcessPc.isOver : ProcessPc → Bool
  | returned | thrown _ | crashed => true
  | _ => false

def RedeemPc.isOpen : RedeemPc → Bool
  | findByCode | markUsed _ _ | commit _ => true
  | returned _ | thrown _ | crashed => false

namespace Process

inductive Moves (σ σ' : Shared) (p : Process) : Input → Process → Prop where
  | found (now : Int) (draws : Fin 12 → Fin 32) (hpc : p.pc = .existsByUserIdAndCouponTypeId)
      (hσ : σ' = σ)
      (hexists :
        σ.db.existsByUserIdAndCouponTypeId p.request.userId p.request.couponTypeId = true)
      : Moves σ σ' p (.ok now draws) (p.goto (.commit false))
  | absent (now : Int) (draws : Fin 12 → Fin 32) (hpc : p.pc = .existsByUserIdAndCouponTypeId)
      (hσ : σ' = σ)
      (habsent :
        σ.db.existsByUserIdAndCouponTypeId p.request.userId p.request.couponTypeId = false)
      : Moves σ σ' p (.ok now draws) (p.goto .findEvent)
  | active (now : Int) (draws : Fin 12 → Fin 32) (event : Event) (hpc : p.pc = .findEvent)
      (hσ : σ' = σ) (hevent : σ.db.findEvent p.request.eventId = some event)
      (hactive : event.isActive now = true)
      : Moves σ σ' p (.ok now draws) (p.goto (.findForUpdate now))
  | inactive (now : Int) (draws : Fin 12 → Fin 32) (event : Event) (hpc : p.pc = .findEvent)
      (hσ : σ' = σ) (hevent : σ.db.findEvent p.request.eventId = some event)
      (hactive : event.isActive now = false)
      : Moves σ σ' p (.ok now draws) (p.goto (.insert now .failed none))
  | soldOut (now now' : Int) (draws : Fin 12 → Fin 32) (inventory : CouponTypeInventory)
      (hpc : p.pc = .findForUpdate now') (hσ : σ' = σ)
      (hinventory : σ.db.findInventory p.request.eventId p.request.couponTypeId = some inventory)
      (hcount : inventory.availableCount ≤ 0)
      : Moves σ σ' p (.ok now draws)
          ({ p with tx := p.tx.lock p.wants }.goto (.insert now' .soldOut none))
  | decremented (now now' : Int) (draws : Fin 12 → Fin 32) (inventory taken : CouponTypeInventory)
      (hpc : p.pc = .findForUpdate now') (hσ : σ' = σ)
      (hinventory : σ.db.findInventory p.request.eventId p.request.couponTypeId = some inventory)
      (htaken : inventory.decrement = some taken)
      : Moves σ σ' p (.ok now draws)
          ({ p with tx := p.tx.lock p.wants }.goto (.updateAvailableCount now' taken))
  | updated (now now' : Int) (draws : Fin 12 → Fin 32) (inventory : CouponTypeInventory)
      (hpc : p.pc = .updateAvailableCount now' inventory) (hσ : σ' = σ)
      : Moves σ σ' p (.ok now draws)
          ({ p with tx := p.tx.write (.updateAvailableCount inventory) }.goto
            (.insert now' .success (some (CouponCode.generate draws).value)))
  /-- The insert has violated `uk_user_coupon_user_type`. -/
  | duplicate (now now' : Int) (draws : Fin 12 → Fin 32) (status : CouponIssueResultStatus)
      (code : Option String) (hpc : p.pc = .insert now' status code)
      (hσ : σ' = { σ with db := { σ.db with nextCouponId := σ.db.nextCouponId + 1 } })
      (herror : σ.db.insertError (p.coupon now' status code) = some .duplicateUserCoupon)
      : Moves σ σ' p (.ok now draws) (p.abort .returned)
  | inserted (now now' : Int) (draws : Fin 12 → Fin 32) (status : CouponIssueResultStatus)
      (code : Option String) (hpc : p.pc = .insert now' status code)
      (hσ : σ' = { σ with db := { σ.db with nextCouponId := σ.db.nextCouponId + 1 } })
      (herror : σ.db.insertError (p.coupon now' status code) = none)
      : Moves σ σ' p (.ok now draws)
          ({ p with
              tx := (p.tx.lock p.wants).write
                (.insertCoupon { p.coupon now' status code with id := some σ.db.nextCouponId })
            }.goto (.append now' status code))
  | appended (now now' : Int) (draws : Fin 12 → Fin 32) (status : CouponIssueResultStatus)
      (code : Option String) (hpc : p.pc = .append now' status code)
      (hσ : σ' = { σ with db := { σ.db with nextOutboxId := σ.db.nextOutboxId + 1 } })
      : Moves σ σ' p (.ok now draws)
          ({ p with
              tx := p.tx.write
                (.insertOutbox (p.outboxEvent σ.db.nextOutboxId now now' status code))
            }.goto (.commit (status != CouponIssueResultStatus.failed)))
  | committed (now : Int) (draws : Fin 12 → Fin 32) (check : Bool) (hpc : p.pc = .commit check)
      (hσ : σ' = { σ with db := σ.db.commit p.tx.writes })
      : Moves σ σ' p (.ok now draws) (p.abort (if check then .freshRead else .returned))
  /-- The commit takes effect, but it is reported as failed. -/
  | lost (now : Int) (check : Bool) (hpc : p.pc = .commit check)
      (hσ : σ' = { σ with db := σ.db.commit p.tx.writes })
      : Moves σ σ' p (.fail true now) (p.abort (.thrown .queryFailed))
  /-- The transaction is rolled back, and the call throws. -/
  | aborted (x : Input) (e : ProcessError) (hpc : p.pc.isOpen = true) (n : Nat)
      (hn : σ.db.nextCouponId ≤ n) (hσ : σ' = { σ with db := { σ.db with nextCouponId := n } })
      : Moves σ σ' p x (p.abort (.thrown e))
  | depleted (now : Int) (draws : Fin 12 → Fin 32) (inventory : CouponTypeInventory)
      (hpc : p.pc = .freshRead) (hσ : σ' = σ)
      (hinventory : σ.db.findInventory p.request.eventId p.request.couponTypeId = some inventory)
      (hcount : inventory.availableCount = 0)
      : Moves σ σ' p (.ok now draws) (p.goto .markSoldOut)
  | marked (x : Input) (hpc : p.pc = .markSoldOut)
      (hσ : σ' = { σ with
        available := couponAvailableKey p.request.eventId p.request.couponTypeId :: σ.available })
      : Moves σ σ' p x (p.goto .returned)
  /-- There is nothing to be cached, or it fails. -/
  | unmarked (x : Input) (hpc : p.pc = .freshRead ∨ p.pc = .markSoldOut) (hσ : σ' = σ)
      : Moves σ σ' p x (p.goto .returned)
  | crashed (hpc : p.pc.isOver = false) (hσ : σ' = σ) : Moves σ σ' p .crash (p.abort .crashed)

variable {σ σ' : Shared} {p p' : Process} {x : Input}

theorem Moves.request (h : p.Moves σ σ' x p') : p'.request = p.request := by
  cases h <;> rfl

theorem moves_of_fail {executed : Bool} {now : Int}
    (hstep : p.step σ (.fail executed now) = some (σ', p'))
    : p.Moves σ σ' (.fail executed now) p' := by
  unfold step at hstep
  dsimp only at hstep
  split at hstep
  . next check hpc =>
    split at hstep
    . next hexecuted =>
      subst hexecuted
      cases hstep
      exact .lost now check hpc rfl
    . cases hstep
      exact .aborted _ _ (by rw [hpc]; rfl) _ (Nat.le_refl _) rfl
  . next hpc =>
    cases hstep
    exact .unmarked _ (Or.inl hpc) rfl
  . next hpc =>
    cases hstep
    cases executed with
    | true => exact .marked _ hpc rfl
    | false => exact .unmarked _ (Or.inr hpc) rfl
  . contradiction
  . contradiction
  . contradiction
  . cases hstep
    refine .aborted _ _ ?_ _ (Nat.le_refl _) rfl
    cases hpc : p.pc <;> simp_all [ProcessPc.isOpen]

theorem moves_of_ok {now : Int} {draws : Fin 12 → Fin 32}
    (hstep : p.step σ (.ok now draws) = some (σ', p'))
    : p.Moves σ σ' (.ok now draws) p' := by
  unfold step at hstep
  dsimp only at hstep
  split at hstep
  . next hpc =>
    split at hstep
    . next hexists =>
      cases hstep
      exact .found now draws hpc rfl hexists
    . next habsent =>
      cases hstep
      exact .absent now draws hpc rfl (Bool.not_eq_true _ ▸ habsent)
  . next hpc =>
    split at hstep
    . cases hstep
      exact .aborted _ _ (by rw [hpc]; rfl) _ (Nat.le_refl _) rfl
    . next event hevent =>
      split at hstep
      . next hactive =>
        cases hstep
        exact .active now draws event hpc rfl hevent hactive
      . next hactive =>
        cases hstep
        exact .inactive now draws event hpc rfl hevent (Bool.not_eq_true _ ▸ hactive)
  . next now' hpc =>
    split at hstep
    . cases hstep
      exact .aborted _ _ (by rw [hpc]; rfl) _ (Nat.le_refl _) rfl
    . next inventory hinventory =>
      split at hstep
      . next hnone =>
        cases hstep
        refine .soldOut now now' draws inventory hpc rfl hinventory ?_
        unfold CouponTypeInventory.decrement at hnone
        split at hnone
        . assumption
        . contradiction
      . next taken htaken =>
        cases hstep
        exact .decremented now now' draws inventory taken hpc rfl hinventory htaken
  . next now' inventory hpc =>
    cases hstep
    exact .updated now now' draws inventory hpc rfl
  . next now' status code hpc =>
    split at hstep
    . cases hstep
      exact .aborted _ _ (by rw [hpc]; rfl) _ (Nat.le_refl _) rfl
    . next herror =>
      cases hstep
      exact .duplicate now now' draws status code hpc rfl herror
    . cases hstep
      exact .aborted _ _ (by rw [hpc]; rfl) _ (Nat.le_succ _) rfl
    . next herror =>
      cases hstep
      exact .inserted now now' draws status code hpc rfl herror
  . next now' status code hpc =>
    split at hstep
    . cases hstep
      exact .aborted _ _ (by rw [hpc]; rfl) _ (Nat.le_refl _) rfl
    . cases hstep
      exact .appended now now' draws status code hpc rfl
  . next check hpc =>
    cases hstep
    exact .committed now draws check hpc rfl
  . next hpc =>
    split at hstep
    . next hdepleted =>
      cases hstep
      obtain ⟨inventory, hinventory, hcount⟩ := (Option.any_eq_true ..).mp hdepleted
      exact .depleted now draws inventory hpc rfl hinventory (beq_iff_eq.mp hcount)
    . cases hstep
      exact .unmarked _ (Or.inl hpc) rfl
  . next hpc =>
    cases hstep
    exact .marked _ hpc rfl
  . contradiction
  . contradiction
  . contradiction

theorem moves_of_step (hstep : p.step σ x = some (σ', p')) : p.Moves σ σ' x p' := by
  cases x with
  | ok now draws => exact moves_of_ok hstep
  | fail executed now => exact moves_of_fail hstep
  | crash =>
    unfold step at hstep
    dsimp only at hstep
    split at hstep
    . contradiction
    . contradiction
    . contradiction
    . cases hstep
      refine .crashed ?_ rfl
      cases hpc : p.pc <;> simp_all [ProcessPc.isOver]

end Process

namespace Redeem

inductive Moves (σ σ' : Shared) (r : Redeem) : Input → Redeem → Prop where
  /-- The transaction is rolled back, and the call throws or goes down. -/
  | aborted (x : Input) (pc : RedeemPc) (hpc : r.pc.isOpen = true) (hσ : σ' = σ)
      (hend : pc = .crashed ∨ ∃ e, pc = .thrown e)
      : Moves σ σ' r x (r.abort pc)
  | replayed (now : Int) (draws : Fin 12 → Fin 32) (coupon : UserCoupon) (usedAt : Int)
      (hpc : r.pc = .findByCode) (hσ : σ' = σ) (hfind : σ.db.findByCode r.code = some coupon)
      (hused : coupon.usedAt = some usedAt)
      : Moves σ σ' r (.ok now draws) (r.goto (.commit ⟨coupon.code, coupon.userId, usedAt, false⟩))
  | read (now : Int) (draws : Fin 12 → Fin 32) (coupon : UserCoupon) (hpc : r.pc = .findByCode)
      (hσ : σ' = σ) (hfind : σ.db.findByCode r.code = some coupon)
      (hredeemable : coupon.isRedeemable = true)
      : Moves σ σ' r (.ok now draws) (r.goto (.markUsed coupon now))
  | hit (now now' : Int) (draws : Fin 12 → Fin 32) (coupon : UserCoupon)
      (hpc : r.pc = .markUsed coupon now') (hσ : σ' = σ)
      (hhit : σ.db.coupons.any (Db.isMarkUsedTarget (coupon.id.getD 0) coupon.version) = true)
      : Moves σ σ' r (.ok now draws)
          ({ r with
              tx := (r.tx.lock r.wants).write (.markUsed (coupon.id.getD 0) coupon.version now')
            }.goto (.commit ⟨coupon.code, coupon.userId, now', true⟩))
  | committed (now : Int) (draws : Fin 12 → Fin 32) (result : RedeemResult)
      (hpc : r.pc = .commit result) (hσ : σ' = { σ with db := σ.db.commit r.tx.writes })
      : Moves σ σ' r (.ok now draws) (r.abort (.returned result))
  /-- The commit takes effect, but it is reported as failed. -/
  | lost (now : Int) (result : RedeemResult) (hpc : r.pc = .commit result)
      (hσ : σ' = { σ with db := σ.db.commit r.tx.writes })
      : Moves σ σ' r (.fail true now) (r.abort (.thrown .queryFailed))

variable {σ σ' : Shared} {r r' : Redeem} {x : Input}

theorem Moves.thrown (x : Input) (e : RedeemError) (hpc : r.pc.isOpen = true)
    : r.Moves σ σ x (r.abort (.thrown e)) :=
  .aborted x _ hpc rfl (Or.inr ⟨e, rfl⟩)

theorem moves_of_ok {now : Int} {draws : Fin 12 → Fin 32}
    (hstep : r.step σ (.ok now draws) = some (σ', r'))
    : r.Moves σ σ' (.ok now draws) r' := by
  unfold step at hstep
  dsimp only at hstep
  split at hstep
  . next hpc =>
    split at hstep
    . cases hstep
      exact .thrown _ _ (by rw [hpc]; rfl)
    . next coupon hfind =>
      split at hstep
      . cases hstep
        exact .thrown _ _ (by rw [hpc]; rfl)
      . split at hstep
        . next hredeemed =>
          obtain ⟨usedAt, hused⟩ := Option.isSome_iff_exists.mp hredeemed
          rw [hused, Option.getD_some] at hstep
          cases hstep
          exact .replayed now draws coupon usedAt hpc rfl hfind hused
        . split at hstep
          . cases hstep
            exact .thrown _ _ (by rw [hpc]; rfl)
          . next hredeemable =>
            simp only [Bool.not_eq_true', Bool.not_eq_false] at hredeemable
            cases hstep
            exact .read now draws coupon hpc rfl hfind hredeemable
  . next coupon now' hpc =>
    split at hstep
    . next hhit =>
      cases hstep
      exact .hit now now' draws coupon hpc rfl hhit
    . cases hstep
      exact .thrown _ _ (by rw [hpc]; rfl)
  . next result hpc =>
    cases hstep
    exact .committed now draws result hpc rfl
  . contradiction
  . contradiction
  . contradiction

theorem moves_of_step (hstep : r.step σ x = some (σ', r')) : r.Moves σ σ' x r' := by
  cases x with
  | ok now draws => exact moves_of_ok hstep
  | fail executed now =>
    unfold step at hstep
    dsimp only at hstep
    split at hstep
    . next result hpc =>
      split at hstep
      . next hexecuted =>
        subst hexecuted
        cases hstep
        exact .lost now result hpc rfl
      . cases hstep
        exact .thrown _ _ (by rw [hpc]; rfl)
    . contradiction
    . contradiction
    . contradiction
    . cases hstep
      refine .thrown _ _ ?_
      cases hpc : r.pc <;> simp_all [RedeemPc.isOpen]
  | crash =>
    unfold step at hstep
    dsimp only at hstep
    split at hstep
    . contradiction
    . contradiction
    . contradiction
    . cases hstep
      refine .aborted _ _ ?_ rfl (Or.inl rfl)
      cases hpc : r.pc <;> simp_all [RedeemPc.isOpen]

end Redeem

end ServerC
