import CouponIssuance.ServerC.Depleted
import CouponIssuance.ServerC.Lemmas.Rows

/-!
This module contains the event id that a coupon carries besides its coupon type. The inventory lookup
checks it, but the branch of an event that is not active does without that lookup.
-/

namespace ServerC

open Concurrency

namespace Db

def IsCouponType (db : Db) (eventId couponTypeId : JsNumber) : Prop :=
  ⟨couponTypeId, eventId⟩ ∈ db.couponTypes

def InventoryAgrees (db : Db) : Prop :=
  ∀ i ∈ db.inventories, db.IsCouponType i.eventId i.couponTypeId

def CouponsAgree (db : Db) : Prop :=
  ∀ c ∈ db.coupons, db.IsCouponType c.eventId c.couponTypeId

end Db

/--
No step of the run finds that the event of a request is not active, unless the coupon type belongs to
this event.
-/
def MatchedWhenInactive (s : State) : Act → Prop
  | .step i (.ok now _) =>
    ∀ p, s.calls[i]? = some (.process p) → p.pc = .findEvent
      → ∀ event, s.shared.db.findEvent p.request.eventId = some event
        → event.isActive now = false
        → s.shared.db.IsCouponType p.request.eventId p.request.couponTypeId
  | _ => True

section Step

variable {v v' : View} {db : Db}

theorem Db.Takes.couponTypes {eventId couponTypeId : JsNumber} {status : CouponIssueResultStatus}
    {writes : List Write} (h : db.Takes eventId couponTypeId status writes) (row : UserCoupon)
    (event : OutboxEvent)
    : (db.commit (writes ++ [.insertCoupon row, .insertOutbox event])).couponTypes
        = db.couponTypes := by
  rw [h.commit]

theorem View.Step.couponTypes (h : v.Step v') : v'.db.couponTypes = v.db.couponTypes := by
  cases h with
  | transaction db h =>
    cases h with
    | idle _ _ _ _ => rfl
    | issue row event requestId status code writes htakes _ _ _ => exact htakes.couponTypes _ _
    | redeem coupon id usedAt _ _ _ => rfl
  | send _ _ => rfl
  | publish _ _ _ => rfl

theorem inventoryAgrees_of_stock_eq {db' : Db} (htypes : db'.couponTypes = db.couponTypes)
    (hstock : db'.stock = db.stock) (h : db.InventoryAgrees)
    : db'.InventoryAgrees := by
  intro i hi
  obtain ⟨i', hi', hevent, htype, _⟩ := Db.mem_of_stock_eq hstock.symm hi
  have := h i' hi'
  rw [hevent, htype] at this
  unfold Db.IsCouponType at this ⊢
  rw [htypes]
  exact this

end Step

section Matched

variable {db : Db}

def Process.Matched (db : Db) (p : Process) : Prop :=
  match p.pc with
  | .updateAvailableCount _ _ | .insert _ _ _ | .append _ _ _ =>
    db.IsCouponType p.request.eventId p.request.couponTypeId
  | .commit _ =>
    p.tx.writes ≠ [] → db.IsCouponType p.request.eventId p.request.couponTypeId
  | _ => True

def Call.Matched (db : Db) : Call → Prop
  | process p => p.Matched db
  | _ => True

theorem Process.step_matched {σ σ' : Shared} {p p' : Process} {x : Input}
    (hagrees : σ.db.InventoryAgrees) (hinv : p.Inv σ.db)
    (hinactive : ∀ now draws, x = .ok now draws → p.pc = .findEvent
      → ∀ event, σ.db.findEvent p.request.eventId = some event → event.isActive now = false
        → σ.db.IsCouponType p.request.eventId p.request.couponTypeId)
    (hmatched : p.Matched σ.db) (hmoves : p.Moves σ σ' x p')
    : p'.Matched σ'.db := by
  have hlookup : ∀ inventory,
      σ.db.findInventory p.request.eventId p.request.couponTypeId = some inventory
        → σ.db.IsCouponType p.request.eventId p.request.couponTypeId := by
    intro inventory hfind
    obtain ⟨hmem, hevent, htype⟩ := Db.findInventory_spec hfind
    rw [← hevent, ← htype]
    exact hagrees inventory hmem
  cases hmoves with
  | found now draws hpc hσ hexists =>
    intro hwrites
    simp only [Inv, hpc] at hinv
    contradiction
  | inactive now draws event hpc hσ hfind hactive =>
    subst hσ
    exact hinactive now draws rfl hpc event hfind hactive
  | soldOut now now' draws inventory hpc hσ hinventory hcount =>
    subst hσ
    exact hlookup inventory hinventory
  | decremented now now' draws inventory taken hpc hσ hinventory htaken =>
    subst hσ
    exact hlookup inventory hinventory
  | updated now now' draws inventory hpc hσ =>
    subst hσ
    simp only [Matched, hpc] at hmatched
    exact hmatched
  | inserted now now' draws status code hpc hσ herror =>
    subst hσ
    simp only [Matched, hpc] at hmatched
    exact hmatched
  | appended now now' draws status code hpc hσ =>
    subst hσ
    simp only [Matched, hpc] at hmatched
    exact fun _ => hmatched
  | committed now draws check hpc hσ => cases check <;> trivial
  | _ => trivial

end Matched

section Run

variable {batchSize : Nat} {ok : State → Act → Prop} {db : Db} {s : State}

theorem couponTypes_eq (hwf : db.Wf) (hrun : (calls batchSize).machine.Run ok (init db) s)
    : s.shared.db.couponTypes = db.couponTypes :=
  run_invariant (I := fun v => v.db.couponTypes = db.couponTypes) hwf hrun rfl
    fun _ _ _ h hstep => hstep.couponTypes.trans h

theorem inventoryAgrees (hwf : db.Wf) (hagrees : db.InventoryAgrees)
    (hrun : (calls batchSize).machine.Run ok (init db) s)
    : s.shared.db.InventoryAgrees :=
  inventoryAgrees_of_stock_eq (couponTypes_eq hwf hrun) (stock_eq hwf .refl hrun) hagrees

theorem matched (hwf : db.Wf) (hagrees : db.InventoryAgrees)
    (hrun : (calls batchSize).machine.Run MatchedWhenInactive (init db) s)
    : ∀ c ∈ s.calls, c.Matched s.shared.db := by
  refine Calls.forall_calls (J := fun σ c => c.Matched σ.db) hrun
    (K := fun u => (calls batchSize).machine.Run MatchedWhenInactive (init db) u) (fun _ hu => hu)
    (by simp [init]) ?_ ?_ ?_
  . intro u f _ _ hstart
    simp only [calls, Call.start] at hstart
    split at hstart <;> trivial
  . intro u i x f σ' f' hu hok hf hmatched hstep
    cases f with
    | process p =>
      obtain ⟨⟨σ'', p'⟩, hstep', heq⟩ := Option.map_eq_some_iff.mp hstep
      cases heq
      refine Process.step_matched (inventoryAgrees hwf hagrees hu) ((outline hwf hu).calls i _ hf)
        ?_ hmatched (Process.moves_of_step hstep')
      rintro now draws rfl hpc
      exact hok p hf hpc
    | redeem r =>
      obtain ⟨_, _, heq⟩ := Option.map_eq_some_iff.mp hstep
      cases heq
      trivial
    | poll pc =>
      obtain ⟨_, _, heq⟩ := Option.map_eq_some_iff.mp hstep
      cases heq
      trivial
  . intro u a v f hu hok hnext hmatched
    have htypes := (couponTypes_eq hwf (hu.tail hok hnext)).trans (couponTypes_eq hwf hu).symm
    cases f with
    | process p =>
      simp only [Call.Matched, Process.Matched, Db.IsCouponType, htypes] at hmatched ⊢
      exact hmatched
    | redeem r => trivial
    | poll pc => trivial

/--
As long as no request names an event that is not active and not that of its coupon type, every coupon
carries the event of its coupon type.
-/
theorem coupons_agree (hwf : db.Wf) (hagrees : db.InventoryAgrees) (hcoupons : db.coupons = [])
    (hrun : (calls batchSize).machine.Run MatchedWhenInactive (init db) s)
    : s.shared.db.CouponsAgree := by
  apply hrun.invariant_of (I := fun s => s.shared.db.CouponsAgree)
    (K := fun u => (calls batchSize).machine.Run MatchedWhenInactive (init db) u) (fun _ hu => hu)
  . intro c hc
    simp [init, hcoupons] at hc
  . intro u a v hu hv h hok hnext
    have htypes := (couponTypes_eq hwf hv).trans (couponTypes_eq hwf hu).symm
    have hkept : ∀ c ∈ u.shared.db.coupons, v.shared.db.IsCouponType c.eventId c.couponTypeId := by
      intro c hc
      have := h c hc
      unfold Db.IsCouponType at this ⊢
      rw [htypes]
      exact this
    cases a with
    | start f =>
      obtain ⟨_, rfl⟩ := Calls.next_start hnext
      exact hkept
    | env e =>
      obtain ⟨shared, henv, rfl⟩ := Calls.next_env (C := calls batchSize) hnext
      cases henv
      exact hkept
    | step i x =>
      obtain ⟨f, shared, f', hf, _, hstep, rfl⟩ := Calls.next_step hnext
      have houtline := outline hwf hu
      rcases Call.step_coupons houtline.shared (houtline.calls i f hf) hstep with
        ⟨p, row, check, rfl, hpc, hrow, hcoupons⟩ | hcoupons | ⟨r, rfl, hissued⟩
      . intro c hc
        dsimp only at hc htypes ⊢
        rw [hcoupons] at hc
        rcases List.mem_append.mp hc with hc | hc
        . exact hkept c hc
        . rw [List.mem_singleton.mp hc]
          have hmatched := matched hwf hagrees hu _ (List.mem_of_getElem? hf)
          simp only [Call.Matched, Process.Matched, hpc] at hmatched
          have hpair := hrow.pair
          simp only [UserCoupon.pair, Prod.mk.injEq] at hpair
          have := hmatched (List.ne_nil_of_mem hrow.mem)
          unfold Db.IsCouponType at this ⊢
          rw [hrow.eventId, hpair.2, htypes]
          exact this
      . intro c hc
        dsimp only at hc
        rw [hcoupons] at hc
        exact hkept c hc
      . intro c hc
        have hc' := List.mem_map_of_mem (f := (·.issued)) hc
        dsimp only at hc'
        rw [hissued] at hc'
        obtain ⟨d, hd, heq⟩ := List.mem_map.mp hc'
        simp only [UserCoupon.issued, Issued.mk.injEq] at heq
        rw [← heq.2.1, ← heq.2.2.1]
        exact hkept d hd

def twoEvents : Db :=
  { lastCoupon with events := [⟨.ofInt 10, 0, 1000⟩, ⟨.ofInt 30, 500, 1000⟩] }

theorem twoEvents_wf : twoEvents.Wf := by
  constructor <;> decide

instance (db : Db) (eventId couponTypeId : JsNumber)
    : Decidable (db.IsCouponType eventId couponTypeId) :=
  inferInstanceAs (Decidable (_ ∈ db.couponTypes))

theorem twoEvents_agrees : twoEvents.InventoryAgrees := by
  unfold Db.InventoryAgrees
  decide

def isMatched (s : State) : Act → Bool
  | .step _ _ =>
    s.calls.all fun c =>
      match c with
      | .process p => decide (s.shared.db.IsCouponType p.request.eventId p.request.couponTypeId)
      | _ => true
  | _ => true

theorem matchedWhenInactive_of_isMatched (a : Act) (h : isMatched s a = true)
    : MatchedWhenInactive s a := by
  unfold MatchedWhenInactive
  split
  . intro p hp _ _ _ _
    have := List.all_eq_true.mp h _ (List.mem_of_getElem? hp)
    simpa using this
  . trivial

def applicationAt (eventId : Int) (now : Int) : List Act :=
  [.start (newProcess { issueRequest "a" 1 with eventId := .ofInt eventId })]
    ++ [0, 0, 0, 0, 0].map (.step · (okAt now))

/--
The event of the coupon type is over, which the coupon records.
-/
theorem coupons_agree_ended
    : ∃ s, (calls 1).machine.Run MatchedWhenInactive (init twoEvents) s
        ∧ s.shared.db.coupons.map (·.status) = [.failed]
        ∧ s.shared.db.CouponsAgree := by
  obtain ⟨s, hrun, hs⟩ := Machine.exists_run_of_exec (calls 1).machine isMatched
    MatchedWhenInactive (fun _ a h => matchedWhenInactive_of_isMatched a h) (applicationAt 10 2000)
    (init twoEvents) (fun s => s.shared.db.coupons.map (·.status) == [.failed]) (by decide)
  exact ⟨s, hrun, beq_iff_eq.mp hs, coupons_agree twoEvents_wf twoEvents_agrees rfl hrun⟩

/--
The request names the event that has not begun, and so does its coupon.
-/
theorem coupons_disagree
    : ¬∀ (db : Db) (s : State), db.Wf → db.InventoryAgrees → db.coupons = []
        → (calls 1).machine.Run (fun _ _ => True) (init db) s
        → s.shared.db.CouponsAgree := by
  intro h
  obtain ⟨s, hrun, hs⟩ := Machine.exists_run_of_exec (calls 1).machine (fun _ _ => true)
    (fun _ _ => True) (fun _ _ _ => trivial) (applicationAt 30 5) (init twoEvents)
    (fun s => s.shared.db.coupons.any fun c =>
      !decide (s.shared.db.IsCouponType c.eventId c.couponTypeId))
    (by decide)
  obtain ⟨c, hc, hne⟩ := List.any_eq_true.mp hs
  simp only [Bool.not_eq_true', decide_eq_false_iff_not] at hne
  exact hne (h twoEvents s twoEvents_wf twoEvents_agrees rfl hrun c hc)

end Run

end ServerC
