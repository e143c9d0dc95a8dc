import CouponIssuance.ServerC.Lemmas.Outline

/-!
This module contains what one step of a call of server-c does: it commits at most one transaction,
it establishes what the call knows next, and it takes only locks that it has waited for.
-/

namespace ServerC

open Concurrency

namespace Call

structure StepSpec (σ : Shared) (c : Call) (x : Input) (σ' : Shared) (c' : Call) : Prop where
  transition : σ.view.Step σ'.view
  changed : Db.ChangedBy c.tx σ.db σ'.db
  inv : c'.Inv σ'.view
  locks : ∀ l ∈ c'.tx.locks, l ∈ c.tx.locks ∨ l ∈ c.wants x
  rowIds : ∀ id ∈ c'.tx.rowIds, id ∈ c.tx.rowIds ∨ id = some σ.db.nextCouponId
  outboxIds : ∀ id ∈ c'.tx.outboxIds, id ∈ c.tx.outboxIds ∨ id = σ.db.nextOutboxId

variable {σ σ' : Shared} {c c' : Call} {x : Input}

theorem StepSpec.close (htransition : σ.view.Step σ'.view)
    (hchanged : Db.ChangedBy c.tx σ.db σ'.db) (hinv : c'.Inv σ'.view) (htx : c'.tx = .empty)
    : StepSpec σ c x σ' c' := by
  refine ⟨htransition, hchanged, hinv, ?_, ?_, ?_⟩
  all_goals
    rw [htx]
    intro _ hl
    contradiction

theorem dbStep_refl (db : Db) : db.Step db :=
  Db.Step.idle db.nextCouponId db.nextOutboxId (Nat.le_refl _) (Nat.le_refl _)

theorem step_refl (v : View) : v.Step v :=
  View.Step.transaction v.db (dbStep_refl v.db)

theorem StepSpec.abort (hview : σ'.view = σ.view) (hinv : c'.Inv σ.view) (htx : c'.tx = .empty)
    : StepSpec σ c x σ' c' := by
  apply StepSpec.close
  . rw [hview]
    exact step_refl _
  . rw [show σ'.db = σ.db from congrArg View.db hview]
    exact Db.ChangedBy.refl _ _
  . rw [hview]
    exact hinv
  . exact htx

theorem StepSpec.goto (hview : σ'.view = σ.view) (hinv : c'.Inv σ.view) (htx : c'.tx = c.tx)
    : StepSpec σ c x σ' c' := by
  refine ⟨?_, ?_, ?_, ?_, ?_, ?_⟩
  . rw [hview]
    exact step_refl _
  . rw [show σ'.db = σ.db from congrArg View.db hview]
    exact Db.ChangedBy.refl _ _
  . rw [hview]
    exact hinv
  all_goals
    rw [htx]
    intro _ hl
    exact Or.inl hl

theorem StepSpec.extend (hview : σ'.view = σ.view) (hinv : c'.Inv σ.view)
    (hlocks : ∀ l ∈ c'.tx.locks, l ∈ c.tx.locks ∨ l ∈ c.wants x)
    (hrowIds : c'.tx.rowIds = c.tx.rowIds) (houtboxIds : c'.tx.outboxIds = c.tx.outboxIds)
    : StepSpec σ c x σ' c' := by
  refine ⟨?_, ?_, ?_, hlocks, ?_, ?_⟩
  . rw [hview]
    exact step_refl _
  . rw [show σ'.db = σ.db from congrArg View.db hview]
    exact Db.ChangedBy.refl _ _
  . rw [hview]
    exact hinv
  . rw [hrowIds]
    exact fun _ hid => Or.inl hid
  . rw [houtboxIds]
    exact fun _ hid => Or.inl hid

end Call

open Call

namespace Db

theorem findInventory_spec {db : Db} {eventId couponTypeId : JsNumber} {i : CouponTypeInventory}
    (h : db.findInventory eventId couponTypeId = some i)
    : i ∈ db.inventories ∧ i.eventId = eventId ∧ i.couponTypeId = couponTypeId := by
  have hkey := List.find?_some h
  simp only [Bool.and_eq_true, beq_iff_eq] at hkey
  exact ⟨List.mem_of_find?_eq_some h, hkey.1, hkey.2⟩

theorem freshCoupon_of_insertError {db : Db} {c : UserCoupon} (h : db.insertError c = none)
    (hwf : db.Wf)
    : { db with nextCouponId := db.nextCouponId + 1 : Db }.FreshCoupon
        { c with id := some db.nextCouponId } := by
  unfold Db.insertError at h
  split at h
  . contradiction
  . next hbigint =>
    split at h
    . contradiction
    . next hcode =>
      split at h
      . contradiction
      . next hpair =>
        simp only [Bool.not_eq_true', Bool.not_eq_false, Bool.and_eq_true] at hbigint
        simp only [List.any_eq_true, beq_iff_eq, not_exists, not_and] at hcode hpair
        refine ⟨⟨_, Nat.lt_succ_self _, rfl, ?_⟩, hcode, hpair, hbigint.1.1, hbigint.1.2, hbigint.2⟩
        intro d hd heq
        obtain ⟨id, hlt, hid⟩ := hwf.couponIds_lt d hd
        rw [hid, Option.some.injEq] at heq
        omega

end Db

namespace Process

variable {σ σ' : Shared} {p p' : Process}

theorem decrement_spec {i i' : CouponTypeInventory} (h : i.decrement = some i')
    : i = { i' with availableCount := i'.availableCount + 1 } ∧ 0 ≤ i'.availableCount := by
  unfold CouponTypeInventory.decrement at h
  split at h
  . contradiction
  . next hpos =>
    rw [Option.some.injEq] at h
    subst h
    refine ⟨?_, by dsimp; omega⟩
    cases i
    simp

theorem commit_spec {db : Db} {check : Bool} (hwf : db.Wf) (hpc : p.pc = .commit check)
    (hinv : p.Inv db)
    : db.Step (db.commit p.tx.writes) ∧ Db.ChangedBy p.tx db (db.commit p.tx.writes) := by
  unfold Inv at hinv
  rw [hpc] at hinv
  rcases hinv with hnil | ⟨now, status, code, writes, row, event, hwrites, hreserves, hinserts,
    hevent, hannounces⟩
  . rw [hnil]
    exact ⟨dbStep_refl db, Db.ChangedBy.refl _ _⟩
  . have hrow : row.eventId = p.request.eventId ∧ row.couponTypeId = p.request.couponTypeId := by
      rw [hinserts.row_eq]
      exact ⟨rfl, rfl⟩
    have htakes := hreserves.1
    have hlocked := hreserves.2
    rw [← hrow.1, ← hrow.2] at htakes hlocked
    rw [hwrites]
    refine ⟨.issue row event _ status code writes htakes hinserts.fresh hevent hannounces, ?_⟩
    apply Db.ChangedBy.issue hwf htakes hlocked hinserts.code_locked hinserts.pair_locked
    . simp [Tx.rowIds, hwrites]
    . simp [Tx.outboxIds, hwrites]

theorem Inserts.announces {db : Db} {now : Int} {status : CouponIssueResultStatus}
    {code : Option String} {row : UserCoupon} (h : p.Inserts db now status code row)
    (id : Nat) (createdAt : Int)
    : Announces row (p.outboxEvent id createdAt now status code) p.request.requestId status
        code := by
  have hrow := h.row_eq
  generalize row.id = rowId at hrow
  subst hrow
  exact ⟨rfl, ⟨rfl, rfl⟩, rfl, h.code_isSome, rfl, rfl, rfl⟩

theorem step_fail_spec {executed : Bool} {now : Int} (hwf : σ.db.Wf) (hinv : p.Inv σ.db)
    (hstep : p.step σ (.fail executed now) = some (σ', p'))
    : StepSpec σ (process p) (.fail executed now) σ' (process p') := by
  unfold step at hstep
  dsimp only at hstep
  split at hstep
  . next hpc =>
    have hcommit := commit_spec hwf hpc hinv
    split at hstep
    . cases hstep
      exact StepSpec.close (.transaction _ hcommit.1) hcommit.2 rfl rfl
    . cases hstep
      exact StepSpec.abort rfl rfl rfl
  . next hpc =>
    simp only [Inv, hpc] at hinv
    cases hstep
    exact StepSpec.goto rfl hinv rfl
  . next hpc =>
    simp only [Inv, hpc] at hinv
    cases hstep
    exact StepSpec.goto rfl hinv rfl
  . contradiction
  . contradiction
  . contradiction
  . cases hstep
    exact StepSpec.abort rfl rfl rfl

theorem step_crash_spec (hstep : p.step σ .crash = some (σ', p'))
    : StepSpec σ (process p) .crash σ' (process p') := by
  unfold step at hstep
  dsimp only at hstep
  split at hstep
  . contradiction
  . contradiction
  . contradiction
  . cases hstep
    exact StepSpec.abort rfl rfl rfl

theorem step_ok_spec {now : Int} {draws : Fin 12 → Fin 32} (hwf : σ.db.Wf) (hinv : p.Inv σ.db)
    (hstep : p.step σ (.ok now draws) = some (σ', p'))
    : StepSpec σ (process p) (.ok now draws) σ' (process p') := by
  unfold step at hstep
  dsimp only at hstep
  split at hstep
  . next hpc =>
    -- `existsByUserIdAndCouponTypeId`
    simp only [Inv, hpc] at hinv
    split at hstep
    . cases hstep
      exact StepSpec.goto rfl (Or.inl hinv) rfl
    . cases hstep
      exact StepSpec.goto rfl hinv rfl
  . next hpc =>
    -- `findEvent`
    simp only [Inv, hpc] at hinv
    split at hstep
    . cases hstep
      exact StepSpec.abort rfl rfl rfl
    . split at hstep
      . cases hstep
        exact StepSpec.goto rfl hinv rfl
      . cases hstep
        exact StepSpec.goto rfl ⟨⟨hinv, by simp⟩, by simp⟩ rfl
  . next now' hpc =>
    -- `findForUpdate`
    simp only [Inv, hpc] at hinv
    have hwants : (process p).wants (.ok now draws)
        = [.inventory p.request.eventId p.request.couponTypeId] := by
      simp [Call.wants, wants, hpc]
    split at hstep
    . cases hstep
      exact StepSpec.abort rfl rfl rfl
    . next inventory hfind =>
      obtain ⟨hmem, hevent, htype⟩ := Db.findInventory_spec hfind
      split at hstep
      . cases hstep
        apply StepSpec.extend
        . rfl
        . exact ⟨⟨hinv, by simp⟩, by simp⟩
        . simp [Call.tx, Tx.lock, goto, Call.wants]
        . rfl
        . rfl
      . next taken hdecrement =>
        obtain ⟨heq, hnonneg⟩ := decrement_spec hdecrement
        cases hstep
        apply StepSpec.extend
        . rfl
        . refine ⟨hinv, ⟨taken, rfl, ?_, ?_, hnonneg, heq ▸ hmem⟩, fun _ => ?_⟩
          . exact (congrArg (·.eventId) heq).symm.trans hevent
          . exact (congrArg (·.couponTypeId) heq).symm.trans htype
          . simp [goto, Tx.lock, wants, hpc]
        . simp [Call.tx, Tx.lock, goto, Call.wants]
        . rfl
        . rfl
  . next now' inventory hpc =>
    -- `updateAvailableCount`
    simp only [Inv, hpc] at hinv
    cases hstep
    apply StepSpec.extend
    . rfl
    . refine ⟨?_, by simp⟩
      simp only [goto, Tx.write, hinv.1, List.nil_append]
      exact hinv.2
    . intro l hl
      exact Or.inl hl
    . simp [Call.tx, goto]
    . simp [Call.tx, goto]
  . next now' status code hpc =>
    -- `insert`
    simp only [Inv, hpc] at hinv
    have hused := Db.Step.idle _ _ (Nat.le_succ σ.db.nextCouponId) (Nat.le_refl σ.db.nextOutboxId)
    have hchanged := Db.ChangedBy.idle p.tx (Nat.le_succ σ.db.nextCouponId)
      (Nat.le_refl σ.db.nextOutboxId)
    split at hstep
    . cases hstep
      exact StepSpec.abort rfl rfl rfl
    . cases hstep
      exact StepSpec.close (.transaction _ hused) hchanged rfl rfl
    . cases hstep
      exact StepSpec.close (.transaction _ hused) hchanged rfl rfl
    . next herror =>
      have hfresh := Db.freshCoupon_of_insertError herror hwf
      cases hstep
      refine ⟨.transaction _ hused, hchanged, ?_, ?_, ?_, ?_⟩
      . refine ⟨p.tx.writes, _, rfl, ⟨hinv.1.1, ?_⟩, rfl, hfresh, ?_, ?_, hinv.2⟩
        . intro hsuccess
          exact List.mem_append_left _ (hinv.1.2 hsuccess)
        . simp [goto, Tx.lock, Tx.write, wants, hpc]
        . simp [goto, Tx.lock, Tx.write, wants, hpc, UserCoupon.pair]
      . simp [Call.tx, Tx.lock, Tx.write, goto, Call.wants]
      . simp [Call.tx, goto]
      . simpa [Call.tx, goto] using fun _ h => Or.inl h
  . next now' status code hpc =>
    -- `append`
    simp only [Inv, hpc] at hinv
    obtain ⟨writes, row, hwrites, hreserves, hinserts⟩ := hinv
    have hused := Db.Step.idle _ _ (Nat.le_refl σ.db.nextCouponId) (Nat.le_succ σ.db.nextOutboxId)
    have hchanged := Db.ChangedBy.idle p.tx (Nat.le_refl σ.db.nextCouponId)
      (Nat.le_succ σ.db.nextOutboxId)
    split at hstep
    . cases hstep
      exact StepSpec.abort rfl rfl rfl
    . cases hstep
      refine ⟨.transaction _ hused, hchanged, ?_, ?_, ?_, ?_⟩
      . refine Or.inr ⟨now', status, code, writes, row,
          p.outboxEvent σ.db.nextOutboxId now now' status code, ?_, hreserves, ?_, ?_, ?_⟩
        . simp [goto, Tx.write, hwrites]
        . exact { hinserts with fresh := { hinserts.fresh with } }
        . exact ⟨Nat.lt_succ_self _, fun o ho heq => Nat.ne_of_lt (hwf.outboxIds_lt o ho) heq⟩
        . exact hinserts.announces _ _
      . exact fun l hl => Or.inl hl
      . simpa [Call.tx, goto] using fun _ h => Or.inl h
      . simp [Call.tx, goto, outboxEvent]
  . next check hpc =>
    -- `commit`
    have hcommit := commit_spec hwf hpc hinv
    cases hstep
    refine StepSpec.close (.transaction _ hcommit.1) hcommit.2 ?_ rfl
    cases check <;> rfl
  . next hpc =>
    -- `freshRead`
    simp only [Inv, hpc] at hinv
    split at hstep
    . cases hstep
      exact StepSpec.goto rfl hinv rfl
    . cases hstep
      exact StepSpec.goto rfl hinv rfl
  . next hpc =>
    -- `markSoldOut`
    simp only [Inv, hpc] at hinv
    cases hstep
    exact StepSpec.goto rfl hinv rfl
  . contradiction
  . contradiction
  . contradiction

theorem step_spec {x : Input} (hwf : σ.db.Wf) (hinv : p.Inv σ.db)
    (hstep : p.step σ x = some (σ', p'))
    : StepSpec σ (process p) x σ' (process p') := by
  cases x with
  | ok now draws => exact step_ok_spec hwf hinv hstep
  | fail executed now => exact step_fail_spec hwf hinv hstep
  | crash => exact step_crash_spec hstep

end Process

namespace Redeem

variable {σ σ' : Shared} {r r' : Redeem}

theorem commit_spec {db : Db} {result : RedeemResult} (hpc : r.pc = .commit result)
    (hinv : r.Inv db)
    : db.Step (db.commit r.tx.writes) ∧ Db.ChangedBy r.tx db (db.commit r.tx.writes) := by
  simp only [Inv, hpc] at hinv
  rcases hinv with hnil | ⟨id, coupon, usedAt, hwrites, hlocked, hmem, hid, hredeemable⟩
  . rw [hnil]
    exact ⟨dbStep_refl db, Db.ChangedBy.refl _ _⟩
  . rw [hwrites]
    exact ⟨.redeem coupon id usedAt hmem hid hredeemable, Db.ChangedBy.redeem usedAt hlocked⟩

theorem step_ok_spec {now : Int} {draws : Fin 12 → Fin 32} (hwf : σ.db.Wf) (hinv : r.Inv σ.db)
    (hstep : r.step σ (.ok now draws) = some (σ', r'))
    : StepSpec σ (redeem r) (.ok now draws) σ' (redeem r') := by
  unfold step at hstep
  dsimp only at hstep
  split at hstep
  . next hpc =>
    -- `findByCode`
    simp only [Inv, hpc] at hinv
    split at hstep
    . cases hstep
      exact StepSpec.abort rfl rfl rfl
    . next coupon hfind =>
      split at hstep
      . cases hstep
        exact StepSpec.abort rfl rfl rfl
      . split at hstep
        . cases hstep
          exact StepSpec.goto rfl (Or.inl hinv) rfl
        . split at hstep
          . cases hstep
            exact StepSpec.abort rfl rfl rfl
          . next hredeemable =>
            have hmem := List.mem_of_find?_eq_some hfind
            obtain ⟨id, _, hid⟩ := hwf.couponIds_lt coupon hmem
            simp only [Bool.not_eq_true', Bool.not_eq_false] at hredeemable
            cases hstep
            exact StepSpec.goto rfl
              ⟨hinv, hredeemable, id, hid, coupon, hmem, hid, Or.inl rfl⟩ rfl
  . next coupon usedAt hpc =>
    -- `markUsed`
    simp only [Inv, hpc] at hinv
    obtain ⟨hwrites, hredeemable, id, hid, c, hc, hcid, hversion⟩ := hinv
    have hwants : r.wants = [.couponRow id] := by simp [wants, hpc, hid]
    split at hstep
    . next htarget =>
      simp only [hid, Option.getD_some] at htarget hstep
      obtain ⟨d, hd, hhit⟩ := List.any_eq_true.mp htarget
      simp only [Db.isMarkUsedTarget, Bool.and_eq_true, beq_iff_eq] at hhit
      -- the row that is hit is the one that was read, as its version has not grown
      have hcoupon : coupon ∈ σ.db.coupons := by
        have heq := Db.eq_of_map_nodup hwf.couponIds hc hd (hcid.trans hhit.1.symm)
        rcases hversion with rfl | hlt
        . exact hc
        . rw [heq] at hlt
          omega
      cases hstep
      apply StepSpec.extend
      . rfl
      . refine Or.inr ⟨id, coupon, usedAt, ?_, ?_, hcoupon, hid, hredeemable⟩
        . simp [goto, Tx.lock, Tx.write, hwrites]
        . simp [goto, Tx.lock, Tx.write, hwants]
      . simp [Call.tx, goto, Tx.lock, Tx.write, Call.wants]
      . simp [Call.tx, goto]
      . simp [Call.tx, goto]
    . cases hstep
      exact StepSpec.abort rfl rfl rfl
  . next result hpc =>
    -- `commit`
    have hcommit := commit_spec hpc hinv
    cases hstep
    exact StepSpec.close (.transaction _ hcommit.1) hcommit.2 rfl rfl
  . contradiction
  . contradiction
  . contradiction

theorem step_spec {x : Input} (hwf : σ.db.Wf) (hinv : r.Inv σ.db)
    (hstep : r.step σ x = some (σ', r'))
    : StepSpec σ (redeem r) x σ' (redeem r') := by
  cases x with
  | ok now draws => exact step_ok_spec hwf hinv hstep
  | fail executed now =>
    unfold step at hstep
    dsimp only at hstep
    split at hstep
    . next hpc =>
      have hcommit := commit_spec hpc hinv
      split at hstep
      . cases hstep
        exact StepSpec.close (.transaction _ hcommit.1) hcommit.2 rfl rfl
      . cases hstep
        exact StepSpec.abort rfl rfl rfl
    . contradiction
    . contradiction
    . contradiction
    . cases hstep
      exact StepSpec.abort rfl rfl rfl
  | crash =>
    unfold step at hstep
    dsimp only at hstep
    split at hstep
    . contradiction
    . contradiction
    . contradiction
    . cases hstep
      exact StepSpec.abort rfl rfl rfl

end Redeem

namespace PollPc

variable {σ σ' : Shared} {pc pc' : PollPc}

theorem next_spec {v : View} {events : List OutboxRecord} {published : List Nat} {now : Int}
    (hevents : ∀ e ∈ events, ∃ o ∈ v.db.outbox, o.record = e) (hsent : v.Sent published)
    : (next events published now).Inv v := by
  unfold next
  split
  . exact ⟨hevents, hsent⟩
  . split
    . trivial
    . exact hsent

theorem findPending_spec {db : Db} {limit : Nat} {e : OutboxRecord} (h : e ∈ db.findPending limit)
    : ∃ o ∈ db.outbox, o.record = e := by
  obtain ⟨o, ho, heq⟩ := List.mem_map.mp h
  have hmem := (List.mem_insertionSort _).mp (List.mem_of_mem_take ho)
  exact ⟨o, List.mem_of_mem_filter hmem, heq⟩

theorem send_spec {event : OutboxRecord} {events : List OutboxRecord} {published : List Nat}
    {pc' : PollPc} {x : Input} (hinv : (publish (event :: events) published).Inv σ.view)
    (htx : (poll pc').tx = .empty)
    (hpc' : ∀ v : View, (∀ e ∈ events, ∃ o ∈ v.db.outbox, o.record = e)
      → v.Sent (published ++ [event.id]) → pc'.Inv v)
    : StepSpec σ (poll (publish (event :: events) published)) x
        { σ with topic := σ.topic ++ [(event.aggregateId, event.payload)] } (poll pc') := by
  obtain ⟨o, ho, hrecord⟩ := hinv.1 event (List.mem_cons_self ..)
  have hmessage : o.record.message = (event.aggregateId, event.payload) := by
    rw [hrecord]
    rfl
  have hstep := View.Step.send (v := σ.view) o ho
  rw [hmessage] at hstep
  refine StepSpec.close hstep (Db.ChangedBy.refl _ _) (hpc' _ ?_ ?_) htx
  . intro e he
    exact hinv.1 e (List.mem_cons_of_mem _ he)
  . have hsent := hinv.2.of_le hstep.le
    rw [← show o.id = event.id from congrArg (·.id) hrecord]
    apply hsent.append ho
    rw [hmessage]
    exact List.mem_append_right _ (List.mem_singleton_self _)

theorem step_spec {batchSize : Nat} {x : Input} (hinv : pc.Inv σ.view)
    (hstep : pc.step batchSize σ x = some (σ', pc'))
    : StepSpec σ (poll pc) x σ' (poll pc') := by
  unfold PollPc.step at hstep
  split at hstep
  . split at hstep
    . cases hstep
      apply StepSpec.abort rfl _ rfl
      exact next_spec (fun e he => findPending_spec he) (fun _ hid => by contradiction)
    . cases hstep
      exact StepSpec.abort rfl (next_spec hinv.1 hinv.2) rfl
    . cases hstep
      exact send_spec hinv rfl (fun v => next_spec)
    . cases hstep
      exact StepSpec.close (.publish _ _ hinv) (Db.ChangedBy.publish _ _ _) trivial rfl
    . contradiction
    . contradiction
  . next executed _ =>
    split at hstep
    . cases hstep
      exact StepSpec.abort rfl trivial rfl
    . cases hstep
      exact StepSpec.abort rfl (next_spec hinv.1 hinv.2) rfl
    . next event events published =>
      have hevents : ∀ e ∈ events, ∃ o ∈ σ.db.outbox, o.record = e :=
        fun e he => hinv.1 e (List.mem_cons_of_mem _ he)
      cases hstep
      cases executed with
      | true =>
        refine send_spec hinv rfl (fun v hevents hsent => next_spec hevents ?_)
        exact fun id hid => hsent id (List.mem_append_left _ hid)
      | false =>
        refine StepSpec.abort ?_ (next_spec hevents hinv.2) rfl
        simp [Shared.view]
    . cases hstep
      cases executed with
      | true => exact StepSpec.close (.publish _ _ hinv) (Db.ChangedBy.publish _ _ _) trivial rfl
      | false => exact StepSpec.abort rfl trivial rfl
    . contradiction
    . contradiction
  . split at hstep
    . contradiction
    . contradiction
    . cases hstep
      exact StepSpec.abort rfl trivial rfl

end PollPc

namespace Call

theorem step_spec {batchSize : Nat} {σ σ' : Shared} {c c' : Call} {x : Input} (hwf : σ.db.Wf)
    (hinv : c.Inv σ.view) (hstep : c.step batchSize σ x = some (σ', c'))
    : StepSpec σ c x σ' c' := by
  cases c with
  | process p =>
    simp only [step, Option.map_eq_some_iff, Prod.mk.injEq] at hstep
    obtain ⟨⟨_, p'⟩, hstep, rfl, rfl⟩ := hstep
    exact p.step_spec hwf hinv hstep
  | redeem r =>
    simp only [step, Option.map_eq_some_iff, Prod.mk.injEq] at hstep
    obtain ⟨⟨_, r'⟩, hstep, rfl, rfl⟩ := hstep
    exact r.step_spec hwf hinv hstep
  | poll pc =>
    simp only [step, Option.map_eq_some_iff, Prod.mk.injEq] at hstep
    obtain ⟨⟨_, pc'⟩, hstep, rfl, rfl⟩ := hstep
    exact pc.step_spec hinv hstep

end Call

section Ids

variable {db : Db}

theorem Db.Takes.ids {eventId couponTypeId : JsNumber} {status : CouponIssueResultStatus}
    {writes rest : List Write} (tx : Tx) (h : db.Takes eventId couponTypeId status writes)
    (htx : tx.writes = writes ++ rest)
    : tx.rowIds = (Tx.mk [] rest).rowIds ∧ tx.outboxIds = (Tx.mk [] rest).outboxIds := by
  cases status with
  | success =>
    obtain ⟨inventory, hwrites, _⟩ := h
    rw [hwrites] at htx
    simp [Tx.rowIds, Tx.outboxIds, htx]
  | soldOut =>
    rw [show writes = [] from h] at htx
    simp [Tx.rowIds, Tx.outboxIds, htx]
  | failed =>
    rw [show writes = [] from h] at htx
    simp [Tx.rowIds, Tx.outboxIds, htx]

structure Tx.IdsLt (db : Db) (tx : Tx) : Prop where
  rowIds : ∀ id ∈ tx.rowIds, ∃ k < db.nextCouponId, id = some k
  outboxIds : ∀ id ∈ tx.outboxIds, id < db.nextOutboxId

theorem Tx.IdsLt.of_nil {tx : Tx} (hrow : tx.rowIds = []) (houtbox : tx.outboxIds = [])
    : tx.IdsLt db := by
  constructor
  . rw [hrow]
    intro _ hid
    contradiction
  . rw [houtbox]
    intro _ hid
    contradiction

theorem Process.Inv.idsLt {p : Process} (h : p.Inv db) : p.tx.IdsLt db := by
  have hnil : p.tx.writes = [] → p.tx.IdsLt db := by
    intro hwrites
    apply Tx.IdsLt.of_nil <;> simp [Tx.rowIds, Tx.outboxIds, hwrites]
  unfold Process.Inv at h
  split at h
  . exact hnil h.1
  . have hids := Db.Takes.ids p.tx h.1.1 (List.append_nil _).symm
    exact Tx.IdsLt.of_nil hids.1 hids.2
  . obtain ⟨writes, row, hwrites, hreserves, hinserts⟩ := h
    have hids := Db.Takes.ids p.tx hreserves.1 hwrites
    obtain ⟨k, hlt, hid, _⟩ := hinserts.fresh.id
    constructor
    . rw [hids.1]
      simpa [Tx.rowIds] using ⟨k, hlt, hid⟩
    . rw [hids.2]
      simp [Tx.outboxIds]
  . rcases h with h | ⟨now, status, code, writes, row, event, hwrites, hreserves, hinserts, hevent, _⟩
    . exact hnil h
    . have hids := Db.Takes.ids p.tx hreserves.1 hwrites
      obtain ⟨k, hlt, hid, _⟩ := hinserts.fresh.id
      constructor
      . rw [hids.1]
        simpa [Tx.rowIds] using ⟨k, hlt, hid⟩
      . rw [hids.2]
        simpa [Tx.outboxIds] using hevent.lt
  . exact hnil h

theorem Redeem.Inv.idsLt {r : Redeem} (h : r.Inv db) : r.tx.IdsLt db := by
  unfold Redeem.Inv at h
  split at h
  . apply Tx.IdsLt.of_nil <;> simp [Tx.rowIds, Tx.outboxIds, h.1]
  . rcases h with h | ⟨id, coupon, usedAt, hwrites, _⟩
    . apply Tx.IdsLt.of_nil <;> simp [Tx.rowIds, Tx.outboxIds, h]
    . apply Tx.IdsLt.of_nil <;> simp [Tx.rowIds, Tx.outboxIds, hwrites]
  . apply Tx.IdsLt.of_nil <;> simp [Tx.rowIds, Tx.outboxIds, h]

theorem Call.Inv.idsLt {v : View} {c : Call} (h : c.Inv v) : c.tx.IdsLt v.db := by
  cases c with
  | process p => exact Process.Inv.idsLt h
  | redeem r => exact Redeem.Inv.idsLt h
  | poll _ => exact Tx.IdsLt.of_nil rfl rfl

end Ids

abbrev Outline (s : State) : Prop :=
  Calls.Outline (fun σ => σ.db.Wf) (fun σ c => Call.Inv σ.view c) (fun _ => Call.Distinct) s

section Run

variable {batchSize : Nat}

theorem Call.start_spec {calls : List Call} {c : Call} (h : Call.start calls c = true) (v : View)
    : c.Inv v ∧ c.tx = .empty := by
  unfold Call.start at h
  split at h
  . exact ⟨rfl, rfl⟩
  . exact ⟨rfl, rfl⟩
  . exact ⟨trivial, rfl⟩
  . contradiction

theorem Call.distinct_of_empty {f g : Call} (h : f.tx = .empty) : Distinct f g :=
  ⟨Apart.of_nil (by rw [h]; rfl), Apart.of_nil (by rw [h]; rfl), Apart.of_nil (by rw [h]; rfl)⟩

theorem Call.StepSpec.distinct {σ σ' : Shared} {f f' g : Call} {x : Input}
    (h : StepSpec σ f x σ' f') (hdistinct : Distinct f g) (hg : g.Inv σ.view)
    (hwaits : f.waits x g = false)
    : Distinct f' g := by
  have hids := hg.idsLt
  refine ⟨?_, ?_, ?_⟩
  . apply hdistinct.locks.step h.locks
    intro l hl hheld
    simp only [Call.waits, List.any_eq_false, List.contains_iff_mem] at hwaits
    exact hwaits l hl hheld
  . apply hdistinct.rowIds.step (w := [some σ.db.nextCouponId])
    . simpa using h.rowIds
    . intro id hid hold
      obtain ⟨k, hlt, heq⟩ := hids.rowIds id hold
      rw [List.mem_singleton.mp hid, Option.some.injEq] at heq
      exact absurd heq (Nat.ne_of_gt hlt)
  . apply hdistinct.outboxIds.step (w := [σ.db.nextOutboxId])
    . simpa using h.outboxIds
    . intro id hid hold
      have hlt := hids.outboxIds id hold
      rw [List.mem_singleton.mp hid] at hlt
      exact absurd hlt (Nat.lt_irrefl _)

theorem outlined (ok : State → Act → Prop)
    : Calls.Outlined (calls batchSize) ok (fun σ => σ.db.Wf) (fun σ c => Call.Inv σ.view c)
        (fun _ => Call.Distinct) where
  symm _ _ _ h := h.symm
  start s f _ _ hstart := by
    have hspec := Call.start_spec hstart s.shared.view
    exact ⟨hspec.1, fun _ _ _ => Call.distinct_of_empty hspec.2⟩
  own s i x f σ' f' h _ hf hstep := by
    have hspec := Call.step_spec h.shared (h.calls i f hf) hstep
    exact ⟨hspec.transition.wf h.shared, hspec.inv⟩
  other s i x f σ' f' j g h _ hf hj hg hwaits hstep := by
    have hspec := Call.step_spec h.shared (h.calls i f hf) hstep
    have hdistinct := h.apart i j f g (Ne.symm hj) hf hg
    have hinv := h.calls j g hg
    exact ⟨hinv.of_changedBy hspec.changed hspec.transition.le hdistinct.symm,
      hspec.distinct hdistinct hinv hwaits⟩
  third s i x f σ' f' j g k g' h _ _ _ hg _ hg' hjk _ := h.apart j k g g' hjk hg hg'
  env s e σ' h _ henv := by
    simp only [calls, expire, Option.some.injEq] at henv
    subst henv
    exact ⟨h.shared, h.calls, h.apart⟩

/--
In every state of a run the schema holds, and every open transaction knows what it has to.
-/
theorem outline {ok : State → Act → Prop} {db : Db} {s : State} (hwf : db.Wf)
    (hrun : (calls batchSize).machine.Run ok (init db) s)
    : Outline s := by
  apply (outlined ok).run hrun
  exact ⟨hwf, fun i f h => by simp [init] at h, fun i j f g _ h => by simp [init] at h⟩

theorem next_transition {s t : State} {a : Act} (hs : Outline s)
    (hnext : (calls batchSize).next s a = some t)
    : s.shared.view.Step t.shared.view := by
  cases a with
  | start f =>
    obtain ⟨_, rfl⟩ := Calls.next_start hnext
    exact Call.step_refl _
  | step i x =>
    obtain ⟨f, shared, f', hf, _, hstep, rfl⟩ := Calls.next_step hnext
    exact (Call.step_spec hs.shared (hs.calls i f hf) hstep).transition
  | env e =>
    obtain ⟨shared, henv, rfl⟩ := Calls.next_env hnext
    simp only [calls, expire, Option.some.injEq] at henv
    subst henv
    exact Call.step_refl _

/--
What every step of the view keeps holds in every state of a run.
-/
theorem run_invariant {ok : State → Act → Prop} {db : Db} {s : State} {I : View → Prop}
    (hwf : db.Wf) (hrun : (calls batchSize).machine.Run ok (init db) s) (hinit : I ⟨db, []⟩)
    (hstep : ∀ v v', v.db.Wf → I v → v.Step v' → I v')
    : I s.shared.view := by
  apply hrun.invariant_of (K := Outline) (I := fun s => I s.shared.view)
  . intro u hu
    exact outline hwf hu
  . exact hinit
  . intro u a v hu _ hI _ hnext
    exact hstep _ _ hu.shared hI (next_transition hu hnext)

end Run

end ServerC
