import CouponIssuance.ServerC.Stock
import Mathlib.Data.List.Forall2

/-!
This module contains the transactional outbox: every committed coupon has one outbox row that
announces it, and what is sent to the result topic is exactly what committed rows announce.
-/

namespace ServerC

structure Issued where
  userId : JsNumber
  eventId : JsNumber
  couponTypeId : JsNumber
  code : String
  status : CouponIssueResultStatus
deriving DecidableEq

/-- Only a `SUCCESS` can become `USED`. -/
def UserCouponStatus.issued : UserCouponStatus → CouponIssueResultStatus
  | success | used => .success
  | soldOut => .soldOut
  | failed => .failed

def UserCoupon.issued (c : UserCoupon) : Issued :=
  ⟨c.userId, c.eventId, c.couponTypeId, c.code, c.status.issued⟩

namespace Issued

def couponCode (i : Issued) : Option String :=
  if i.status = .success then some i.code else none

def payload (i : Issued) (requestId processedAt : String) : CouponIssueResultPayload where
  requestId := requestId
  userId := i.userId
  eventId := i.eventId
  couponTypeId := i.couponTypeId
  status := i.status
  couponCode := i.couponCode
  processedAt := processedAt

/--
The payload of the outbox row is that of the coupon.
-/
def AnnouncedBy (i : Issued) (r : OutboxRecord) : Prop :=
  ∃ processedAt, r.payload = Js.Json.stringify (i.payload r.aggregateId processedAt).fields

end Issued

section Issue

variable {db db' : Db}

theorem Announces.announcedBy {row : UserCoupon} {event : OutboxEvent} {requestId : String}
    {status : CouponIssueResultStatus} {code : Option String}
    (h : Announces row event requestId status code)
    : row.issued.AnnouncedBy event.record := by
  refine ⟨LocalDateTime.toInstantString row.issuedAt, ?_⟩
  have hstatus : row.status.issued = status := by
    rw [h.status_eq]
    cases status <;> rfl
  have hcode : row.issued.couponCode = code := by
    simp only [Issued.couponCode, UserCoupon.issued, hstatus]
    split
    . next hsuccess =>
      obtain ⟨code', hcode⟩ := Option.isSome_iff_exists.mp (h.code_isSome.mp hsuccess)
      rw [h.code_eq, hcode]
      rfl
    . next hother =>
      rw [h.code_isSome, Bool.not_eq_true, Option.isSome_eq_false_iff, Option.isNone_iff_eq_none]
        at hother
      exact hother.symm
  simp only [OutboxEvent.record, h.payload, h.aggregateId, Issued.payload, hcode]
  simp only [UserCoupon.issued, hstatus]

theorem Db.Step.issued_extends (h : db.Step db') (hwf : db.Wf)
    : db.coupons.map (·.issued) <+: db'.coupons.map (·.issued) := by
  cases h with
  | idle _ _ _ _ => exact List.prefix_rfl
  | issue row event requestId status code writes htakes _ _ _ =>
    rw [htakes.commit, List.map_append]
    exact List.prefix_append _ _
  | redeem coupon id usedAt hmem hid hredeemable =>
    have hissued : (db.commit [.markUsed id coupon.version usedAt]).coupons.map (·.issued)
        = db.coupons.map (·.issued) := by
      simp only [Db.commit, Db.apply, List.foldl_cons, List.foldl_nil, List.map_map]
      apply List.map_congr_left
      intro c hc
      simp only [Function.comp_apply]
      split
      . next htarget =>
        simp only [Db.isMarkUsedTarget, Bool.and_eq_true, beq_iff_eq] at htarget
        have heq := Db.eq_of_map_nodup hwf.couponIds hc hmem (htarget.1.trans hid.symm)
        simp only [UserCoupon.isRedeemable, Bool.and_eq_true, beq_iff_eq] at hredeemable
        simp [heq, UserCoupon.issued, hredeemable.1, UserCouponStatus.issued]
      . rfl
    exact hissued ▸ List.prefix_rfl

/-- Every coupon has one outbox row, which announces it. -/
def Db.Announced (db : Db) : Prop :=
  List.Forall₂ Issued.AnnouncedBy (db.coupons.map (·.issued)) (db.outbox.map (·.record))

theorem Db.Step.announced (h : db.Step db') (hwf : db.Wf) (hannounced : db.Announced)
    : db'.Announced := by
  cases h with
  | idle _ _ _ _ => exact hannounced
  | issue row event requestId status code writes htakes _ _ hannounces =>
    unfold Announced
    rw [htakes.commit, List.map_append, List.map_append]
    exact List.rel_append hannounced (.cons hannounces.announcedBy .nil)
  | redeem coupon id usedAt hmem hid hredeemable =>
    have hprefix := (Db.Step.redeem coupon id usedAt hmem hid hredeemable).issued_extends hwf
    have hissued := hprefix.eq_of_length (by simp [Db.commit, Db.apply])
    unfold Announced
    rw [← hissued]
    exact hannounced

theorem Db.Announced.exists_record {c : UserCoupon} (h : db.Announced) (hc : c ∈ db.coupons)
    : ∃ o ∈ db.outbox, c.issued.AnnouncedBy o.record := by
  unfold Announced at h
  rw [List.forall₂_map_left_iff, List.forall₂_map_right_iff] at h
  obtain ⟨j, hj⟩ := List.mem_iff_getElem?.mp hc
  obtain ⟨hlt, rfl⟩ := List.getElem?_eq_some_iff.mp hj
  have hlt' := h.length_eq ▸ hlt
  exact ⟨_, List.getElem_mem hlt', h.get hlt hlt'⟩

theorem Db.Announced.exists_coupon {o : OutboxEvent} (h : db.Announced) (ho : o ∈ db.outbox)
    : ∃ c ∈ db.coupons, c.issued.AnnouncedBy o.record := by
  unfold Announced at h
  rw [List.forall₂_map_left_iff, List.forall₂_map_right_iff] at h
  obtain ⟨j, hj⟩ := List.mem_iff_getElem?.mp ho
  obtain ⟨hlt, rfl⟩ := List.getElem?_eq_some_iff.mp hj
  have hlt' := h.length_eq ▸ hlt
  exact ⟨_, List.getElem_mem hlt', h.get hlt' hlt⟩

theorem Db.Announced.publish (h : db.Announced) (ids : List Nat) (publishedAt : Int)
    : (db.markPublished ids publishedAt).Announced := by
  unfold Announced
  rw [Db.map_markPublished ids publishedAt (·.record) (fun _ _ _ => rfl)]
  exact h

end Issue

/--
The coupons, the outbox and the topic agree.
-/
structure View.Transactional (v : View) : Prop where
  announced : List.Forall₂ Issued.AnnouncedBy (v.db.coupons.map (·.issued))
    (v.db.outbox.map (·.record))
  sent : ∀ o ∈ v.db.outbox, o.status = .pending ∨ o.record.message ∈ v.topic
  committed : ∀ m ∈ v.topic, ∃ o ∈ v.db.outbox, o.record.message = m

namespace View

variable {v v' : View}

theorem Transactional.transaction {db : Db} (h : v.Transactional) (hwf : v.db.Wf)
    (hstep : v.db.Step db)
    : View.Transactional ⟨db, v.topic⟩ := by
  refine ⟨hstep.announced hwf h.announced, ?_, ?_⟩
  . intro o ho
    cases hstep with
    | idle _ _ _ _ => exact h.sent o ho
    | redeem _ _ _ _ _ _ => exact h.sent o ho
    | issue row event requestId status code writes htakes _ _ hannounces =>
      rw [htakes.commit] at ho
      rcases List.mem_append.mp ho with ho | ho
      . exact h.sent o ho
      . rw [List.mem_singleton.mp ho]
        exact Or.inl hannounces.pending
  . intro m hm
    obtain ⟨o, ho, heq⟩ := h.committed m hm
    cases hstep with
    | idle _ _ _ _ => exact ⟨o, ho, heq⟩
    | redeem _ _ _ _ _ _ => exact ⟨o, ho, heq⟩
    | issue row event requestId status code writes htakes _ _ _ =>
      rw [htakes.commit]
      exact ⟨o, List.mem_append_left _ ho, heq⟩

theorem Transactional.publish {ids : List Nat} (publishedAt : Int) (h : v.Transactional)
    (hwf : v.db.Wf) (hsent : v.Sent ids)
    : View.Transactional ⟨v.db.markPublished ids publishedAt, v.topic⟩ := by
  refine ⟨Db.Announced.publish h.announced ids publishedAt, ?_, ?_⟩
  . intro o ho
    obtain ⟨old, hold, rfl⟩ := List.mem_map.mp ho
    split
    . next hid =>
      -- the row that was sent under this id is this row
      obtain ⟨o', ho', hid', hm⟩ := hsent old.id (List.contains_iff_mem.mp hid)
      rw [Db.eq_of_map_nodup hwf.outboxIds ho' hold hid'] at hm
      exact Or.inr hm
    . exact h.sent old hold
  . intro m hm
    obtain ⟨o, ho, heq⟩ := h.committed m hm
    refine ⟨_, List.mem_map_of_mem ho, ?_⟩
    split <;> exact heq

theorem Step.issued_extends (h : v.Step v') (hwf : v.db.Wf)
    : v.db.coupons.map (·.issued) <+: v'.db.coupons.map (·.issued) := by
  cases h with
  | transaction db h => exact h.issued_extends hwf
  | send _ _ => exact List.prefix_rfl
  | publish _ _ _ => exact List.prefix_rfl

theorem Step.announced (h : v.Step v') (hwf : v.db.Wf) (hannounced : v.db.Announced)
    : v'.db.Announced := by
  cases h with
  | transaction db h => exact h.announced hwf hannounced
  | send _ _ => exact hannounced
  | publish ids publishedAt _ => exact hannounced.publish ids publishedAt

def Announces (v : View) (m : String × String) : Prop :=
  ∃ i ∈ v.db.coupons.map (·.issued), ∃ r : OutboxRecord, i.AnnouncedBy r ∧ r.message = m

theorem Announces.of_mem {o : OutboxEvent} (hannounced : v.db.Announced) (ho : o ∈ v.db.outbox)
    : v.Announces o.record.message := by
  obtain ⟨c, hc, hrecord⟩ := hannounced.exists_coupon ho
  exact ⟨c.issued, List.mem_map_of_mem hc, o.record, hrecord, rfl⟩

theorem Announces.step {m : String × String} (h : v.Announces m) (hwf : v.db.Wf)
    (hstep : v.Step v')
    : v'.Announces m := by
  obtain ⟨i, hi, hr⟩ := h
  exact ⟨i, (hstep.issued_extends hwf).subset hi, hr⟩

theorem Transactional.step (h : v.Transactional) (hwf : v.db.Wf) (hstep : v.Step v')
    : v'.Transactional := by
  cases hstep with
  | transaction db hstep => exact h.transaction hwf hstep
  | publish ids publishedAt hsent => exact h.publish publishedAt hwf hsent
  | send o ho =>
    refine ⟨h.announced, ?_, ?_⟩
    . intro o' ho'
      exact (h.sent o' ho').imp_right (List.mem_append_left _)
    . intro m hm
      rcases List.mem_append.mp hm with hm | hm
      . exact h.committed m hm
      . exact ⟨o, ho, (List.mem_singleton.mp hm).symm⟩

end View

section Run

variable {batchSize : Nat}

theorem issued_extends {ok : State → Act → Prop} {db : Db} {s t : State} (hwf : db.Wf)
    (hs : (calls batchSize).machine.Run ok (init db) s)
    (ht : (calls batchSize).machine.Run ok s t)
    : s.shared.db.coupons.map (·.issued) <+: t.shared.db.coupons.map (·.issued) := by
  apply ht.invariant_of (K := Outline)
    (I := fun t => s.shared.db.coupons.map (·.issued) <+: t.shared.db.coupons.map (·.issued))
  . intro u hu
    exact outline hwf (hs.trans hu)
  . exact List.prefix_rfl
  . intro u a w hu _ hI _ hnext
    exact hI.trans ((next_transition hu hnext).issued_extends hu.shared)

theorem topic_announced {ok : State → Act → Prop} {db : Db} {s : State} (hwf : db.Wf)
    (hannounced : db.Announced) (hrun : (calls batchSize).machine.Run ok (init db) s)
    : ∀ m ∈ s.shared.topic, s.shared.view.Announces m := by
  have hinv : s.shared.view.db.Announced
      ∧ ∀ m ∈ s.shared.view.topic, s.shared.view.Announces m := by
    apply run_invariant hwf hrun (I := fun v => v.db.Announced ∧ ∀ m ∈ v.topic, v.Announces m)
    . refine ⟨hannounced, ?_⟩
      intro m hm
      contradiction
    . intro v v' hwf ⟨hannounced, htopic⟩ hstep
      refine ⟨hstep.announced hwf hannounced, ?_⟩
      intro m hm
      have hold : m ∈ v.topic → v'.Announces m := fun hm => (htopic m hm).step hwf hstep
      cases hstep with
      | transaction db h => exact hold hm
      | publish ids publishedAt hsent => exact hold hm
      | send o ho =>
        rcases List.mem_append.mp hm with hm | hm
        . exact hold hm
        . rw [List.mem_singleton.mp hm]
          exact .of_mem hannounced ho
  exact hinv.2

theorem transactional {ok : State → Act → Prop} {db : Db} {s : State} (hwf : db.Wf)
    (hcoupons : db.coupons = []) (houtbox : db.outbox = [])
    (hrun : (calls batchSize).machine.Run ok (init db) s)
    : s.shared.view.Transactional := by
  apply run_invariant hwf hrun
  . constructor
    . simp [hcoupons, houtbox]
    . simp [houtbox]
    . simp
  . exact fun v v' hwf h hstep => h.step hwf hstep

end Run

end ServerC
