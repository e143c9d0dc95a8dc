import CouponIssuance.ServerC.Transitions

/-!
This module contains what a committed transaction of server-c does to the tables: it keeps the
constraints of the schema, and it leaves alone what other transactions have locked.
-/

namespace ServerC

namespace Db

variable {db : Db}

theorem Takes.commit {eventId couponTypeId : JsNumber} {status : CouponIssueResultStatus}
    {writes : List Write} (h : db.Takes eventId couponTypeId status writes) (row : UserCoupon)
    (event : OutboxEvent)
    : db.commit (writes ++ [.insertCoupon row, .insertOutbox event])
        = { db with
            inventories := (db.commit writes).inventories
            coupons := db.coupons ++ [row]
            outbox := db.outbox ++ [event]
          } := by
  cases status with
  | success =>
    obtain ⟨inventory, hwrites, _⟩ := h
    rw [hwrites]
    rfl
  | soldOut => rw [show writes = [] from h]; rfl
  | failed => rw [show writes = [] from h]; rfl

theorem eq_of_map_nodup {l : List α} {f : α → β} (h : (l.map f).Nodup) {a b : α} (ha : a ∈ l)
    (hb : b ∈ l) (heq : f a = f b)
    : a = b :=
  List.inj_on_of_nodup_map h ha hb heq

theorem Takes.mem_inventories {eventId couponTypeId : JsNumber} {status : CouponIssueResultStatus}
    {writes : List Write} (hwf : db.Wf) (h : db.Takes eventId couponTypeId status writes)
    {i : CouponTypeInventory} (hi : i ∈ db.inventories)
    (hne : (i.eventId, i.couponTypeId) ≠ (eventId, couponTypeId))
    : i ∈ (db.commit writes).inventories := by
  cases status with
  | success =>
    obtain ⟨inventory, hwrites, hevent, htype, _, hmem⟩ := h
    rw [hwrites]
    simp only [Db.commit, Db.apply, List.foldl_cons, List.foldl_nil, List.mem_map]
    refine ⟨i, hi, ?_⟩
    rw [if_neg]
    intro hid
    have := eq_of_map_nodup hwf.inventoryIds hi hmem hid
    apply hne
    rw [this, ← hevent, ← htype]
  | soldOut => rw [show writes = [] from h]; exact hi
  | failed => rw [show writes = [] from h]; exact hi

theorem Takes.map_inventories {eventId couponTypeId : JsNumber} {status : CouponIssueResultStatus}
    {writes : List Write} (h : db.Takes eventId couponTypeId status writes)
    (f : CouponTypeInventory → β)
    (hf : ∀ i n, f { i with availableCount := n } = f i)
    : (db.commit writes).inventories.map f = db.inventories.map f := by
  cases status with
  | success =>
    obtain ⟨inventory, hwrites, _⟩ := h
    rw [hwrites]
    simp only [Db.commit, Db.apply, List.foldl_cons, List.foldl_nil, List.map_map]
    apply List.map_congr_left
    intro i _
    simp only [Function.comp_apply]
    split
    . exact hf _ _
    . rfl
  | soldOut => rw [show writes = [] from h]; rfl
  | failed => rw [show writes = [] from h]; rfl

theorem Takes.available_nonneg {eventId couponTypeId : JsNumber}
    {status : CouponIssueResultStatus} {writes : List Write} (hwf : db.Wf)
    (h : db.Takes eventId couponTypeId status writes)
    : ∀ i ∈ (db.commit writes).inventories, 0 ≤ i.availableCount := by
  cases status with
  | success =>
    obtain ⟨inventory, hwrites, _, _, hnonneg, _⟩ := h
    rw [hwrites]
    simp only [Db.commit, Db.apply, List.foldl_cons, List.foldl_nil, List.mem_map]
    rintro i ⟨j, hj, rfl⟩
    split
    . exact hnonneg
    . exact hwf.available_nonneg j hj
  | soldOut => rw [show writes = [] from h]; exact hwf.available_nonneg
  | failed => rw [show writes = [] from h]; exact hwf.available_nonneg

theorem map_markUsed (id version : Nat) (usedAt : Int) (f : UserCoupon → β)
    (hf : ∀ c s u v, f { c with status := s, usedAt := u, version := v } = f c)
    : (db.commit [.markUsed id version usedAt]).coupons.map f = db.coupons.map f := by
  simp only [Db.commit, Db.apply, List.foldl_cons, List.foldl_nil, List.map_map]
  apply List.map_congr_left
  intro c _
  simp only [Function.comp_apply]
  split
  . exact hf _ _ _ _
  . rfl

theorem map_markPublished (ids : List Nat) (publishedAt : Int) (f : OutboxEvent → β)
    (hf : ∀ o s p, f { o with status := s, publishedAt := p } = f o)
    : (db.markPublished ids publishedAt).outbox.map f = db.outbox.map f := by
  simp only [Db.markPublished, List.map_map]
  apply List.map_congr_left
  intro o _
  simp only [Function.comp_apply]
  split
  . exact hf _ _ _
  . rfl

theorem forall_mem_of_map_eq {l m : List α} {f : α → β} {p : β → Prop} (h : m.map f = l.map f)
    (hl : ∀ a ∈ l, p (f a))
    : ∀ a ∈ m, p (f a) := by
  intro a ha
  have hmem : f a ∈ l.map f := h ▸ List.mem_map_of_mem ha
  obtain ⟨b, hb, heq⟩ := List.mem_map.mp hmem
  rw [← heq]
  exact hl b hb

theorem nodup_map_append {l : List α} {a : α} {f : α → β} (h : (l.map f).Nodup)
    (ha : ∀ b ∈ l, f b ≠ f a)
    : ((l ++ [a]).map f).Nodup := by
  rw [List.map_append, List.nodup_append]
  refine ⟨h, by simp, ?_⟩
  simp only [List.mem_map, List.map_cons, List.map_nil, List.mem_singleton]
  rintro _ ⟨b, hb, rfl⟩ _ rfl
  exact ha b hb

theorem Step.wf {db' : Db} (h : db.Step db') (hwf : db.Wf) : db'.Wf := by
  cases h with
  | idle nextCouponId nextOutboxId hcoupon houtbox =>
    refine { hwf with couponIds_lt := ?_, outboxIds_lt := ?_ }
    . intro c hc
      obtain ⟨id, hlt, hid⟩ := hwf.couponIds_lt c hc
      exact ⟨id, by dsimp; omega, hid⟩
    . intro o ho
      have := hwf.outboxIds_lt o ho
      dsimp
      omega
  | issue row event requestId status code writes htakes hcoupon houtbox _ =>
    obtain ⟨id, hlt, hid, hfresh⟩ := hcoupon.id
    rw [htakes.commit]
    constructor
    . apply nodup_map_append hwf.couponIds
      intro c hc
      rw [hid]
      exact hfresh c hc
    . intro c hc
      rcases List.mem_append.mp hc with hc | hc
      . exact hwf.couponIds_lt c hc
      . rw [List.mem_singleton.mp hc]
        exact ⟨id, hlt, hid⟩
    . exact nodup_map_append hwf.codes hcoupon.code
    . exact nodup_map_append hwf.pairs hcoupon.pair
    . intro c hc
      rcases List.mem_append.mp hc with hc | hc
      . exact hwf.bigint c hc
      . rw [List.mem_singleton.mp hc]
        exact hcoupon.bigint
    . have := htakes.map_inventories (·.id) (fun _ _ => rfl)
      dsimp only at this ⊢
      rw [this]
      exact hwf.inventoryIds
    . have := htakes.map_inventories (fun i => (i.eventId, i.couponTypeId)) (fun _ _ => rfl)
      dsimp only at this ⊢
      rw [this]
      exact hwf.inventoryKeys
    . exact htakes.available_nonneg hwf
    . exact nodup_map_append hwf.outboxIds houtbox.id
    . intro o ho
      rcases List.mem_append.mp ho with ho | ho
      . exact hwf.outboxIds_lt o ho
      . rw [List.mem_singleton.mp ho]
        exact houtbox.lt
  | redeem coupon id usedAt _ _ _ =>
    constructor
    . rw [map_markUsed _ _ _ _ (fun _ _ _ _ => rfl)]
      exact hwf.couponIds
    . exact forall_mem_of_map_eq (f := (·.id)) (p := fun i => ∃ id < db.nextCouponId, i = some id)
        (map_markUsed _ _ _ _ (fun _ _ _ _ => rfl)) hwf.couponIds_lt
    . rw [map_markUsed _ _ _ _ (fun _ _ _ _ => rfl)]
      exact hwf.codes
    . rw [map_markUsed _ _ _ _ (fun _ _ _ _ => rfl)]
      exact hwf.pairs
    . exact forall_mem_of_map_eq (f := fun c => (c.userId, c.eventId, c.couponTypeId))
        (p := fun k => isBigint k.1 = true ∧ isBigint k.2.1 = true ∧ isBigint k.2.2 = true)
        (map_markUsed _ _ _ _ (fun _ _ _ _ => rfl)) hwf.bigint
    . exact hwf.inventoryIds
    . exact hwf.inventoryKeys
    . exact hwf.available_nonneg
    . exact hwf.outboxIds
    . exact hwf.outboxIds_lt

theorem Wf.markPublished (hwf : db.Wf) (ids : List Nat) (publishedAt : Int)
    : (db.markPublished ids publishedAt).Wf := by
  refine { hwf with outboxIds := ?_, outboxIds_lt := ?_ }
  . rw [map_markPublished _ _ _ (fun _ _ _ => rfl)]
    exact hwf.outboxIds
  . exact forall_mem_of_map_eq (f := (·.id)) (p := fun id => id < db.nextOutboxId)
      (map_markPublished _ _ _ (fun _ _ _ => rfl)) hwf.outboxIds_lt

end Db

namespace View

variable {v v' : View}

theorem Step.wf (h : v.Step v') (hwf : v.db.Wf) : v'.db.Wf := by
  cases h with
  | transaction db h => exact h.wf hwf
  | send o _ => exact hwf
  | publish ids publishedAt _ => exact hwf.markPublished ids publishedAt

structure Le (v v' : View) : Prop where
  outbox : ∀ o ∈ v.db.outbox, ∃ o' ∈ v'.db.outbox, o'.record = o.record
  topic : ∀ m ∈ v.topic, m ∈ v'.topic

theorem Step.le (h : v.Step v') : v.Le v' := by
  cases h with
  | transaction db h =>
    refine ⟨?_, fun m hm => hm⟩
    cases h with
    | idle nextCouponId nextOutboxId _ _ => exact fun o ho => ⟨o, ho, rfl⟩
    | issue row event requestId status code writes htakes _ _ _ =>
      rw [htakes.commit]
      exact fun o ho => ⟨o, List.mem_append_left _ ho, rfl⟩
    | redeem coupon id usedAt _ _ _ => exact fun o ho => ⟨o, ho, rfl⟩
  | send o _ => exact ⟨fun o ho => ⟨o, ho, rfl⟩, fun m hm => List.mem_append_left _ hm⟩
  | publish ids publishedAt _ =>
    refine ⟨?_, fun m hm => hm⟩
    intro o ho
    refine ⟨_, List.mem_map_of_mem ho, ?_⟩
    split <;> rfl

theorem Sent.of_le {ids : List Nat} (h : v.Sent ids) (hle : v.Le v') : v'.Sent ids := by
  intro id hid
  obtain ⟨o, ho, heq, hm⟩ := h id hid
  obtain ⟨o', ho', hrecord⟩ := hle.outbox o ho
  refine ⟨o', ho', ?_, ?_⟩
  . rw [← heq]
    exact congrArg (·.id) hrecord
  . rw [hrecord]
    exact hle.topic _ hm

theorem Sent.append {ids : List Nat} (h : v.Sent ids) {o : OutboxEvent} (ho : o ∈ v.db.outbox)
    (hm : o.record.message ∈ v.topic)
    : v.Sent (ids ++ [o.id]) := by
  intro id hid
  rcases List.mem_append.mp hid with hid | hid
  . exact h id hid
  . exact ⟨o, ho, (List.mem_singleton.mp hid).symm, hm⟩

end View

end ServerC
