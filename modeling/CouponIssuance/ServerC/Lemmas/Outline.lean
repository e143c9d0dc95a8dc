import CouponIssuance.Concurrency.Locks
import CouponIssuance.ServerC.Lemmas.Transitions

/-!
This module contains the proof outline of server-c: what every open transaction knows about the
committed rows, why no other transaction disturbs it, and that every step of the machine is one
transition of the abstract view.
-/

namespace ServerC

open Concurrency

namespace Tx

def rowIds (tx : Tx) : List (Option Nat) :=
  tx.writes.filterMap fun w =>
    match w with
    | .insertCoupon row => some row.id
    | _ => none

def outboxIds (tx : Tx) : List Nat :=
  tx.writes.filterMap fun w =>
    match w with
    | .insertOutbox row => some row.id
    | _ => none

variable (tx : Tx)

@[simp]
theorem rowIds_lock (locks : List Lock) : (tx.lock locks).rowIds = tx.rowIds := rfl

@[simp]
theorem outboxIds_lock (locks : List Lock) : (tx.lock locks).outboxIds = tx.outboxIds := rfl

@[simp]
theorem rowIds_updateAvailableCount (inventory : CouponTypeInventory)
    : (tx.write (.updateAvailableCount inventory)).rowIds = tx.rowIds := by
  simp [rowIds, write]

@[simp]
theorem outboxIds_updateAvailableCount (inventory : CouponTypeInventory)
    : (tx.write (.updateAvailableCount inventory)).outboxIds = tx.outboxIds := by
  simp [outboxIds, write]

@[simp]
theorem rowIds_insertCoupon (row : UserCoupon)
    : (tx.write (.insertCoupon row)).rowIds = tx.rowIds ++ [row.id] := by
  simp [rowIds, write]

@[simp]
theorem outboxIds_insertCoupon (row : UserCoupon)
    : (tx.write (.insertCoupon row)).outboxIds = tx.outboxIds := by
  simp [outboxIds, write]

@[simp]
theorem rowIds_insertOutbox (row : OutboxEvent)
    : (tx.write (.insertOutbox row)).rowIds = tx.rowIds := by
  simp [rowIds, write]

@[simp]
theorem outboxIds_insertOutbox (row : OutboxEvent)
    : (tx.write (.insertOutbox row)).outboxIds = tx.outboxIds ++ [row.id] := by
  simp [outboxIds, write]

@[simp]
theorem rowIds_markUsed (id version : Nat) (usedAt : Int)
    : (tx.write (.markUsed id version usedAt)).rowIds = tx.rowIds := by
  simp [rowIds, write]

@[simp]
theorem outboxIds_markUsed (id version : Nat) (usedAt : Int)
    : (tx.write (.markUsed id version usedAt)).outboxIds = tx.outboxIds := by
  simp [outboxIds, write]

end Tx

namespace Db

/--
`db'` comes from `db` by a step of the transaction `tx`: what differs is locked or was inserted by
`tx`, and a changed coupon has a greater version.
-/
structure ChangedBy (tx : Tx) (db db' : Db) : Prop where
  inventory : ∀ i ∈ db.inventories,
    Lock.inventory i.eventId i.couponTypeId ∈ tx.locks ∨ i ∈ db'.inventories
  code : ∀ c ∈ db'.coupons, (∃ d ∈ db.coupons, collationKey d.code = collationKey c.code)
    ∨ Lock.code (collationKey c.code) ∈ tx.locks
  pair : ∀ c ∈ db'.coupons, (∃ d ∈ db.coupons, d.pair = c.pair)
    ∨ Lock.userCoupon c.pair ∈ tx.locks
  couponId : ∀ c ∈ db'.coupons, (∃ d ∈ db.coupons, d.id = c.id) ∨ c.id ∈ tx.rowIds
  couponRow : ∀ c ∈ db.coupons,
    c ∈ db'.coupons ∨ ∃ id, c.id = some id ∧ Lock.couponRow id ∈ tx.locks
  version : ∀ c ∈ db.coupons, ∃ c' ∈ db'.coupons, c'.id = c.id ∧ (c' = c ∨ c.version < c'.version)
  outboxId : ∀ o ∈ db'.outbox, (∃ o' ∈ db.outbox, o'.id = o.id) ∨ o.id ∈ tx.outboxIds
  nextCouponId : db.nextCouponId ≤ db'.nextCouponId
  nextOutboxId : db.nextOutboxId ≤ db'.nextOutboxId

variable {db : Db}

theorem ChangedBy.refl (tx : Tx) (db : Db) : ChangedBy tx db db where
  inventory _ hi := Or.inr hi
  code c hc := Or.inl ⟨c, hc, rfl⟩
  pair c hc := Or.inl ⟨c, hc, rfl⟩
  couponId c hc := Or.inl ⟨c, hc, rfl⟩
  couponRow _ hc := Or.inl hc
  version c hc := ⟨c, hc, rfl, Or.inl rfl⟩
  outboxId o ho := Or.inl ⟨o, ho, rfl⟩
  nextCouponId := Nat.le_refl _
  nextOutboxId := Nat.le_refl _

theorem ChangedBy.idle (tx : Tx) {nextCouponId nextOutboxId : Nat}
    (hcoupon : db.nextCouponId ≤ nextCouponId) (houtbox : db.nextOutboxId ≤ nextOutboxId)
    : ChangedBy tx db { db with nextCouponId := nextCouponId, nextOutboxId := nextOutboxId } :=
  { ChangedBy.refl tx db with nextCouponId := hcoupon, nextOutboxId := houtbox }

theorem ChangedBy.issue {tx : Tx} {row : UserCoupon} {event : OutboxEvent}
    {status : CouponIssueResultStatus} {writes : List Write} (hwf : db.Wf)
    (htakes : db.Takes row.eventId row.couponTypeId status writes)
    (hinventory : status = .success → Lock.inventory row.eventId row.couponTypeId ∈ tx.locks)
    (hcode : Lock.code (collationKey row.code) ∈ tx.locks)
    (hpair : Lock.userCoupon row.pair ∈ tx.locks)
    (hid : row.id ∈ tx.rowIds) (houtbox : event.id ∈ tx.outboxIds)
    : ChangedBy tx db (db.commit (writes ++ [.insertCoupon row, .insertOutbox event])) := by
  rw [htakes.commit]
  constructor
  . intro i hi
    by_cases hkey : (i.eventId, i.couponTypeId) = (row.eventId, row.couponTypeId)
    . cases status with
      | success =>
        simp only [Prod.mk.injEq] at hkey
        rw [hkey.1, hkey.2]
        exact Or.inl (hinventory rfl)
      | soldOut => exact Or.inr (by rw [show writes = [] from htakes]; exact hi)
      | failed => exact Or.inr (by rw [show writes = [] from htakes]; exact hi)
    . exact Or.inr (htakes.mem_inventories hwf hi hkey)
  . intro c hc
    rcases List.mem_append.mp hc with hc | hc
    . exact Or.inl ⟨c, hc, rfl⟩
    . rw [List.mem_singleton.mp hc]
      exact Or.inr hcode
  . intro c hc
    rcases List.mem_append.mp hc with hc | hc
    . exact Or.inl ⟨c, hc, rfl⟩
    . rw [List.mem_singleton.mp hc]
      exact Or.inr hpair
  . intro c hc
    rcases List.mem_append.mp hc with hc | hc
    . exact Or.inl ⟨c, hc, rfl⟩
    . rw [List.mem_singleton.mp hc]
      exact Or.inr hid
  . intro c hc
    exact Or.inl (List.mem_append_left _ hc)
  . intro c hc
    exact ⟨c, List.mem_append_left _ hc, rfl, Or.inl rfl⟩
  . intro o ho
    rcases List.mem_append.mp ho with ho | ho
    . exact Or.inl ⟨o, ho, rfl⟩
    . rw [List.mem_singleton.mp ho]
      exact Or.inr houtbox
  . exact Nat.le_refl _
  . exact Nat.le_refl _

theorem ChangedBy.redeem {tx : Tx} {id version : Nat} (usedAt : Int)
    (hlock : Lock.couponRow id ∈ tx.locks)
    : ChangedBy tx db (db.commit [.markUsed id version usedAt]) := by
  have hback {β : Type} (f : UserCoupon → β)
      (hf : ∀ c s u v, f { c with status := s, usedAt := u, version := v } = f c)
      : ∀ c ∈ (db.commit [.markUsed id version usedAt]).coupons, ∃ d ∈ db.coupons, f d = f c :=
    forall_mem_of_map_eq (p := fun b => ∃ d ∈ db.coupons, f d = b)
      (map_markUsed id version usedAt f hf) (fun d hd => ⟨d, hd, rfl⟩)
  constructor
  . intro i hi
    exact Or.inr hi
  . intro c hc
    exact Or.inl (hback _ (fun _ _ _ _ => rfl) c hc)
  . intro c hc
    exact Or.inl (hback _ (fun _ _ _ _ => rfl) c hc)
  . intro c hc
    exact Or.inl (hback _ (fun _ _ _ _ => rfl) c hc)
  . intro c hc
    by_cases htarget : isMarkUsedTarget id version c = true
    . simp only [isMarkUsedTarget, Bool.and_eq_true, beq_iff_eq] at htarget
      exact Or.inr ⟨id, htarget.1, hlock⟩
    . exact Or.inl (List.mem_map.mpr ⟨c, hc, if_neg htarget⟩)
  . intro c hc
    refine ⟨_, List.mem_map_of_mem hc, ?_⟩
    split
    . exact ⟨rfl, Or.inr (Nat.lt_succ_self _)⟩
    . exact ⟨rfl, Or.inl rfl⟩
  . intro o ho
    exact Or.inl ⟨o, ho, rfl⟩
  . exact Nat.le_refl _
  . exact Nat.le_refl _

theorem ChangedBy.publish (tx : Tx) (ids : List Nat) (publishedAt : Int)
    : ChangedBy tx db (db.markPublished ids publishedAt) :=
  { ChangedBy.refl tx db with
    outboxId := by
      intro o ho
      exact Or.inl (forall_mem_of_map_eq (f := (·.id)) (p := fun id => ∃ o' ∈ db.outbox, o'.id = id)
        (map_markPublished ids publishedAt _ (fun _ _ _ => rfl)) (fun o ho => ⟨o, ho, rfl⟩) o ho)
  }

end Db

namespace Process

def Reserves (db : Db) (p : Process) (status : CouponIssueResultStatus) (writes : List Write)
    : Prop :=
  db.Takes p.request.eventId p.request.couponTypeId status writes
    ∧ (status = .success
        → Lock.inventory p.request.eventId p.request.couponTypeId ∈ p.tx.locks)

structure Inserts (db : Db) (p : Process) (now : Int) (status : CouponIssueResultStatus)
    (code : Option String) (row : UserCoupon) : Prop where
  row_eq : row = { p.coupon now status code with id := row.id }
  fresh : db.FreshCoupon row
  code_locked : Lock.code (collationKey row.code) ∈ p.tx.locks
  pair_locked : Lock.userCoupon row.pair ∈ p.tx.locks
  code_isSome : status = .success ↔ code.isSome = true

def Inv (db : Db) (p : Process) : Prop :=
  match p.pc with
  | .updateAvailableCount _ inventory =>
    p.tx.writes = [] ∧ p.Reserves db .success [.updateAvailableCount inventory]
  | .insert _ status code =>
    p.Reserves db status p.tx.writes ∧ (status = .success ↔ code.isSome = true)
  | .append now status code =>
    ∃ writes row,
      p.tx.writes = writes ++ [.insertCoupon row]
        ∧ p.Reserves db status writes
        ∧ p.Inserts db now status code row
  | .commit _ =>
    p.tx.writes = []
      ∨ ∃ now status code writes row event,
          p.tx.writes = writes ++ [.insertCoupon row, .insertOutbox event]
            ∧ p.Reserves db status writes
            ∧ p.Inserts db now status code row
            ∧ db.FreshOutbox event
            ∧ Announces row event p.request.requestId status code
  | _ => p.tx.writes = []

end Process

namespace Redeem

/--
What a redeem transaction knows: the row that it has read is unchanged or has a greater version,
and once it has hit the row it holds its lock.
-/
def Inv (db : Db) (r : Redeem) : Prop :=
  match r.pc with
  | .markUsed coupon _ =>
    r.tx.writes = []
      ∧ coupon.isRedeemable = true
      ∧ ∃ id, coupon.id = some id
          ∧ ∃ c ∈ db.coupons, c.id = some id ∧ (c = coupon ∨ coupon.version < c.version)
  | .commit _ =>
    r.tx.writes = []
      ∨ ∃ id coupon usedAt,
          r.tx.writes = [.markUsed id coupon.version usedAt]
            ∧ Lock.couponRow id ∈ r.tx.locks
            ∧ coupon ∈ db.coupons
            ∧ coupon.id = some id
            ∧ coupon.isRedeemable = true
  | _ => r.tx.writes = []

end Redeem

namespace PollPc

def Inv (v : View) : PollPc → Prop
  | .publish events published =>
    (∀ e ∈ events, ∃ o ∈ v.db.outbox, o.record = e) ∧ v.Sent published
  | .markPublished ids _ => v.Sent ids
  | _ => True

end PollPc

namespace Call

def Inv (v : View) : Call → Prop
  | process p => p.Inv v.db
  | redeem r => r.Inv v.db
  | poll pc => pc.Inv v

structure Distinct (f g : Call) : Prop where
  locks : Apart (fun c : Call => c.tx.locks) f g
  rowIds : Apart (fun c : Call => c.tx.rowIds) f g
  outboxIds : Apart (fun c : Call => c.tx.outboxIds) f g

theorem Distinct.symm {f g : Call} (h : Distinct f g) : Distinct g f :=
  ⟨h.locks.symm, h.rowIds.symm, h.outboxIds.symm⟩

end Call

section Stability

variable {db db' : Db} {tx : Tx}

theorem Process.Reserves.of_changedBy {p : Process} {status : CouponIssueResultStatus}
    {writes : List Write} (h : p.Reserves db status writes) (hchanged : Db.ChangedBy tx db db')
    (hlocks : ∀ l ∈ p.tx.locks, l ∉ tx.locks)
    : p.Reserves db' status writes := by
  cases status with
  | success =>
    obtain ⟨⟨inventory, hwrites, hevent, htype, hnonneg, hmem⟩, hlocked⟩ := h
    have hlocked := hlocked rfl
    refine ⟨⟨inventory, hwrites, hevent, htype, hnonneg, ?_⟩, fun _ => hlocked⟩
    cases hchanged.inventory _ hmem with
    | inl htaken =>
      rw [← hevent, ← htype] at hlocked
      exact absurd htaken (hlocks _ hlocked)
    | inr hmem => exact hmem
  | soldOut => exact h
  | failed => exact h

theorem Process.Inserts.of_changedBy {p : Process} {now : Int} {status : CouponIssueResultStatus}
    {code : Option String} {row : UserCoupon} (h : p.Inserts db now status code row)
    (hchanged : Db.ChangedBy tx db db') (hlocks : ∀ l ∈ p.tx.locks, l ∉ tx.locks)
    (hrowIds : row.id ∉ tx.rowIds)
    : p.Inserts db' now status code row := by
  refine { h with fresh := { h.fresh with id := ?_, code := ?_, pair := ?_ } }
  . obtain ⟨id, hlt, hid, hfresh⟩ := h.fresh.id
    refine ⟨id, Nat.lt_of_lt_of_le hlt hchanged.nextCouponId, hid, ?_⟩
    intro c hc heq
    cases hchanged.couponId c hc with
    | inl hold =>
      obtain ⟨d, hd, hdc⟩ := hold
      exact hfresh d hd (hdc.trans heq)
    | inr hnew => exact hrowIds (by rw [hid, ← heq]; exact hnew)
  . intro c hc heq
    cases hchanged.code c hc with
    | inl hold =>
      obtain ⟨d, hd, hdc⟩ := hold
      exact h.fresh.code d hd (hdc.trans heq)
    | inr hnew => exact hlocks _ h.code_locked (heq ▸ hnew)
  . intro c hc heq
    cases hchanged.pair c hc with
    | inl hold =>
      obtain ⟨d, hd, hdc⟩ := hold
      exact h.fresh.pair d hd (hdc.trans heq)
    | inr hnew => exact hlocks _ h.pair_locked (heq ▸ hnew)

theorem Db.FreshOutbox.of_changedBy {event : OutboxEvent} (h : db.FreshOutbox event)
    (hchanged : Db.ChangedBy tx db db') (hid : event.id ∉ tx.outboxIds)
    : db'.FreshOutbox event := by
  refine ⟨Nat.lt_of_lt_of_le h.lt hchanged.nextOutboxId, ?_⟩
  intro o ho heq
  cases hchanged.outboxId o ho with
  | inl hold =>
    obtain ⟨o', ho', hid'⟩ := hold
    exact h.id o' ho' (hid'.trans heq)
  | inr hnew => exact hid (heq ▸ hnew)

theorem Process.Inv.of_changedBy {p : Process} (h : p.Inv db) (hchanged : Db.ChangedBy tx db db')
    (hlocks : ∀ l ∈ p.tx.locks, l ∉ tx.locks) (hrowIds : ∀ id ∈ p.tx.rowIds, id ∉ tx.rowIds)
    (houtboxIds : ∀ id ∈ p.tx.outboxIds, id ∉ tx.outboxIds)
    : p.Inv db' := by
  unfold Process.Inv at h ⊢
  split at h
  . exact ⟨h.1, h.2.of_changedBy hchanged hlocks⟩
  . exact ⟨h.1.of_changedBy hchanged hlocks, h.2⟩
  . obtain ⟨writes, row, hwrites, hreserves, hinserts⟩ := h
    have hid : row.id ∈ p.tx.rowIds := by simp [Tx.rowIds, hwrites]
    exact ⟨writes, row, hwrites, hreserves.of_changedBy hchanged hlocks,
      hinserts.of_changedBy hchanged hlocks (hrowIds _ hid)⟩
  . rcases h with h | ⟨now, status, code, writes, row, event, hwrites, hreserves, hinserts, hevent,
      hannounces⟩
    . exact Or.inl h
    . have hid : row.id ∈ p.tx.rowIds := by simp [Tx.rowIds, hwrites]
      have houtbox : event.id ∈ p.tx.outboxIds := by simp [Tx.outboxIds, hwrites]
      exact Or.inr ⟨now, status, code, writes, row, event, hwrites,
        hreserves.of_changedBy hchanged hlocks,
        hinserts.of_changedBy hchanged hlocks (hrowIds _ hid),
        hevent.of_changedBy hchanged (houtboxIds _ houtbox), hannounces⟩
  . exact h

theorem Redeem.Inv.of_changedBy {r : Redeem} (h : r.Inv db) (hchanged : Db.ChangedBy tx db db')
    (hlocks : ∀ l ∈ r.tx.locks, l ∉ tx.locks)
    : r.Inv db' := by
  unfold Redeem.Inv at h ⊢
  split at h
  . obtain ⟨hwrites, hredeemable, id, hid, c, hc, hcid, hversion⟩ := h
    obtain ⟨c', hc', hid', hversion'⟩ := hchanged.version c hc
    refine ⟨hwrites, hredeemable, id, hid, c', hc', hid'.trans hcid, ?_⟩
    rcases hversion' with rfl | hlt
    . exact hversion
    . rcases hversion with rfl | hlt'
      . exact Or.inr hlt
      . exact Or.inr (Nat.lt_trans hlt' hlt)
  . rcases h with h | ⟨id, coupon, usedAt, hwrites, hlocked, hmem, hid, hredeemable⟩
    . exact Or.inl h
    . refine Or.inr ⟨id, coupon, usedAt, hwrites, hlocked, ?_, hid, hredeemable⟩
      rcases hchanged.couponRow coupon hmem with hmem | ⟨id', hid', htaken⟩
      . exact hmem
      . rw [hid, Option.some.injEq] at hid'
        subst hid'
        exact absurd htaken (hlocks _ hlocked)
  . exact h

theorem PollPc.Inv.of_le {v v' : View} {pc : PollPc} (h : pc.Inv v) (hle : v.Le v') : pc.Inv v' := by
  unfold PollPc.Inv at h ⊢
  split at h
  . refine ⟨?_, h.2.of_le hle⟩
    intro e he
    obtain ⟨o, ho, hrecord⟩ := h.1 e he
    obtain ⟨o', ho', hrecord'⟩ := hle.outbox o ho
    exact ⟨o', ho', hrecord'.trans hrecord⟩
  . exact h.of_le hle
  . trivial

theorem Call.Inv.of_changedBy {v v' : View} {f g : Call} (h : f.Inv v)
    (hchanged : Db.ChangedBy g.tx v.db v'.db) (hle : v.Le v') (hdistinct : Distinct f g)
    : f.Inv v' := by
  cases f with
  | process p =>
    exact Process.Inv.of_changedBy h hchanged hdistinct.locks hdistinct.rowIds
      hdistinct.outboxIds
  | redeem r => exact Redeem.Inv.of_changedBy h hchanged hdistinct.locks
  | poll pc => exact PollPc.Inv.of_le h hle

end Stability

end ServerC
