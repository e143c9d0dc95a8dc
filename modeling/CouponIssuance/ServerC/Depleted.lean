import CouponIssuance.ServerC.Lemmas.Moves
import CouponIssuance.ServerC.Outbox

/-!
This module contains what follows from an empty stock: it stays empty, nothing is issued of it any
more, and the sold-out cache names only such stocks.
-/

namespace ServerC

open Concurrency

def Db.isDepleted (db : Db) (eventId couponTypeId : JsNumber) : Bool :=
  (db.findInventory eventId couponTypeId).any (·.isDepleted)

namespace Db

variable {db db' : Db} {eventId couponTypeId : JsNumber}

theorem findInventory_eq_some (hwf : db.Wf) {i : CouponTypeInventory} (hi : i ∈ db.inventories)
    : db.findInventory i.eventId i.couponTypeId = some i := by
  cases hfind : db.findInventory i.eventId i.couponTypeId with
  | none =>
    have := List.find?_eq_none.mp hfind i hi
    simp at this
  | some j =>
    obtain ⟨hj, hevent, htype⟩ := findInventory_spec hfind
    rw [eq_of_map_nodup hwf.inventoryKeys hj hi (by rw [hevent, htype])]

theorem isDepleted_iff (hwf : db.Wf)
    : db.isDepleted eventId couponTypeId = true
        ↔ ∃ i ∈ db.inventories,
            i.eventId = eventId ∧ i.couponTypeId = couponTypeId ∧ i.availableCount = 0 := by
  unfold isDepleted
  rw [Option.any_eq_true]
  constructor
  . rintro ⟨i, hfind, hcount⟩
    obtain ⟨hi, hevent, htype⟩ := findInventory_spec hfind
    exact ⟨i, hi, hevent, htype, beq_iff_eq.mp hcount⟩
  . rintro ⟨i, hi, rfl, rfl, hcount⟩
    exact ⟨i, findInventory_eq_some hwf hi, beq_iff_eq.mpr hcount⟩

theorem isDepleted_of_decrement (hwf : db.Wf) {i : CouponTypeInventory}
    (hfind : db.findInventory eventId couponTypeId = some i) (hcount : i.availableCount ≤ 0)
    : db.isDepleted eventId couponTypeId = true := by
  obtain ⟨hi, hevent, htype⟩ := findInventory_spec hfind
  have hnonneg := hwf.available_nonneg i hi
  exact (isDepleted_iff hwf).mpr ⟨i, hi, hevent, htype, by omega⟩

theorem issuedCount_eq (db : Db) (eventId couponTypeId : JsNumber)
    : db.issuedCount eventId couponTypeId
        = (db.coupons.map (·.issued)).countP fun i =>
            i.eventId == eventId && i.couponTypeId == couponTypeId && i.status == .success := by
  unfold issuedCount
  rw [List.countP_map]
  apply List.countP_congr
  intro c _
  cases hstatus : c.status
    <;> simp [UserCoupon.isOf, UserCoupon.takesStock, UserCoupon.issued, UserCouponStatus.issued,
      hstatus]

theorem issuedCount_le (h : db.coupons.map (·.issued) <+: db'.coupons.map (·.issued))
    : db.issuedCount eventId couponTypeId ≤ db'.issuedCount eventId couponTypeId := by
  rw [issuedCount_eq, issuedCount_eq]
  exact h.sublist.countP_le

theorem not_takesStock_of_issuedCount_eq
    (h : db.coupons.map (·.issued) <+: db'.coupons.map (·.issued))
    (hcount : db'.issuedCount eventId couponTypeId = db.issuedCount eventId couponTypeId)
    {c : UserCoupon} (hc : c ∈ db'.coupons.drop db.coupons.length)
    (hof : c.isOf eventId couponTypeId = true)
    : c.takesStock = false := by
  have htake : (db'.coupons.take db.coupons.length).map (·.issued) = db.coupons.map (·.issued) := by
    have := List.prefix_iff_eq_take.mp h
    rw [List.length_map] at this
    rw [List.map_take, ← this]
  have hold : { db with coupons := db'.coupons.take db.coupons.length }.issuedCount eventId
      couponTypeId = db.issuedCount eventId couponTypeId := by
    rw [issuedCount_eq, issuedCount_eq, htake]
  unfold issuedCount at hcount hold
  rw [← List.take_append_drop db.coupons.length db'.coupons, List.countP_append, hold,
    Nat.add_eq_left, List.countP_eq_zero] at hcount
  have := hcount c hc
  simpa [hof] using this

theorem mem_of_stock_eq (h : db'.stock = db.stock) {i : CouponTypeInventory}
    (hi : i ∈ db.inventories)
    : ∃ i' ∈ db'.inventories,
        i'.eventId = i.eventId
          ∧ i'.couponTypeId = i.couponTypeId
          ∧ i'.availableCount + db'.issuedCount i.eventId i.couponTypeId
              = i.availableCount + db.issuedCount i.eventId i.couponTypeId := by
  have hmem : (i.eventId, i.couponTypeId, i.availableCount
      + (db.issuedCount i.eventId i.couponTypeId : Int)) ∈ db'.stock := by
    rw [h]
    exact List.mem_map_of_mem hi
  obtain ⟨i', hi', heq⟩ := List.mem_map.mp hmem
  simp only [Prod.mk.injEq] at heq
  obtain ⟨hevent, htype, hsum⟩ := heq
  rw [hevent, htype] at hsum
  exact ⟨i', hi', hevent, htype, hsum⟩

end Db

section Run

variable {batchSize : Nat} {ok : State → Act → Prop} {db : Db} {s t : State}
variable {eventId couponTypeId : JsNumber}

theorem stock_eq (hwf : db.Wf) (hs : (calls batchSize).machine.Run ok (init db) s)
    (ht : (calls batchSize).machine.Run ok s t)
    : t.shared.db.stock = s.shared.db.stock := by
  apply ht.invariant_of (K := Outline) (I := fun t => t.shared.db.stock = s.shared.db.stock)
  . intro u hu
    exact outline hwf (hs.trans hu)
  . rfl
  . intro u a v hu _ hI _ hnext
    exact ((next_transition hu hnext).stock hu.shared).trans hI

theorem depleted_final (hwf : db.Wf) (hs : (calls batchSize).machine.Run ok (init db) s)
    (ht : (calls batchSize).machine.Run ok s t)
    (h : s.shared.db.isDepleted eventId couponTypeId = true)
    : t.shared.db.isDepleted eventId couponTypeId = true
        ∧ t.shared.db.issuedCount eventId couponTypeId
            = s.shared.db.issuedCount eventId couponTypeId := by
  have hwf' := (outline hwf (hs.trans ht)).shared
  obtain ⟨i, hi, rfl, rfl, hcount⟩ := (Db.isDepleted_iff (outline hwf hs).shared).mp h
  obtain ⟨i', hi', hevent, htype, hsum⟩ := Db.mem_of_stock_eq (stock_eq hwf hs ht) hi
  have hnonneg := hwf'.available_nonneg i' hi'
  have hle : s.shared.db.issuedCount i.eventId i.couponTypeId
      ≤ t.shared.db.issuedCount i.eventId i.couponTypeId :=
    Db.issuedCount_le (issued_extends hwf hs ht)
  exact ⟨(Db.isDepleted_iff hwf').mpr ⟨i', hi', hevent, htype, by omega⟩, by omega⟩

/--
The stock is empty in `db` and in every later `db'`, and what has been issued in between does not
take from it.
-/
structure Exhausted (eventId couponTypeId : JsNumber) (db db' : Db) : Prop where
  now : db.isDepleted eventId couponTypeId = true
  later : db'.isDepleted eventId couponTypeId = true
  denied : ∀ c ∈ db'.coupons.drop db.coupons.length,
    c.isOf eventId couponTypeId = true → c.takesStock = false

theorem exhausted_of_isDepleted (hwf : db.Wf) (hs : (calls batchSize).machine.Run ok (init db) s)
    (ht : (calls batchSize).machine.Run ok s t)
    (h : s.shared.db.isDepleted eventId couponTypeId = true)
    : Exhausted eventId couponTypeId s.shared.db t.shared.db := by
  obtain ⟨hlater, hcount⟩ := depleted_final hwf hs ht h
  refine ⟨h, hlater, ?_⟩
  intro c hc hof
  exact Db.not_takesStock_of_issuedCount_eq (issued_extends hwf hs ht) hcount hc hof

def Call.MarksDepleted (db : Db) : Call → Prop
  | process p =>
    p.pc = .markSoldOut → db.isDepleted p.request.eventId p.request.couponTypeId = true
  | _ => True

theorem Process.marks_of_moves {σ σ' : Shared} {p p' : Process} {x : Input}
    (h : p.Moves σ σ' x p')
    (hpc' : p'.pc = .markSoldOut)
    : σ'.db.isDepleted p'.request.eventId p'.request.couponTypeId = true := by
  cases h with
  | depleted now draws inventory hpc hσ hinventory hcount =>
    subst hσ
    exact (Option.any_eq_true ..).mpr ⟨inventory, hinventory, beq_iff_eq.mpr hcount⟩
  | committed now draws check hpc hσ =>
    simp only [abort] at hpc'
    split at hpc' <;> contradiction
  | _ => contradiction

theorem marksDepleted (hwf : db.Wf) (hrun : (calls batchSize).machine.Run ok (init db) s)
    : ∀ c ∈ s.calls, c.MarksDepleted s.shared.db := by
  refine Calls.forall_calls (J := fun σ c => c.MarksDepleted σ.db) hrun
    (K := fun u => (calls batchSize).machine.Run ok (init db) u) (fun _ hu => hu)
    (by simp [init]) ?_ ?_ ?_
  . intro u f _ _ hstart
    simp only [calls, Call.start] at hstart
    split at hstart
    . exact fun hpc => by contradiction
    . trivial
    . trivial
    . contradiction
  . intro u i x f σ' f' _ _ _ _ hstep
    cases f with
    | process p =>
      obtain ⟨⟨σ'', p'⟩, hstep', heq⟩ := Option.map_eq_some_iff.mp hstep
      cases heq
      exact fun hpc => Process.marks_of_moves (Process.moves_of_step hstep') hpc
    | redeem r =>
      obtain ⟨_, _, heq⟩ := Option.map_eq_some_iff.mp hstep
      cases heq
      trivial
    | poll pc =>
      obtain ⟨_, _, heq⟩ := Option.map_eq_some_iff.mp hstep
      cases heq
      trivial
  . intro u a v f hu hok hnext hmarks
    cases f with
    | process p =>
      intro hpc
      exact (depleted_final hwf hu (.single hok hnext) (hmarks hpc)).1
    | redeem r => trivial
    | poll pc => trivial

theorem Call.step_available {σ σ' : Shared} {c c' : Call} {x : Input}
    (hstep : c.step batchSize σ x = some (σ', c'))
    : σ'.available = σ.available
        ∨ ∃ p, c = .process p
            ∧ p.pc = .markSoldOut
            ∧ σ' = { σ with
                available :=
                  couponAvailableKey p.request.eventId p.request.couponTypeId :: σ.available } := by
  cases c with
  | process p =>
    obtain ⟨⟨σ'', p'⟩, hstep', heq⟩ := Option.map_eq_some_iff.mp hstep
    cases heq
    cases Process.moves_of_step hstep' with
    | marked x hpc hσ => exact Or.inr ⟨p, rfl, hpc, hσ⟩
    | _ => left; subst_vars; rfl
  | redeem r =>
    obtain ⟨⟨σ'', r'⟩, hstep', heq⟩ := Option.map_eq_some_iff.mp hstep
    cases heq
    cases Redeem.moves_of_step hstep' with
    | _ => left; subst_vars; rfl
  | poll pc =>
    obtain ⟨⟨σ'', pc'⟩, hstep', heq⟩ := Option.map_eq_some_iff.mp hstep
    cases heq
    left
    unfold PollPc.step at hstep'
    split at hstep' <;> split at hstep' <;> cases hstep' <;> rfl

theorem available_isDepleted (hwf : db.Wf) (hrun : (calls batchSize).machine.Run ok (init db) s)
    : ∀ key ∈ s.shared.available, ∃ eventId couponTypeId,
        key = couponAvailableKey eventId couponTypeId
          ∧ s.shared.db.isDepleted eventId couponTypeId = true := by
  apply hrun.invariant_of (K := fun u => (calls batchSize).machine.Run ok (init db) u)
    (I := fun s => ∀ key ∈ s.shared.available, ∃ eventId couponTypeId,
      key = couponAvailableKey eventId couponTypeId
        ∧ s.shared.db.isDepleted eventId couponTypeId = true) (fun _ hu => hu)
  . simp [init]
  . intro u a v hu _ h hok hnext key hkey
    have hkept : key ∈ u.shared.available → ∃ eventId couponTypeId,
        key = couponAvailableKey eventId couponTypeId
          ∧ v.shared.db.isDepleted eventId couponTypeId = true := by
      intro hkey
      obtain ⟨eventId, couponTypeId, heq, hdepleted⟩ := h key hkey
      exact ⟨eventId, couponTypeId, heq, (depleted_final hwf hu (.single hok hnext) hdepleted).1⟩
    cases a with
    | start f =>
      obtain ⟨_, rfl⟩ := Calls.next_start hnext
      exact hkept hkey
    | step i x =>
      obtain ⟨f, shared, f', hf, _, hstep, rfl⟩ := Calls.next_step hnext
      rcases Call.step_available hstep with heq | ⟨p, rfl, hpc, rfl⟩
      . dsimp only at hkey
        rw [heq] at hkey
        exact hkept hkey
      . rcases List.mem_cons.mp hkey with rfl | hkey
        . exact ⟨_, _, rfl, marksDepleted hwf hu _ (List.mem_of_getElem? hf) hpc⟩
        . exact hkept hkey
    | env e =>
      obtain ⟨shared, henv, rfl⟩ := Calls.next_env (C := calls batchSize) hnext
      cases henv
      exact hkept (List.mem_of_mem_erase hkey)

end Run

end ServerC
