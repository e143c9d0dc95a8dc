import CouponIssuance.ServerC.Lemmas.Steps

/-!
This module contains the conservation of the stock: what is available of a coupon type plus what
has been issued of it never changes.
-/

namespace ServerC

namespace UserCoupon

def takesStock (c : UserCoupon) : Bool :=
  c.status == .success || c.status == .used

def isOf (c : UserCoupon) (eventId couponTypeId : JsNumber) : Bool :=
  c.eventId == eventId && c.couponTypeId == couponTypeId

end UserCoupon

namespace Db

def issuedCount (db : Db) (eventId couponTypeId : JsNumber) : Nat :=
  db.coupons.countP fun c => c.isOf eventId couponTypeId && c.takesStock

def stock (db : Db) : List (JsNumber × JsNumber × Int) :=
  db.inventories.map fun i =>
    (i.eventId, i.couponTypeId, i.availableCount + db.issuedCount i.eventId i.couponTypeId)

section Stock

variable {db : Db}

theorem takesStock_ofResult {row : UserCoupon} {status : CouponIssueResultStatus}
    (h : row.status = .ofResult status)
    : row.takesStock = (status == .success) := by
  unfold UserCoupon.takesStock
  rw [h]
  cases status <;> rfl

theorem issuedCount_append (db : Db) (row : UserCoupon) (eventId couponTypeId : JsNumber)
    {db' : Db} (h : db'.coupons = db.coupons ++ [row])
    : db'.issuedCount eventId couponTypeId
        = db.issuedCount eventId couponTypeId
          + if row.isOf eventId couponTypeId && row.takesStock then 1 else 0 := by
  simp [issuedCount, h, List.countP_append, List.countP_cons]

theorem issuedCount_redeem (hwf : db.Wf) {coupon : UserCoupon} {id : Nat} (usedAt : Int)
    (hmem : coupon ∈ db.coupons) (hid : coupon.id = some id)
    (hredeemable : coupon.isRedeemable = true) (eventId couponTypeId : JsNumber)
    : (db.commit [.markUsed id coupon.version usedAt]).issuedCount eventId couponTypeId
        = db.issuedCount eventId couponTypeId := by
  simp only [issuedCount, commit, apply, List.foldl_cons, List.foldl_nil, List.countP_map]
  apply List.countP_congr
  intro c hc
  simp only [Function.comp_apply]
  split
  . next htarget =>
    simp only [isMarkUsedTarget, Bool.and_eq_true, beq_iff_eq] at htarget
    have heq : c = coupon := eq_of_map_nodup hwf.couponIds hc hmem (htarget.1.trans hid.symm)
    simp only [UserCoupon.isRedeemable, Bool.and_eq_true, beq_iff_eq] at hredeemable
    simp [heq, UserCoupon.isOf, UserCoupon.takesStock, hredeemable.1]
  . rfl

theorem stock_issue_success (hwf : db.Wf) {row : UserCoupon} {event : OutboxEvent}
    {inventory : CouponTypeInventory} (hevent : inventory.eventId = row.eventId)
    (htype : inventory.couponTypeId = row.couponTypeId) (htakes : row.takesStock = true)
    (hmem : { inventory with availableCount := inventory.availableCount + 1 } ∈ db.inventories)
    : (db.commit [.updateAvailableCount inventory, .insertCoupon row, .insertOutbox event]).stock
        = db.stock := by
  simp only [stock, commit, apply, List.foldl_cons, List.foldl_nil, List.map_map]
  apply List.map_congr_left
  intro i hi
  simp only [Function.comp_apply]
  split
  . next hid =>
    have heq := eq_of_map_nodup hwf.inventoryIds hi hmem hid
    rw [heq]
    dsimp only
    rw [issuedCount_append db row _ _ rfl]
    have hof : row.isOf inventory.eventId inventory.couponTypeId = true := by
      simp [UserCoupon.isOf, hevent, htype]
    simp only [hof, htakes, Bool.and_self, ↓reduceIte, Prod.mk.injEq, true_and]
    omega
  . next hid =>
    rw [issuedCount_append db row _ _ rfl]
    have hof : row.isOf i.eventId i.couponTypeId = false := by
      rw [← Bool.not_eq_true]
      intro hof
      simp only [UserCoupon.isOf, Bool.and_eq_true, beq_iff_eq] at hof
      apply hid
      have hkey : (i.eventId, i.couponTypeId) = (inventory.eventId, inventory.couponTypeId) := by
        rw [← hof.1, ← hof.2, hevent, htype]
      exact congrArg (·.id) (eq_of_map_nodup hwf.inventoryKeys hi hmem hkey)
    simp [hof]

theorem stock_issue (hwf : db.Wf) {row : UserCoupon} {event : OutboxEvent} {requestId : String}
    {status : CouponIssueResultStatus} {code : Option String} {writes : List Write}
    (htakes : db.Takes row.eventId row.couponTypeId status writes)
    (hannounces : Announces row event requestId status code)
    : (db.commit (writes ++ [.insertCoupon row, .insertOutbox event])).stock = db.stock := by
  have hstock := takesStock_ofResult hannounces.status_eq
  have hkeep : writes = [] → row.takesStock = false
      → (db.commit (writes ++ [.insertCoupon row, .insertOutbox event])).stock = db.stock := by
    intro hwrites hstock
    simp only [hwrites, stock, commit, apply, List.nil_append, List.foldl_cons, List.foldl_nil]
    apply List.map_congr_left
    intro i _
    rw [issuedCount_append db row _ _ rfl]
    simp [hstock]
  cases status with
  | success =>
    obtain ⟨inventory, hwrites, hevent, htype, _, hmem⟩ := htakes
    rw [hwrites]
    exact stock_issue_success hwf hevent htype hstock hmem
  | soldOut => exact hkeep htakes hstock
  | failed => exact hkeep htakes hstock

end Stock

end Db

theorem View.Step.stock {v v' : View} (h : v.Step v') (hwf : v.db.Wf)
    : v'.db.stock = v.db.stock := by
  cases h with
  | transaction db h =>
    cases h with
    | idle _ _ _ _ => rfl
    | issue row event requestId status code writes htakes _ _ hannounces =>
      exact Db.stock_issue hwf htakes hannounces
    | redeem coupon id usedAt hmem hid hredeemable =>
      simp only [Db.stock, Db.issuedCount_redeem hwf usedAt hmem hid hredeemable]
      rfl
  | send _ _ => rfl
  | publish _ _ _ => rfl

section Run

variable {batchSize : Nat}

/--
No run of the calls oversells, loses stock, or gives a user two coupons of one type.
-/
theorem stock_conserved {db : Db} {s : State} (hwf : db.Wf)
    (hrun : (calls batchSize).machine.Run (fun _ _ => True) (init db) s)
    : (∀ i ∈ s.shared.db.inventories, 0 ≤ i.availableCount)
        ∧ s.shared.db.stock = db.stock
        ∧ (s.shared.db.coupons.map (·.pair)).Nodup := by
  have houtline := outline hwf hrun
  refine ⟨houtline.shared.available_nonneg, ?_, houtline.shared.pairs⟩
  apply run_invariant (I := fun v => v.db.stock = db.stock) hwf hrun rfl
  intro v v' hwf' hI hstep
  exact (hstep.stock hwf').trans hI

def lastCoupon : Db where
  events := [⟨.ofInt 10, 0, 1000⟩]
  couponTypes := [⟨.ofInt 20, .ofInt 10⟩]
  inventories := [⟨1, .ofInt 10, .ofInt 20, 1⟩]
  coupons := []
  outbox := []
  nextCouponId := 1
  nextOutboxId := 1

theorem lastCoupon_wf : lastCoupon.Wf := by
  constructor <;> decide

def issueRequest (requestId : String) (userId : Int) : CouponIssueRequestPayload where
  requestId := requestId
  userId := .ofInt userId
  eventId := .ofInt 10
  couponTypeId := .ofInt 20
  requestedAt := "1970-01-01T00:00:00.000Z"

def newProcess (request : CouponIssueRequestPayload) : Call :=
  .process ⟨request, .empty, .existsByUserIdAndCouponTypeId⟩

def okAt (now : Int) : Input :=
  .ok now fun _ => 0

def race : List Act :=
  [.start (newProcess (issueRequest "a" 1)), .start (newProcess (issueRequest "b" 2))]
    ++ [0, 1, 0, 1, 0, 0, 0, 0, 0, 1, 1, 1, 1].map (.step · (okAt 5))

theorem stock_conserved_race
    : ∃ s, (calls 1).machine.Run (fun _ _ => True) (init lastCoupon) s
        ∧ s.shared.db.coupons.map (·.status) = [.success, .soldOut]
        ∧ (∀ i ∈ s.shared.db.inventories, 0 ≤ i.availableCount)
        ∧ s.shared.db.stock = lastCoupon.stock
        ∧ (s.shared.db.coupons.map (·.pair)).Nodup := by
  obtain ⟨s, hrun, hs⟩ := Concurrency.Machine.exists_run_of_exec (calls 1).machine
    (fun _ _ => true) (fun _ _ => True) (fun _ _ _ => trivial) race (init lastCoupon)
    (fun s => s.shared.db.coupons.map (·.status) == [.success, .soldOut]) (by decide)
  exact ⟨s, hrun, beq_iff_eq.mp hs, stock_conserved lastCoupon_wf hrun⟩

end Run

end ServerC
