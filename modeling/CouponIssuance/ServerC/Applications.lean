import CouponIssuance.ServerC.Depleted
import CouponIssuance.ServerC.Lemmas.Rows
import CouponIssuance.ServerC.Query

/-!
This module contains the promise of the issue transaction to a group of users: as many of them as
there are coupons get one, in whatever order they are served.
-/

namespace ServerC

open Concurrency

/-- For the coupon type `couponTypeId` only `users` apply, and nobody redeems. -/
def Call.Applies (users : List JsNumber) (eventId couponTypeId : JsNumber) : Call → Prop
  | process p =>
    p.request.couponTypeId = couponTypeId → p.request.userId ∈ users ∧ p.request.eventId = eventId
  | redeem _ => False
  | poll _ => True

/-- What may happen while `users` apply: their event is active whenever it is looked at. -/
def Applying (users : List JsNumber) (eventId couponTypeId : JsNumber) (s : State) : Act → Prop
  | .start c => c.Applies users eventId couponTypeId
  | .step i (.ok now _) =>
    ∀ p, s.calls[i]? = some (.process p) → p.pc = .findEvent
      → p.request.couponTypeId = couponTypeId
      → ∀ event, s.shared.db.findEvent eventId = some event → event.isActive now = true
  | _ => True

/-- Every user has an application that was processed without an error. -/
def Processed (users : List JsNumber) (couponTypeId : JsNumber) (s : State) : Prop :=
  ∀ u ∈ users, ∃ p, .process p ∈ s.calls ∧ p.request.userId = u
    ∧ p.request.couponTypeId = couponTypeId ∧ p.pc = .returned

namespace Db

def usersWith (db : Db) (users : List JsNumber) (couponTypeId : JsNumber)
    (status : UserCouponStatus) : Nat :=
  users.countP fun u =>
    (db.findByUserIdAndCouponTypeId u couponTypeId).any fun c => c.status == status

def outcome (db : Db) (users : List JsNumber) (eventId couponTypeId : JsNumber)
    : Nat × Nat × Option Int :=
  (db.usersWith users couponTypeId .success, db.usersWith users couponTypeId .soldOut,
    (db.findInventory eventId couponTypeId).map (·.availableCount))

def Grants (db : Db) (eventId couponTypeId : JsNumber) (status : UserCouponStatus) : Prop :=
  status = .success ∨ status = .soldOut ∧ db.isDepleted eventId couponTypeId = true

end Db

section Grants

variable {users : List JsNumber} {eventId couponTypeId : JsNumber} {db : Db}

def Process.Decided (eventId couponTypeId : JsNumber) (db : Db) (p : Process) : Prop :=
  match p.pc with
  | .insert _ status _ | .append _ status _ => db.Grants eventId couponTypeId (.ofResult status)
  | .commit _ =>
    ∀ row, .insertCoupon row ∈ p.tx.writes → db.Grants eventId couponTypeId row.status
  | _ => True

def Call.Decided (users : List JsNumber) (eventId couponTypeId : JsNumber) (db : Db) (c : Call)
    : Prop :=
  c.Applies users eventId couponTypeId
    ∧ ∀ p, c = .process p → p.request.couponTypeId = couponTypeId
      → p.Decided eventId couponTypeId db

theorem Db.Grants.mono {db' : Db} {status : UserCouponStatus}
    (h : db.Grants eventId couponTypeId status)
    (hdepleted : db.isDepleted eventId couponTypeId = true
      → db'.isDepleted eventId couponTypeId = true)
    : db'.Grants eventId couponTypeId status :=
  h.imp_right fun hsold => ⟨hsold.1, hdepleted hsold.2⟩

theorem Process.Decided.mono {p : Process} {db' : Db} (h : p.Decided eventId couponTypeId db)
    (hdepleted : db.isDepleted eventId couponTypeId = true
      → db'.isDepleted eventId couponTypeId = true)
    : p.Decided eventId couponTypeId db' := by
  unfold Decided at h ⊢
  split
  . next hpc =>
    rw [hpc] at h
    exact h.mono hdepleted
  . next hpc =>
    rw [hpc] at h
    exact h.mono hdepleted
  . next hpc =>
    rw [hpc] at h
    exact fun row hrow => (h row hrow).mono hdepleted
  . trivial

theorem Process.status_of_inserting {p : Process} {now : Int} {status : CouponIssueResultStatus}
    {code : Option String} (hpc : p.pc = .append now status code) (hinv : p.Inv db)
    {row : UserCoupon} (hrow : .insertCoupon row ∈ p.tx.writes)
    : row.status = .ofResult status := by
  simp only [Inv, hpc] at hinv
  obtain ⟨writes, row', hwrites, hreserves, hinserts⟩ := hinv
  rw [hwrites, List.mem_append, List.mem_singleton] at hrow
  rcases hrow with hrow | hrow
  . have htakes := hreserves.1
    cases status with
    | success =>
      obtain ⟨inventory, hwrites', _⟩ := htakes
      rw [hwrites'] at hrow
      simp at hrow
    | soldOut =>
      rw [show writes = [] from htakes] at hrow
      contradiction
    | failed =>
      rw [show writes = [] from htakes] at hrow
      contradiction
  . rw [Write.insertCoupon.injEq] at hrow
    rw [hrow, hinserts.row_eq]
    rfl

theorem Process.step_decided {σ σ' : Shared} {p p' : Process} {x : Input} (hwf : σ.db.Wf)
    (hinv : p.Inv σ.db) (hevent : p.request.eventId = eventId)
    (htype : p.request.couponTypeId = couponTypeId)
    (hactive : ∀ now draws, x = .ok now draws → p.pc = .findEvent
      → ∀ event, σ.db.findEvent eventId = some event → event.isActive now = true)
    (hdecided : p.Decided eventId couponTypeId σ.db) (hmoves : p.Moves σ σ' x p')
    : p'.Decided eventId couponTypeId σ'.db := by
  cases hmoves with
  | inactive now draws event hpc hσ hfind hinactive =>
    rw [hevent] at hfind
    rw [hactive now draws rfl hpc event hfind] at hinactive
    contradiction
  | soldOut now now' draws inventory hpc hσ hinventory hcount =>
    subst hσ
    rw [hevent, htype] at hinventory
    exact Or.inr ⟨rfl, Db.isDepleted_of_decrement hwf hinventory hcount⟩
  | updated now now' draws inventory hpc hσ => exact Or.inl rfl
  | inserted now now' draws status code hpc hσ herror =>
    subst hσ
    simp only [Decided, hpc] at hdecided
    exact hdecided
  | appended now now' draws status code hpc hσ =>
    subst hσ
    simp only [Decided, hpc] at hdecided
    intro row hrow
    have hrow' : .insertCoupon row ∈ p.tx.writes := by
      simpa [goto, Tx.write] using hrow
    rw [status_of_inserting hpc hinv hrow']
    exact hdecided
  | found now draws hpc hσ hexists =>
    intro row hrow
    simp only [Inv, hpc] at hinv
    simp only [goto, hinv] at hrow
    contradiction
  | committed now draws check hpc hσ => cases check <;> trivial
  | _ => trivial

end Grants

section Run

variable {batchSize : Nat} {users : List JsNumber} {eventId couponTypeId : JsNumber} {db : Db}
variable {s : State}

theorem decided (hwf : db.Wf)
    (hrun : (calls batchSize).machine.Run (Applying users eventId couponTypeId) (init db) s)
    : ∀ c ∈ s.calls, c.Decided users eventId couponTypeId s.shared.db := by
  refine Calls.forall_calls (J := fun σ c => c.Decided users eventId couponTypeId σ.db) hrun
    (K := fun u => (calls batchSize).machine.Run (Applying users eventId couponTypeId) (init db) u)
    (fun _ hu => hu) (by simp [init]) ?_ ?_ ?_
  . intro u f _ hok hstart
    refine ⟨hok, ?_⟩
    rintro p rfl _
    simp only [calls, Call.start] at hstart
    split at hstart
    . next heq =>
      cases heq
      trivial
    . contradiction
    . contradiction
    . contradiction
  . intro u i x f σ' f' hu hok hf hdecided hstep
    have houtline := outline hwf hu
    cases f with
    | process p =>
      obtain ⟨⟨σ'', p'⟩, hstep', heq⟩ := Option.map_eq_some_iff.mp hstep
      cases heq
      have hrequest : p'.request = p.request := by
        cases Process.moves_of_step hstep' <;> rfl
      refine ⟨?_, ?_⟩
      . simp only [Call.Applies, hrequest]
        exact hdecided.1
      . rintro _ ⟨rfl⟩ htype
        rw [hrequest] at htype
        have hevent := (hdecided.1 htype).2
        refine Process.step_decided houtline.shared (houtline.calls i _ hf) hevent htype ?_
          (hdecided.2 p rfl htype) (Process.moves_of_step hstep')
        rintro now draws rfl hpc
        exact hok p hf hpc htype
    | redeem r => exact hdecided.1.elim
    | poll pc =>
      obtain ⟨_, _, heq⟩ := Option.map_eq_some_iff.mp hstep
      cases heq
      exact ⟨trivial, fun _ heq => by contradiction⟩
  . intro u a v f hu hok hnext hdecided
    refine ⟨hdecided.1, fun p hp htype => ?_⟩
    exact (hdecided.2 p hp htype).mono fun hdepleted =>
      (depleted_final hwf hu (.single hok hnext) hdepleted).1

def UserCoupon.Granted (users : List JsNumber) (eventId couponTypeId : JsNumber) (db : Db)
    (c : UserCoupon) : Prop :=
  c.couponTypeId = couponTypeId
    → c.userId ∈ users ∧ c.eventId = eventId ∧ db.Grants eventId couponTypeId c.status

theorem granted (hwf : db.Wf)
    (hrun : (calls batchSize).machine.Run (Applying users eventId couponTypeId) (init db) s)
    : ∃ rows, s.shared.db.coupons = db.coupons ++ rows
        ∧ ∀ c ∈ rows, c.Granted users eventId couponTypeId s.shared.db := by
  apply hrun.invariant_of
    (K := fun u => (calls batchSize).machine.Run (Applying users eventId couponTypeId) (init db) u)
    (I := fun s => ∃ rows, s.shared.db.coupons = db.coupons ++ rows
      ∧ ∀ c ∈ rows, c.Granted users eventId couponTypeId s.shared.db) (fun _ hu => hu)
  . exact ⟨[], by simp [init], by simp⟩
  . rintro u a v hu _ ⟨rows, hrows, hgranted⟩ hok hnext
    have hmono : ∀ c ∈ rows, c.Granted users eventId couponTypeId v.shared.db := by
      intro c hc htype
      obtain ⟨huser, hevent, hgrants⟩ := hgranted c hc htype
      exact ⟨huser, hevent, hgrants.mono fun hdepleted =>
        (depleted_final hwf hu (.single hok hnext) hdepleted).1⟩
    cases a with
    | start f =>
      obtain ⟨_, rfl⟩ := Calls.next_start hnext
      exact ⟨rows, hrows, hmono⟩
    | env e =>
      obtain ⟨shared, henv, rfl⟩ := Calls.next_env (C := calls batchSize) hnext
      cases henv
      exact ⟨rows, hrows, hmono⟩
    | step i x =>
      have houtline := outline hwf hu
      have hnext' := hnext
      obtain ⟨f, shared, f', hf, _, hstep, rfl⟩ := Calls.next_step hnext
      have hdecided := decided hwf hu f (List.mem_of_getElem? hf)
      rcases Call.step_coupons houtline.shared (houtline.calls i f hf) hstep with
        ⟨p, row, check, rfl, hpc, hrow, hcoupons⟩ | hcoupons | ⟨r, rfl, _⟩
      . refine ⟨rows ++ [row], ?_, ?_⟩
        . dsimp only
          rw [hcoupons, hrows, List.append_assoc]
        . intro c hc
          rcases List.mem_append.mp hc with hc | hc
          . exact hmono c hc
          . rw [List.mem_singleton.mp hc]
            intro htype
            have hpair := hrow.pair
            simp only [UserCoupon.pair, Prod.mk.injEq] at hpair
            rw [hpair.2] at htype
            obtain ⟨huser, hevent⟩ := hdecided.1 htype
            have hresult := hdecided.2 p rfl htype
            simp only [Process.Decided, hpc] at hresult
            refine ⟨hpair.1 ▸ huser, hrow.eventId.trans hevent, (hresult row hrow.mem).mono ?_⟩
            intro hdepleted
            exact (depleted_final hwf hu (.single hok hnext') hdepleted).1
      . exact ⟨rows, hcoupons.trans hrows, hmono⟩
      . exact hdecided.1.elim

def ofType (couponTypeId : JsNumber) (rows : List UserCoupon) : List UserCoupon :=
  rows.filter fun c => c.couponTypeId == couponTypeId

theorem mem_ofType {rows : List UserCoupon} {c : UserCoupon}
    : c ∈ ofType couponTypeId rows ↔ c ∈ rows ∧ c.couponTypeId = couponTypeId := by
  simp [ofType]

theorem users_perm {db' : Db} {rows : List UserCoupon} (hwf : db'.Wf) (hnodup : users.Nodup)
    (hrows : db'.coupons = db.coupons ++ rows)
    (hgranted : ∀ c ∈ rows, c.Granted users eventId couponTypeId db')
    (hnew : ∀ u ∈ users, db.existsByUserIdAndCouponTypeId u couponTypeId = false)
    (hexists : ∀ u ∈ users, db'.existsByUserIdAndCouponTypeId u couponTypeId = true)
    : users.Perm ((ofType couponTypeId rows).map (·.userId)) := by
  have hpairs : ((ofType couponTypeId rows).map (·.userId)).Nodup := by
    apply List.Nodup.of_map fun u => (u, couponTypeId)
    have heq : ((ofType couponTypeId rows).map (·.userId)).map (fun u => (u, couponTypeId))
        = (ofType couponTypeId rows).map (·.pair) := by
      rw [List.map_map]
      apply List.map_congr_left
      intro c hc
      simp [UserCoupon.pair, (mem_ofType.mp hc).2]
    rw [heq]
    have hsublist : (ofType couponTypeId rows).Sublist db'.coupons := by
      rw [hrows]
      exact (List.filter_sublist).trans (List.sublist_append_right _ _)
    exact hwf.pairs.sublist (hsublist.map _)
  rw [List.perm_ext_iff_of_nodup hnodup hpairs]
  intro u
  constructor
  . intro hu
    obtain ⟨c, hc, hpair⟩ := List.any_eq_true.mp (hexists u hu)
    simp only [UserCoupon.pair, beq_iff_eq, Prod.mk.injEq] at hpair
    rw [hrows] at hc
    rcases List.mem_append.mp hc with hc | hc
    . have hold : db.existsByUserIdAndCouponTypeId u couponTypeId = true :=
        List.any_eq_true.mpr ⟨c, hc, by simp [UserCoupon.pair, hpair.1, hpair.2]⟩
      rw [hnew u hu] at hold
      contradiction
    . exact List.mem_map.mpr ⟨c, mem_ofType.mpr ⟨hc, hpair.2⟩, hpair.1⟩
  . intro hu
    obtain ⟨c, hc, rfl⟩ := List.mem_map.mp hu
    obtain ⟨hc, htype⟩ := mem_ofType.mp hc
    exact (hgranted c hc htype).1

theorem usersWith_eq {db' : Db} {rows : List UserCoupon} (hwf : db'.Wf)
    (hrows : db'.coupons = db.coupons ++ rows)
    (hperm : users.Perm ((ofType couponTypeId rows).map (·.userId))) (status : UserCouponStatus)
    : db'.usersWith users couponTypeId status
        = (ofType couponTypeId rows).countP fun c => c.status == status := by
  unfold Db.usersWith
  rw [hperm.countP_eq, List.countP_map]
  apply List.countP_congr
  intro c hc
  obtain ⟨hc, htype⟩ := mem_ofType.mp hc
  have hmem : c ∈ db'.coupons := by
    rw [hrows]
    exact List.mem_append_right _ hc
  have hfind := (findByUserIdAndCouponTypeId_eq_some hwf).mpr hmem
  rw [htype] at hfind
  simp [hfind]

theorem usersWith_add {db' : Db} {rows : List UserCoupon} (hwf : db'.Wf)
    (hrows : db'.coupons = db.coupons ++ rows)
    (hgranted : ∀ c ∈ rows, c.Granted users eventId couponTypeId db')
    (hperm : users.Perm ((ofType couponTypeId rows).map (·.userId)))
    : users.length
        = db'.usersWith users couponTypeId .success + db'.usersWith users couponTypeId .soldOut := by
  rw [usersWith_eq hwf hrows hperm, usersWith_eq hwf hrows hperm, hperm.length_eq, List.length_map,
    List.length_eq_countP_add_countP fun c : UserCoupon => c.status == .success]
  congr 1
  apply List.countP_congr
  intro c hc
  obtain ⟨hc, htype⟩ := mem_ofType.mp hc
  rcases (hgranted c hc htype).2.2 with hstatus | ⟨hstatus, _⟩ <;> simp [hstatus]

theorem issuedCount_add {db' : Db} {rows : List UserCoupon} (hwf : db'.Wf)
    (hrows : db'.coupons = db.coupons ++ rows)
    (hgranted : ∀ c ∈ rows, c.Granted users eventId couponTypeId db')
    (hperm : users.Perm ((ofType couponTypeId rows).map (·.userId)))
    : db'.issuedCount eventId couponTypeId
        = db.issuedCount eventId couponTypeId + db'.usersWith users couponTypeId .success := by
  rw [usersWith_eq hwf hrows hperm]
  unfold Db.issuedCount ofType
  rw [hrows, List.countP_append, List.countP_filter]
  congr 1
  apply List.countP_congr
  intro c hc
  by_cases htype : c.couponTypeId = couponTypeId
  . obtain ⟨_, hevent, hgrants⟩ := hgranted c hc htype
    rcases hgrants with hstatus | ⟨hstatus, _⟩
      <;> simp [UserCoupon.isOf, UserCoupon.takesStock, hevent, htype, hstatus]
  . simp [UserCoupon.isOf, htype]

theorem isDepleted_of_soldOut {db' : Db} {rows : List UserCoupon} (hwf : db'.Wf)
    (hrows : db'.coupons = db.coupons ++ rows)
    (hgranted : ∀ c ∈ rows, c.Granted users eventId couponTypeId db')
    (hperm : users.Perm ((ofType couponTypeId rows).map (·.userId)))
    (hsold : 0 < db'.usersWith users couponTypeId .soldOut)
    : db'.isDepleted eventId couponTypeId = true := by
  rw [usersWith_eq hwf hrows hperm, List.countP_pos_iff] at hsold
  obtain ⟨c, hc, hstatus⟩ := hsold
  rw [beq_iff_eq] at hstatus
  obtain ⟨hc, htype⟩ := mem_ofType.mp hc
  rcases (hgranted c hc htype).2.2 with hsuccess | ⟨_, hdepleted⟩
  . rw [hsuccess] at hstatus
    contradiction
  . exact hdepleted

theorem outcome_eq {i : CouponTypeInventory} {n : Nat} (hwf : db.Wf) (hi : i ∈ db.inventories)
    (hcount : i.availableCount = n) (hnodup : users.Nodup)
    (hnew : ∀ u ∈ users, db.existsByUserIdAndCouponTypeId u i.couponTypeId = false)
    (hrun : (calls batchSize).machine.Run (Applying users i.eventId i.couponTypeId) (init db) s)
    (hdone : Processed users i.couponTypeId s)
    : s.shared.db.outcome users i.eventId i.couponTypeId
        = (min n users.length, users.length - min n users.length,
            some ((n - min n users.length : Nat) : Int)) := by
  have hwf' := (outline hwf hrun).shared
  obtain ⟨rows, hrows, hgranted⟩ := granted hwf hrun
  have hexists : ∀ u ∈ users, s.shared.db.existsByUserIdAndCouponTypeId u i.couponTypeId = true := by
    intro u hu
    obtain ⟨p, hp, rfl, htype, hpc⟩ := hdone u hu
    have hsettled := settled hwf hrun _ hp
    simp only [Call.Settled, Process.Settled, hpc] at hsettled
    rw [← htype]
    exact hsettled
  have hperm := users_perm hwf' hnodup hrows hgranted hnew hexists
  have hlength := usersWith_add hwf' hrows hgranted hperm
  have hissued := issuedCount_add hwf' hrows hgranted hperm
  obtain ⟨i', hi', hevent, htype, hsum⟩ := Db.mem_of_stock_eq (stock_eq hwf .refl hrun) hi
  have hnonneg := hwf'.available_nonneg i' hi'
  have hfind := Db.findInventory_eq_some hwf' hi'
  have hdepleted : 0 < s.shared.db.usersWith users i.couponTypeId .soldOut
      → i'.availableCount = 0 := by
    intro hsold
    have := isDepleted_of_soldOut hwf' hrows hgranted hperm hsold
    rw [Db.isDepleted, ← hevent, ← htype, hfind] at this
    simpa [CouponTypeInventory.isDepleted] using this
  rw [hevent, htype] at hfind
  unfold Db.outcome
  rw [hfind, Option.map_some, Prod.mk.injEq, Prod.mk.injEq, Option.some.injEq]
  simp only [init] at hsum
  omega

/--
However the applications of `users` are delivered and interleaved: as many of them as the stock has
coupons get one, all the others are told that it is sold out.
-/
theorem issued_exactly {i : CouponTypeInventory} {n : Nat} (hwf : db.Wf) (hi : i ∈ db.inventories)
    (hcount : i.availableCount = n) (hnodup : users.Nodup)
    (hnew : ∀ u ∈ users, db.existsByUserIdAndCouponTypeId u i.couponTypeId = false)
    (hrun : (calls batchSize).machine.Run (Applying users i.eventId i.couponTypeId) (init db) s)
    (hdone : Processed users i.couponTypeId s)
    : s.shared.db.outcome users i.eventId i.couponTypeId
        = (min n users.length, users.length - min n users.length,
            some ((n - min n users.length : Nat) : Int))
      ∧ ∀ s', (calls batchSize).machine.Run (Applying users i.eventId i.couponTypeId) (init db) s'
          → Processed users i.couponTypeId s'
          → s'.shared.db.outcome users i.eventId i.couponTypeId
              = s.shared.db.outcome users i.eventId i.couponTypeId := by
  have h := outcome_eq hwf hi hcount hnodup hnew hrun hdone
  refine ⟨h, fun s' hrun' hdone' => ?_⟩
  rw [h]
  exact outcome_eq hwf hi hcount hnodup hnew hrun' hdone'

def applications : List Act :=
  race ++ [.start (newProcess (issueRequest "a" 1))]
    ++ [0, 0, 1, 1, 2, 2].map (.step · (okAt 6))

def isApplying (users : List JsNumber) (eventId : JsNumber) (s : State) : Act → Bool
  | .start (.process p) => users.contains p.request.userId && p.request.eventId == eventId
  | .step _ (.ok now _) => s.shared.db.events.all (·.isActive now)
  | _ => false

theorem applying_of_isApplying (a : Act) (h : isApplying users eventId s a = true)
    : Applying users eventId couponTypeId s a := by
  unfold isApplying at h
  split at h
  . simp only [Bool.and_eq_true, beq_iff_eq, List.contains_iff_mem] at h
    exact fun _ => h
  . next now _ =>
    intro p _ _ _ event hfind
    exact List.all_eq_true.mp h event (List.mem_of_find?_eq_some hfind)
  . contradiction

def isProcessed (users : List JsNumber) (couponTypeId : JsNumber) (s : State) : Bool :=
  users.all fun u => s.calls.any fun c =>
    match c with
    | .process ⟨request, _, .returned⟩ =>
      request.userId == u && request.couponTypeId == couponTypeId
    | _ => false

theorem processed_of_isProcessed (h : isProcessed users couponTypeId s = true)
    : Processed users couponTypeId s := by
  intro u hu
  obtain ⟨c, hc, hdone⟩ := List.any_eq_true.mp (List.all_eq_true.mp h u hu)
  split at hdone
  . simp only [Bool.and_eq_true, beq_iff_eq] at hdone
    exact ⟨_, hc, hdone.1, hdone.2, rfl⟩
  . contradiction

theorem issued_exactly_race
    : ∃ s, (calls 1).machine.Run (Applying [.ofInt 1, .ofInt 2] (.ofInt 10) (.ofInt 20))
            (init lastCoupon) s
        ∧ s.calls.length = 3
        ∧ s.shared.db.outcome [.ofInt 1, .ofInt 2] (.ofInt 10) (.ofInt 20) = (1, 1, some 0) := by
  obtain ⟨s, hrun, hs⟩ := Machine.exists_run_of_exec (calls 1).machine
    (isApplying [.ofInt 1, .ofInt 2] (.ofInt 10))
    (Applying [.ofInt 1, .ofInt 2] (.ofInt 10) (.ofInt 20)) (fun _ a h => applying_of_isApplying a h)
    applications (init lastCoupon)
    (fun s => s.calls.length == 3 && isProcessed [.ofInt 1, .ofInt 2] (.ofInt 20) s) (by decide)
  rw [Bool.and_eq_true, beq_iff_eq] at hs
  exact ⟨s, hrun, hs.1, (issued_exactly (i := ⟨1, .ofInt 10, .ofInt 20, 1⟩) (n := 1) lastCoupon_wf
    (by decide) rfl (by decide) (by decide) hrun (processed_of_isProcessed hs.2)).1⟩

end Run

end ServerC
