import CouponIssuance.Common.ApiResponse
import CouponIssuance.ServerC.Lemmas.Moves

/-!
This module contains `POST /api/v1/coupons/:code/redeem` from the command to the response, and that
the response tells nothing about the coupons of other users.
-/

namespace ServerC

open Js

inductive DomainError where
  | couponNotFound (message : String)
  | eventNotFound (message : String)
  | optimisticLockFailure (message : String)
deriving DecidableEq

def mapDomain (exception : Exception DomainError) : Option MappedError :=
  match exception with
  | .domain (.couponNotFound _) => some ⟨404, ErrorResponses.of "NOT_FOUND" "coupon not found"⟩
  | .domain (.eventNotFound _) => some ⟨404, ErrorResponses.of "EVENT_NOT_FOUND" "event not found"⟩
  | .domain (.optimisticLockFailure _) =>
    some ⟨409, ErrorResponses.of "RACE_RETRY" "concurrent modification — retry the request"⟩
  | exception =>
    match (mapCommonError exception).or (mapMissingHeader exception) with
    | some common => some common
    | none =>
      match exception with
      | .invalidState message => some ⟨409, ErrorResponses.of "INVALID_STATE" message⟩
      | _ => none

def RedeemCommand.check (code : String) (userId : JsNumber) : Except (Exception DomainError) Unit := do
  if (Json.trim code).isEmpty then
    throw (.invalidArgument "code must not be blank")
  if userId.lt (JsNumber.ofInt 0) || userId == JsNumber.ofInt 0 then
    throw (.invalidArgument ("userId must be positive but was " ++ toString userId))

structure RedeemCouponView where
  code : String
  userId : JsNumber
  redeemedAt : String
  newlyRedeemed : Bool
deriving DecidableEq

def toRedeemView (result : RedeemResult) : RedeemCouponView where
  code := result.code
  userId := result.userId
  redeemedAt := LocalDateTime.toLocalDateTimeString result.redeemedAt
  newlyRedeemed := result.newlyRedeemed

def RedeemError.exception : RedeemError → Exception DomainError
  | .couponNotFound message => .domain (.couponNotFound message)
  | .invalidState message => .invalidState message
  | .optimisticLockFailure message => .domain (.optimisticLockFailure message)
  | .queryFailed => .other

def failure (exception : Exception DomainError) : ApiResponse RedeemCouponView :=
  let mapped := BaseExceptionFilter.catch mapDomain exception
  { status := mapped.status, body := .error mapped.error }

/-- What the controller answers once `redeem` is over, nothing before that or after a crash. -/
def RedeemPc.response : RedeemPc → Option (ApiResponse RedeemCouponView)
  | .returned result => some { status := 200, body := .ok (toRedeemView result) }
  | .thrown e => some (failure e.exception)
  | _ => none

/-- `redeem` from here on, alone: its statements end one after the other as `inputs` say. -/
def Redeem.alone (σ : Shared) (r : Redeem) : List Input → Shared × Redeem
  | [] => (σ, r)
  | x :: inputs =>
    match r.step σ x with
    | none => (σ, r)
    | some (σ', r') => alone σ' r' inputs

def RedeemCouponController.redeem (σ : Shared) (code : String) (userId : JsNumber)
    (inputs : List Input) : Shared × Option (ApiResponse RedeemCouponView) :=
  match RedeemCommand.check code userId with
  | .error exception => (σ, some (failure exception))
  | .ok _ =>
    let ended := Redeem.alone σ { code, userId, tx := .empty, pc := .findByCode } inputs
    (ended.1, ended.2.pc.response)

structure Db.Unique (db : Db) : Prop where
  ids : (db.coupons.map (·.id)).Nodup
  isSome : ∀ c ∈ db.coupons, c.id.isSome = true
  codes : (db.coupons.map fun c => collationKey c.code).Nodup

def Db.Agree (userId : JsNumber) (db db' : Db) : Prop :=
  ∀ c : UserCoupon, c.userId = userId → (c ∈ db.coupons ↔ c ∈ db'.coupons)

def Db.others (userId : JsNumber) (db : Db) : List UserCoupon :=
  db.coupons.filter fun c => c.userId != userId

section Rows

variable {db db' : Db} {userId : JsNumber} {coupon : UserCoupon}

theorem Db.Agree.symm (h : db.Agree userId db') : db'.Agree userId db :=
  fun c hc => (h c hc).symm

theorem Db.findByCode_eq_some {code : String} (hunique : db.Unique) (hmem : coupon ∈ db.coupons)
    (hcode : collationKey coupon.code = collationKey code)
    : db.findByCode code = some coupon := by
  unfold findByCode
  cases hfind : db.coupons.find? fun c => collationKey c.code == collationKey code with
  | none =>
    have hnone := List.find?_eq_none.mp hfind coupon hmem
    simp [hcode] at hnone
  | some c =>
    have hkey := List.find?_some hfind
    rw [beq_iff_eq] at hkey
    rw [eq_of_map_nodup hunique.codes (List.mem_of_find?_eq_some hfind) hmem
      (hkey.trans hcode.symm)]

def Db.ownByCode (userId : JsNumber) (code : String) (db : Db) : Option UserCoupon :=
  (db.findByCode code).filter (·.isOwnedBy userId)

theorem Db.ownByCode_eq_some {code : String} (h : db.ownByCode userId code = some coupon)
    : coupon ∈ db.coupons ∧ coupon.userId = userId
        ∧ collationKey coupon.code = collationKey code := by
  obtain ⟨hfind, howned⟩ := Option.filter_eq_some_iff.mp h
  have hkey := List.find?_some hfind
  rw [beq_iff_eq] at hkey
  exact ⟨List.mem_of_find?_eq_some hfind, by simpa [UserCoupon.isOwnedBy] using howned, hkey⟩

theorem Db.ownByCode_congr (code : String) (hunique : db.Unique) (hunique' : db'.Unique)
    (hagree : db.Agree userId db')
    : db.ownByCode userId code = db'.ownByCode userId code := by
  have hcarry : ∀ {db db' : Db} {c : UserCoupon}, db'.Unique → db.Agree userId db' →
      db.ownByCode userId code = some c → db'.ownByCode userId code = some c := by
    intro db db' c hunique' hagree h
    obtain ⟨hmem, huser, hkey⟩ := ownByCode_eq_some h
    rw [ownByCode, findByCode_eq_some hunique' ((hagree c huser).mp hmem) hkey]
    simp [UserCoupon.isOwnedBy, huser]
  refine Option.ext fun c => ⟨hcarry hunique' hagree, hcarry hunique hagree.symm⟩

def markRow (id version : Nat) (usedAt : Int) (c : UserCoupon) : UserCoupon :=
  if Db.isMarkUsedTarget id version c then
    { c with status := .used, usedAt := some usedAt, version := c.version + 1 }
  else
    c

theorem markRow_keys (id version : Nat) (usedAt : Int) (c : UserCoupon)
    : (markRow id version usedAt c).id = c.id ∧ (markRow id version usedAt c).code = c.code
        ∧ (markRow id version usedAt c).userId = c.userId := by
  unfold markRow
  split
  . exact ⟨rfl, rfl, rfl⟩
  . exact ⟨rfl, rfl, rfl⟩

theorem Db.coupons_markUsed (db : Db) (id version : Nat) (usedAt : Int)
    : (db.commit [.markUsed id version usedAt]).coupons
        = db.coupons.map (markRow id version usedAt) := by
  rfl

theorem Db.Unique.markUsed (h : db.Unique) (id version : Nat) (usedAt : Int)
    : (db.commit [.markUsed id version usedAt]).Unique := by
  have hkeys := markRow_keys id version usedAt
  refine ⟨?_, ?_, ?_⟩
  . rw [coupons_markUsed, List.map_map]
    simpa [Function.comp_def, hkeys] using h.ids
  . rw [coupons_markUsed]
    intro c hc
    obtain ⟨d, hd, rfl⟩ := List.mem_map.mp hc
    rw [(hkeys d).1]
    exact h.isSome d hd
  . rw [coupons_markUsed, List.map_map]
    simpa [Function.comp_def, hkeys] using h.codes

theorem Db.Agree.markUsed (h : db.Agree userId db') (id version : Nat) (usedAt : Int)
    : (db.commit [.markUsed id version usedAt]).Agree userId
        (db'.commit [.markUsed id version usedAt]) := by
  have hkeys := markRow_keys id version usedAt
  intro c huser
  rw [coupons_markUsed, coupons_markUsed, List.mem_map, List.mem_map]
  constructor
  . rintro ⟨d, hd, rfl⟩
    exact ⟨d, (h d ((hkeys d).2.2 ▸ huser)).mp hd, rfl⟩
  . rintro ⟨d, hd, rfl⟩
    exact ⟨d, (h d ((hkeys d).2.2 ▸ huser)).mpr hd, rfl⟩

theorem Db.others_markUsed (hunique : db.Unique) (hmem : coupon ∈ db.coupons)
    (huser : coupon.userId = userId) (usedAt : Int)
    : (db.commit [.markUsed (coupon.id.getD 0) coupon.version usedAt]).others userId
        = db.others userId := by
  have hkeys := markRow_keys (coupon.id.getD 0) coupon.version usedAt
  have hkept : ∀ c ∈ db.coupons, c.userId ≠ userId →
      markRow (coupon.id.getD 0) coupon.version usedAt c = c := by
    intro c hc hother
    refine if_neg fun htarget => hother ?_
    simp only [isMarkUsedTarget, Bool.and_eq_true, beq_iff_eq] at htarget
    obtain ⟨id, hid⟩ := Option.isSome_iff_exists.mp (hunique.isSome coupon hmem)
    rw [hid, Option.getD_some] at htarget
    rw [eq_of_map_nodup hunique.ids hc hmem (htarget.1.trans hid.symm), huser]
  unfold others
  rw [coupons_markUsed, List.filter_map]
  have hsame : (fun c : UserCoupon => c.userId != userId)
      ∘ markRow (coupon.id.getD 0) coupon.version usedAt = fun c => c.userId != userId := by
    funext c
    rw [Function.comp_apply, (hkeys c).2.2]
  rw [hsame]
  refine (List.map_congr_left fun c hc => ?_).trans (List.map_id _)
  obtain ⟨hc, hother⟩ := List.mem_filter.mp hc
  exact hkept c hc (by simpa using hother)

end Rows

namespace Redeem

def found (r : Redeem) (now : Int) : Option UserCoupon → Redeem
  | none => r.abort (.thrown r.notFound)
  | some coupon =>
    if coupon.isRedeemed then
      r.goto (.commit ⟨coupon.code, coupon.userId, coupon.usedAt.getD 0, false⟩)
    else if !coupon.isRedeemable then
      r.abort (.thrown (.invalidState ("coupon is not redeemable: status=" ++ coupon.status.text)))
    else
      r.goto (.markUsed coupon now)

def Own (db : Db) (r : Redeem) : Prop :=
  match r.pc with
  | .findByCode => r.tx.writes = []
  | .markUsed coupon _ => r.tx.writes = [] ∧ coupon ∈ db.coupons ∧ coupon.userId = r.userId
  | .commit _ => r.tx.writes = [] ∨ ∃ coupon ∈ db.coupons, coupon.userId = r.userId
      ∧ ∃ usedAt, r.tx.writes = [.markUsed (coupon.id.getD 0) coupon.version usedAt]
  | _ => True

structure Blind (r : Redeem) (db db' : Db) : Prop where
  unique : db.Unique
  unique' : db'.Unique
  agree : db.Agree r.userId db'
  own : r.Own db

def SameStep (r : Redeem) (db db' : Db) : Option (Shared × Redeem) → Option (Shared × Redeem) → Prop
  | none, none => True
  | some (τ, s), some (τ', s') => s' = s ∧ s.userId = r.userId ∧ s.Blind τ.db τ'.db
      ∧ τ.db.others r.userId = db.others r.userId ∧ τ'.db.others r.userId = db'.others r.userId
  | _, _ => False

variable {σ σ' : Shared} {r : Redeem}

theorem step_findByCode (now : Int) (draws : Fin 12 → Fin 32) (hpc : r.pc = .findByCode)
    : r.step σ (.ok now draws) = some (σ, r.found now (σ.db.ownByCode r.userId r.code)) := by
  unfold step found Db.ownByCode
  simp only [hpc]
  cases σ.db.findByCode r.code with
  | none => rfl
  | some coupon =>
    dsimp only
    cases howned : coupon.isOwnedBy r.userId with
    | false =>
      rw [show (some coupon).filter (·.isOwnedBy r.userId) = none by simp [howned]]
      rfl
    | true =>
      rw [show (some coupon).filter (·.isOwnedBy r.userId) = some coupon by simp [howned]]
      simp only [Bool.not_true, Bool.false_eq_true, ↓reduceIte]
      cases coupon.isRedeemed with
      | true => rfl
      | false =>
        cases coupon.isRedeemable with
        | true => rfl
        | false => rfl

theorem Blind.of_own {s : Redeem} (h : r.Blind σ.db σ'.db) (huser : s.userId = r.userId)
    (hown : s.Own σ.db)
    : r.SameStep σ.db σ'.db (some (σ, s)) (some (σ', s)) :=
  ⟨rfl, huser, ⟨h.unique, h.unique', huser ▸ h.agree, hown⟩, rfl, rfl⟩

theorem own_found {coupon : Option UserCoupon} (now : Int) (hwrites : r.tx.writes = [])
    (hcoupon : ∀ c ∈ coupon, c ∈ σ.db.coupons ∧ c.userId = r.userId)
    : (r.found now coupon).Own σ.db ∧ (r.found now coupon).userId = r.userId := by
  unfold found
  split
  . exact ⟨trivial, rfl⟩
  . next c =>
    split
    . exact ⟨.inl hwrites, rfl⟩
    . split
      . exact ⟨trivial, rfl⟩
      . exact ⟨⟨hwrites, hcoupon c rfl⟩, rfl⟩

theorem Blind.commit {result : RedeemResult} (h : r.Blind σ.db σ'.db) (hpc : r.pc = .commit result)
    (pc : RedeemPc) (hover : pc.isOpen = false)
    : r.SameStep σ.db σ'.db (some ({ σ with db := σ.db.commit r.tx.writes }, r.abort pc))
        (some ({ σ' with db := σ'.db.commit r.tx.writes }, r.abort pc)) := by
  have hown : ∀ db, (r.abort pc).Own db := by
    intro db
    cases pc with
    | findByCode | markUsed _ _ | commit _ => contradiction
    | _ => trivial
  have howned := h.own
  simp only [Own, hpc] at howned
  rcases howned with hnil | ⟨coupon, hmem, huser, usedAt, hwrites⟩
  . rw [hnil]
    exact ⟨rfl, rfl, ⟨h.unique, h.unique', h.agree, hown _⟩, rfl, rfl⟩
  . rw [hwrites]
    refine ⟨rfl, rfl, ⟨h.unique.markUsed _ _ _, h.unique'.markUsed _ _ _,
      h.agree.markUsed _ _ _, hown _⟩, ?_, ?_⟩
    . exact Db.others_markUsed h.unique hmem huser usedAt
    . exact Db.others_markUsed h.unique' ((h.agree coupon huser).mp hmem) huser usedAt

theorem any_isMarkUsedTarget {db : Db} {coupon : UserCoupon} (hunique : db.Unique)
    (hmem : coupon ∈ db.coupons)
    : db.coupons.any (Db.isMarkUsedTarget (coupon.id.getD 0) coupon.version) = true := by
  obtain ⟨id, hid⟩ := Option.isSome_iff_exists.mp (hunique.isSome coupon hmem)
  exact List.any_eq_true.mpr ⟨coupon, hmem, by simp [Db.isMarkUsedTarget, hid]⟩

theorem Blind.step (h : r.Blind σ.db σ'.db) (x : Input)
    : r.SameStep σ.db σ'.db (r.step σ x) (r.step σ' x) := by
  have hown := h.own
  cases x with
  | ok now draws =>
    cases hpc : r.pc with
    | findByCode =>
      rw [step_findByCode now draws hpc, step_findByCode now draws hpc,
        ← Db.ownByCode_congr r.code h.unique h.unique' h.agree]
      simp only [Own, hpc] at hown
      have hcoupon : ∀ c ∈ σ.db.ownByCode r.userId r.code,
          c ∈ σ.db.coupons ∧ c.userId = r.userId := by
        intro c hc
        obtain ⟨hmem, huser, -⟩ := Db.ownByCode_eq_some hc
        exact ⟨hmem, huser⟩
      have hfound := own_found now hown hcoupon
      exact h.of_own hfound.2 hfound.1
    | markUsed coupon now' =>
      simp only [Own, hpc] at hown
      obtain ⟨hwrites, hmem, huser⟩ := hown
      have hmem' := (h.agree coupon huser).mp hmem
      simp only [Redeem.step, hpc, any_isMarkUsedTarget h.unique hmem,
        any_isMarkUsedTarget h.unique' hmem', ↓reduceIte]
      refine h.of_own rfl (.inr ⟨coupon, hmem, huser, now', ?_⟩)
      simp [goto, Tx.write, Tx.lock, hwrites]
    | commit result =>
      simp only [Redeem.step, hpc]
      exact h.commit hpc _ rfl
    | returned _ | thrown _ | crashed => simp [Redeem.step, hpc, SameStep]
  | fail executed now =>
    cases hpc : r.pc with
    | commit result =>
      simp only [Redeem.step, hpc]
      cases executed with
      | true => exact h.commit hpc _ rfl
      | false => exact h.of_own rfl trivial
    | findByCode | markUsed _ _ =>
      simp only [Redeem.step, hpc]
      exact h.of_own rfl trivial
    | returned _ | thrown _ | crashed => simp [Redeem.step, hpc, SameStep]
  | crash =>
    cases hpc : r.pc with
    | returned _ | thrown _ | crashed => simp [Redeem.step, hpc, SameStep]
    | _ =>
      simp only [Redeem.step, hpc]
      exact h.of_own rfl trivial

theorem Blind.alone (h : r.Blind σ.db σ'.db) (inputs : List Input)
    : (Redeem.alone σ' r inputs).2 = (Redeem.alone σ r inputs).2
        ∧ (Redeem.alone σ r inputs).1.db.others r.userId = σ.db.others r.userId
        ∧ (Redeem.alone σ' r inputs).1.db.others r.userId = σ'.db.others r.userId := by
  induction inputs generalizing σ σ' r with
  | nil => exact ⟨rfl, rfl, rfl⟩
  | cons x inputs ih =>
    have hsame := h.step x
    unfold Redeem.alone
    cases hstep : r.step σ x with
    | none =>
      cases hstep' : r.step σ' x with
      | none => exact ⟨rfl, rfl, rfl⟩
      | some next' => simp [hstep, hstep', SameStep] at hsame
    | some next =>
      cases hstep' : r.step σ' x with
      | none => simp [hstep, hstep', SameStep] at hsame
      | some next' =>
        rw [hstep, hstep'] at hsame
        obtain ⟨hlocal, huser, hblind, hothers, hothers'⟩ := hsame
        obtain ⟨hrest, hkept, hkept'⟩ := ih hblind
        rw [huser] at hkept hkept'
        dsimp only
        rw [hlocal]
        exact ⟨hrest, hkept.trans hothers, hkept'.trans hothers'⟩

end Redeem

def RedeemPc.rank : RedeemPc → Nat
  | .findByCode => 3
  | .markUsed _ _ => 2
  | .commit _ => 1
  | _ => 0

theorem RedeemPc.isSome_response {pc : RedeemPc} (h : pc.rank = 0) (hup : pc ≠ .crashed)
    : pc.response.isSome = true := by
  cases pc with
  | returned _ | thrown _ => rfl
  | crashed => contradiction
  | _ => contradiction

namespace Redeem

theorem step_rank {σ σ' : Shared} {r r' : Redeem} {now : Int} {draws : Fin 12 → Fin 32}
    (hstep : r.step σ (.ok now draws) = some (σ', r'))
    : r'.pc.rank < r.pc.rank ∧ r'.pc ≠ .crashed := by
  cases hpc : r.pc with
  | findByCode =>
    rw [step_findByCode now draws hpc, Option.some.injEq, Prod.mk.injEq] at hstep
    rw [← hstep.2]
    unfold found
    split
    . simp [abort, RedeemPc.rank]
    . split
      . simp [goto, RedeemPc.rank]
      . split
        . simp [abort, RedeemPc.rank]
        . simp [goto, RedeemPc.rank]
  | markUsed coupon now' =>
    simp only [step, hpc] at hstep
    split at hstep
    . cases hstep
      simp [goto, RedeemPc.rank]
    . cases hstep
      simp [abort, RedeemPc.rank]
  | commit result =>
    simp only [step, hpc] at hstep
    cases hstep
    simp [abort, RedeemPc.rank]
  | returned _ | thrown _ | crashed => simp [step, hpc] at hstep

theorem rank_of_step_eq_none {σ : Shared} {r : Redeem} {now : Int} {draws : Fin 12 → Fin 32}
    (hstep : r.step σ (.ok now draws) = none)
    : r.pc.rank = 0 := by
  cases hpc : r.pc with
  | findByCode => simp [step_findByCode now draws hpc] at hstep
  | markUsed coupon now' =>
    simp only [step, hpc] at hstep
    split at hstep
    . contradiction
    . contradiction
  | commit result => simp [step, hpc] at hstep
  | returned _ | thrown _ | crashed => rfl

theorem isSome_response_alone (σ : Shared) {r : Redeem} {n : Nat} (now : Int)
    (draws : Fin 12 → Fin 32) (hrank : r.pc.rank ≤ n) (hup : r.pc ≠ .crashed)
    : (alone σ r (List.replicate n (.ok now draws))).2.pc.response.isSome = true := by
  induction n generalizing σ r with
  | zero => exact RedeemPc.isSome_response (Nat.le_zero.mp hrank) hup
  | succ n ih =>
    rw [List.replicate_succ]
    unfold alone
    split
    . next hstep => exact RedeemPc.isSome_response (rank_of_step_eq_none hstep) hup
    . next hstep =>
      obtain ⟨hlt, hup'⟩ := step_rank hstep
      exact ih _ (by omega) hup'

end Redeem

theorem RedeemCouponController.isSome_response (σ : Shared) (code : String) (userId : JsNumber)
    (now : Int) (draws : Fin 12 → Fin 32)
    : (redeem σ code userId (List.replicate 3 (.ok now draws))).2.isSome = true := by
  unfold redeem
  split
  . rfl
  . exact Redeem.isSome_response_alone σ now draws (Nat.le_refl 3) nofun

/--
Two databases with the same coupons of a user give the same response to the user, and the coupons
of the other users stay as they are.
-/
theorem redeem_response_congr (σ σ' : Shared) (code : String) (userId : JsNumber)
    (inputs : List Input) (hunique : σ.db.Unique) (hunique' : σ'.db.Unique)
    (hagree : σ.db.Agree userId σ'.db)
    : (RedeemCouponController.redeem σ code userId inputs).2
          = (RedeemCouponController.redeem σ' code userId inputs).2
        ∧ (RedeemCouponController.redeem σ code userId inputs).1.db.others userId
          = σ.db.others userId
        ∧ (RedeemCouponController.redeem σ' code userId inputs).1.db.others userId
          = σ'.db.others userId := by
  unfold RedeemCouponController.redeem
  split
  . exact ⟨rfl, rfl, rfl⟩
  . have hblind : ({ code, userId, tx := .empty, pc := .findByCode } : Redeem).Blind σ.db σ'.db :=
      ⟨hunique, hunique', hagree, rfl⟩
    obtain ⟨hlocal, hothers, hothers'⟩ := hblind.alone inputs
    refine ⟨?_, hothers, hothers'⟩
    dsimp only
    rw [hlocal]

def strangersCoupon : Shared where
  db := {
    events := []
    couponTypes := []
    inventories := []
    coupons := [{
      id := some 1
      code := "AAAAAAAAAAAA"
      userId := JsNumber.ofInt 2
      eventId := JsNumber.ofInt 1
      couponTypeId := JsNumber.ofInt 1
      status := .soldOut
      issuedAt := 0
      usedAt := none
      version := 0
    }]
    outbox := []
    nextCouponId := 2
    nextOutboxId := 1
  }
  topic := []
  available := []

def noCoupon : Shared :=
  { strangersCoupon with db := { strangersCoupon.db with coupons := [] } }

theorem redeem_response_congr_stranger
    : let redeem := fun σ => RedeemCouponController.redeem σ "AAAAAAAAAAAA" (JsNumber.ofInt 1)
        (List.replicate 3 (.ok 0 fun _ => 0))
      (redeem strangersCoupon).2 = (redeem noCoupon).2
        ∧ (redeem strangersCoupon).1.db.others (JsNumber.ofInt 1)
          = strangersCoupon.db.others (JsNumber.ofInt 1)
        ∧ (redeem noCoupon).1.db.others (JsNumber.ofInt 1)
          = noCoupon.db.others (JsNumber.ofInt 1) := by
  refine redeem_response_congr strangersCoupon noCoupon "AAAAAAAAAAAA" (JsNumber.ofInt 1) _
    ⟨by decide, by decide, by decide⟩ ⟨by decide, by decide, by decide⟩ ?_
  intro c huser
  simp only [strangersCoupon, noCoupon, List.mem_singleton, List.not_mem_nil, iff_false]
  rintro rfl
  revert huser
  decide

end ServerC
