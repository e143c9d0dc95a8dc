import CouponIssuance.ServerC.Untyped

/-!
This module contains what the payload type promises: where the ids of the requests are integral
numbers, `process` runs as it does on the declared payload.
-/

open Js Concurrency

namespace ServerC.Untyped

section Statements

variable {db : Db} {userId eventId couponTypeId : Json}

theorem existsByUserIdAndCouponTypeId_eq (huser : isIntegral userId = true)
    (htype : isIntegral couponTypeId = true)
    : existsByUserIdAndCouponTypeId db userId couponTypeId
        = db.existsByUserIdAndCouponTypeId (stored userId) (stored couponTypeId) := by
  unfold existsByUserIdAndCouponTypeId Db.existsByUserIdAndCouponTypeId
  congr 1
  funext c
  rw [equals_eq huser, equals_eq htype, Bool.eq_iff_iff]
  simp [UserCoupon.pair]

theorem findEvent_eq (hevent : isIntegral eventId = true)
    : findEvent db eventId = db.findEvent (stored eventId) := by
  unfold findEvent Db.findEvent
  congr 1
  funext e
  exact equals_eq hevent e.id

theorem findInventory_eq (hevent : isIntegral eventId = true)
    (htype : isIntegral couponTypeId = true)
    : findInventory db eventId couponTypeId
        = db.findInventory (stored eventId) (stored couponTypeId) := by
  unfold findInventory Db.findInventory
  congr 1
  funext i
  rw [equals_eq hevent, equals_eq htype]

end Statements

namespace Request

structure IsDeclared (r : Request) : Prop where
  userId : isIntegral r.userId = true
  eventId : isIntegral r.eventId = true
  couponTypeId : isIntegral r.couponTypeId = true

instance (r : Request) : Decidable r.IsDeclared :=
  decidable_of_iff (isIntegral r.userId = true ∧ isIntegral r.eventId = true
    ∧ isIntegral r.couponTypeId = true)
    ⟨fun h => ⟨h.1, h.2.1, h.2.2⟩, fun h => ⟨h.userId, h.eventId, h.couponTypeId⟩⟩

/-- The payload as it is declared. `process` does not read `requestedAt`. -/
def declared (r : Request) : CouponIssueRequestPayload where
  requestId := r.requestId
  userId := stored r.userId
  eventId := stored r.eventId
  couponTypeId := stored r.couponTypeId
  requestedAt := ""

variable {r : Request}

theorem toResultPayload_eq (h : r.IsDeclared) (status : CouponIssueResultStatus)
    (code : Option String) (now : Int)
    : toResultPayload r status code now
        = Json.ofScalars (ServerC.toResultPayload r.declared status code now).fields := by
  unfold toResultPayload
  rw [eq_num_stored h.userId, eq_num_stored h.eventId, eq_num_stored h.couponTypeId]
  cases code <;> rfl

theorem couponAvailableKey_eq (h : r.IsDeclared)
    : couponAvailableKey r.eventId r.couponTypeId
        = ServerC.couponAvailableKey r.declared.eventId r.declared.couponTypeId := by
  unfold couponAvailableKey ServerC.couponAvailableKey declared
  rw [text_eq h.eventId, text_eq h.couponTypeId]

end Request

namespace Process

def declared (p : Process) : ServerC.Process :=
  ⟨p.request.declared, p.tx, p.pc⟩

variable {σ : Shared} {p : Process}

theorem outboxEvent_eq (h : p.request.IsDeclared) (id : Nat) (createdAt now : Int)
    (status : CouponIssueResultStatus) (code : Option String)
    : p.outboxEvent id createdAt now status code
        = p.declared.outboxEvent id createdAt now status code := by
  unfold outboxEvent ServerC.Process.outboxEvent
  rw [Request.toResultPayload_eq h, Json.stringifyValue_ofScalars]
  rfl

theorem coupon_eq (now : Int) (status : CouponIssueResultStatus) (code : Option String)
    : p.coupon now status code = p.declared.coupon now status code := by
  rfl

theorem wants_eq : p.wants = p.declared.wants := by
  obtain ⟨request, tx, pc⟩ := p
  cases pc <;> rfl

theorem insertError_of_not_fits (h : p.request.IsDeclared) (db : Db) (now : Int)
    (status : CouponIssueResultStatus) (code : Option String)
    (hfits : (!(fits p.request.userId && fits p.request.eventId && fits p.request.couponTypeId))
      = true)
    : db.insertError (p.declared.coupon now status code) = some .outOfRange := by
  rw [fits_eq h.userId, fits_eq h.eventId, fits_eq h.couponTypeId] at hfits
  unfold Db.insertError
  exact if_pos hfits

theorem step_lookup (h : p.request.IsDeclared) (now : Int) (draws : Fin 12 → Fin 32)
    (hpc : p.pc = .existsByUserIdAndCouponTypeId ∨ p.pc = .findEvent)
    : (p.step σ (.ok now draws)).map (fun r => (r.1, r.2.declared))
        = p.declared.step σ (.ok now draws) := by
  obtain ⟨request, tx, pc⟩ := p
  dsimp only at hpc
  unfold step ServerC.Process.step declared Request.declared
  rcases hpc with rfl | rfl
  . dsimp only
    rw [existsByUserIdAndCouponTypeId_eq h.userId h.couponTypeId]
    split <;> rfl
  . dsimp only
    rw [findEvent_eq h.eventId, text_eq h.eventId]
    generalize σ.db.findEvent (stored request.eventId) = event
    cases event with
    | none => rfl
    | some event =>
      dsimp only
      split <;> rfl

theorem step_inventory (h : p.request.IsDeclared) (now : Int) (draws : Fin 12 → Fin 32)
    (hpc : (∃ now', p.pc = .findForUpdate now') ∨ p.pc = .freshRead)
    : (p.step σ (.ok now draws)).map (fun r => (r.1, r.2.declared))
        = p.declared.step σ (.ok now draws) := by
  obtain ⟨request, tx, pc⟩ := p
  dsimp only at hpc
  unfold step ServerC.Process.step declared Request.declared
  rcases hpc with ⟨now', rfl⟩ | rfl
  . dsimp only
    rw [findInventory_eq h.eventId h.couponTypeId, text_eq h.eventId, text_eq h.couponTypeId]
    generalize σ.db.findInventory (stored request.eventId) (stored request.couponTypeId) = found
    cases found with
    | none => rfl
    | some inventory =>
      dsimp only
      cases inventory.decrement <;> rfl
  . dsimp only
    rw [findInventory_eq h.eventId h.couponTypeId]
    split <;> rfl

theorem step_insert (h : p.request.IsDeclared) (now now' : Int) (draws : Fin 12 → Fin 32)
    (status : CouponIssueResultStatus) (code : Option String) (hpc : p.pc = .insert now' status code)
    : (p.step σ (.ok now draws)).map (fun r => (r.1, r.2.declared))
        = p.declared.step σ (.ok now draws) := by
  obtain ⟨request, tx, pc⟩ := p
  dsimp only at hpc
  subst hpc
  have hcoupon := coupon_eq (p := ⟨request, tx, .insert now' status code⟩) now' status code
  have herror := insertError_of_not_fits h σ.db now' status code
  unfold declared at hcoupon herror ⊢
  unfold step ServerC.Process.step
  dsimp only
  rw [← hcoupon] at herror ⊢
  split
  . next hfits =>
    rw [herror hfits]
    rfl
  . generalize σ.db.insertError _ = error
    cases error with
    | none => rfl
    | some error => cases error <;> rfl

theorem step_append (h : p.request.IsDeclared) (now now' : Int) (draws : Fin 12 → Fin 32)
    (status : CouponIssueResultStatus) (code : Option String) (hpc : p.pc = .append now' status code)
    : (p.step σ (.ok now draws)).map (fun r => (r.1, r.2.declared))
        = p.declared.step σ (.ok now draws) := by
  obtain ⟨request, tx, pc⟩ := p
  dsimp only at hpc
  subst hpc
  have hevent := outboxEvent_eq (p := ⟨request, tx, .append now' status code⟩) h
  unfold declared Request.declared at hevent ⊢
  unfold step ServerC.Process.step
  dsimp only
  rw [hevent]
  split <;> rfl

/--
One statement of `process` does what it does on the declared payload.
-/
theorem step_declared (h : p.request.IsDeclared) (x : Input)
    : (p.step σ x).map (fun r => (r.1, r.2.declared)) = p.declared.step σ x := by
  obtain ⟨request, tx, pc⟩ := p
  cases x with
  | ok now draws =>
    cases pc with
    | existsByUserIdAndCouponTypeId => exact step_lookup h now draws (Or.inl rfl)
    | findEvent => exact step_lookup h now draws (Or.inr rfl)
    | findForUpdate now' => exact step_inventory h now draws (Or.inl ⟨now', rfl⟩)
    | freshRead => exact step_inventory h now draws (Or.inr rfl)
    | insert now' status code => exact step_insert h now now' draws status code rfl
    | append now' status code => exact step_append h now now' draws status code rfl
    | markSoldOut =>
      have hkey := Request.couponAvailableKey_eq h
      unfold Request.declared at hkey
      unfold step ServerC.Process.step declared Request.declared
      dsimp only at hkey ⊢
      rw [hkey]
      rfl
    | commit check => cases check <;> rfl
    | _ => rfl
  | fail executed now =>
    cases pc with
    | commit check => cases executed <;> rfl
    | markSoldOut =>
      have hkey := Request.couponAvailableKey_eq h
      unfold Request.declared at hkey
      unfold step ServerC.Process.step declared Request.declared
      dsimp only at hkey ⊢
      rw [hkey]
      rfl
    | _ => rfl
  | crash => cases pc <;> rfl

theorem step_request {σ' : Shared} {p' : Process} {x : Input} (h : p.step σ x = some (σ', p'))
    : p'.request = p.request := by
  unfold step at h
  dsimp only at h
  repeat' split at h
  all_goals first | contradiction | (cases h; rfl)

end Process

namespace Call

def declared : Call → ServerC.Call
  | process p => .process p.declared
  | redeem r => .redeem r
  | poll pc => .poll pc

def IsDeclared : Call → Prop
  | process p => p.request.IsDeclared
  | _ => True

end Call

/-- Every request is what its type says. -/
def DeclaredRequests (_ : State) (a : Act) : Prop :=
  a.Starts Call.IsDeclared

/--
With declared requests the calls are those of the declared payloads.
-/
theorem embeds (batchSize : Nat)
    : Calls.Embeds (calls batchSize) (ServerC.calls batchSize) Call.declared Call.IsDeclared := by
  constructor
  . intro σ others c _ _ hstart
    unfold calls Call.start at hstart
    dsimp only at hstart
    split at hstart
    . rfl
    . rfl
    . rw [← hstart]
      change (!_) = _
      congr 1
      rw [List.any_map]
      congr 1
      funext c
      cases c <;> rfl
    . contradiction
  . intro c x d _ _ hwaits
    have htx : d.declared.tx = d.tx := by cases d <;> rfl
    have hwants : c.declared.wants x = c.wants x := by
      cases x with
      | ok now draws =>
        cases c with
        | process p => exact Process.wants_eq.symm
        | redeem r => rfl
        | poll pc => rfl
      | fail executed now => rfl
      | crash => rfl
    unfold ServerC.calls ServerC.Call.waits
    dsimp only
    rw [htx, hwants]
    exact hwaits
  . intro σ c x σ' c' hc hstep
    cases c with
    | process p =>
      obtain ⟨⟨σ'', p'⟩, hstep', heq⟩ := Option.map_eq_some_iff.mp hstep
      cases heq
      have hdeclared := Process.step_declared (σ := σ) hc x
      rw [hstep'] at hdeclared
      refine ⟨?_, Option.map_eq_some_iff.mpr ⟨_, hdeclared.symm, rfl⟩⟩
      change p'.request.IsDeclared
      rw [Process.step_request hstep']
      exact hc
    | redeem r =>
      obtain ⟨⟨σ'', r'⟩, hstep', heq⟩ := Option.map_eq_some_iff.mp hstep
      cases heq
      exact ⟨trivial, Option.map_eq_some_iff.mpr ⟨_, hstep', rfl⟩⟩
    | poll pc =>
      obtain ⟨⟨σ'', pc'⟩, hstep', heq⟩ := Option.map_eq_some_iff.mp hstep
      cases heq
      exact ⟨trivial, Option.map_eq_some_iff.mpr ⟨_, hstep', rfl⟩⟩
  . intro σ e σ' henv
    exact henv

end ServerC.Untyped
