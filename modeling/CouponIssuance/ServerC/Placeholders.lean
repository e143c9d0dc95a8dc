import CouponIssuance.ServerC.Applications
import CouponIssuance.ServerC.Redelivery

/-!
This module contains the placeholder codes of the coupons that are not issued: two requests get in
each other's way when their ids begin with the same eleven characters.
-/

namespace ServerC

open Js

def isUuid (text : String) : Bool :=
  text.toList.length == 36 && text.toList.zipIdx.all fun (c, i) =>
    if [8, 13, 18, 23].contains i then c == '-' else (Json.hexValue c).isSome

def placeholderPart (requestId : String) : List Char :=
  (requestId.toList.take 11).map Char.toUpper

section Code

theorem isUpper_toUpper_of_ne {c : Char} (h : c.toUpper ≠ c) : c.toUpper.isUpper = true := by
  unfold Char.toUpper at h ⊢
  split
  . next hlower =>
    simp only [UInt32.le_iff_toNat_le, Char.reduceVal, UInt32.reduceToNat] at hlower
    refine decide_eq_true ?_
    simp only [Char.reduceVal, UInt32.reduceSub, UInt32.le_iff_toNat_le, UInt32.toNat_add,
      UInt32.reduceToNat, ge_iff_le]
    omega
  . next hlower => exact absurd (dif_neg hlower) h
theorem toUpper_ne {c d : Char} (hd : d.isUpper = false) (hc : c ≠ d) : c.toUpper ≠ d := by
  intro heq
  have hupper := isUpper_toUpper_of_ne (c := c) (heq ▸ hc.symm)
  rw [heq, hd] at hupper
  contradiction

theorem collationKey_of_no_blank {text : String} (h : ∀ c ∈ text.toList, c ≠ ' ')
    : collationKey text = text.toList.map Char.toUpper := by
  unfold collationKey
  rw [List.dropWhile_eq_self_iff.mpr, List.reverse_reverse]
  intro hpos hblank
  have hmem := List.mem_reverse.mp (List.getElem_mem hpos)
  obtain ⟨c, hc, heq⟩ := List.mem_map.mp hmem
  exact toUpper_ne (by decide) (h c hc) (heq.trans (beq_iff_eq.mp hblank))

theorem mem_of_mem_collationKey {text : String} {c : Char} (h : c ∈ collationKey text)
    : c ∈ text.toList.map Char.toUpper := by
  rw [collationKey, List.mem_reverse] at h
  exact List.mem_reverse.mp ((List.dropWhile_sublist _).mem h)

variable {requestId : String}

theorem length_of_isUuid (h : isUuid requestId = true) : requestId.toList.length = 36 := by
  simp only [isUuid, Bool.and_eq_true, beq_iff_eq] at h
  exact h.1

theorem char_of_isUuid (h : isUuid requestId = true) {i : Nat} {c : Char}
    (hc : requestId.toList[i]? = some c)
    : if [8, 13, 18, 23].contains i then c = '-' else (Json.hexValue c).isSome = true := by
  simp only [isUuid, Bool.and_eq_true, List.all_eq_true] at h
  have hmem := h.2 (c, i) (List.mem_zipIdx_iff_getElem?.mpr hc)
  dsimp only at hmem
  split
  . next hdash =>
    rw [if_pos hdash] at hmem
    exact beq_iff_eq.mp hmem
  . next hdigit =>
    rw [if_neg hdigit] at hmem
    exact hmem

theorem collationKey_placeholderCode (h : isUuid requestId = true)
    : collationKey (placeholderCode requestId) = 'X' :: placeholderPart requestId := by
  rw [collationKey_of_no_blank]
  . simp [placeholderCode, placeholderPart]
  . intro c hc
    rw [placeholderCode, String.toList_ofList] at hc
    rcases List.mem_cons.mp hc with rfl | hc
    . decide
    . obtain ⟨i, hi⟩ := List.mem_iff_getElem?.mp (List.mem_of_mem_take hc)
      have hchar := char_of_isUuid h hi
      rintro rfl
      split at hchar
      . contradiction
      . contradiction

theorem dash_mem_placeholderPart (h : isUuid requestId = true)
    : '-' ∈ placeholderPart requestId := by
  have hlt : 8 < requestId.toList.length := by rw [length_of_isUuid h]; omega
  have hdash : requestId.toList[8] = '-' :=
    char_of_isUuid h (List.getElem?_eq_getElem hlt)
  refine List.mem_map.mpr ⟨'-', ?_, rfl⟩
  rw [← hdash]
  exact List.mem_take_iff_getElem.mpr ⟨8, by omega, rfl⟩

theorem collationKey_generate_ne (h : isUuid requestId = true) (draws : Fin 12 → Fin 32)
    : collationKey (CouponCode.generate draws).value ≠ collationKey (placeholderCode requestId) := by
  intro heq
  have hdash : '-' ∈ collationKey (CouponCode.generate draws).value := by
    rw [heq, collationKey_placeholderCode h]
    exact List.mem_cons_of_mem _ (dash_mem_placeholderPart h)
  obtain ⟨c, hc, hupper⟩ := List.mem_map.mp (mem_of_mem_collationKey hdash)
  have halphabet := (CouponCode.generate draws).alphabet c hc
  refine toUpper_ne (by decide) ?_ hupper
  rintro rfl
  exact absurd halphabet (by decide)

end Code

def Db.refusal (db : Db) (request : CouponIssueRequestPayload) (now : Int)
    : Option CouponIssueResultStatus :=
  match db.findEvent request.eventId with
  | none => none
  | some event =>
    if event.isActive now then
      match db.findInventory request.eventId request.couponTypeId with
      | none => none
      | some inventory => if inventory.availableCount ≤ 0 then some .soldOut else none
    else
      some .failed

def pairOf (request : CouponIssueRequestPayload) : JsNumber × JsNumber :=
  (request.userId, request.couponTypeId)

structure IsRefusal (outbox : List OutboxEvent) (request : CouponIssueRequestPayload)
    (c : UserCoupon) : Prop where
  pair : c.pair = pairOf request
  eventId : c.eventId = request.eventId
  announced : ∃ event ∈ outbox, ∃ status, status ≠ .success
    ∧ Announces c event request.requestId status none

namespace Process

def Refusing (db : Db) (p : Process) : Prop :=
  match p.pc with
  | .findEvent =>
    db.existsByUserIdAndCouponTypeId p.request.userId p.request.couponTypeId = false
  | .findForUpdate _ =>
    db.existsByUserIdAndCouponTypeId p.request.userId p.request.couponTypeId = false
      ∧ ∃ inventory, db.findInventory p.request.eventId p.request.couponTypeId = some inventory
          ∧ inventory.availableCount ≤ 0
  | .updateAvailableCount _ _ => False
  | .insert _ status _ =>
    db.existsByUserIdAndCouponTypeId p.request.userId p.request.couponTypeId = false
      ∧ status ≠ .success
  | .append _ status _ => status ≠ .success
  | .commit _ => ∀ row, .insertCoupon row ∈ p.tx.writes → row.status ≠ .success
  | _ => True

variable {σ σ' : Shared} {p p' : Process} {x : Input}

theorem findInventory_of_refusal {db : Db} {request : CouponIssueRequestPayload} {now : Int}
    {event : Event} (h : (db.refusal request now).isSome = true)
    (hevent : db.findEvent request.eventId = some event) (hactive : event.isActive now = true)
    : ∃ inventory, db.findInventory request.eventId request.couponTypeId = some inventory
        ∧ inventory.availableCount ≤ 0 := by
  simp only [Db.refusal, hevent, hactive, ↓reduceIte] at h
  split at h
  . contradiction
  . next inventory hinventory =>
    split at h
    . next hcount => exact ⟨inventory, hinventory, hcount⟩
    . contradiction

theorem step_refusing (hinv : p.Inv σ.db) (hrefusing : p.Refusing σ.db)
    (hrefused : ∀ now draws, x = .ok now draws → (σ.db.refusal p.request now).isSome = true)
    (hmoves : p.Moves σ σ' x p')
    : p'.Refusing σ'.db := by
  cases hmoves with
  | found now draws hpc hσ hexists =>
    simp only [Inv, hpc] at hinv
    intro row hrow
    simp [goto, hinv] at hrow
  | absent now draws hpc hσ habsent =>
    subst hσ
    exact habsent
  | active now draws event hpc hσ hevent hactive =>
    subst hσ
    simp only [Refusing, hpc] at hrefusing
    exact ⟨hrefusing, findInventory_of_refusal (hrefused now draws rfl) hevent hactive⟩
  | inactive now draws event hpc hσ hevent hactive =>
    subst hσ
    simp only [Refusing, hpc] at hrefusing
    exact ⟨hrefusing, by simp⟩
  | soldOut now now' draws inventory hpc hσ hinventory hcount =>
    subst hσ
    simp only [Refusing, hpc] at hrefusing
    exact ⟨hrefusing.1, by simp⟩
  | decremented now now' draws inventory taken hpc hσ hinventory htaken =>
    simp only [Refusing, hpc] at hrefusing
    obtain ⟨-, inventory', hfind, hcount⟩ := hrefusing
    rw [hinventory, Option.some.injEq] at hfind
    rw [CouponTypeInventory.decrement, if_pos (hfind ▸ hcount)] at htaken
    contradiction
  | updated now now' draws inventory hpc hσ =>
    simp only [Refusing, hpc] at hrefusing
  | inserted now now' draws status code hpc hσ herror =>
    simp only [Refusing, hpc] at hrefusing
    exact hrefusing.2
  | appended now now' draws status code hpc hσ =>
    simp only [Refusing, hpc] at hrefusing
    intro row hrow
    rcases List.mem_append.mp hrow with hrow | hrow
    . rw [status_of_inserting hpc hinv hrow]
      cases status with
      | success => contradiction
      | soldOut => simp [UserCouponStatus.ofResult]
      | failed => simp [UserCouponStatus.ofResult]
    . simp at hrow
  | committed now draws check hpc hσ => cases check <;> trivial
  | _ => trivial

theorem commit_refusal {db : Db} {check : Bool} (hpc : p.pc = .commit check) (hinv : p.Inv db)
    (hrefusing : p.Refusing db)
    : db.commit p.tx.writes = db
        ∨ ∃ row event, IsRefusal [event] p.request row
          ∧ db.commit p.tx.writes
            = { db with coupons := db.coupons ++ [row], outbox := db.outbox ++ [event] } := by
  simp only [Inv, hpc] at hinv
  simp only [Refusing, hpc] at hrefusing
  rcases hinv with hnil | ⟨now, status, code, writes, row, event, hwrites, hreserves, hinserts, -,
    hannounces⟩
  . rw [hnil]
    exact .inl rfl
  . have hstatus : status ≠ .success := by
      rintro rfl
      exact hrefusing row (by simp [hwrites]) hannounces.status_eq
    have hcode : code = none := by
      cases code with
      | none => rfl
      | some code => exact absurd (hannounces.code_isSome.mpr rfl) hstatus
    have hnil : writes = [] := by
      have htakes := hreserves.1
      cases status with
      | success => contradiction
      | soldOut => exact htakes
      | failed => exact htakes
    refine .inr ⟨row, event, ⟨?_, ?_, event, by simp, status, hstatus, hcode ▸ hannounces⟩, ?_⟩
    . rw [hinserts.row_eq]
      rfl
    . rw [hinserts.row_eq]
      rfl
    . rw [hwrites, hnil]
      rfl

end Process

theorem IsRefusal.mono {outbox outbox' : List OutboxEvent} {request : CouponIssueRequestPayload}
    {c : UserCoupon} (h : IsRefusal outbox request c) (hsub : outbox ⊆ outbox')
    : IsRefusal outbox' request c := by
  obtain ⟨event, hmem, status, hannounced⟩ := h.announced
  exact ⟨h.pair, h.eventId, event, hsub hmem, status, hannounced⟩

theorem IsRefusal.code {outbox : List OutboxEvent} {request : CouponIssueRequestPayload}
    {c : UserCoupon} (h : IsRefusal outbox request c)
    : c.code = placeholderCode request.requestId := by
  obtain ⟨event, -, status, -, hannounces⟩ := h.announced
  exact hannounces.code_eq

structure Reached (db₀ : Db) (requests : List CouponIssueRequestPayload) (db : Db) : Prop where
  wf : db.Wf
  events : db.events = db₀.events
  couponTypes : db.couponTypes = db₀.couponTypes
  inventories : db.inventories = db₀.inventories
  coupons : ∃ rows, db.coupons = db₀.coupons ++ rows
    ∧ ∀ c ∈ rows, ∃ request ∈ requests, IsRefusal db.outbox request c

section Reached

variable {db₀ db : Db} {requests : List CouponIssueRequestPayload} {σ σ' : Shared}
variable {p p' : Process} {x : Input}

theorem Reached.refusal (h : Reached db₀ requests db) (request : CouponIssueRequestPayload)
    (now : Int)
    : db.refusal request now = db₀.refusal request now := by
  simp only [Db.refusal, Db.findEvent, Db.findInventory, h.events, h.inventories]

theorem Reached.idle (h : Reached db₀ requests db) {n m : Nat}
    (hwf : { db with nextCouponId := n, nextOutboxId := m : Db }.Wf)
    : Reached db₀ requests { db with nextCouponId := n, nextOutboxId := m } :=
  ⟨hwf, h.events, h.couponTypes, h.inventories, h.coupons⟩

theorem Reached.commit (h : Reached db₀ requests db) {check : Bool} (hpc : p.pc = .commit check)
    (hinv : p.Inv db) (hrefusing : p.Refusing db) (hp : p.request ∈ requests)
    : Reached db₀ requests (db.commit p.tx.writes) := by
  have hwf := (Process.commit_spec h.wf hpc hinv).1.wf h.wf
  rcases Process.commit_refusal hpc hinv hrefusing with heq | ⟨row, event, hrow, heq⟩
  . rw [heq]
    exact h
  . rw [heq] at hwf ⊢
    obtain ⟨rows, hrows, hrefusals⟩ := h.coupons
    refine ⟨hwf, h.events, h.couponTypes, h.inventories, rows ++ [row], ?_, fun c hc => ?_⟩
    . dsimp only
      rw [hrows, List.append_assoc]
    . rcases List.mem_append.mp hc with hold | hnew
      . obtain ⟨request, hmem, hrefusal⟩ := hrefusals c hold
        exact ⟨request, hmem, hrefusal.mono (List.subset_append_left _ _)⟩
      . rw [List.mem_singleton.mp hnew]
        exact ⟨p.request, hp, hrow.mono (List.subset_append_right _ _)⟩

theorem Reached.step (h : Reached db₀ requests σ.db) (hinv : p.Inv σ.db)
    (hrefusing : p.Refusing σ.db) (hp : p.request ∈ requests) (hstep : p.step σ x = some (σ', p'))
    : Reached db₀ requests σ'.db := by
  have hwf : σ'.db.Wf := (Process.step_spec h.wf hinv hstep).transition.wf h.wf
  cases Process.moves_of_step hstep with
  | committed now draws check hpc hσ => subst hσ; exact h.commit hpc hinv hrefusing hp
  | lost now check hpc hσ => subst hσ; exact h.commit hpc hinv hrefusing hp
  | _ => subst_vars; exact h.idle hwf

structure Serves (db₀ : Db) (requests : List CouponIssueRequestPayload) (σ : Shared) (p : Process)
    : Prop where
  reached : Reached db₀ requests σ.db
  inv : p.Inv σ.db
  refusing : p.Refusing σ.db
  request : p.request ∈ requests

def RefusedAt (db₀ : Db) (request : CouponIssueRequestPayload) (inputs : List Input) : Prop :=
  ∀ now draws, .ok now draws ∈ inputs → (db₀.refusal request now).isSome = true

theorem Serves.step (h : Serves db₀ requests σ p)
    (hrefused : ∀ now draws, x = .ok now draws → (db₀.refusal p.request now).isSome = true)
    (hstep : p.step σ x = some (σ', p'))
    : Serves db₀ requests σ' p' where
  reached := h.reached.step h.inv h.refusing h.request hstep
  inv := (Process.step_spec h.reached.wf h.inv hstep).inv
  refusing := by
    refine Process.step_refusing h.inv h.refusing (fun now draws hx => ?_)
      (Process.moves_of_step hstep)
    rw [h.reached.refusal]
    exact hrefused now draws hx
  request := (Process.moves_of_step hstep).request ▸ h.request

theorem Serves.run {inputs : List Input} (h : Serves db₀ requests σ p)
    (hrefused : RefusedAt db₀ p.request inputs)
    : Reached db₀ requests (p.run σ inputs).1.db := by
  induction inputs generalizing σ p with
  | nil => exact h.reached
  | cons x inputs ih =>
    unfold Process.run
    split
    . next σ' p' hstep =>
      have hnext := h.step (fun now draws hx => hrefused now draws (hx ▸ List.mem_cons_self)) hstep
      apply ih hnext
      rw [(Process.moves_of_step hstep).request]
      exact fun now draws hmem => hrefused now draws (List.mem_cons_of_mem _ hmem)
    . exact h.reached

theorem Serves.init {request : CouponIssueRequestPayload} (h : Reached db₀ requests σ.db)
    (hrequest : request ∈ requests)
    : Serves db₀ requests σ (Process.init request) :=
  ⟨h, rfl, trivial, hrequest⟩

structure Clear (db₀ : Db) (requests : List CouponIssueRequestPayload)
    (request : CouponIssueRequestPayload) : Prop where
  bigint : isBigint request.userId = true ∧ isBigint request.eventId = true
    ∧ isBigint request.couponTypeId = true
  couponType : db₀.couponTypes.any (fun t => t.couponTypeId == request.couponTypeId) = true
  short : request.requestId.toList.length ≤ 64
  fresh : ∀ c ∈ db₀.coupons,
    collationKey c.code ≠ collationKey (placeholderCode request.requestId)
  apart : ∀ other ∈ requests, pairOf other ≠ pairOf request →
    collationKey (placeholderCode other.requestId)
      ≠ collationKey (placeholderCode request.requestId)

def ProcessPc.left : ProcessPc → Nat
  | existsByUserIdAndCouponTypeId => 6
  | findEvent => 5
  | findForUpdate _ | updateAvailableCount _ _ => 4
  | insert _ _ _ => 3
  | append _ _ _ => 2
  | commit _ => 1
  | _ => 0

def ProcessPc.isUp : ProcessPc → Bool
  | thrown _ | crashed => false
  | _ => true

theorem Serves.insertError (h : Serves db₀ requests σ p) (hclear : Clear db₀ requests p.request)
    {now : Int} {status : CouponIssueResultStatus} {code : Option String}
    (hpc : p.pc = .insert now status code)
    : σ.db.insertError (p.coupon now status code) = none := by
  have hrefusing := h.refusing
  have hinv := h.inv
  simp only [Process.Refusing, hpc] at hrefusing
  simp only [Process.Inv, hpc] at hinv
  obtain ⟨habsent, hstatus⟩ := hrefusing
  have hpairs : ∀ c ∈ σ.db.coupons, c.pair ≠ pairOf p.request := by
    intro c hc hpair
    have hnone := List.any_eq_false.mp habsent c hc
    exact hnone (by simpa [pairOf] using hpair)
  obtain rfl : code = none := by
    cases code with
    | none => rfl
    | some code => exact absurd (hinv.2.mpr rfl) hstatus
  have hcodes : ∀ c ∈ σ.db.coupons,
      collationKey c.code ≠ collationKey (placeholderCode p.request.requestId) := by
    intro c hc
    obtain ⟨rows, hrows, hrefusals⟩ := h.reached.coupons
    rcases List.mem_append.mp (hrows ▸ hc) with hold | hnew
    . exact hclear.fresh c hold
    . obtain ⟨other, hother, hrefusal⟩ := hrefusals c hnew
      rw [hrefusal.code]
      exact hclear.apart other hother (hrefusal.pair ▸ hpairs c hc)
  unfold Db.insertError
  have hbigint := hclear.bigint
  rw [if_neg, if_neg, if_neg, if_neg]
  . rw [h.reached.couponTypes]
    simp only [Process.coupon, UserCoupon.issue, hclear.couponType, Bool.not_true,
      Bool.false_eq_true, not_false_eq_true]
  . rw [Bool.not_eq_true]
    exact habsent
  . simp only [List.any_eq_true, beq_iff_eq, not_exists, not_and]
    exact hcodes
  . simp [Process.coupon, UserCoupon.issue, hbigint]

theorem Serves.progress (h : Serves db₀ requests σ p) (hclear : Clear db₀ requests p.request)
    {now : Int} (draws : Fin 12 → Fin 32)
    (hrefused : (db₀.refusal p.request now).isSome = true) (hopen : p.pc.isOpen = true)
    : ∃ σ' p', p.step σ (.ok now draws) = some (σ', p') ∧ p'.pc.left < p.pc.left
        ∧ p'.pc.isUp = true := by
  have hrefusing := h.refusing
  cases hpc : p.pc with
  | existsByUserIdAndCouponTypeId =>
    simp only [Process.step, hpc]
    split
    . exact ⟨_, _, rfl, by simp [Process.goto, ProcessPc.left], rfl⟩
    . exact ⟨_, _, rfl, by simp [Process.goto, ProcessPc.left], rfl⟩
  | findEvent =>
    rw [← h.reached.refusal] at hrefused
    simp only [Process.step, hpc]
    split
    . next hnone => simp [Db.refusal, hnone] at hrefused
    . split
      . exact ⟨_, _, rfl, by simp [Process.goto, ProcessPc.left], rfl⟩
      . exact ⟨_, _, rfl, by simp [Process.goto, ProcessPc.left], rfl⟩
  | findForUpdate now' =>
    simp only [Process.Refusing, hpc] at hrefusing
    obtain ⟨-, inventory, hinventory, hcount⟩ := hrefusing
    have hdecrement : inventory.decrement = none := if_pos hcount
    simp only [Process.step, hpc, hinventory, hdecrement]
    exact ⟨_, _, rfl, by simp [Process.goto, ProcessPc.left], rfl⟩
  | updateAvailableCount now' inventory => simp only [Process.Refusing, hpc] at hrefusing
  | insert now' status code =>
    simp only [Process.step, hpc, h.insertError hclear hpc]
    exact ⟨_, _, rfl, by simp [Process.goto, ProcessPc.left], rfl⟩
  | append now' status code =>
    have hshort := hclear.short
    simp only [Process.step, hpc, show ¬64 < p.request.requestId.toList.length by omega,
      ↓reduceIte]
    exact ⟨_, _, rfl, by simp [Process.goto, ProcessPc.left], rfl⟩
  | commit check =>
    simp only [Process.step, hpc]
    refine ⟨_, _, rfl, ?_, ?_⟩
    . cases check <;> simp [Process.abort, ProcessPc.left]
    . cases check <;> rfl
  | freshRead | markSoldOut | returned | thrown _ | crashed => simp [hpc, ProcessPc.isOpen] at hopen

theorem exists_of_isUp (hsettled : p.Settled σ.db) (hup : p.pc.isUp = true)
    (hopen : p.pc.isOpen = false)
    : σ.db.existsByUserIdAndCouponTypeId p.request.userId p.request.couponTypeId = true := by
  unfold Process.Settled at hsettled
  cases hpc : p.pc with
  | freshRead | markSoldOut | returned =>
    rw [hpc] at hsettled
    exact hsettled
  | thrown e | crashed =>
    rw [hpc] at hup
    contradiction
  | _ =>
    rw [hpc] at hopen
    contradiction

theorem Serves.exists_run {inputs : List Input} (h : Serves db₀ requests σ p)
    (hsettled : p.Settled σ.db) (hclear : Clear db₀ requests p.request)
    (hrefused : RefusedAt db₀ p.request inputs)
    (hok : ∀ x ∈ inputs, ∃ now draws, x = .ok now draws) (hup : p.pc.isUp = true)
    (hleft : p.pc.left ≤ inputs.length)
    : (p.run σ inputs).1.db.existsByUserIdAndCouponTypeId p.request.userId p.request.couponTypeId
        = true := by
  induction inputs generalizing σ p with
  | nil =>
    refine exists_of_isUp hsettled hup ?_
    cases hpc : p.pc <;> first | rfl | simp [hpc, ProcessPc.left] at hleft
  | cons x inputs ih =>
    cases hopen : p.pc.isOpen with
    | false =>
      have hexists := exists_of_isUp hsettled hup hopen
      exact (Process.run_settled hsettled).2.2 _ _ hexists
    | true =>
      obtain ⟨now, draws, rfl⟩ := hok x List.mem_cons_self
      have hnow := hrefused now draws List.mem_cons_self
      obtain ⟨σ', p', hstep, hless, hup'⟩ := h.progress hclear draws hnow hopen
      have hmoves := Process.moves_of_step hstep
      have hnext : Serves db₀ requests σ' p' := by
        refine h.step (fun now' draws' hx => ?_) hstep
        rw [Input.ok.injEq] at hx
        exact hx.1 ▸ hnow
      unfold Process.run
      rw [hstep]
      dsimp only
      rw [← hmoves.request]
      refine ih hnext (Process.step_settled hsettled hmoves) (hmoves.request.symm ▸ hclear) ?_
        (fun y hy => hok y (List.mem_cons_of_mem _ hy)) hup' ?_
      . rw [hmoves.request]
        exact fun now draws hmem => hrefused now draws (List.mem_cons_of_mem _ hmem)
      . rw [List.length_cons] at hleft
        omega

end Reached

section Schedule

variable {db₀ : Db} {requests deliveries : List CouponIssueRequestPayload} {σ : Shared}

structure Storable (db : Db) (request : CouponIssueRequestPayload) : Prop where
  bigint : isBigint request.userId = true ∧ isBigint request.eventId = true
    ∧ isBigint request.couponTypeId = true
  fresh : ∀ c ∈ db.coupons, collationKey c.code ≠ 'X' :: placeholderPart request.requestId

structure Db.Admits (db : Db) (request : CouponIssueRequestPayload) : Prop where
  uuid : isUuid request.requestId = true
  couponType : db.couponTypes.any (fun t => t.couponTypeId == request.couponTypeId) = true
  absent : db.existsByUserIdAndCouponTypeId request.userId request.couponTypeId = false

/--
The two requests are delivered in any order and any number of times, always at times when they are
refused, and each of them at least once while nothing else fails.
-/
structure Schedule (db : Db) (a b : CouponIssueRequestPayload) (deliveries : List Delivery) : Prop
    where
  only : ∀ d ∈ deliveries, d.request ∈ [a, b]
  refused : ∀ d ∈ deliveries, RefusedAt db d.request d.inputs
  delivered : ∀ request ∈ [a, b], ∃ d ∈ deliveries, d.request = request
    ∧ (Process.init request).pc.left ≤ d.inputs.length
    ∧ ∀ x ∈ d.inputs, ∃ now draws, x = .ok now draws

/--
Both transactions have been committed, with codes that differ from each other and from every code
that can be drawn.
-/
def Db.RefusesBoth (db : Db) (a b : CouponIssueRequestPayload) : Prop :=
  ∃ c ∈ db.coupons, ∃ d ∈ db.coupons, IsRefusal db.outbox a c ∧ IsRefusal db.outbox b d
    ∧ collationKey c.code ≠ collationKey d.code
    ∧ ∀ draws, collationKey (CouponCode.generate draws).value ≠ collationKey c.code
        ∧ collationKey (CouponCode.generate draws).value ≠ collationKey d.code

theorem Reached.process {requests : List CouponIssueRequestPayload} {d : Delivery}
    (h : Reached db₀ requests σ.db) (hrequest : d.request ∈ requests)
    (hrefused : RefusedAt db₀ d.request d.inputs)
    : Reached db₀ requests (d.process σ).1.db :=
  (Serves.init h hrequest).run hrefused

theorem Reached.processAll {requests : List CouponIssueRequestPayload} {deliveries : List Delivery}
    (h : Reached db₀ requests σ.db) (hrequests : ∀ d ∈ deliveries, d.request ∈ requests)
    (hrefused : ∀ d ∈ deliveries, RefusedAt db₀ d.request d.inputs)
    : Reached db₀ requests (Delivery.processAll σ deliveries).db := by
  induction deliveries generalizing σ with
  | nil => exact h
  | cons d deliveries ih =>
    rw [Delivery.processAll_cons]
    apply ih
    . exact h.process (hrequests d List.mem_cons_self) (hrefused d List.mem_cons_self)
    . exact fun d' hd => hrequests d' (List.mem_cons_of_mem _ hd)
    . exact fun d' hd => hrefused d' (List.mem_cons_of_mem _ hd)

end Schedule

section Schedule

variable {a b request : CouponIssueRequestPayload} {deliveries : List Delivery} {σ : Shared}

theorem Reached.refl {db : Db} {requests : List CouponIssueRequestPayload} (hwf : db.Wf)
    : Reached db requests db :=
  ⟨hwf, rfl, rfl, rfl, [], (List.append_nil _).symm, fun _ hc => absurd hc List.not_mem_nil⟩

theorem Reached.exists_process {db₀ : Db} {requests : List CouponIssueRequestPayload} {d : Delivery}
    (h : Reached db₀ requests σ.db) (hrequest : d.request ∈ requests)
    (hclear : Clear db₀ requests d.request) (hrefused : RefusedAt db₀ d.request d.inputs)
    (hok : ∀ x ∈ d.inputs, ∃ now draws, x = .ok now draws)
    (hleft : (Process.init d.request).pc.left ≤ d.inputs.length)
    : (d.process σ).1.db.existsByUserIdAndCouponTypeId d.request.userId d.request.couponTypeId
        = true := by
  have hserves : Serves db₀ requests σ (Process.init d.request) := .init h hrequest
  have hsettled : (Process.init d.request).Settled σ.db := Delivery.settled_init d.request
  have hup : (Process.init d.request).pc.isUp = true := rfl
  exact hserves.exists_run hsettled hclear hrefused hok hup hleft

theorem Schedule.refuses (h : Schedule σ.db a b deliveries) (hwf : σ.db.Wf)
    (hpairs : pairOf a ≠ pairOf b) (hrequest : request ∈ [a, b])
    (habsent : σ.db.existsByUserIdAndCouponTypeId request.userId request.couponTypeId = false)
    (hclear : Clear σ.db [a, b] request)
    : ∃ c ∈ (Delivery.processAll σ deliveries).db.coupons,
        IsRefusal (Delivery.processAll σ deliveries).db.outbox request c := by
  obtain ⟨d, hd, rfl, hleft, hok⟩ := h.delivered request hrequest
  obtain ⟨before, after, rfl⟩ := List.append_of_mem hd
  have hbefore : Reached σ.db [a, b] (Delivery.processAll σ before).db := by
    apply Reached.processAll (Reached.refl hwf)
    . exact fun d' hd' => h.only d' (List.mem_append_left _ hd')
    . exact fun d' hd' => h.refused d' (List.mem_append_left _ hd')
  have hexists : (Delivery.processAll σ (before ++ d :: after)).db.existsByUserIdAndCouponTypeId
      d.request.userId d.request.couponTypeId = true := by
    rw [Delivery.processAll_append, Delivery.processAll_cons]
    exact Delivery.exists_processAll (hbefore.exists_process hrequest hclear (h.refused d hd) hok hleft)
  obtain ⟨rows, hrows, hrefusals⟩ :=
    (Reached.processAll (Reached.refl hwf) h.only h.refused).coupons
  obtain ⟨c, hc, hpair⟩ := List.any_eq_true.mp hexists
  rw [beq_iff_eq] at hpair
  refine ⟨c, hc, ?_⟩
  rcases List.mem_append.mp (hrows ▸ hc) with hold | hnew
  . have hnone := List.any_eq_false.mp habsent c hold
    exact absurd (beq_iff_eq.mpr hpair) hnone
  . obtain ⟨other, hother, hrefusal⟩ := hrefusals c hnew
    have heq : pairOf other = pairOf d.request := hrefusal.pair.symm.trans hpair
    have hsame : other = d.request := by
      simp only [List.mem_cons, List.not_mem_nil, or_false] at hother hrequest
      rcases hother with rfl | rfl <;> rcases hrequest with hrequest | hrequest
      . exact hrequest.symm
      . exact absurd (hrequest ▸ heq) hpairs
      . exact absurd (hrequest ▸ heq).symm hpairs
      . exact hrequest.symm
    exact hsame ▸ hrefusal

theorem storable_of_refusal {db db' : Db} {c : UserCoupon} (hwf : db'.Wf)
    (hadmits : db.Admits request) (hsub : db.coupons ⊆ db'.coupons) (hc : c ∈ db'.coupons)
    (hrefusal : IsRefusal db'.outbox request c)
    : Storable db request := by
  have hbigint := hwf.bigint c hc
  have hpair := hrefusal.pair
  simp only [UserCoupon.pair, pairOf, Prod.mk.injEq] at hpair
  rw [hpair.1, hrefusal.eventId, hpair.2] at hbigint
  refine ⟨hbigint, fun old hold hkey => ?_⟩
  rw [← collationKey_placeholderCode hadmits.uuid, ← hrefusal.code] at hkey
  obtain rfl := Db.eq_of_map_nodup hwf.codes (hsub hold) hc hkey
  have hnone := List.any_eq_false.mp hadmits.absent old hold
  exact hnone (beq_iff_eq.mpr hrefusal.pair)

theorem clear_of_storable {db : Db} (hstorable : Storable db request) (hadmits : db.Admits request)
    {requests : List CouponIssueRequestPayload} (huuids : ∀ r ∈ requests, isUuid r.requestId = true)
    (hapart : ∀ r ∈ requests, pairOf r ≠ pairOf request
      → placeholderPart r.requestId ≠ placeholderPart request.requestId)
    : Clear db requests request where
  bigint := hstorable.bigint
  couponType := hadmits.couponType
  short := by
    rw [length_of_isUuid hadmits.uuid]
    omega
  fresh := by
    rw [collationKey_placeholderCode hadmits.uuid]
    exact hstorable.fresh
  apart := by
    intro other hother hpair
    rw [collationKey_placeholderCode (huuids other hother),
      collationKey_placeholderCode hadmits.uuid, ne_eq, List.cons.injEq, not_and]
    exact fun _ => hapart other hother hpair

/--
Two refusals are settled exactly if their codes are free: the ids do not begin with the same eleven
characters, and no row has the code of either.
-/
theorem placeholders_commit_iff (σ : Shared) (a b : CouponIssueRequestPayload)
    (deliveries : List Delivery) (hwf : σ.db.Wf) (ha : σ.db.Admits a) (hb : σ.db.Admits b)
    (hpairs : pairOf a ≠ pairOf b) (hschedule : Schedule σ.db a b deliveries)
    : (Delivery.processAll σ deliveries).db.RefusesBoth a b
        ↔ Storable σ.db a ∧ Storable σ.db b
          ∧ placeholderPart a.requestId ≠ placeholderPart b.requestId := by
  have hreached := Reached.processAll (Reached.refl hwf) hschedule.only hschedule.refused
  constructor
  . rintro ⟨c, hc, d, hd, hrefusal, hrefusal', hdistinct, -⟩
    obtain ⟨rows, hrows, -⟩ := hreached.coupons
    have hsub : σ.db.coupons ⊆ (Delivery.processAll σ deliveries).db.coupons := by
      rw [hrows]
      exact List.subset_append_left _ _
    refine ⟨storable_of_refusal hreached.wf ha hsub hc hrefusal,
      storable_of_refusal hreached.wf hb hsub hd hrefusal', fun heq => hdistinct ?_⟩
    rw [hrefusal.code, hrefusal'.code, collationKey_placeholderCode ha.uuid,
      collationKey_placeholderCode hb.uuid, heq]
  . rintro ⟨hstorable, hstorable', hapart⟩
    have huuids : ∀ r ∈ [a, b], isUuid r.requestId = true := by
      simp [ha.uuid, hb.uuid]
    have hclear : Clear σ.db [a, b] a := by
      refine clear_of_storable hstorable ha huuids ?_
      simp [hapart.symm]
    have hclear' : Clear σ.db [a, b] b := by
      refine clear_of_storable hstorable' hb huuids ?_
      simp [hapart]
    obtain ⟨c, hc, hrefusal⟩ := hschedule.refuses hwf hpairs (by simp) ha.absent hclear
    obtain ⟨d, hd, hrefusal'⟩ := hschedule.refuses hwf hpairs (by simp) hb.absent hclear'
    refine ⟨c, hc, d, hd, hrefusal, hrefusal', ?_, fun draws => ?_⟩
    . rw [hrefusal.code, hrefusal'.code, collationKey_placeholderCode ha.uuid,
        collationKey_placeholderCode hb.uuid, ne_eq, List.cons.injEq, not_and]
      exact fun _ => hapart
    . rw [hrefusal.code, hrefusal'.code]
      exact ⟨collationKey_generate_ne ha.uuid draws, collationKey_generate_ne hb.uuid draws⟩

end Schedule
def tooLate (requestId : String) (userId : Int) : Delivery :=
  ⟨issueRequest requestId userId, List.replicate 8 (okAt 5000)⟩

def tooLateBoth (requestId requestId' : String) : List Delivery :=
  [tooLate requestId 1, tooLate requestId' 2, tooLate requestId' 2]

theorem tooLateBoth_schedule (requestId requestId' : String)
    : Schedule lastCoupon (issueRequest requestId 1) (issueRequest requestId' 2)
        (tooLateBoth requestId requestId') where
  only := by simp [tooLateBoth, tooLate]
  refused := by
    intro d hd now draws hmem
    have hinputs : d.inputs = List.replicate 8 (okAt 5000) := by
      simp only [tooLateBoth, List.mem_cons, List.not_mem_nil, or_false] at hd
      rcases hd with rfl | rfl | rfl <;> rfl
    rw [hinputs] at hmem
    obtain ⟨rfl, -⟩ := Input.ok.inj (List.eq_of_mem_replicate hmem)
    simp only [tooLateBoth, List.mem_cons, List.not_mem_nil, or_false] at hd
    rcases hd with rfl | rfl | rfl <;> rfl
  delivered := by
    intro request hrequest
    have hok : ∀ x ∈ List.replicate 8 (okAt 5000), ∃ now draws, x = .ok now draws :=
      fun x hx => ⟨5000, _, List.eq_of_mem_replicate hx⟩
    rcases List.mem_cons.mp hrequest with rfl | hrequest
    . refine ⟨tooLate requestId 1, by simp [tooLateBoth], rfl, ?_, hok⟩
      simp [tooLate, Process.init, ProcessPc.left]
    . rw [List.mem_singleton.mp hrequest]
      refine ⟨tooLate requestId' 2, by simp [tooLateBoth], rfl, ?_, hok⟩
      simp [tooLate, Process.init, ProcessPc.left]

theorem lastCoupon_admits {requestId : String} (h : isUuid requestId = true) (userId : Int)
    : lastCoupon.Admits (issueRequest requestId userId) :=
  ⟨h, rfl, rfl⟩

theorem lastCoupon_storable {requestId : String} {userId : Int}
    (h : isBigint (.ofInt userId) = true)
    : Storable lastCoupon (issueRequest requestId userId) := by
  have hevent : isBigint (.ofInt 10) = true := by decide
  have htype : isBigint (.ofInt 20) = true := by decide
  exact ⟨⟨h, hevent, htype⟩, fun _ hc => absurd hc List.not_mem_nil⟩

def firstId : String := "123e4567-e89b-42d3-a456-426614174000"

def otherId : String := "123e4567-E7ff-42d3-a456-426614174001"

def similarId : String := "123e4567-e8ff-42d3-a456-426614174001"

theorem placeholders_commit_iff_tooLate
    : (Delivery.processAll ⟨lastCoupon, [], []⟩ (tooLateBoth firstId otherId)).db.RefusesBoth
        (issueRequest firstId 1) (issueRequest otherId 2) := by
  have hfirst : isUuid firstId = true := by decide
  have hother : isUuid otherId = true := by decide
  have hapart : placeholderPart firstId ≠ placeholderPart otherId := by decide
  have hpairs : pairOf (issueRequest firstId 1) ≠ pairOf (issueRequest otherId 2) := by decide
  exact (placeholders_commit_iff ⟨lastCoupon, [], []⟩ (issueRequest firstId 1)
    (issueRequest otherId 2) (tooLateBoth firstId otherId) lastCoupon_wf
    (lastCoupon_admits hfirst 1) (lastCoupon_admits hother 2) hpairs
    (tooLateBoth_schedule firstId otherId)).mpr
    ⟨lastCoupon_storable (by decide), lastCoupon_storable (by decide), hapart⟩

/--
The ids of these two requests begin alike, and the result of one of them is never stored.
-/
theorem placeholders_not_settled
    : ¬∀ (σ : Shared) (a b : CouponIssueRequestPayload) (deliveries : List Delivery), σ.db.Wf
        → σ.db.Admits a → σ.db.Admits b → a.requestId ≠ b.requestId → pairOf a ≠ pairOf b
        → Schedule σ.db a b deliveries → (Delivery.processAll σ deliveries).db.RefusesBoth a b := by
  intro h
  have hfirst : isUuid firstId = true := by decide
  have hsimilar : isUuid similarId = true := by decide
  have hids : firstId ≠ similarId := by decide
  have hkey : collationKey (placeholderCode firstId) = collationKey (placeholderCode similarId) := by
    decide
  obtain ⟨c, -, d, -, hrefusal, hrefusal', hdistinct, -⟩ := h ⟨lastCoupon, [], []⟩ _ _ _
    lastCoupon_wf (lastCoupon_admits hfirst 1)
    (lastCoupon_admits hsimilar 2) hids (by decide)
    (tooLateBoth_schedule firstId similarId)
  rw [hrefusal.code, hrefusal'.code] at hdistinct
  exact hdistinct hkey

end ServerC
