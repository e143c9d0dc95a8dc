import CouponIssuance.ServerC.Lemmas.Rows
import CouponIssuance.ServerC.Redeemed

/-!
This module contains the promise of `process`: a call that throws has changed nothing, and a call that
returns has settled its pair, with one transaction at the most.
-/

namespace ServerC

open Concurrency

def FaithfulCommits (s : State) : Act → Prop
  | .step i (.fail true _) =>
    ∀ p check, s.calls[i]? = some (.process p) → p.pc ≠ .commit check
  | _ => True

namespace Tables

def decremented (eventId couponTypeId : JsNumber) (inventories : List CouponTypeInventory)
    : List CouponTypeInventory :=
  inventories.map fun i =>
    if i.eventId = eventId ∧ i.couponTypeId = couponTypeId then
      { i with availableCount := i.availableCount - 1 }
    else
      i

/--
One issue: a coupon, the outbox row that announces it, and one unit of the stock if it is a `SUCCESS`.
-/
structure Issues (request : CouponIssueRequestPayload) (before after : Tables)
    (row : UserCoupon) (event : OutboxEvent) (status : CouponIssueResultStatus) : Prop where
  coupons : after.coupons = before.coupons ++ [row]
  outbox : after.outbox = before.outbox ++ [event]
  pair : row.pair = (request.userId, request.couponTypeId)
  eventId : row.eventId = request.eventId
  status_eq : row.status = .ofResult status
  announced : row.issued.AnnouncedBy event.record
  unchanged : status ≠ .success → after.inventories = before.inventories
  taken : status = .success
    → after.inventories = decremented request.eventId request.couponTypeId before.inventories
      ∧ ∃ i ∈ before.inventories, i.eventId = request.eventId
          ∧ i.couponTypeId = request.couponTypeId ∧ 0 < i.availableCount

end Tables

section Commit

variable {db : Db} {p : Process}

theorem Db.Takes.decremented {eventId couponTypeId : JsNumber} {writes : List Write} (hwf : db.Wf)
    (h : db.Takes eventId couponTypeId .success writes)
    : (db.commit writes).inventories
        = Tables.decremented eventId couponTypeId db.inventories
      ∧ ∃ i ∈ db.inventories, i.eventId = eventId ∧ i.couponTypeId = couponTypeId
          ∧ 0 < i.availableCount := by
  obtain ⟨inventory, hwrites, rfl, rfl, hnonneg, hmem⟩ := h
  refine ⟨?_, _, hmem, rfl, rfl, by dsimp; omega⟩
  rw [hwrites]
  unfold Tables.decremented
  apply List.map_congr_left
  intro i hi
  have hkey : i.id = inventory.id
      ↔ i.eventId = inventory.eventId ∧ i.couponTypeId = inventory.couponTypeId := by
    constructor
    . intro hid
      rw [eq_of_map_nodup hwf.inventoryIds hi hmem hid]
      exact ⟨rfl, rfl⟩
    . intro hkey
      rw [eq_of_map_nodup hwf.inventoryKeys hi hmem (Prod.ext hkey.1 hkey.2)]
  by_cases hid : i.id = inventory.id
  . rw [if_pos hid, if_pos (hkey.mp hid)]
    rw [eq_of_map_nodup hwf.inventoryIds hi hmem hid]
    simp
  . rw [if_neg hid, if_neg (mt hkey.mpr hid)]

theorem Process.commit_issues {check : Bool} (hwf : db.Wf) (hpc : p.pc = .commit check)
    (hinv : p.Inv db)
    : (db.commit p.tx.writes).tables = db.tables
        ∨ ∃ row event status,
            Tables.Issues p.request db.tables (db.commit p.tx.writes).tables row event status := by
  simp only [Inv, hpc] at hinv
  rcases hinv with hnil | ⟨now, status, code, writes, row, event, hwrites, hreserves, hinserts,
    hevent, hannounces⟩
  . left
    rw [hnil]
    rfl
  . right
    have htakes := hreserves.1
    have hrow := hinserts.row_eq
    have hcommit : (db.commit p.tx.writes).tables
        = ⟨db.coupons ++ [row], (db.commit writes).inventories, db.outbox ++ [event]⟩ := by
      rw [hwrites, htakes.commit]
      rfl
    rw [hcommit]
    refine ⟨row, event, status, rfl, rfl, ?_, ?_, hannounces.status_eq, hannounces.announcedBy, ?_,
      ?_⟩
    . rw [hrow]
      rfl
    . rw [hrow]
      rfl
    . intro hne
      cases status with
      | success => contradiction
      | soldOut => rw [show writes = [] from htakes]; rfl
      | failed => rw [show writes = [] from htakes]; rfl
    . rintro rfl
      exact htakes.decremented hwf

end Commit

def ProcessPc.isUncommitted : ProcessPc → Bool
  | freshRead | markSoldOut | returned | crashed => false
  | _ => true

def IsIssue (request : CouponIssueRequestPayload) (l : List (Tables × Tables)) : Prop :=
  ∃ before after row event status,
    l = [(before, after)] ∧ Tables.Issues request before after row event status

/-- What the call has changed so far: nothing before its commit, and at most one issue after it. -/
def Process.Accounts (l : List (Tables × Tables)) (p : Process) : Prop :=
  (p.pc.isUncommitted = true → l = []) ∧ (l = [] ∨ IsIssue p.request l)

def Call.Accounts (l : List (Tables × Tables)) : Call → Prop
  | process p => p.Accounts l
  | _ => True

section Accounts

variable {σ σ' : Shared} {p p' : Process} {x : Input} {l : List (Tables × Tables)}

theorem ProcessPc.isUncommitted_of_isOpen {pc : ProcessPc} (h : pc.isOpen = true)
    : pc.isUncommitted = true := by
  cases pc <;> first | rfl | contradiction

theorem Process.Accounts.keep (h : p.Accounts l) (hrequest : p'.request = p.request)
    (hview : σ'.db.tables = σ.db.tables)
    (hpc : p'.pc.isUncommitted = true → p.pc.isUncommitted = true)
    : p'.Accounts
        (l ++ if σ.db.tables ≠ σ'.db.tables then [(σ.db.tables, σ'.db.tables)] else []) := by
  rw [if_neg (not_not.mpr hview.symm), List.append_nil]
  unfold Accounts
  rw [hrequest]
  exact ⟨fun hpc' => h.1 (hpc hpc'), h.2⟩

theorem Process.Accounts.commit {check : Bool} (h : p.Accounts l) (hwf : σ.db.Wf)
    (hinv : p.Inv σ.db) (hpc : p.pc = .commit check) (hrequest : p'.request = p.request)
    (hpc' : p'.pc.isUncommitted = false)
    : p'.Accounts (l ++ if σ.db.tables ≠ (σ.db.commit p.tx.writes).tables
        then [(σ.db.tables, (σ.db.commit p.tx.writes).tables)] else []) := by
  have hnil := h.1 (by rw [hpc]; rfl)
  rw [hnil, List.nil_append]
  refine ⟨fun hopen => by rw [hpc'] at hopen; contradiction, ?_⟩
  split
  . next hne =>
    rcases commit_issues hwf hpc hinv with heq | ⟨row, event, status, hissues⟩
    . exact absurd heq.symm hne
    . rw [hrequest]
      exact Or.inr ⟨_, _, row, event, status, rfl, hissues⟩
  . exact Or.inl rfl

theorem Process.step_accounts (hwf : σ.db.Wf) (hinv : p.Inv σ.db)
    (hfaithful : ∀ now check, x = .fail true now → p.pc ≠ .commit check) (h : p.Accounts l)
    (hmoves : p.Moves σ σ' x p')
    : p'.Accounts
        (l ++ if σ.db.tables ≠ σ'.db.tables then [(σ.db.tables, σ'.db.tables)] else []) := by
  cases hmoves with
  | committed now draws check hpc hσ =>
    subst hσ
    refine h.commit hwf hinv hpc rfl ?_
    cases check <;> rfl
  | lost now check hpc hσ => exact absurd hpc (hfaithful now check rfl)
  | aborted x e hpc n hn hσ =>
    subst hσ
    exact h.keep rfl rfl fun _ => ProcessPc.isUncommitted_of_isOpen hpc
  | crashed hpc hσ =>
    subst hσ
    exact h.keep rfl rfl fun hopen => by contradiction
  | depleted now draws inventory hpc hσ _ _ =>
    subst hσ
    exact h.keep rfl rfl fun hopen => by contradiction
  | marked x hpc hσ =>
    subst hσ
    exact h.keep rfl rfl fun hopen => by contradiction
  | unmarked x hpc hσ =>
    subst hσ
    exact h.keep rfl rfl fun hopen => by contradiction
  | duplicate now now' draws status code hpc hσ _ =>
    subst hσ
    exact h.keep rfl rfl fun hopen => by contradiction
  | found now draws hpc hσ _ =>
    subst hσ
    exact h.keep rfl rfl fun _ => by rw [hpc]; rfl
  | absent now draws hpc hσ _ =>
    subst hσ
    exact h.keep rfl rfl fun _ => by rw [hpc]; rfl
  | active now draws event hpc hσ _ _ =>
    subst hσ
    exact h.keep rfl rfl fun _ => by rw [hpc]; rfl
  | inactive now draws event hpc hσ _ _ =>
    subst hσ
    exact h.keep rfl rfl fun _ => by rw [hpc]; rfl
  | soldOut now now' draws inventory hpc hσ _ _ =>
    subst hσ
    exact h.keep rfl rfl fun _ => by rw [hpc]; rfl
  | decremented now now' draws inventory taken hpc hσ _ _ =>
    subst hσ
    exact h.keep rfl rfl fun _ => by rw [hpc]; rfl
  | updated now now' draws inventory hpc hσ =>
    subst hσ
    exact h.keep rfl rfl fun _ => by rw [hpc]; rfl
  | inserted now now' draws status code hpc hσ _ =>
    subst hσ
    exact h.keep rfl rfl fun _ => by rw [hpc]; rfl
  | appended now now' draws status code hpc hσ =>
    subst hσ
    exact h.keep rfl rfl fun _ => by rw [hpc]; rfl

theorem Process.not_thrown_of_moves (h : p.Moves σ σ' x p') (hpc : p.pc.isOpen = false)
    (e : ProcessError)
    : p'.pc ≠ .thrown e := by
  intro hthrown
  cases h with
  | aborted x e' hopen _ _ _ =>
    rw [hpc] at hopen
    contradiction
  | lost now check hcommit hσ =>
    rw [hcommit] at hpc
    contradiction
  | committed now draws check hcommit hσ =>
    rw [hcommit] at hpc
    contradiction
  | _ => contradiction

end Accounts

section Run

variable {batchSize : Nat} {db : Db} {t : State} {i : Nat} {p : Process} {c : Call}
variable {l : List (Tables × Tables)}

theorem accounts (hwf : db.Wf)
    (h : Calls.Changes (calls batchSize) FaithfulCommits (·.db.tables) i (init db) t l)
    (hi : t.calls[i]? = some c)
    : c.Accounts l := by
  refine (h.invariant (J := fun c l => Call.Accounts l c) (K := Outline) rfl
    (fun u hu => outline hwf hu) ?_ ?_).2 c hi
  . intro u f _ _ hstart
    simp only [calls, Call.start] at hstart
    split at hstart
    . exact ⟨fun _ => rfl, Or.inl rfl⟩
    . trivial
    . trivial
    . contradiction
  . intro u x f σ' f' l hu hok hf hstep haccounts
    cases f with
    | process p =>
      obtain ⟨⟨σ'', p'⟩, hstep', heq⟩ := Option.map_eq_some_iff.mp hstep
      cases heq
      refine Process.step_accounts hu.shared (hu.calls i _ hf) ?_ haccounts
        (Process.moves_of_step hstep')
      rintro now check rfl
      exact hok p check hf
    | redeem r =>
      obtain ⟨_, _, heq⟩ := Option.map_eq_some_iff.mp hstep
      cases heq
      trivial
    | poll pc =>
      obtain ⟨_, _, heq⟩ := Option.map_eq_some_iff.mp hstep
      cases heq
      trivial

def Db.Settles (db : Db) (request : CouponIssueRequestPayload) : Prop :=
  ∃ c ∈ db.coupons, c.pair = (request.userId, request.couponTypeId)
    ∧ ∃ o ∈ db.outbox, c.issued.AnnouncedBy o.record

theorem Db.settles_of_exists {request : CouponIssueRequestPayload} (hannounced : db.Announced)
    (h : db.existsByUserIdAndCouponTypeId request.userId request.couponTypeId = true)
    : db.Settles request := by
  obtain ⟨c, hc, hpair⟩ := List.any_eq_true.mp h
  exact ⟨c, hc, beq_iff_eq.mp hpair, hannounced.exists_record hc⟩

theorem all_or_nothing (hwf : db.Wf) (hannounced : db.Announced)
    (h : Calls.Changes (calls batchSize) FaithfulCommits (·.db.tables) i (init db) t l)
    (hi : t.calls[i]? = some (.process p))
    : (∀ e, p.pc = .thrown e → l = [])
        ∧ (p.pc = .returned
          → t.shared.db.Settles p.request ∧ (l = [] ∨ IsIssue p.request l))
        ∧ (p.pc.isOpen = false
          → ∀ x σ' p', p.step t.shared x = some (σ', p') → ∀ e, p'.pc ≠ .thrown e) := by
  have haccounts : p.Accounts l := accounts hwf h hi
  refine ⟨?_, ?_, ?_⟩
  . intro e hpc
    exact haccounts.1 (by rw [hpc]; rfl)
  . intro hpc
    refine ⟨Db.settles_of_exists ?_ ?_, haccounts.2⟩
    . exact run_invariant (I := fun v => v.db.Announced) hwf h.run hannounced
        fun _ _ hwf' h hstep => hstep.announced hwf' h
    . have := settled hwf h.run _ (List.mem_of_getElem? hi)
      simp only [Call.Settled, Process.Settled, hpc] at this
      exact this
  . intro hopen x σ' p' hstep e
    exact Process.not_thrown_of_moves (Process.moves_of_step hstep) hopen e

end Run

end ServerC
