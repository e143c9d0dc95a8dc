import CouponIssuance.ServerC.Lemmas.Moves
import CouponIssuance.ServerC.Outbox

/-!
This module contains what a call does to the rows of `user_coupon`: a commit of `process` appends its
row, and a `process` that returns leaves a row of its pair behind.
-/

namespace ServerC

open Concurrency

namespace Process

structure Inserting (p : Process) (row : UserCoupon) : Prop where
  mem : .insertCoupon row ∈ p.tx.writes
  pair : row.pair = (p.request.userId, p.request.couponTypeId)
  eventId : row.eventId = p.request.eventId

variable {σ σ' : Shared} {p p' : Process} {x : Input} {db : Db}

theorem commit_coupons {check : Bool} (hpc : p.pc = .commit check) (hinv : p.Inv db)
    : (p.tx.writes = [] ∧ db.commit p.tx.writes = db)
        ∨ ∃ row, p.Inserting row ∧ (db.commit p.tx.writes).coupons = db.coupons ++ [row] := by
  unfold Inv at hinv
  rw [hpc] at hinv
  rcases hinv with hnil | ⟨now, status, code, writes, row, event, hwrites, hreserves, hinserts, _⟩
  . left
    rw [hnil]
    exact ⟨rfl, rfl⟩
  . right
    refine ⟨row, ⟨by simp [hwrites], ?_, ?_⟩, ?_⟩
    . rw [hinserts.row_eq]
      rfl
    . rw [hinserts.row_eq]
      rfl
    . rw [hwrites, hreserves.1.commit]

end Process

theorem Call.step_coupons {batchSize : Nat} {σ σ' : Shared} {c c' : Call} {x : Input}
    (hwf : σ.db.Wf) (hinv : c.Inv σ.view) (hstep : c.step batchSize σ x = some (σ', c'))
    : (∃ p row check, c = .process p ∧ p.pc = .commit check ∧ p.Inserting row
          ∧ σ'.db.coupons = σ.db.coupons ++ [row])
        ∨ σ'.db.coupons = σ.db.coupons
        ∨ ∃ r, c = .redeem r
            ∧ σ'.db.coupons.map (·.issued) = σ.db.coupons.map (·.issued) := by
  cases c with
  | process p =>
    obtain ⟨⟨σ'', p'⟩, hstep', heq⟩ := Option.map_eq_some_iff.mp hstep
    cases heq
    have hcommit : ∀ check, p.pc = .commit check → σ'' = { σ with db := σ.db.commit p.tx.writes }
        → (∃ row, p.Inserting row ∧ σ''.db.coupons = σ.db.coupons ++ [row])
          ∨ σ''.db.coupons = σ.db.coupons := by
      rintro check hpc rfl
      rcases Process.commit_coupons hpc hinv with ⟨_, heq⟩ | ⟨row, hrow, hcoupons⟩
      . exact Or.inr (congrArg Db.coupons heq)
      . exact Or.inl ⟨row, hrow, hcoupons⟩
    cases Process.moves_of_step hstep' with
    | committed now draws check hpc hσ =>
      rcases hcommit check hpc hσ with ⟨row, hrow, hcoupons⟩ | hcoupons
      . exact Or.inl ⟨p, row, check, rfl, hpc, hrow, hcoupons⟩
      . exact Or.inr (Or.inl hcoupons)
    | lost now check hpc hσ =>
      rcases hcommit check hpc hσ with ⟨row, hrow, hcoupons⟩ | hcoupons
      . exact Or.inl ⟨p, row, check, rfl, hpc, hrow, hcoupons⟩
      . exact Or.inr (Or.inl hcoupons)
    | _ => right; left; subst_vars; rfl
  | redeem r =>
    obtain ⟨⟨σ'', r'⟩, hstep', heq⟩ := Option.map_eq_some_iff.mp hstep
    cases heq
    have hcommit : ∀ result, r.pc = .commit result
        → σ'' = { σ with db := σ.db.commit r.tx.writes }
        → σ''.db.coupons.map (·.issued) = σ.db.coupons.map (·.issued) := by
      rintro result hpc rfl
      have hlength : (σ.db.commit r.tx.writes).coupons.length = σ.db.coupons.length := by
        simp only [Inv, Redeem.Inv, hpc] at hinv
        rcases hinv with hnil | ⟨id, coupon, usedAt, hwrites, _⟩
        . rw [hnil]
          rfl
        . simp [hwrites, Db.commit, Db.apply]
      have htransaction : σ.db.Step (σ.db.commit r.tx.writes) := (Redeem.commit_spec hpc hinv).1
      have hextends := htransaction.issued_extends hwf
      refine (hextends.eq_of_length ?_).symm
      rw [List.length_map, List.length_map, hlength]
    cases Redeem.moves_of_step hstep' with
    | committed now draws result hpc hσ => exact Or.inr (Or.inr ⟨r, rfl, hcommit result hpc hσ⟩)
    | lost now result hpc hσ => exact Or.inr (Or.inr ⟨r, rfl, hcommit result hpc hσ⟩)
    | _ => right; left; subst_vars; rfl
  | poll pc =>
    obtain ⟨⟨σ'', pc'⟩, hstep', heq⟩ := Option.map_eq_some_iff.mp hstep
    cases heq
    right
    left
    unfold PollPc.step at hstep'
    split at hstep' <;> split at hstep' <;> cases hstep' <;> first | rfl | (split <;> rfl)

section Settled

variable {db db' : Db} {userId couponTypeId : JsNumber}

theorem Db.exists_iff
    : db.existsByUserIdAndCouponTypeId userId couponTypeId = true
        ↔ ∃ i ∈ db.coupons.map (·.issued), (i.userId, i.couponTypeId) = (userId, couponTypeId) := by
  unfold existsByUserIdAndCouponTypeId
  simp only [List.any_eq_true, beq_iff_eq, List.mem_map, exists_exists_and_eq_and]
  rfl

theorem Db.exists_of_extends (h : db.coupons.map (·.issued) <+: db'.coupons.map (·.issued))
    (hexists : db.existsByUserIdAndCouponTypeId userId couponTypeId = true)
    : db'.existsByUserIdAndCouponTypeId userId couponTypeId = true := by
  obtain ⟨i, hi, hpair⟩ := exists_iff.mp hexists
  exact exists_iff.mpr ⟨i, h.subset hi, hpair⟩

theorem Db.exists_apply (w : Write)
    (h : db.existsByUserIdAndCouponTypeId userId couponTypeId = true)
    : (db.apply w).existsByUserIdAndCouponTypeId userId couponTypeId = true := by
  cases w with
  | updateAvailableCount inventory => exact h
  | insertOutbox row => exact h
  | insertCoupon row =>
    unfold existsByUserIdAndCouponTypeId at h ⊢
    simp only [apply, List.any_append, h, Bool.true_or]
  | markUsed id version usedAt =>
    obtain ⟨c, hc, hpair⟩ := List.any_eq_true.mp h
    refine List.any_eq_true.mpr ⟨_, List.mem_map_of_mem hc, ?_⟩
    split <;> exact hpair

theorem Db.exists_commit (writes : List Write)
    (h : db.existsByUserIdAndCouponTypeId userId couponTypeId = true)
    : (db.commit writes).existsByUserIdAndCouponTypeId userId couponTypeId = true := by
  induction writes generalizing db with
  | nil => exact h
  | cons w writes ih => exact ih (exists_apply w h)

theorem Db.exists_commit_of_mem {writes : List Write} {row : UserCoupon}
    (hrow : .insertCoupon row ∈ writes) (hpair : row.pair = (userId, couponTypeId))
    : (db.commit writes).existsByUserIdAndCouponTypeId userId couponTypeId = true := by
  induction writes generalizing db with
  | nil => contradiction
  | cons w writes ih =>
    rcases List.mem_cons.mp hrow with rfl | hrow
    . apply exists_commit writes
      simp [existsByUserIdAndCouponTypeId, apply, hpair]
    . exact ih hrow

def Process.InsertsPair (p : Process) : Prop :=
  ∃ row, .insertCoupon row ∈ p.tx.writes
    ∧ row.pair = (p.request.userId, p.request.couponTypeId)

def Process.Settled (db : Db) (p : Process) : Prop :=
  match p.pc with
  | .append _ _ _ => p.InsertsPair
  | .commit _ =>
    p.InsertsPair
      ∨ db.existsByUserIdAndCouponTypeId p.request.userId p.request.couponTypeId = true
  | .freshRead | .markSoldOut | .returned =>
    db.existsByUserIdAndCouponTypeId p.request.userId p.request.couponTypeId = true
  | _ => True

def Call.Settled (db : Db) : Call → Prop
  | process p => p.Settled db
  | _ => True

theorem Call.Settled.of_extends {c : Call} (h : c.Settled db)
    (hextends : db.coupons.map (·.issued) <+: db'.coupons.map (·.issued))
    : c.Settled db' := by
  cases c with
  | redeem r => trivial
  | poll pc => trivial
  | process p =>
    simp only [Settled, Process.Settled] at h ⊢
    split
    . next hpc =>
      rw [hpc] at h
      exact h
    . next hpc =>
      rw [hpc] at h
      exact h.imp_right (Db.exists_of_extends hextends)
    . next hpc =>
      rw [hpc] at h
      exact Db.exists_of_extends hextends h
    . next hpc =>
      rw [hpc] at h
      exact Db.exists_of_extends hextends h
    . next hpc =>
      rw [hpc] at h
      exact Db.exists_of_extends hextends h
    . trivial

theorem Process.commit_settled {p : Process} {check : Bool} (hpc : p.pc = .commit check)
    (hsettled : p.Settled db)
    : (db.commit p.tx.writes).existsByUserIdAndCouponTypeId p.request.userId
        p.request.couponTypeId = true := by
  simp only [Settled, hpc] at hsettled
  rcases hsettled with ⟨row, hrow, hpair⟩ | hexists
  . exact Db.exists_commit_of_mem hrow hpair
  . exact Db.exists_commit _ hexists

theorem Process.step_settled {σ σ' : Shared} {p p' : Process} {x : Input}
    (hsettled : p.Settled σ.db) (hmoves : p.Moves σ σ' x p')
    : p'.Settled σ'.db := by
  cases hmoves with
  | found now draws hpc hσ hexists =>
    subst hσ
    exact Or.inr hexists
  | duplicate now now' draws status code hpc hσ herror =>
    subst hσ
    simp only [Settled, abort]
    unfold Db.insertError at herror
    split at herror
    . contradiction
    . split at herror
      . contradiction
      . split at herror
        . next hpair => exact hpair
        . split at herror <;> contradiction
  | inserted now now' draws status code hpc hσ herror =>
    exact ⟨_, List.mem_append_right _ (List.mem_singleton.mpr rfl), rfl⟩
  | appended now now' draws status code hpc hσ =>
    simp only [Settled, hpc] at hsettled
    obtain ⟨row, hrow, hpair⟩ := hsettled
    exact Or.inl ⟨row, List.mem_append_left _ hrow, hpair⟩
  | committed now draws check hpc hσ =>
    subst hσ
    have := commit_settled hpc hsettled
    cases check <;> exact this
  | depleted now draws inventory hpc hσ hinventory hcount =>
    subst hσ
    simp only [Settled, hpc] at hsettled
    exact hsettled
  | marked x hpc hσ =>
    subst hσ
    simp only [Settled, hpc] at hsettled
    exact hsettled
  | unmarked x hpc hσ =>
    subst hσ
    rcases hpc with hpc | hpc
    . simp only [Settled, hpc] at hsettled
      exact hsettled
    . simp only [Settled, hpc] at hsettled
      exact hsettled
  | _ => trivial

end Settled

section Run

variable {batchSize : Nat} {ok : State → Act → Prop} {db : Db} {s : State}

theorem settled (hwf : db.Wf) (hrun : (calls batchSize).machine.Run ok (init db) s)
    : ∀ c ∈ s.calls, c.Settled s.shared.db := by
  refine Calls.forall_calls (J := fun σ c => c.Settled σ.db) hrun (K := Outline)
    (fun u hu => outline hwf hu) (by simp [init]) ?_ ?_ ?_
  . intro u f _ _ hstart
    simp only [calls, Call.start] at hstart
    split at hstart <;> trivial
  . intro u i x f σ' f' _ _ _ hsettled hstep
    cases f with
    | process p =>
      obtain ⟨⟨σ'', p'⟩, hstep', heq⟩ := Option.map_eq_some_iff.mp hstep
      cases heq
      exact Process.step_settled hsettled (Process.moves_of_step hstep')
    | redeem r =>
      obtain ⟨_, _, heq⟩ := Option.map_eq_some_iff.mp hstep
      cases heq
      trivial
    | poll pc =>
      obtain ⟨_, _, heq⟩ := Option.map_eq_some_iff.mp hstep
      cases heq
      trivial
  . intro u a v f hu _ hnext hsettled
    exact hsettled.of_extends ((next_transition hu hnext).issued_extends hu.shared)

end Run

end ServerC
