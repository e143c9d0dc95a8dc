import CouponIssuance.ServerC.Lemmas.Moves
import CouponIssuance.ServerC.Stock

/-!
This module contains the promise of `redeem`: a coupon is redeemed at most once, and every reply
tells the same time.
-/

namespace ServerC

open Concurrency

namespace UserCoupon

def Coherent (c : UserCoupon) : Prop :=
  (c.status = .used ↔ c.usedAt.isSome = true) ∧ c.version = if c.status = .used then 1 else 0

def Evolves (c c' : UserCoupon) : Prop :=
  c' = c ∨ c.isRedeemable = true
    ∧ ∃ usedAt, c' = { c with status := .used, usedAt := some usedAt, version := c.version + 1 }

variable {c c' c'' : UserCoupon}

theorem isRedeemable_spec (h : c.isRedeemable = true) : c.status = .success ∧ c.usedAt = none := by
  simpa [isRedeemable] using h

theorem Evolves.trans (h : c.Evolves c') (h' : c'.Evolves c'') : c.Evolves c'' := by
  rcases h with rfl | ⟨hredeemable, usedAt, rfl⟩
  . exact h'
  . rcases h' with rfl | ⟨hredeemable', _⟩
    . exact Or.inr ⟨hredeemable, usedAt, rfl⟩
    . have := (isRedeemable_spec hredeemable').2
      contradiction

theorem Evolves.keys (h : c.Evolves c') : c'.id = c.id ∧ c'.code = c.code ∧ c'.userId = c.userId := by
  rcases h with rfl | ⟨_, _, rfl⟩ <;> exact ⟨rfl, rfl, rfl⟩

theorem Evolves.usedAt {time : Int} (h : c.Evolves c') (hused : c.usedAt = some time)
    : c'.usedAt = some time := by
  rcases h with rfl | ⟨hredeemable, _⟩
  . exact hused
  . rw [(isRedeemable_spec hredeemable).2] at hused
    contradiction

theorem Evolves.status (h : c.Evolves c') (hne : c'.status ≠ c.status)
    : c.status = .success ∧ c'.status = .used := by
  rcases h with rfl | ⟨hredeemable, _, rfl⟩
  . contradiction
  . exact ⟨(isRedeemable_spec hredeemable).1, rfl⟩

end UserCoupon

structure Tables where
  coupons : List UserCoupon
  inventories : List CouponTypeInventory
  outbox : List OutboxEvent
deriving DecidableEq

def Db.tables (db : Db) : Tables where
  coupons := db.coupons
  inventories := db.inventories
  outbox := db.outbox

section Step

variable {v v' : View}

theorem Db.mem_redeem {db : Db} {coupon : UserCoupon} {id : Nat} (usedAt : Int)
    (hmem : coupon ∈ db.coupons) (hid : coupon.id = some id)
    : { coupon with status := .used, usedAt := some usedAt, version := coupon.version + 1 }
        ∈ (db.commit [.markUsed id coupon.version usedAt]).coupons := by
  refine List.mem_map.mpr ⟨coupon, hmem, if_pos ?_⟩
  simp [Db.isMarkUsedTarget, hid]

theorem Db.Step.evolves {db db' : Db} (h : db.Step db') (hwf : db.Wf) {c : UserCoupon}
    (hc : c ∈ db.coupons)
    : ∃ c' ∈ db'.coupons, c.Evolves c' := by
  cases h with
  | idle _ _ _ _ => exact ⟨c, hc, Or.inl rfl⟩
  | issue row event requestId status code writes htakes _ _ _ =>
    rw [htakes.commit]
    exact ⟨c, List.mem_append_left _ hc, Or.inl rfl⟩
  | redeem coupon id usedAt hmem hid hredeemable =>
    by_cases heq : c = coupon
    . subst heq
      exact ⟨_, Db.mem_redeem usedAt hmem hid, Or.inr ⟨hredeemable, usedAt, rfl⟩⟩
    . refine ⟨c, List.mem_map.mpr ⟨c, hc, if_neg ?_⟩, Or.inl rfl⟩
      intro htarget
      simp only [Db.isMarkUsedTarget, Bool.and_eq_true, beq_iff_eq] at htarget
      exact heq (Db.eq_of_map_nodup hwf.couponIds hc hmem (htarget.1.trans hid.symm))

theorem View.Step.evolves (h : v.Step v') (hwf : v.db.Wf) {c : UserCoupon}
    (hc : c ∈ v.db.coupons)
    : ∃ c' ∈ v'.db.coupons, c.Evolves c' := by
  cases h with
  | transaction db h => exact h.evolves hwf hc
  | send _ _ => exact ⟨c, hc, Or.inl rfl⟩
  | publish _ _ _ => exact ⟨c, hc, Or.inl rfl⟩

theorem Announces.coherent {row : UserCoupon} {event : OutboxEvent} {requestId : String}
    {status : CouponIssueResultStatus} {code : Option String}
    (h : Announces row event requestId status code)
    : row.Coherent := by
  have hne : row.status ≠ .used := by
    rw [h.status_eq]
    cases status <;> simp [UserCouponStatus.ofResult]
  simp [UserCoupon.Coherent, hne, h.unused.1, h.unused.2]

theorem View.Step.coherent (h : v.Step v') (hcoherent : ∀ c ∈ v.db.coupons, c.Coherent)
    : ∀ c ∈ v'.db.coupons, c.Coherent := by
  cases h with
  | send _ _ => exact hcoherent
  | publish _ _ _ => exact hcoherent
  | transaction db h =>
    cases h with
    | idle _ _ _ _ => exact hcoherent
    | issue row event requestId status code writes htakes _ _ hannounces =>
      rw [htakes.commit]
      intro c hc
      rcases List.mem_append.mp hc with hc | hc
      . exact hcoherent c hc
      . rw [List.mem_singleton.mp hc]
        exact hannounces.coherent
    | redeem coupon id usedAt hmem hid hredeemable =>
      intro c hc
      obtain ⟨d, hd, rfl⟩ := List.mem_map.mp hc
      split
      . next htarget =>
        simp only [Db.isMarkUsedTarget, Bool.and_eq_true, beq_iff_eq] at htarget
        have hstatus := (UserCoupon.isRedeemable_spec hredeemable).1
        have hversion := (hcoherent coupon hmem).2
        rw [hstatus] at hversion
        simp [UserCoupon.Coherent, htarget.2, hversion]
      . exact hcoherent d hd

end Step

def Db.Redeemed (db : Db) (result : RedeemResult) : Prop :=
  ∃ c ∈ db.coupons, c.code = result.code ∧ c.userId = result.userId
    ∧ c.usedAt = some result.redeemedAt

def Db.HasRow (db : Db) (id : Option Nat) (code : String) (userId : JsNumber) : Prop :=
  ∃ c ∈ db.coupons, c.id = id ∧ c.code = code ∧ c.userId = userId

namespace Redeem

def Knows (db : Db) (r : Redeem) : Prop :=
  match r.pc with
  | .markUsed coupon _ => db.HasRow coupon.id coupon.code coupon.userId
  | .commit result =>
    if result.newlyRedeemed then
      ∃ id version, r.tx.writes = [.markUsed id version result.redeemedAt]
        ∧ db.HasRow (some id) result.code result.userId
    else
      db.Redeemed result
  | .returned result => db.Redeemed result
  | _ => True

end Redeem

def Call.Knows (db : Db) : Call → Prop
  | redeem r => r.Knows db
  | _ => True

section Knows

variable {db db' : Db}

theorem Db.HasRow.of_evolves {id : Option Nat} {code : String} {userId : JsNumber}
    (h : db.HasRow id code userId)
    (hevolves : ∀ c ∈ db.coupons, ∃ c' ∈ db'.coupons, c.Evolves c')
    : db'.HasRow id code userId := by
  obtain ⟨c, hc, hid, hcode, huser⟩ := h
  obtain ⟨c', hc', hevolves⟩ := hevolves c hc
  obtain ⟨hid', hcode', huser'⟩ := hevolves.keys
  exact ⟨c', hc', hid'.trans hid, hcode'.trans hcode, huser'.trans huser⟩

theorem Db.Redeemed.of_evolves {result : RedeemResult} (h : db.Redeemed result)
    (hevolves : ∀ c ∈ db.coupons, ∃ c' ∈ db'.coupons, c.Evolves c')
    : db'.Redeemed result := by
  obtain ⟨c, hc, hcode, huser, hused⟩ := h
  obtain ⟨c', hc', hevolves⟩ := hevolves c hc
  obtain ⟨_, hcode', huser'⟩ := hevolves.keys
  exact ⟨c', hc', hcode'.trans hcode, huser'.trans huser, hevolves.usedAt hused⟩

theorem Call.Knows.of_evolves {c : Call} (h : c.Knows db)
    (hevolves : ∀ c ∈ db.coupons, ∃ c' ∈ db'.coupons, c.Evolves c')
    : c.Knows db' := by
  cases c with
  | process p => trivial
  | poll pc => trivial
  | redeem r =>
    simp only [Knows, Redeem.Knows] at h ⊢
    split
    . next hpc =>
      rw [hpc] at h
      exact h.of_evolves hevolves
    . next result hpc =>
      rw [hpc] at h
      split
      . next hnew =>
        simp only [hnew, ↓reduceIte] at h
        obtain ⟨id, version, hwrites, hrow⟩ := h
        exact ⟨id, version, hwrites, hrow.of_evolves hevolves⟩
      . next hold =>
        simp only [hold, Bool.false_eq_true, ↓reduceIte] at h
        exact h.of_evolves hevolves
    . next hpc =>
      rw [hpc] at h
      exact h.of_evolves hevolves
    . trivial

theorem Redeem.commit_newly {r : Redeem} {result : RedeemResult} (hwf : db.Wf)
    (hpc : r.pc = .commit result) (hinv : r.Inv db) (hknows : r.Knows db)
    (hnew : result.newlyRedeemed = true)
    : db.coupons.any (fun c => c.code == result.code && c.isRedeemable) = true
        ∧ (db.commit r.tx.writes).Redeemed result := by
  simp only [Knows, hpc, hnew, ↓reduceIte] at hknows
  obtain ⟨id, version, hwrites, c, hc, hid, hcode, huser⟩ := hknows
  simp only [Inv, hpc] at hinv
  rcases hinv with hnil | ⟨id', coupon, usedAt, hwrites', _, hmem, hid', hredeemable⟩
  . rw [hnil] at hwrites
    contradiction
  . rw [hwrites, List.cons.injEq, Write.markUsed.injEq] at hwrites'
    obtain ⟨⟨rfl, rfl, rfl⟩, _⟩ := hwrites'
    obtain rfl := Db.eq_of_map_nodup hwf.couponIds hc hmem (hid.trans hid'.symm)
    refine ⟨?_, ?_⟩
    . rw [List.any_eq_true]
      exact ⟨c, hc, by simp [hcode, hredeemable]⟩
    . rw [hwrites]
      exact ⟨_, Db.mem_redeem _ hc hid, hcode, huser, rfl⟩

theorem Redeem.commit_knows {r : Redeem} {result : RedeemResult} (hwf : db.Wf)
    (hpc : r.pc = .commit result) (hinv : r.Inv db) (hknows : r.Knows db)
    : (db.commit r.tx.writes).Redeemed result := by
  cases hnew : result.newlyRedeemed with
  | true => exact (commit_newly hwf hpc hinv hknows hnew).2
  | false =>
    simp only [Knows, hpc, hnew, Bool.false_eq_true, ↓reduceIte] at hknows
    exact hknows.of_evolves fun c hc => (commit_spec hpc hinv).1.evolves hwf hc

theorem Redeem.step_knows {σ σ' : Shared} {r r' : Redeem} {x : Input} (hwf : σ.db.Wf)
    (hinv : r.Inv σ.db) (hknows : r.Knows σ.db) (hmoves : r.Moves σ σ' x r')
    : r'.Knows σ'.db := by
  cases hmoves with
  | aborted x pc hpc hσ hend =>
    rcases hend with rfl | ⟨e, rfl⟩ <;> trivial
  | replayed now draws coupon usedAt hpc hσ hfind hused =>
    subst hσ
    exact ⟨coupon, List.mem_of_find?_eq_some hfind, rfl, rfl, hused⟩
  | read now draws coupon hpc hσ hfind hredeemable =>
    subst hσ
    exact ⟨coupon, List.mem_of_find?_eq_some hfind, rfl, rfl, rfl⟩
  | hit now now' draws coupon hpc hσ hhit =>
    subst hσ
    simp only [Inv, hpc] at hinv
    obtain ⟨hwrites, _, id, hid, _⟩ := hinv
    simp only [Knows, hpc] at hknows
    refine ⟨id, coupon.version, ?_, ?_⟩
    . simp [goto, Tx.write, Tx.lock, hwrites, hid]
    . rw [← hid]
      exact hknows
  | committed now draws result hpc hσ =>
    subst hσ
    exact commit_knows hwf hpc hinv hknows
  | lost now result hpc hσ => trivial

end Knows

section Run

variable {batchSize : Nat} {ok : State → Act → Prop} {db : Db} {s t : State}

theorem evolves (hwf : db.Wf) (hs : (calls batchSize).machine.Run ok (init db) s)
    (ht : (calls batchSize).machine.Run ok s t) {c : UserCoupon} (hc : c ∈ s.shared.db.coupons)
    : ∃ c' ∈ t.shared.db.coupons, c.Evolves c' := by
  apply ht.invariant_of (K := Outline)
    (I := fun t => ∃ c' ∈ t.shared.db.coupons, c.Evolves c')
  . intro u hu
    exact outline hwf (hs.trans hu)
  . exact ⟨c, hc, Or.inl rfl⟩
  . rintro u a w hu _ ⟨c', hc', hevolves⟩ _ hnext
    obtain ⟨c'', hc'', hevolves'⟩ := (next_transition hu hnext).evolves hu.shared hc'
    exact ⟨c'', hc'', hevolves.trans hevolves'⟩

theorem knows (hwf : db.Wf) (hrun : (calls batchSize).machine.Run ok (init db) s)
    : ∀ c ∈ s.calls, c.Knows s.shared.db := by
  refine Calls.forall_calls (J := fun σ c => c.Knows σ.db) hrun (K := Outline)
    (fun u hu => outline hwf hu) (by simp [init]) ?_ ?_ ?_
  . intro u f _ _ hstart
    simp only [calls, Call.start] at hstart
    split at hstart <;> trivial
  . intro u i x f σ' f' hu _ hf hknows hstep
    cases f with
    | process p =>
      obtain ⟨r, _, heq⟩ := Option.map_eq_some_iff.mp hstep
      cases heq
      trivial
    | poll pc =>
      obtain ⟨r, _, heq⟩ := Option.map_eq_some_iff.mp hstep
      cases heq
      trivial
    | redeem r =>
      obtain ⟨⟨σ'', r'⟩, hstep', heq⟩ := Option.map_eq_some_iff.mp hstep
      cases heq
      exact Redeem.step_knows hu.shared (hu.calls i _ hf) hknows (Redeem.moves_of_step hstep')
  . intro u a v f hu _ hnext hknows
    exact hknows.of_evolves fun c hc => (next_transition hu hnext).evolves hu.shared hc

def Call.redeemed? : Call → Option RedeemResult
  | redeem r =>
    match r.pc with
    | .returned result => if result.newlyRedeemed then some result else none
    | _ => none
  | _ => none

theorem Call.redeemed?_step {σ σ' : Shared} {c c' : Call} {x : Input} {result : RedeemResult}
    (hstep : c.step batchSize σ x = some (σ', c')) (hredeemed : c'.redeemed? = some result)
    : ∃ r, c = .redeem r ∧ r.pc = .commit result ∧ result.newlyRedeemed = true := by
  cases c with
  | process p =>
    obtain ⟨r, _, heq⟩ := Option.map_eq_some_iff.mp hstep
    cases heq
    contradiction
  | poll pc =>
    obtain ⟨r, _, heq⟩ := Option.map_eq_some_iff.mp hstep
    cases heq
    contradiction
  | redeem r =>
    obtain ⟨⟨σ'', r'⟩, hstep', heq⟩ := Option.map_eq_some_iff.mp hstep
    cases heq
    cases Redeem.moves_of_step hstep' with
    | committed now draws result' hpc hσ =>
      simp only [redeemed?, Redeem.abort] at hredeemed
      split at hredeemed
      . next hnew =>
        cases hredeemed
        exact ⟨r, rfl, hpc, hnew⟩
      . contradiction
    | aborted x pc hpc hσ hend => rcases hend with rfl | ⟨e, rfl⟩ <;> contradiction
    | replayed _ _ _ _ _ _ _ _ => contradiction
    | read _ _ _ _ _ _ _ => contradiction
    | hit _ _ _ _ _ _ _ => contradiction
    | lost _ _ _ _ => contradiction

theorem Call.redeemed?_knows {db : Db} {c : Call} {result : RedeemResult} (h : c.Knows db)
    (hredeemed : c.redeemed? = some result)
    : db.Redeemed result := by
  unfold redeemed? at hredeemed
  split at hredeemed
  . split at hredeemed
    . next result' hpc =>
      simp only [Knows, Redeem.Knows, hpc] at h
      split at hredeemed
      . cases hredeemed
        exact h
      . contradiction
    . contradiction
  . contradiction

theorem redeemed_apart (hwf : db.Wf) (hrun : (calls batchSize).machine.Run ok (init db) s)
    : ∀ (i j : Nat) f g, i ≠ j → s.calls[i]? = some f → s.calls[j]? = some g
        → ∀ a b, f.redeemed? = some a → g.redeemed? = some b → a.code ≠ b.code := by
  refine Calls.forall_pairs (R := fun f g => ∀ a b, f.redeemed? = some a → g.redeemed? = some b
    → a.code ≠ b.code) hrun (K := fun u => Outline u ∧ ∀ c ∈ u.calls, c.Knows u.shared.db)
    (fun u hu => ⟨outline hwf hu, knows hwf hu⟩) ?_ (by simp [init]) ?_ ?_
  . intro f g h a b ha hb
    exact Ne.symm (h b a hb ha)
  . intro u f _ _ hstart g _ a b ha
    simp only [calls, Call.start] at hstart
    split at hstart <;> contradiction
  . rintro u i x f σ' f' j g ⟨hu, hknows⟩ _ hf _ hg _ hstep a b ha hb hcode
    obtain ⟨r, rfl, hpc, hnew⟩ := Call.redeemed?_step hstep ha
    have hcommit := Redeem.commit_newly hu.shared hpc (hu.calls i _ hf)
      (hknows _ (List.mem_of_getElem? hf)) hnew
    obtain ⟨c, hc, hc'⟩ := List.any_eq_true.mp hcommit.1
    simp only [Bool.and_eq_true, beq_iff_eq] at hc'
    obtain ⟨d, hd, hdcode, _, hdused⟩ :=
      Call.redeemed?_knows (hknows _ (List.mem_of_getElem? hg)) hb
    -- the other call has redeemed the same row, which is still redeemable
    have heq : c = d := by
      refine Db.eq_of_map_nodup hu.shared.codes hc hd ?_
      rw [hc'.1, hcode, hdcode]
    rw [← heq, (UserCoupon.isRedeemable_spec hc'.2).2] at hdused
    contradiction

def RedeemPc.isUntouched : RedeemPc → Bool
  | findByCode | markUsed _ _ | commit _ | crashed => true
  | thrown e => e != .queryFailed
  | returned _ => false

def Call.isUntouchedRedeem : Call → Bool
  | redeem r => r.pc.isUntouched
  | _ => false

theorem refused_unchanged {i : Nat} {l : List (Tables × Tables)} {c : Call}
    (h : Calls.Changes (calls batchSize) ok (·.db.tables) i (init db) s l)
    (hc : s.calls[i]? = some c) (huntouched : c.isUntouchedRedeem = true)
    : l = [] := by
  refine h.eq_nil (P := fun c => c.isUntouchedRedeem = true) (K := fun _ => True) rfl
    (fun _ _ => trivial) ?_ c hc huntouched
  intro u x f σ' f' _ _ hf hstep hP
  cases f with
  | process p =>
    obtain ⟨r, _, heq⟩ := Option.map_eq_some_iff.mp hstep
    cases heq
    contradiction
  | poll pc =>
    obtain ⟨r, _, heq⟩ := Option.map_eq_some_iff.mp hstep
    cases heq
    contradiction
  | redeem r =>
    obtain ⟨⟨σ'', r'⟩, hstep', heq⟩ := Option.map_eq_some_iff.mp hstep
    cases heq
    cases Redeem.moves_of_step hstep' with
    | aborted x pc hpc hσ hend =>
      subst hσ
      refine ⟨?_, rfl⟩
      dsimp only [Call.isUntouchedRedeem]
      cases hpc' : r.pc <;> simp_all [RedeemPc.isOpen, RedeemPc.isUntouched]
    | replayed now draws coupon usedAt hpc hσ hfind hused =>
      subst hσ
      exact ⟨by simp [Call.isUntouchedRedeem, hpc, RedeemPc.isUntouched], rfl⟩
    | read now draws coupon hpc hσ hfind hredeemable =>
      subst hσ
      exact ⟨by simp [Call.isUntouchedRedeem, hpc, RedeemPc.isUntouched], rfl⟩
    | hit now now' draws coupon hpc hσ hhit =>
      subst hσ
      exact ⟨by simp [Call.isUntouchedRedeem, hpc, RedeemPc.isUntouched], rfl⟩
    | committed _ _ _ _ _ => contradiction
    | lost _ _ _ _ => contradiction

/--
Between `s` and `t` every coupon is redeemed at most once, and the replies tell when.
-/
structure RedeemedOnce (s t : State) : Prop where
  evolves : ∀ c ∈ s.shared.db.coupons, ∃ c' ∈ t.shared.db.coupons, c.Evolves c'
  coherent : ∀ c ∈ t.shared.db.coupons, c.Coherent
  once : ∀ (i j : Nat) r r' a b, i ≠ j → t.calls[i]? = some (.redeem r)
    → t.calls[j]? = some (.redeem r') → r.pc = .returned a → r'.pc = .returned b
    → a.newlyRedeemed = true → b.newlyRedeemed = true → a.code ≠ b.code
  stable : ∀ r r' a b, .redeem r ∈ t.calls → .redeem r' ∈ t.calls → r.pc = .returned a
    → r'.pc = .returned b → a.code = b.code → a.redeemedAt = b.redeemedAt
  recorded : ∀ r a, .redeem r ∈ t.calls → r.pc = .returned a → t.shared.db.Redeemed a

/--
A coupon is redeemed at most once, every reply for it tells the same time, and a call that is
refused changes nothing.
-/
theorem redeemed_once (hwf : db.Wf) (hcoherent : ∀ c ∈ db.coupons, c.Coherent)
    (hs : (calls batchSize).machine.Run (fun _ _ => True) (init db) s)
    (ht : (calls batchSize).machine.Run (fun _ _ => True) s t)
    : RedeemedOnce s t
        ∧ ∀ i r e l, Calls.Changes (calls batchSize) (fun _ _ => True) (·.db.tables) i (init db) t l
            → t.calls[i]? = some (.redeem r) → r.pc = .thrown e → e ≠ .queryFailed → l = [] := by
  have hrun := hs.trans ht
  have hwf' := (outline hwf hrun).shared
  have hrecorded : ∀ r a, .redeem r ∈ t.calls → r.pc = .returned a → t.shared.db.Redeemed a := by
    intro r a hr hpc
    have := knows hwf hrun _ hr
    simp only [Call.Knows, Redeem.Knows, hpc] at this
    exact this
  refine ⟨⟨fun c hc => evolves hwf hs ht hc, ?_, ?_, ?_, hrecorded⟩, ?_⟩
  . apply run_invariant (I := fun v => ∀ c ∈ v.db.coupons, c.Coherent) hwf hrun hcoherent
    exact fun v v' _ h hstep => hstep.coherent h
  . intro i j r r' a b hij hi hj hpc hpc' hnew hnew'
    apply redeemed_apart hwf hrun i j _ _ hij hi hj a b
    . simp [Call.redeemed?, hpc, hnew]
    . simp [Call.redeemed?, hpc', hnew']
  . intro r r' a b hr hr' hpc hpc' hcode
    obtain ⟨c, hc, hccode, _, hcused⟩ := hrecorded r a hr hpc
    obtain ⟨d, hd, hdcode, _, hdused⟩ := hrecorded r' b hr' hpc'
    have heq : c = d := by
      refine Db.eq_of_map_nodup hwf'.codes hc hd ?_
      rw [hccode, hcode, hdcode]
    rw [heq, hdused, Option.some.injEq] at hcused
    exact hcused.symm
  . intro i r e l hl hi hpc hne
    refine refused_unchanged hl hi ?_
    simp [Call.isUntouchedRedeem, hpc, RedeemPc.isUntouched, hne]

def newRedeem (code : String) (userId : Int) : Call :=
  .redeem ⟨code, .ofInt userId, .empty, .findByCode⟩

def redeemRace : List Act :=
  race ++ [.start (newRedeem "AAAAAAAAAAAA" 1), .start (newRedeem "AAAAAAAAAAAA" 1)]
    ++ [2, 3, 2, 2, 3].map (.step · (okAt 6))
    ++ [.start (newRedeem "aaaaaaaaaaaa" 1), .step 4 (okAt 9), .step 4 (okAt 9)]

def Call.repliesWith (newlyRedeemed : Bool) (redeemedAt : Int) : Call → Bool
  | redeem r =>
    match r.pc with
    | .returned result => result.newlyRedeemed == newlyRedeemed && result.redeemedAt == redeemedAt
    | _ => false
  | _ => false

def Call.isRefused : Call → Bool
  | redeem r =>
    match r.pc with
    | .thrown e => e != .queryFailed
    | _ => false
  | _ => false

theorem redeemed_once_race
    : ∃ t, (calls 1).machine.Run (fun _ _ => True) (init lastCoupon) t
        ∧ (t.calls[2]?.any (·.repliesWith true 6)) = true
        ∧ (t.calls[3]?.any (·.isRefused)) = true
        ∧ (t.calls[4]?.any (·.repliesWith false 6)) = true
        ∧ RedeemedOnce (init lastCoupon) t := by
  obtain ⟨t, hrun, ht⟩ := Machine.exists_run_of_exec (calls 1).machine (fun _ _ => true)
    (fun _ _ => True) (fun _ _ _ => trivial) redeemRace (init lastCoupon)
    (fun t => t.calls[2]?.any (·.repliesWith true 6) && t.calls[3]?.any (·.isRefused)
      && t.calls[4]?.any (·.repliesWith false 6))
    (by decide)
  simp only [Bool.and_eq_true] at ht
  exact ⟨t, hrun, ht.1.1, ht.1.2, ht.2,
    (redeemed_once lastCoupon_wf (by simp [lastCoupon]) .refl hrun).1⟩

end Run

end ServerC
