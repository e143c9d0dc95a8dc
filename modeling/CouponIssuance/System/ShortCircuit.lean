import CouponIssuance.Js.Split
import CouponIssuance.ServerA.Issue
import CouponIssuance.ServerC.Depleted

/-!
This module contains server-a and server-c around the sold-out cache: server-c writes a key after it
has read an empty stock, and server-a denies a coupon as long as the key exists.
-/

namespace System.ShortCircuit

open Concurrency

/-- The calls of server-a. What server-c does in between is their environment. -/
def issues (batchSize : Nat) : Calls ServerC.State ServerA.Issue ServerA.Input ServerC.Act where
  start _ _ i :=
    match i.pc with
    | .isSoldOut => true
    | _ => false
  waits _ _ _ := false
  step σ i x := (i.step σ.shared.available x).map fun i' => (σ, i')
  env := (ServerC.calls batchSize).next

abbrev State := Calls.State ServerC.State ServerA.Issue

abbrev Act := Calls.Act ServerA.Issue ServerA.Input ServerC.Act

def init (db : ServerC.Db) : State where
  shared := ServerC.init db
  calls := []

section Keys

variable {e t e' t' : JsNumber}

theorem toList_couponAvailable (e t : JsNumber)
    : (ServerA.RedisKeys.couponAvailable e t).toList
        = "coupon:available:".toList ++ (e.render ++ ':' :: t.render) := by
  unfold ServerA.RedisKeys.couponAvailable
  rw [String.append_assoc, String.append_assoc, String.toList_append, String.toList_append,
    String.toList_append, JsNumber.toList_toString, JsNumber.toList_toString]
  rfl

theorem couponAvailable_injective
    : ServerC.couponAvailableKey e t = ServerA.RedisKeys.couponAvailable e' t'
        ↔ e = e' ∧ t = t' := by
  constructor
  . intro h
    have hlist := congrArg String.toList
      (show ServerA.RedisKeys.couponAvailable e t = ServerA.RedisKeys.couponAvailable e' t' from h)
    rw [toList_couponAvailable, toList_couponAvailable] at hlist
    obtain ⟨he, ht⟩ := Js.pair_injective e.colon_notMem_render t.colon_notMem_render
      e'.colon_notMem_render t'.colon_notMem_render (List.append_cancel_left hlist)
    exact ⟨JsNumber.render_injective he, JsNumber.render_injective ht⟩
  . rintro ⟨rfl, rfl⟩
    rfl

end Keys

section Run

variable {batchSize : Nat} {ok : State → Act → Prop} {db : ServerC.Db} {s t : State}

theorem serverC_run (h : (issues batchSize).machine.Run ok s t)
    : (ServerC.calls batchSize).machine.Run (fun _ _ => True) s.shared t.shared := by
  apply h.simulate
  intro u a v _ hnext
  cases a with
  | start i =>
    obtain ⟨_, rfl⟩ := Calls.next_start hnext
    exact .refl
  | step i x =>
    obtain ⟨f, shared, f', _, _, hstep, rfl⟩ := Calls.next_step hnext
    obtain ⟨_, _, heq⟩ := Option.map_eq_some_iff.mp hstep
    cases heq
    exact .refl
  | env a =>
    obtain ⟨shared, henv, rfl⟩ := Calls.next_env (C := issues batchSize) hnext
    exact .single trivial henv

def DeniesDepleted (σ : ServerC.State) (i : ServerA.Issue) : Prop :=
  ∀ request, i.pc = .saveSoldOut request
    → σ.shared.db.isDepleted i.command.eventId i.command.couponTypeId = true

theorem deniesDepleted (hwf : db.Wf) (hrun : (issues batchSize).machine.Run ok (init db) s)
    : ∀ i ∈ s.calls, DeniesDepleted s.shared i := by
  refine Calls.forall_calls (J := DeniesDepleted) hrun
    (K := fun u => (issues batchSize).machine.Run ok (init db) u) (fun _ hu => hu)
    (by simp [init]) ?_ ?_ ?_
  . intro u i _ _ hstart request hpc
    simp only [issues, hpc] at hstart
    contradiction
  . intro u j x i σ' i' hu _ _ _ hstep request hpc
    obtain ⟨_, hstep', heq⟩ := Option.map_eq_some_iff.mp hstep
    cases heq
    obtain ⟨hcommand, hmem⟩ := ServerA.Issue.contains_of_step hstep' hpc
    obtain ⟨e, t, hkey, hdepleted⟩ := ServerC.available_isDepleted hwf (serverC_run hu) _ hmem
    obtain ⟨rfl, rfl⟩ := couponAvailable_injective.mp hkey.symm
    rw [hcommand]
    exact hdepleted
  . intro u a v i hu hok hnext hdenies request hpc
    exact (ServerC.depleted_final hwf (serverC_run hu) (serverC_run (.single hok hnext))
      (hdenies request hpc)).1

/--
A key of the sold-out cache, and a call that is short-circuited, name a stock that is empty for good.
-/
theorem short_circuit_sound (hwf : db.Wf)
    (hs : (issues batchSize).machine.Run (fun _ _ => True) (init db) s)
    (ht : (issues batchSize).machine.Run (fun _ _ => True) s t)
    : (∀ e c, ServerC.couponAvailableKey e c ∈ s.shared.shared.available
        → ServerC.Exhausted e c s.shared.shared.db t.shared.shared.db)
      ∧ (∀ i ∈ s.calls, ∀ request, i.pc = .saveSoldOut request
        → ServerC.Exhausted i.command.eventId i.command.couponTypeId s.shared.shared.db
            t.shared.shared.db)
      ∧ (∀ e c e' c', ServerC.couponAvailableKey e c = ServerA.RedisKeys.couponAvailable e' c'
        ↔ e = e' ∧ c = c') := by
  refine ⟨?_, ?_, fun _ _ _ _ => couponAvailable_injective⟩
  . intro e c hkey
    obtain ⟨e', c', heq, hdepleted⟩ := ServerC.available_isDepleted hwf (serverC_run hs) _ hkey
    obtain ⟨rfl, rfl⟩ := couponAvailable_injective.mp heq
    exact ServerC.exhausted_of_isDepleted hwf (serverC_run hs) (serverC_run ht) hdepleted
  . intro i hi request hpc
    exact ServerC.exhausted_of_isDepleted hwf (serverC_run hs) (serverC_run ht)
      (deniesDepleted hwf hs i hi request hpc)

def sellOut : List ServerC.Act :=
  ServerC.race ++ [0, 0].map (.step · (ServerC.okAt 6))

def denied : List Act :=
  sellOut.map .env
    ++ [.start ⟨⟨.ofInt 3, .ofInt 10, .ofInt 20⟩, .isSoldOut⟩, .step 0 (.ok "r" 7 0)]

def lateApplication : List ServerC.Act :=
  [.start (ServerC.newProcess (ServerC.issueRequest "c" 4))]
    ++ [1, 2, 2, 2, 2, 2, 2].map (.step · (ServerC.okAt 8))

def late : List Act :=
  lateApplication.map .env

def isDenied (s : State) : Bool :=
  s.calls.any fun i =>
    match i.pc with
    | .saveSoldOut _ => i.command.eventId == .ofInt 10 && i.command.couponTypeId == .ofInt 20
    | _ => false

theorem short_circuit_sound_late
    : ∃ s t, (issues 1).machine.Run (fun _ _ => True) (init ServerC.lastCoupon) s
        ∧ (issues 1).machine.Run (fun _ _ => True) s t
        ∧ s.shared.shared.db.coupons.length = 2
        ∧ t.shared.shared.db.coupons.length = 3
        ∧ ServerC.Exhausted (.ofInt 10) (.ofInt 20) s.shared.shared.db t.shared.shared.db := by
  obtain ⟨s, hs, hp⟩ := Machine.exists_run_of_exec (issues 1).machine (fun _ _ => true)
    (fun _ _ => True) (fun _ _ _ => trivial) denied (init ServerC.lastCoupon)
    (fun s => isDenied s && s.shared.shared.db.coupons.length == 2
      && ((issues 1).machine.exec (fun _ _ => true) s late).any
        fun t => t.shared.shared.db.coupons.length == 3)
    (by decide +kernel)
  simp only [Bool.and_eq_true, beq_iff_eq] at hp
  obtain ⟨⟨hdenied, hlength⟩, hlate⟩ := hp
  obtain ⟨t, ht, hlength'⟩ := Machine.exists_run_of_exec (issues 1).machine (fun _ _ => true)
    (fun _ _ => True) (fun _ _ _ => trivial) late s _ hlate
  refine ⟨s, t, hs, ht, hlength, beq_iff_eq.mp hlength', ?_⟩
  obtain ⟨i, hi, hpc⟩ := List.any_eq_true.mp hdenied
  split at hpc
  . next request hrequest =>
    simp only [Bool.and_eq_true, beq_iff_eq] at hpc
    rw [← hpc.1, ← hpc.2]
    exact (short_circuit_sound ServerC.lastCoupon_wf hs ht).2.1 i hi request hrequest
  . contradiction

end Run

end System.ShortCircuit
