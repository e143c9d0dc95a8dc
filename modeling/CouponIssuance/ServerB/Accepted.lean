import CouponIssuance.ServerB.Lemmas.Acceptance

/-!
This module contains the promise of `ACCEPTED`: an application is accepted once for each hash, and
it is never lost before that hash expires.
-/

namespace ServerB

open Concurrency

/--
Between two calls that answer `ACCEPTED` for a pair its hash has expired, and an accepted pair is
concluded or waiting as long as the hash of its call lives.
-/
structure AcceptedKept (s : State) : Prop where
  unique : ∀ (i j : Nat) a b, i ≠ j → s.calls[i]? = some (.accept a) → s.calls[j]? = some (.accept b)
    → a.isAccepted = true → b.isAccepted = true → a.pair = b.pair
    → ∃ m n, a.generation = some m ∧ b.generation = some n ∧ m ≠ n
  kept : ∀ (i : Nat) a, s.calls[i]? = some (.accept a) → a.isAccepted = true
    → a.Owns s.shared.redis → Concluded s.shared.redis a.pair ∨ Waiting s.shared.redis a.pair

def writtenBy : AcceptPc → Bool
  | .publish | .returned _ => true
  | _ => false

theorem covers_undisturbed {ok : State → Act → Prop} (h : ∀ s a, ok s a → undisturbed s a = true)
    : Covers writtenBy ok where
  save _ := rfl
  publish := rfl
  quiet := h
  cut _ _ _ _ _ _ _ _ _ _ _ _ := ⟨rfl, rfl⟩

theorem Accept.isAccepted_spec {a : Accept} (h : a.isAccepted = true)
    : writtenBy a.pc = true ∧ a.hasClaimed = true := by
  unfold isAccepted at h
  split at h
  . next hpc => simp [writtenBy, hasClaimed, hpc, h]
  . contradiction

theorem Accept.Inv.outcome {settled : AcceptPc → Bool} {redis : Redis} {a : Accept}
    (h : a.Inv settled redis) (hsettled : settled a.pc = true) (howns : a.Owns redis)
    : Concluded redis a.pair ∨ Waiting redis a.pair := by
  have hfilled := h.filled (Or.inr (Or.inr hsettled)) howns
  obtain ⟨status, hstatus⟩ := hfilled.status
  by_cases hpending : status = .pending
  . subst hpending
    exact Or.inr ⟨hstatus, hfilled.requestId, hfilled.eventId, hfilled.createdAt,
      h.listed hsettled howns hstatus⟩
  . exact Or.inl ⟨status, hpending, hstatus⟩

section Run

variable {config : Config} {clock : Nat} {s : State}

/--
Without the two races every accepted application is unique and kept.
-/
theorem accepted_kept
    (hrun : (calls config).machine.Run (fun s a => undisturbed s a = true) (init clock) s)
    : AcceptedKept s := by
  have h := acceptOutline (covers_undisturbed (fun _ _ h => h)) hrun
  constructor
  . intro i j a b hij ha hb hacc hacc' hp
    have hclaimed := ((h.calls i _ ha).2 a rfl).generated (Accept.isAccepted_spec hacc).2
    have hclaimed' := ((h.calls j _ hb).2 b rfl).generated (Accept.isAccepted_spec hacc').2
    obtain ⟨m, hm⟩ := Option.ne_none_iff_exists'.mp hclaimed
    obtain ⟨n, hn⟩ := Option.ne_none_iff_exists'.mp hclaimed'
    refine ⟨m, n, hm, hn, ?_⟩
    rintro rfl
    exact (h.apart i j _ _ hij ha hb).1.generation a b rfl rfl hp hclaimed (hm.trans hn.symm)
  . intro i a ha hacc howns
    exact ((h.calls i _ ha).2 a rfl).outcome (Accept.isAccepted_spec hacc).1 howns

def defaults : Config where
  cutoffSeconds := 10
  batchSize := 50
  maxPublishAttempts := 3
  maxDeliveryAttempts := 10

def application (requestId : String) (createdAt : Nat) : Save where
  requestId := requestId
  userId := .ofInt 1
  eventId := .ofInt 10
  couponTypeId := .ofInt 20
  createdAt := createdAt

def newAccept (save : Save) : Call :=
  .accept ⟨save, none, .save .hsetnx⟩

def newSweep (cutoffMs : Int) : Call :=
  .sweep ⟨cutoffMs, .zrangebyscore⟩

def finish (i : Nat) : List Act :=
  List.replicate 5 (.step i .ok)

def reapplied : List Act :=
  [.start (newAccept (application "a" 0))] ++ finish 0
    ++ [.env (.tick 86400000), .env (.expire (.ofInt 1) (.ofInt 20)),
      .start (newAccept (application "b" 86400000))]
    ++ finish 1

theorem accepted_kept_reapplied
    : ∃ s, (calls defaults).machine.Run (fun s a => undisturbed s a = true) (init 0) s
        ∧ (s.calls.countP fun c => match c with | .accept a => a.isAccepted | _ => false) = 2
        ∧ AcceptedKept s := by
  obtain ⟨s, hrun, hs⟩ := Machine.exists_run_of_exec (calls defaults).machine undisturbed
    (fun s a => undisturbed s a = true) (fun _ _ h => h) reapplied (init 0)
    (fun s => s.calls.countP (fun c => match c with | .accept a => a.isAccepted | _ => false) == 2)
    (by decide +kernel)
  exact ⟨s, hrun, beq_iff_eq.mp hs, accepted_kept hrun⟩

def orphaned : List Act :=
  [.start (newAccept (application "a" 0))] ++ finish 0
    ++ [.env (.tick 86400000), .env (.expire (.ofInt 1) (.ofInt 20)),
      .start (newSweep 86390000), .step 1 .ok, .step 1 .ok,
      .start (newAccept (application "b" 86400000))]
    ++ finish 2 ++ [.step 1 .ok]

def isLost (s : State) (i : Nat) : Bool :=
  match s.calls[i]? with
  | some (.accept a) =>
    a.isAccepted && a.generation == some (s.shared.redis.evictions a.pair.hashKey)
      && s.shared.redis.get a.pair.hashKey .status == some IssuePendingStatus.pending.text
      && (s.shared.redis.zset.score a.pair.member).isNone
  | _ => false

theorem not_acceptedKept_of_isLost {i : Nat} (h : isLost s i = true) : ¬AcceptedKept s := by
  intro hkept
  unfold isLost at h
  split at h
  . next a ha =>
    simp only [Bool.and_eq_true, beq_iff_eq, Option.isNone_iff_eq_none] at h
    obtain ⟨⟨⟨haccepted, howns⟩, hpending⟩, hscore⟩ := h
    rcases hkept.kept i a ha haccepted howns with ⟨status, hne, hstatus⟩ | hwaiting
    . rw [hpending] at hstatus
      exact hne (IssuePendingStatus.text_injective (Option.some.inj hstatus)).symm
    . have := hwaiting.listed
      rw [hscore] at this
      contradiction
  . contradiction

theorem accepted_orphaned
    : ¬∀ (config : Config) (clock : Nat) (s : State),
        (calls config).machine.Run (fun _ _ => True) (init clock) s → AcceptedKept s := by
  intro h
  obtain ⟨s, hrun, hs⟩ := Machine.exists_run_of_exec (calls defaults).machine (fun _ _ => true)
    (fun _ _ => True) (fun _ _ _ => trivial) orphaned (init 0) (isLost · 2) (by decide +kernel)
  exact not_acceptedKept_of_isLost hs (h defaults 0 s hrun)

end Run

end ServerB
