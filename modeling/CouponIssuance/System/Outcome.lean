import CouponIssuance.ServerC.Lemmas.Moves
import CouponIssuance.System.Truth

/-!
This module contains the outcome that server-b keeps of an application, compared with the coupon of
server-c when both services have come to rest.
-/

namespace System.Services

open Concurrency ServerB Redis.Server

def hasRecorded (p : Pair) : Call → Bool
  | .deliver d =>
    (Deliver.parse d.value).any (fun payload =>
        (payload.userId, payload.couponTypeId) == p && payload.status != .failed)
      && match d.pc with
        | .markResult _ _ mark => mark.pc != .hsetStatus
        | .returned => true
        | .crashed => false
  | _ => false

/-- Is the scheduler about to write `FAILED` over a result that has been recorded? -/
def overwrites (s : State) (c : Call) : Bool :=
  givesUp c && c.mark?.any fun m => m.pc == .hsetStatus && s.calls.any (hasRecorded m.pair)

def delivers (c : Call) (x : Input) : Bool :=
  match c, x with
  | .deliver _, .ok => true
  | .deliver _, _ => false
  | _, _ => true

/--
The deliveries succeed, and no application is given up after its result has been recorded.
-/
def timely (s : State) : Act → Bool
  | .step i x => s.calls[i]?.all fun c => delivers c x && !(x.executes && overwrites s c)
  | _ => true

def isOver : Call → Bool
  | .accept a => !a.isRunning
  | .sweep s => !s.pc.isRunning
  | .deliver d =>
    match d.pc with
    | .markResult _ _ _ => false
    | _ => true

def isOverC : ServerC.Call → Bool
  | .process p => p.pc.isOver
  | .redeem r => !r.pc.isOpen
  | .poll pc => !pc.isRunning

def isConsumed (calls : List Call) (value : String) : Bool :=
  calls.any fun
    | .deliver d => d.value == value
    | _ => false

/--
Nothing is in progress, every result has been sent and consumed, and no application is waiting. A
request that has not been consumed is as good as lost.
-/
def isQuiescent (s : State) : Bool :=
  s.calls.all isOver
    && s.shared.c.calls.all isOverC
    && s.shared.c.shared.topic.all (fun m => isConsumed s.calls m.2)
    && s.shared.c.shared.db.outbox.all (·.status != .pending)
    && s.shared.b.redis.zset.entries.isEmpty

/--
A terminal status of the pair is the status of its coupon.
-/
def Agrees (s : State) (p : Pair) : Prop :=
  ∀ status : IssuePendingStatus, status ≠ .pending
    → s.shared.b.redis.get p.hashKey .status = some status.text
    → (status = .success ↔ ∃ row ∈ s.shared.c.shared.db.coupons, row.pair = p
          ∧ (row.status = .success ∨ row.status = .used))
      ∧ (status = .soldOut ↔ ∃ row ∈ s.shared.c.shared.db.coupons, row.pair = p
          ∧ row.status = .soldOut)
      ∧ (status = .failed → ∀ row ∈ s.shared.c.shared.db.coupons, row.pair = p
          → row.status = .failed)

section Recorded

variable {db : ServerC.Db} {config : Config} {σ σ' : ServerB.Shared} {c c' : Call} {x : Input}
variable {p : Pair} {q q' : ServerC.Issued → Prop}

theorem HasRow.and (hwf : db.Wf) (h : HasRow db p q) (h' : HasRow db p q')
    : HasRow db p fun i => q i ∧ q' i := by
  obtain ⟨row, hrow, hp, hq⟩ := hasRow_iff.mp h
  obtain ⟨row', hrow', hp', hq'⟩ := hasRow_iff.mp h'
  rw [ServerC.Db.eq_of_map_nodup hwf.pairs hrow' hrow (hp'.trans hp.symm)] at hq'
  exact hasRow_iff.mpr ⟨row, hrow, hp, hq, hq'⟩

theorem mapStatus_eq_failed {status : CouponIssueResultStatus}
    (h : Deliver.mapStatus status = .failed)
    : status = .failed := by
  cases status <;> first | rfl | contradiction

theorem hasRecorded_spec (h : hasRecorded p c = true)
    : ∃ d payload, c = .deliver d ∧ Deliver.parse d.value = some payload
        ∧ (payload.userId, payload.couponTypeId) = p ∧ payload.status ≠ .failed
        ∧ ∀ payload' n m, d.pc = .markResult payload' n m → m.pc ≠ .hsetStatus := by
  unfold hasRecorded at h
  split at h
  . next d =>
    obtain ⟨hpayload, hpc⟩ := Bool.and_eq_true_iff.mp h
    obtain ⟨payload, hparse, hp⟩ := (Option.any_eq_true ..).mp hpayload
    simp only [Bool.and_eq_true, beq_iff_eq, bne_iff_ne] at hp
    refine ⟨d, payload, rfl, hparse, hp.1, hp.2, ?_⟩
    intro payload' n m hmark
    rw [hmark] at hpc
    exact bne_iff_ne.mp hpc
  . contradiction

theorem hasRow_of_hasRecorded (hhonest : Honest db c) (h : hasRecorded p c = true)
    : HasRow db p fun i => Deliver.mapStatus i.status ≠ .failed := by
  obtain ⟨d, payload, rfl, hparse, rfl, hstatus, _⟩ := hasRecorded_spec h
  refine (hhonest.1 payload hparse).status.imp fun i hi => ?_
  rw [hi]
  exact fun hfailed => hstatus (mapStatus_eq_failed hfailed)

theorem hasRecorded_step (hhonest : Honest db c) (hdelivers : delivers c x = true)
    (hstep : c.step config σ x = some (σ', c')) (h : hasRecorded p c' = true)
    : hasRecorded p c = true
        ∨ ∃ (status : IssuePendingStatus), status ≠ .failed
            ∧ σ'.redis.get p.hashKey .status = some status.text := by
  obtain ⟨d', payload, rfl, hparse, hp, hstatus, hpast⟩ := hasRecorded_spec h
  cases c with
  | accept a => cases Call.step_spec hstep
  | sweep s =>
    obtain ⟨_, heq, _⟩ := Sweep.moves_of_step hstep
    contradiction
  | deliver d =>
    obtain ⟨pc, heq, hmoves⟩ := Deliver.moves_of_step hstep
    cases heq
    cases hmoves with
    | marked payload' n m reply hpc hexec =>
      obtain ⟨hparse', hpair, hmstatus, _⟩ := hhonest.2 payload' n m hpc
      obtain rfl : payload = payload' := Option.some.inj (hparse.symm.trans hparse')
      by_cases hset : m.pc = .hsetStatus
      . right
        refine ⟨m.status, ?_, ?_⟩
        . rw [hmstatus]
          exact fun hfailed => hstatus (mapStatus_eq_failed hfailed)
        . unfold Mark.command at hexec
          rw [hset] at hexec
          have hkey : p.hashKey = m.hashKey := by
            rw [← hp]
            exact congrArg Pair.hashKey hpair.symm
          rw [exec_hset hexec, hkey]
          exact get_setAll_of_mem _ (by simp) (by simp)
      . left
        simp only [hasRecorded]
        rw [show Deliver.parse d.value = some payload from hparse, hpc]
        simp [hp, hstatus, hset]
    | again executed payload' n m hpc => contradiction
    | crashed => contradiction

theorem hasRecorded_start {d : Deliver} {calls : List Call} (hconfig : 1 ≤ config.maxDeliveryAttempts)
    (hstart : (Call.deliver d).start config σ calls = true)
    : hasRecorded p (.deliver d) = false := by
  by_contra h
  obtain ⟨d', payload, heq, hparse, _, _, hpast⟩ := hasRecorded_spec (Bool.not_eq_false _ ▸ h)
  cases heq
  have hpc : d.pc = .markResult payload 1 (Deliver.mark payload) := by
    simp only [Call.start, beq_iff_eq] at hstart
    rw [hstart, Deliver.start, hparse]
    exact if_pos hconfig
  exact hpast _ _ _ hpc rfl

end Recorded

section Run

variable {config : Config} {batchSize clock : Nat} {db : ServerC.Db} {s t : State} {p : Pair}

abbrev TimelyRun (config : Config) (batchSize : Nat) (s t : State) : Prop :=
  (services config batchSize).machine.Run (fun s a => timely s a = true) s t

theorem delivers_of_timely {i : Nat} {x : Input} {c : Call} (h : timely s (.step i x) = true)
    (hi : s.calls[i]? = some c)
    : delivers c x = true ∧ (x.executes = true → overwrites s c = false) := by
  simp only [timely, hi, Option.all_some, Bool.and_eq_true, Bool.not_eq_true'] at h
  refine ⟨h.1, fun hx => ?_⟩
  rw [hx, Bool.true_and] at h
  exact h.2

theorem recorded_ne_failed (hwf : db.Wf) (hannounced : db.Announced)
    (hconfig : 1 ≤ config.maxDeliveryAttempts)
    (hrun : TimelyRun config batchSize (init db clock) s)
    : ∀ c ∈ s.calls, hasRecorded p c = true
        → s.shared.b.redis.get p.hashKey .status ≠ some IssuePendingStatus.failed.text := by
  refine hrun.invariant_of (K := fun u => TimelyRun config batchSize (init db clock) u)
    (I := fun u => ∀ c ∈ u.calls, hasRecorded p c = true
      → u.shared.b.redis.get p.hashKey .status ≠ some IssuePendingStatus.failed.text)
    (fun _ hu => hu) ?_ ?_
  . intro c hc
    contradiction
  . intro u a v hu _ h hok hnext d hd hrecorded
    cases a with
    | start c =>
      obtain ⟨hstart, rfl⟩ := Calls.next_start hnext
      rcases List.mem_append.mp hd with hd | hd
      . exact h d hd hrecorded
      . rw [List.mem_singleton.mp hd] at hrecorded
        obtain ⟨e, _, rfl, _⟩ := hasRecorded_spec hrecorded
        rw [hasRecorded_start hconfig (Bool.and_eq_true_iff.mp hstart).1] at hrecorded
        contradiction
    | step i x =>
      obtain ⟨c, shared, c', hi, _, hstep, rfl⟩ := Calls.next_step hnext
      obtain ⟨hdelivers, hoverwrites⟩ := delivers_of_timely hok hi
      have hstep := (step_spec hstep).1
      have hmem := List.mem_of_getElem? hi
      have hhonest := honest hwf hannounced hu
      -- a delivery that records its result now has just written it
      have hbefore : (∃ d ∈ u.calls, hasRecorded p d = true)
          ∨ ∃ status : IssuePendingStatus, status ≠ .failed
            ∧ shared.b.redis.get p.hashKey .status = some status.text := by
        rcases List.mem_or_eq_of_mem_set hd with hd | rfl
        . exact Or.inl ⟨d, hd, hrecorded⟩
        . rcases hasRecorded_step (hhonest c hmem) hdelivers hstep hrecorded with hold | hnew
          . exact Or.inl ⟨c, hmem, hold⟩
          . exact Or.inr hnew
      rcases hbefore with ⟨d, hd, hrecorded⟩ | ⟨status, hstatus, hwritten⟩
      . have hne := h d hd hrecorded
        have hsteps := Call.step_spec hstep
        by_cases hredis : shared.b.redis = u.shared.b.redis
        . rw [hredis]
          exact hne
        . have hoverwrites := hoverwrites (hsteps.executes hredis)
          obtain ⟨command, reply, hruns, hexec⟩ := hsteps.redis.resolve_left hredis
          rcases hruns.status hexec p with heq | ⟨_, _, _, _, hpending⟩ | ⟨m, hm, hp, hpc, hmarked⟩
          . exact fun hfailed => hne (heq.symm.trans hfailed)
          . rw [hpending]
            decide
          . rw [hmarked, ne_eq, Option.some.injEq]
            intro htext
            have hfailed := IssuePendingStatus.text_injective htext
            rcases (hhonest c hmem).mark hm with ⟨_, hgivesUp⟩ | hjustified
            . -- the scheduler does not give up once the result has been recorded
              have hany : u.calls.any (hasRecorded m.pair) = true :=
                List.any_eq_true.mpr ⟨d, hd, hp ▸ hrecorded⟩
              simp [overwrites, hgivesUp, hm, hpc, hany] at hoverwrites
            . have hwf' := (ServerC.outline hwf (serverC_run hu)).shared
              have hrow := hasRow_of_hasRecorded (hhonest d hd) hrecorded
              obtain ⟨_, _, _, hstatus, hne'⟩ := (hp ▸ hjustified.status).and hwf' hrow
              exact hne' (hstatus.trans hfailed)
      . rw [hwritten, ne_eq, Option.some.injEq]
        exact fun htext => hstatus (IssuePendingStatus.text_injective htext)
    | env e =>
      obtain ⟨shared, henv, rfl⟩ := Calls.next_env (C := services config batchSize) hnext
      have hne := h d hd hrecorded
      cases e with
      | serverB e =>
        obtain ⟨b, hb, rfl⟩ := Option.map_eq_some_iff.mp henv
        cases e with
        | tick ms =>
          obtain rfl := ServerB.env_tick hb
          exact hne
        | expire userId couponTypeId =>
          obtain ⟨redis, hevict, rfl⟩ := ServerB.env_expire hb
          obtain ⟨_, hget, _⟩ := evict_spec _ hevict
          dsimp only
          rw [hget]
          split
          . simp
          . exact hne
      | serverC a =>
        obtain ⟨_, _, rfl⟩ := Option.map_eq_some_iff.mp henv
        exact hne
      | findOne =>
        dsimp only
        rw [(findOne_spec henv).1]
        exact hne

theorem not_crashed (hrun : TimelyRun config batchSize (init db clock) s)
    : ∀ c ∈ s.calls, ∀ d, c = .deliver d → d.pc ≠ .crashed := by
  refine Calls.forall_calls (J := fun _ c => ∀ d, c = .deliver d → d.pc ≠ .crashed) hrun
    (K := fun _ => True) (fun _ _ => trivial) (by simp [init]) ?_ ?_ ?_
  . rintro u _ _ _ hstart d rfl
    have hpc := (Bool.and_eq_true_iff.mp hstart).1
    simp only [Call.start, beq_iff_eq] at hpc
    rw [hpc, Deliver.start]
    split
    . simp
    . next payload _ => rcases Deliver.attempt_cases config payload 1 with heq | heq <;> simp [heq]
  . rintro u i x c σ' _ _ hok hi hne hstep d rfl
    obtain ⟨hdelivers, _⟩ := delivers_of_timely hok hi
    have hstep := (step_spec hstep).1
    cases c with
    | accept a => cases Call.step_spec hstep
    | sweep s =>
      obtain ⟨_, heq, _⟩ := Sweep.moves_of_step hstep
      contradiction
    | deliver e =>
      obtain ⟨pc, heq, hmoves⟩ := Deliver.moves_of_step hstep
      cases heq
      cases hmoves with
      | marked payload n m reply hpc hexec =>
        simp only [Deliver.afterMark]
        split <;> simp
      | again executed payload n m hpc => contradiction
      | crashed => contradiction
  . intro u a v c _ _ _ hne
    exact hne

theorem recorded_of_isQuiescent {row : ServerC.UserCoupon} (hwf : db.Wf) (hcoupons : db.coupons = [])
    (houtbox : db.outbox = []) (hrun : TimelyRun config batchSize (init db clock) s)
    (hquiescent : isQuiescent s = true) (hrow : row ∈ s.shared.c.shared.db.coupons)
    (hstatus : row.status ≠ .failed)
    : ∃ c ∈ s.calls, hasRecorded row.pair c = true := by
  have hrunC := serverC_run hrun
  have htransactional := ServerC.transactional hwf hcoupons houtbox hrunC
  have hwf' := (ServerC.outline hwf hrunC).shared
  simp only [isQuiescent, Bool.and_eq_true, List.all_eq_true, bne_iff_ne] at hquiescent
  obtain ⟨⟨⟨⟨hover, _⟩, hconsumed⟩, hpublished⟩, _⟩ := hquiescent
  obtain ⟨o, ho, hannounced⟩ := ServerC.Db.Announced.exists_record htransactional.announced hrow
  have hsent := (htransactional.sent o ho).resolve_left (hpublished o ho)
  obtain ⟨c, hc, hvalue⟩ := List.any_eq_true.mp (hconsumed _ hsent)
  refine ⟨c, hc, ?_⟩
  split at hvalue
  . next d =>
    have hvalue : d.value = o.payload := beq_iff_eq.mp hvalue
    obtain ⟨processedAt, hparse⟩ := parse_of_announcedBy hwf' hrow hannounced
    have hreturned : d.pc = .returned := by
      have hover := hover _ hc
      have hne := not_crashed hrun _ hc d rfl
      unfold isOver at hover
      split at hover
      . contradiction
      . contradiction
      . next heq =>
        cases heq
        cases hpc : d.pc with
        | markResult payload n m => simp [hpc] at hover
        | returned => rfl
        | crashed => exact absurd hpc hne
    have hissued : row.issued.status ≠ .failed := by
      intro hfailed
      apply hstatus
      cases hrowStatus : row.status with
      | failed => rfl
      | _ => simp [ServerC.UserCoupon.issued, ServerC.UserCouponStatus.issued, hrowStatus] at hfailed
    simp only [hasRecorded, hvalue, hparse, hreturned, Option.any_some, Bool.and_true,
      Bool.and_eq_true, beq_iff_eq, bne_iff_ne]
    exact ⟨rfl, hissued⟩
  . contradiction

/--
As long as no application is given up after its result has been recorded, server-b agrees with
server-c when both have come to rest.
-/
theorem outcome_agrees (hwf : db.Wf) (hcoupons : db.coupons = []) (houtbox : db.outbox = [])
    (hconfig : 1 ≤ config.maxDeliveryAttempts)
    (hrun : TimelyRun config batchSize (init db clock) s) (hquiescent : isQuiescent s = true)
    (p : Pair)
    : Agrees s p := by
  have hannounced : db.Announced := by
    unfold ServerC.Db.Announced
    rw [hcoupons, houtbox]
    exact .nil
  have hwf' := (ServerC.outline hwf (serverC_run hrun)).shared
  have htruthful := truthful hwf hannounced hrun p
  intro status hpending hget
  have hfailed : status = .failed → ∀ row ∈ s.shared.c.shared.db.coupons, row.pair = p
      → row.status = .failed := by
    rintro rfl row hrow rfl
    by_contra hstatus
    obtain ⟨c, hc, hrecorded⟩ :=
      recorded_of_isQuiescent hwf hcoupons houtbox hrun hquiescent hrow hstatus
    exact recorded_ne_failed hwf hannounced hconfig hrun c hc hrecorded hget
  -- a status that is not `FAILED` is the status of the coupon of the pair
  have hdecided : ∀ row ∈ s.shared.c.shared.db.coupons, row.pair = p → row.status ≠ .failed
      → status = recoveredStatus row.status := by
    intro row hrow hp hstatus
    have hne : status ≠ .failed := fun h => hstatus (hfailed h row hrow hp)
    obtain ⟨row', hrow', hp', hissued⟩ := hasRow_iff.mp
      (((htruthful.status status hget).resolve_left hpending).resolve_left hne)
    rw [ServerC.Db.eq_of_map_nodup hwf'.pairs hrow' hrow (hp'.trans hp.symm)] at hissued
    exact hissued.symm.trans (mapStatus_issued _)
  have hexists : status ≠ .failed → ∃ row ∈ s.shared.c.shared.db.coupons, row.pair = p
      ∧ recoveredStatus row.status = status := by
    intro hne
    obtain ⟨row, hrow, hp, hissued⟩ := hasRow_iff.mp
      (((htruthful.status status hget).resolve_left hpending).resolve_left hne)
    exact ⟨row, hrow, hp, (mapStatus_issued _).symm.trans hissued⟩
  refine ⟨?_, ?_, hfailed⟩
  . constructor
    . rintro rfl
      obtain ⟨row, hrow, hp, hrecovered⟩ := hexists (by decide)
      refine ⟨row, hrow, hp, ?_⟩
      cases hstatus : row.status <;> simp [recoveredStatus, hstatus] at hrecovered ⊢
    . rintro ⟨row, hrow, hp, hstatus⟩
      rw [hdecided row hrow hp (by rcases hstatus with h | h <;> simp [h])]
      rcases hstatus with h | h <;> rw [h] <;> rfl
  . constructor
    . rintro rfl
      obtain ⟨row, hrow, hp, hrecovered⟩ := hexists (by decide)
      refine ⟨row, hrow, hp, ?_⟩
      cases hstatus : row.status <;> simp [recoveredStatus, hstatus] at hrecovered ⊢
    . rintro ⟨row, hrow, hp, hstatus⟩
      rw [hdecided row hrow hp (by simp [hstatus]), hstatus]
      rfl

/-- Every call of Redis, of the database and of server-c succeeds, and only what was sent is processed. -/
def succeeds (s : State) : Act → Bool
  | .step _ x =>
    match x with
    | .ok | .answer _ => true
    | _ => false
  | .env (.serverC (.start (.process p))) =>
    s.shared.b.topic.any fun m => m.2 == Js.Json.stringify p.request.fields
  | .env (.serverC (.step _ x)) =>
    match x with
    | .ok _ _ => true
    | _ => false
  | _ => true

def requestsConsumed (s : State) : Bool :=
  s.shared.b.topic.all fun m => s.shared.c.calls.any fun
    | .process p => Js.Json.stringify p.request.fields == m.2
    | _ => false

def unknown (i : Nat) (cutoffMs : Int) : List Act :=
  [.env (.serverB (.tick 10000)), .start (newSweep cutoffMs), .step i .ok, .step i .ok,
    .env .findOne, .step i (.answer none)]

def expired : List Act :=
  .start (newAccept (application "a" 0)) :: steps 0 5 ++ unknown 1 0 ++ steps 1 5
    ++ unknown 2 10000 ++ steps 2 5 ++ unknown 3 20000

def request : CouponIssueRequestPayload :=
  { ServerC.issueRequest "a" 1 with requestedAt := "1970-01-01T00:00:00Z" }

def processed : List ServerC.Act :=
  List.replicate 3 (.start (ServerC.newProcess request))
    ++ [0, 0, 0, 0, 0, 0, 0, 0, 0, 1, 1, 2, 2].map (.step · (ServerC.okAt 5))
    ++ [.start (.poll .findPending), .step 3 (ServerC.okAt 6), .step 3 (ServerC.okAt 6),
      .step 3 (ServerC.okAt 7)]

def result (i : Nat) : List Act :=
  processed.map (.env <| .serverC ·)
    ++ .start (.deliver ⟨announcement, Deliver.start defaults announcement⟩) :: steps i 4

def restsWith (status : IssuePendingStatus) (s : State) : Bool :=
  isQuiescent s && requestsConsumed s
    && s.shared.b.redis.get (Pair.hashKey (application "a" 0).pair) .status == some status.text
    && s.shared.c.shared.db.coupons.any fun row =>
      row.pair == (application "a" 0).pair && row.status == .success

def impatient : Config :=
  { defaults with maxPublishAttempts := 1 }

def late : List Act :=
  .start (newAccept (application "a" 0)) :: steps 0 5 ++ unknown 1 0 ++ steps 1 3 ++ result 2

def premature : List Act :=
  expired ++ result 4 ++ steps 3 3

theorem rests_late_premature
    : ((services impatient 1).machine.exec timely (init ServerC.lastCoupon 0) late).any
          (restsWith .success) = true
        ∧ ((services defaults 1).machine.exec succeeds (init ServerC.lastCoupon 0) premature).any
          (restsWith .failed) = true := by
  have hstart := start_announcement defaults (by decide)
  constructor
  . simp only [late, result, hstart, Machine.exec_append,
      exec_start (start_announcement impatient (by decide))]
    decide +kernel
  . simp only [premature, result, hstart, Machine.exec_append, exec_start hstart]
    decide +kernel

/--
The application is given up before its coupon is issued, and the result puts that right.
-/
theorem outcome_agrees_late
    : ∃ s, TimelyRun impatient 1 (init ServerC.lastCoupon 0) s
        ∧ restsWith .success s = true
        ∧ Agrees s (application "a" 0).pair := by
  obtain ⟨s, hrun, hs⟩ := Machine.exists_run_of_exec (services impatient 1).machine timely
    (fun s a => timely s a = true) (fun _ _ h => h)
    late (init ServerC.lastCoupon 0) (restsWith .success) rests_late_premature.1
  have hquiescent := hs
  simp only [restsWith, Bool.and_eq_true] at hquiescent
  exact ⟨s, hrun, hs, outcome_agrees ServerC.lastCoupon_wf rfl rfl (by decide) hrun
    hquiescent.1.1.1 _⟩

/--
The scheduler has asked before the coupon is issued, and writes `FAILED` after its result has been
recorded.
-/
theorem outcome_differs
    : ¬∀ (config : Config) (batchSize clock : Nat) (db : ServerC.Db) (s : State) (p : Pair),
        db.Wf → db.coupons = [] → db.outbox = [] → 1 ≤ config.maxDeliveryAttempts
          → (services config batchSize).machine.Run (fun s a => succeeds s a = true)
            (init db clock) s
          → isQuiescent s = true → requestsConsumed s = true → Agrees s p := by
  intro h
  obtain ⟨s, hrun, hs⟩ := Machine.exists_run_of_exec (services defaults 1).machine succeeds
    (fun s a => succeeds s a = true) (fun _ _ h => h) premature (init ServerC.lastCoupon 0)
    (restsWith .failed) rests_late_premature.2
  simp only [restsWith, Bool.and_eq_true, beq_iff_eq] at hs
  obtain ⟨⟨⟨hquiescent, hconsumed⟩, hstatus⟩, hissued⟩ := hs
  obtain ⟨row, hrow, hissued⟩ := List.any_eq_true.mp hissued
  simp only [Bool.and_eq_true, beq_iff_eq] at hissued
  have hagrees := h defaults 1 0 ServerC.lastCoupon s (application "a" 0).pair ServerC.lastCoupon_wf
    rfl rfl (by decide) hrun hquiescent hconsumed
  have hfailed := (hagrees .failed (by decide) hstatus).2.2 rfl row hrow hissued.1
  rw [hissued.2] at hfailed
  contradiction

end Run

end System.Services
