import CouponIssuance.ServerB.Lemmas.Sweep
import CouponIssuance.ServerB.Scheduler

/-!
This module contains the proof that a sweep of the machine, when it is not disturbed, does what the
scheduler is written to do, whatever its calls throw.
-/

namespace ServerB

open Concurrency Js

def Outcome.input : Outcome → Input
  | value => .ok
  | exception executed => .fail executed

namespace Scheduler

def input (search : Search) (visits : Pair → Visit) : SweepPc → Input
  | .zrangebyscore => search.zrangebyscore.input
  | .hgetall _ _ member _ _ => (search.hgetall member).input
  | .zrem member _ _ => (search.zrem member).input
  | .lookup pending _ =>
    match (visits pending.pair).lookup with
    | some result => .answer result
    | none => .fail false
  | .markResult mark _ _ => ((visits mark.pair).markResult mark.pc).input
  | .recordRepublish _ republish _ =>
    ((visits republish.pair).recordRepublish republish.pc).input
  | .publishForScheduler payload _ =>
    (visits (payload.userId, payload.couponTypeId)).publishForScheduler.input
  | .finished | .crashed => .ok

/-- Only sweep `i` goes on, and its calls end as it is said. -/
def Undisturbed (search : Search) (visits : Pair → Visit) (i : Nat) (s : State)
    (act : ServerB.Act) : Prop :=
  ∃ sweep, s.calls[i]? = some (.sweep sweep) ∧ act = .step i (input search visits sweep.pc)

def At (cutoffMs : Int) (now i : Nat) (σ : Shared) (pc : SweepPc) (s : State) : Prop :=
  s.calls[i]? = some (.sweep ⟨cutoffMs, pc⟩) ∧ s.shared = (Call.proceed σ (.sweep ⟨cutoffMs, pc⟩)).1
    ∧ σ.clock = now

section Cycle

variable {config : Config} {search : Search} {visits : Pair → Visit} {cutoffMs : Int} {now i : Nat}

abbrev Does (config : Config) (search : Search) (visits : Pair → Visit) (cutoffMs : Int)
    (now i : Nat) (pc : SweepPc) (flow : Flow α) (next : Except Unit α → SweepPc) : Prop :=
  (calls config).machine.Implements (Undisturbed search visits i) (At cutoffMs now i) pc flow next

theorem At.step {σ τ : Shared} {pc pc' : SweepPc} {s : State} (h : At cutoffMs now i σ pc s)
    (hstep : (Call.sweep ⟨cutoffMs, pc⟩).step config (Call.proceed σ (.sweep ⟨cutoffMs, pc⟩)).1
        (input search visits pc)
      = some (Call.proceed τ (.sweep ⟨cutoffMs, pc'⟩)))
    (hclock : τ.clock = σ.clock)
    : ∃ t, (calls config).machine.Run (Undisturbed search visits i) s t
        ∧ At cutoffMs now i τ pc' t := by
  obtain ⟨hcall, hshared, hnow⟩ := h
  let c' := Call.sweep ⟨cutoffMs, pc'⟩
  have hwaits : (s.calls.eraseIdx i).any ((calls config).waits (.sweep ⟨cutoffMs, pc⟩)
      (input search visits pc)) = false := by
    simp [calls]
  have hstep : (calls config).step s.shared (.sweep ⟨cutoffMs, pc⟩) (input search visits pc)
      = some (Call.proceed τ c') := by
    rw [hshared]
    exact hstep
  have hnext : (calls config).machine.step s (.step i (input search visits pc))
      = some ⟨(Call.proceed τ c').1, s.calls.set i c'⟩ := by
    simp [Calls.machine, Calls.next, hcall, hwaits, hstep, Call.proceed]
  refine ⟨_, Machine.Run.single ⟨_, hcall, rfl⟩ hnext, ?_, rfl, hclock.trans hnow⟩
  exact List.getElem?_set_self (List.getElem?_eq_some_iff.mp hcall).1

theorem clock_command (c : Command) (outcome : Outcome) (σ : Shared)
    : ((command c outcome).exec σ).2.clock = σ.clock := by
  cases outcome with
  | value =>
    rw [exec_command_value]
    rcases σ.redis.exec c with _ | ⟨redis, reply⟩ <;> rfl
  | exception executed =>
    rw [exec_command_exception]
    cases executed with
    | true => exact (history_execute c).2
    | false => rfl

theorem does_command {pc : SweepPc} {c : Command} {outcome : Outcome}
    {next : Except Unit Reply → SweepPc}
    (hawaits : (Call.sweep ⟨cutoffMs, pc⟩).awaits config = .redis c)
    (hinput : input search visits pc = outcome.input)
    (hevents : (Call.sweep ⟨cutoffMs, pc⟩).events = [])
    (hok : ∀ {redis redis' : Redis} {reply}, redis.exec c = some (redis', reply)
      → (Sweep.mk cutoffMs pc).resume reply = ⟨cutoffMs, next (.ok reply)⟩)
    (herror : (Sweep.mk cutoffMs pc).reject = ⟨cutoffMs, next (.error ())⟩)
    : Does config search visits cutoffMs now i pc (command c outcome) next := by
  intro σ s hat
  have hproceed : (Call.proceed σ (.sweep ⟨cutoffMs, pc⟩)).1 = σ := by
    simp [Call.proceed, hevents]
  refine hat.step ?_ (clock_command c outcome σ)
  rw [hproceed, hinput]
  cases outcome with
  | value =>
    rw [exec_command_value]
    simp only [Outcome.input, Call.step, hawaits]
    rcases hexec : σ.redis.exec c with _ | ⟨redis, reply⟩
    . simp only [Call.reject, herror]
    . simp only [Call.resume, hok hexec]
  | exception executed =>
    rw [exec_command_exception]
    simp only [Outcome.input, Call.step, hawaits, Call.reject, herror]

def after (pc : SweepPc) (stale : List PendingIssue) : Except Unit α → SweepPc
  | .ok _ => pc
  | .error _ => .visit stale

theorem does_mark (mark : Mark) (gaveUp : Bool) (stale : List PendingIssue)
    : Does config search visits cutoffMs now i (.markResult mark gaveUp stale)
        (command mark.command ((visits mark.pair).markResult mark.pc))
        (after (Sweep.afterMark mark gaveUp stale) stale) := by
  refine does_command rfl rfl rfl ?_ rfl
  intro _ _ reply _
  simp only [Sweep.resume, after, Sweep.afterMark]
  cases mark.next <;> rfl

theorem does_markResult (p : Pair) (status : IssuePendingStatus) (code : Option String)
    (gaveUp : Bool) (stale : List PendingIssue)
    : Does config search visits cutoffMs now i
        (.markResult (ServerB.markResult p.1 p.2 status code) gaveUp stale)
        (markResult p.1 p.2 status code (visits p).markResult) fun _ => .visit stale := by
  let mark (pc : MarkPc) : Mark := { ServerB.markResult p.1 p.2 status code with pc := pc }
  have hzrem : Does config search visits cutoffMs now i (.markResult (mark .zrem) gaveUp stale)
      (do let _ ← command (.zrem (RedisKeys.pendingZsetMember p.1 p.2)) ((visits p).markResult .zrem))
      fun _ => .visit stale :=
    .bind (does_mark (mark .zrem) gaveUp stale) (fun _ _ => .pure rfl) fun _ => rfl
  have hexpire : Does config search visits cutoffMs now i (.markResult (mark .expire) gaveUp stale)
      (do
        let _ ← command (.expire (RedisKeys.pendingHash p.1 p.2)) ((visits p).markResult .expire)
        let _ ← command (.zrem (RedisKeys.pendingZsetMember p.1 p.2)) ((visits p).markResult .zrem))
      fun _ => .visit stale :=
    .bind (does_mark (mark .expire) gaveUp stale) (fun _ _ => hzrem) fun _ => rfl
  unfold markResult
  cases code with
  | none =>
    exact .bind (does_mark (mark .hsetStatus) gaveUp stale) (fun _ _ => hexpire) fun _ => rfl
  | some code =>
    refine .bind (does_mark (mark .hsetStatus) gaveUp stale) (fun _ _ => ?_) fun _ => rfl
    exact .bind (does_mark (mark (.hsetCode code)) gaveUp stale) (fun _ _ => hexpire) fun _ => rfl

theorem does_republish_command (pending : PendingIssue) (republish : Republish)
    (stale : List PendingIssue)
    : Does config search visits cutoffMs now i (.recordRepublish pending republish stale)
        (command republish.command ((visits republish.pair).recordRepublish republish.pc))
        (after (Sweep.afterRepublish pending republish stale) stale) := by
  refine does_command rfl rfl rfl ?_ rfl
  intro _ _ reply _
  simp only [Sweep.resume, after, Sweep.afterRepublish]
  cases republish.next with
  | some republish => rfl
  | none => cases pending.createdAt <;> rfl

def afterRecord (pending : PendingIssue) (stale : List PendingIssue) : SweepPc :=
  match pending.createdAt with
  | none => .visit stale
  | some createdAt => .publishForScheduler (Sweep.republishPayload pending createdAt) stale

theorem does_recordRepublish (pending : PendingIssue) (stale : List PendingIssue)
    : Does config search visits cutoffMs now i
        (.recordRepublish pending
          (ServerB.recordRepublish pending.userId pending.couponTypeId now) stale)
        (recordRepublish pending.userId pending.couponTypeId now
          (visits pending.pair).recordRepublish)
        (after (afterRecord pending stale) stale) := by
  let republish (pc : RepublishPc) : Republish :=
    { ServerB.recordRepublish pending.userId pending.couponTypeId now with pc := pc }
  unfold recordRepublish
  refine .bind (does_republish_command pending (republish .hincrby) stale) ?_ fun _ => rfl
  intro _ _
  refine .bind (does_republish_command pending (republish .hset) stale) ?_ fun _ => rfl
  intro _ _
  refine .bind (does_republish_command pending (republish .expire) stale) ?_ fun _ => rfl
  intro _ _
  refine .bind (does_republish_command pending (republish .zadd) stale) ?_ fun _ => rfl
  intro _ _
  exact .pure rfl

def published (outcome : Outcome) (payload : CouponIssueRequestPayload) (σ : Shared) : Shared :=
  match outcome with
  | .value => σ.send payload
  | .exception executed => if executed then σ.send payload else σ

theorem exec_publishForScheduler (payload : CouponIssueRequestPayload) (outcome : Outcome)
    (σ : Shared)
    : ((publishForScheduler payload outcome).exec σ).2
        = published outcome payload
            { σ with history := σ.history ++ [.publishedForScheduler payload] } := by
  unfold publishForScheduler note
  rw [Program.exec_bind, Program.exec_modify]
  dsimp only
  cases hassert : assertIssueRequestPayload payload.toJs with
  | error =>
    dsimp only
    rw [Program.exec_throw]
    cases outcome with
    | value => simp [published, Shared.send, hassert]
    | exception executed => simp [published, Shared.send, hassert]
  | ok =>
    cases outcome with
    | value => rfl
    | exception executed => cases executed <;> rfl

theorem clock_published (outcome : Outcome) (payload : CouponIssueRequestPayload) (σ : Shared)
    : (published outcome payload σ).clock = σ.clock := by
  unfold published
  split
  . exact (history_send payload).2
  . split
    . exact (history_send payload).2
    . rfl

theorem does_publishForScheduler (payload : CouponIssueRequestPayload)
    (stale : List PendingIssue)
    : Does config search visits cutoffMs now i (.publishForScheduler payload stale)
        (publishForScheduler payload
          (visits (payload.userId, payload.couponTypeId)).publishForScheduler)
        fun _ => .visit stale := by
  intro σ s hat
  rw [exec_publishForScheduler]
  refine hat.step ?_ (clock_published _ payload _)
  simp only [input]
  cases (visits (payload.userId, payload.couponTypeId)).publishForScheduler with
  | value => rfl
  | exception executed => rfl

theorem does_toInstantString (pending : PendingIssue) (stale : List PendingIssue)
    : Does config search visits cutoffMs now i (afterRecord pending stale)
        (toInstantString pending.createdAt)
        fun
          | .ok requestedAt =>
            .publishForScheduler ⟨pending.requestId, pending.userId, pending.eventId,
              pending.couponTypeId, requestedAt⟩ stale
          | .error _ => .visit stale := by
  unfold afterRecord
  cases pending.createdAt with
  | none => exact .throw rfl
  | some createdAt => exact .pure rfl

theorem does_republish (pending : PendingIssue) (stale : List PendingIssue)
    (hnow : (visits pending.pair).now = now)
    : Does config search visits cutoffMs now i
        (.recordRepublish pending
          (ServerB.recordRepublish pending.userId pending.couponTypeId now) stale)
        (republish pending (visits pending.pair)) fun _ => .visit stale := by
  unfold republish
  rw [hnow]
  refine .bind (does_recordRepublish pending stale) ?_ fun _ => rfl
  intro _ _
  refine .bind (does_toInstantString pending stale) ?_ fun _ => rfl
  intro requestedAt _
  exact .tryCatch (does_publishForScheduler _ stale) (fun _ => rfl) fun _ => .pure rfl

def afterAnswer (config : Config) (now : Nat) (pending : PendingIssue)
    (stale : List PendingIssue) : Option UserCouponLookupResult → SweepPc
  | some result =>
    let mark := ServerB.markResult pending.userId pending.couponTypeId
      (Sweep.mapStatus result.status) (some result.code)
    .markResult mark false stale
  | none =>
    if JsNumber.lt pending.publishAttempts (JsNumber.ofInt config.maxPublishAttempts) then
      .recordRepublish pending
        (ServerB.recordRepublish pending.userId pending.couponTypeId now) stale
    else
      let mark := ServerB.markResult pending.userId pending.couponTypeId .failed none
      .markResult mark true stale

theorem does_findOne (pending : PendingIssue) (stale : List PendingIssue)
    : Does config search visits cutoffMs now i (.lookup pending stale)
        (findOne pending (visits pending.pair).lookup)
        fun
          | .ok result => afterAnswer config now pending stale result
          | .error _ => .visit stale := by
  intro σ s hat
  have hclock : σ.clock = now := hat.2.2
  unfold findOne
  rw [Program.exec_bind, note, Program.exec_modify]
  dsimp only
  cases hlookup : (visits pending.pair).lookup with
  | none =>
    refine hat.step ?_ rfl
    simp only [input, hlookup]
    rfl
  | some result =>
    refine hat.step ?_ rfl
    simp only [input, hlookup]
    simp only [Call.step, Call.awaits, Call.answered, Sweep.answered, Program.exec_pure]
    subst hclock
    cases result with
    | some result => rfl
    | none =>
      dsimp only [afterAnswer]
      split <;> rfl

theorem does_visitEntry (pending : PendingIssue) (stale : List PendingIssue)
    (hnow : (visits pending.pair).now = now)
    : Does config search visits cutoffMs now i (.lookup pending stale)
        (visitEntry config (visits pending.pair) pending) fun _ => .visit stale := by
  unfold visitEntry
  refine .tryCatch (k := fun _ => .visit stale) ?_ (fun _ => rfl) fun _ => .pure rfl
  refine .bind (does_findOne pending stale) ?_ fun _ => rfl
  intro result _
  cases result with
  | some result => exact does_markResult pending.pair _ _ _ stale
  | none =>
    dsimp only [afterAnswer]
    split
    . exact does_republish pending stale hnow
    . exact does_markResult pending.pair _ _ _ stale

theorem does_forM (stale : List PendingIssue) (hnow : ∀ p, (visits p).now = now)
    : Does config search visits cutoffMs now i (.visit stale)
        (forM stale fun pending => visitEntry config (visits pending.pair) pending)
        fun _ => .finished := by
  induction stale with
  | nil => exact .pure rfl
  | cons pending stale ih =>
    intro σ s hat
    obtain ⟨t, hrun, ht⟩ := does_visitEntry pending stale (hnow _) σ s hat
    obtain ⟨u, hrun', hu⟩ := ih _ t ht
    rw [Program.forM_exec_cons fun _ _ => visitEntry_ok ..]
    exact ⟨u, hrun.trans hrun', hu⟩

def afterSearch : Except Unit (List PendingIssue) → SweepPc
  | .ok stale => .visit stale
  | .error _ => .finished

def afterHgetall (userId couponTypeId : JsNumber) (member : String) (members : List String)
    (result : List PendingIssue) : Except Unit Reply → SweepPc
  | .ok (.entries (some entries)) =>
    match readEntry userId couponTypeId entries with
    | none => .scan members result
    | some pending => .scan members (result ++ [pending])
  | .ok _ => .zrem member members result
  | .error _ => .finished

def afterZrem (members : List String) (result : List PendingIssue)
    : Except Unit Reply → SweepPc
  | .ok _ => .scan members result
  | .error _ => .finished

def afterZrangebyscore : Except Unit Reply → SweepPc
  | .ok (.members members) => .scan members []
  | _ => .finished

theorem does_findMembers (members : List String) (result : List PendingIssue)
    : Does config search visits cutoffMs now i (.scan members result)
        (findMembers search members result) afterSearch := by
  induction members generalizing result with
  | nil => exact .pure rfl
  | cons member members ih =>
    unfold findMembers SweepPc.scan
    cases hparse : parseMember member with
    | none => exact ih result
    | some pair =>
      obtain ⟨userId, couponTypeId⟩ := pair
      dsimp only
      refine .bind (k := afterHgetall userId couponTypeId member members result)
        (does_command rfl rfl rfl ?_ rfl) ?_ fun _ => rfl
      . intro redis redis' reply hexec
        obtain ⟨_, rfl⟩ := Redis.Server.exec_hgetall hexec
        cases redis.hashes (RedisKeys.pendingHash userId couponTypeId) with
        | none => rfl
        | some hash =>
          simp only [Sweep.resume, Option.map_some, afterHgetall]
          cases readEntry userId couponTypeId hash.fields with
          | none => rfl
          | some pending => rfl
      . have hzrem : Does config search visits cutoffMs now i (.zrem member members result)
            (do
              let _ ← command (.zrem member) (search.zrem member)
              findMembers search members result) afterSearch :=
          .bind (k := afterZrem members result)
            (does_command rfl rfl rfl (fun _ => rfl) rfl) (fun _ _ => ih result) fun _ => rfl
        rintro (_ | (_ | entries) | _) _
        . exact hzrem
        . exact hzrem
        . dsimp only [afterHgetall]
          cases readEntry userId couponTypeId entries with
          | none => exact ih result
          | some pending => exact ih (result ++ [pending])
        . exact hzrem

theorem does_findPendingOlderThan
    : Does config search visits cutoffMs now i .zrangebyscore
        (findPendingOlderThan search cutoffMs config.batchSize) afterSearch := by
  unfold findPendingOlderThan
  refine .bind (k := afterZrangebyscore) (does_command rfl rfl rfl ?_ rfl) ?_ fun _ => rfl
  . intro redis redis' reply hexec
    obtain ⟨_, rfl⟩ := Redis.Server.exec_zrangebyscore hexec
    rfl
  . intro reply _
    cases reply with
    | members members => exact does_findMembers members []
    | integer n => exact .pure rfl
    | entries fields => exact .pure rfl

theorem does_sweep (hnow : ∀ p, (visits p).now = now)
    : Does config search visits ((now : Int) - config.cutoff) now i .zrangebyscore
        (sweep (findPendingOlderThan search) config now visits) fun _ => .finished := by
  unfold sweep
  refine .bind does_findPendingOlderThan ?_ fun _ => rfl
  intro stale _
  cases stale with
  | nil => exact .pure rfl
  | cons pending stale => exact does_forM (pending :: stale) hnow

/--
A sweep of the machine that is not disturbed comes to its end, and does what the scheduler is
written to do.
-/
theorem runs_sweep (config : Config) (search : Search) (visits : Pair → Visit) {s : State}
    (hcall : s.calls[i]?
      = some (.sweep ⟨(s.shared.clock : Int) - config.cutoff, .zrangebyscore⟩))
    (hnow : ∀ p, (visits p).now = s.shared.clock)
    : ∃ t, (calls config).machine.Run (Undisturbed search visits i) s t
        ∧ t.shared = ((sweep (findPendingOlderThan search) config s.shared.clock visits).exec
            s.shared).2
        ∧ t.calls[i]?
            = some (.sweep ⟨(s.shared.clock : Int) - config.cutoff, .finished⟩) := by
  have hnone : ∀ (σ : Shared) (c : Call), c.events = [] → (Call.proceed σ c).1 = σ := by
    intro σ c hevents
    simp [Call.proceed, hevents]
  obtain ⟨t, hrun, hcall', hshared, _⟩ :=
    does_sweep hnow s.shared s ⟨hcall, (hnone _ _ rfl).symm, rfl⟩
  exact ⟨t, hrun, hshared.trans (hnone _ _ rfl), hcall'⟩

end Cycle

end Scheduler

end ServerB
