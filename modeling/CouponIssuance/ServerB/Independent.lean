import CouponIssuance.Redis.Frame
import CouponIssuance.ServerB.Accepted
import CouponIssuance.ServerB.Lemmas.Cycle

/-!
This module contains what the entries of a cycle have to do with each other: nothing. Whatever the
calls for one of them throw, the others are visited as if each of them were alone.
-/

namespace ServerB

open Concurrency Redis.Server

def cells : Cells Shared Pair (Option (Redis.Hash Field) × Option Int) (String × String) where
  cell σ p := (σ.redis.hashes p.hashKey, σ.redis.zset.score p.member)
  log σ := σ.topic

namespace Scheduler

section ActsOn

variable {p : Pair} {pending : PendingIssue}

theorem command_actsOn {c : Command} (hc : c.Concerns p.hashKey p.member) (outcome : Outcome)
    : (command c outcome).ActsOn cells p where
  own σ τ h := by
    obtain ⟨hhash, hscore⟩ := Prod.mk.inj h
    have hexec := exec_congr hc hhash hscore
    have hcell : ∀ {redis redis' : Redis} {reply reply' : Reply},
        some (redis.hashes p.hashKey, redis.zset.score p.member, reply)
            = some (redis'.hashes p.hashKey, redis'.zset.score p.member, reply')
          → cells.Alike p σ { σ with redis := redis } τ { τ with redis := redis' }
            ∧ reply = reply' := by
      intro redis redis' reply reply' heq
      simp only [Option.some.injEq, Prod.mk.injEq] at heq
      obtain ⟨hhash, hscore, hreply⟩ := heq
      exact ⟨⟨Prod.ext hhash hscore, [], by simp [cells], by simp [cells]⟩, hreply⟩
    cases outcome with
    | value =>
      simp only [exec_command_value]
      rcases hσ : σ.redis.exec c with _ | ⟨redis, reply⟩
        <;> rcases hτ : τ.redis.exec c with _ | ⟨redis', reply'⟩
        <;> simp only [hσ, hτ, Option.map_some, Option.map_none] at hexec
      . exact ⟨rfl, .refl h⟩
      . contradiction
      . contradiction
      . obtain ⟨halike, rfl⟩ := hcell hexec
        exact ⟨rfl, halike⟩
    | exception executed =>
      simp only [exec_command_exception]
      cases executed with
      | false => exact ⟨trivial, .refl h⟩
      | true =>
        simp only [Shared.execute]
        rcases hσ : σ.redis.exec c with _ | ⟨redis, reply⟩
          <;> rcases hτ : τ.redis.exec c with _ | ⟨redis', reply'⟩
          <;> simp only [hσ, hτ, Option.map_some, Option.map_none] at hexec
        . exact ⟨trivial, .refl h⟩
        . contradiction
        . contradiction
        . exact ⟨trivial, (hcell hexec).1⟩
  frame σ q hq := by
    have hkey : q.hashKey ≠ p.hashKey := fun heq => hq (Pair.hashKey_injective heq)
    have hmember : q.member ≠ p.member := fun heq => hq (Pair.member_injective heq)
    have hframe : ∀ {redis reply}, σ.redis.exec c = some (redis, reply)
        → cells.cell { σ with redis := redis } q = cells.cell σ q := by
      intro redis reply hexec
      obtain ⟨hhash, hscore⟩ := exec_of_concerns hc hexec hkey hmember
      exact Prod.ext hhash hscore
    cases outcome with
    | value =>
      rw [exec_command_value]
      rcases hexec : σ.redis.exec c with _ | ⟨redis, reply⟩
      . rfl
      . exact hframe hexec
    | exception executed =>
      rw [exec_command_exception]
      cases executed with
      | false => rfl
      | true =>
        simp only [Shared.execute]
        rcases hexec : σ.redis.exec c with _ | ⟨redis, reply⟩
        . rfl
        . exact hframe hexec

theorem modify_actsOn {f : Shared → Shared} (l : List (String × String))
    (hredis : ∀ σ, (f σ).redis = σ.redis) (htopic : ∀ σ, (f σ).topic = σ.topic ++ l)
    : (modify f : Flow PUnit).ActsOn cells p where
  own σ τ h := by
    refine ⟨rfl, ?_, l, htopic σ, htopic τ⟩
    simp only [Program.exec_modify, cells, hredis]
    exact h
  frame σ q _ := by simp only [Program.exec_modify, cells, hredis]

theorem note_actsOn (event : Event) : (note event).ActsOn cells p :=
  modify_actsOn [] (fun _ => rfl) (fun _ => (List.append_nil _).symm)

theorem send_actsOn (payload : CouponIssueRequestPayload)
    : (modify (·.send payload) : Flow PUnit).ActsOn cells p := by
  unfold Shared.send
  cases assertIssueRequestPayload payload.toJs with
  | ok => exact modify_actsOn _ (fun _ => rfl) (fun _ => rfl)
  | error => exact modify_actsOn [] (fun _ => rfl) (fun _ => (List.append_nil _).symm)

theorem findOne_actsOn (outcome : Option (Option UserCouponLookupResult))
    : (findOne pending outcome).ActsOn cells p := by
  unfold findOne
  refine .bind (note_actsOn _) fun _ => ?_
  cases outcome with
  | some result => exact .pure _
  | none => exact .throw _

theorem markResult_actsOn (status : IssuePendingStatus) (code : Option String)
    (outcome : MarkPc → Outcome)
    : (markResult p.1 p.2 status code outcome).ActsOn cells p := by
  unfold markResult
  refine .bind (command_actsOn (by rfl) _) fun _ => ?_
  have hclosing : ((do
      let _ ← command (.expire (RedisKeys.pendingHash p.1 p.2)) (outcome .expire)
      let _ ← command (.zrem (RedisKeys.pendingZsetMember p.1 p.2)) (outcome .zrem)
      ) : Flow PUnit).ActsOn cells p :=
    .bind (command_actsOn (by rfl) _) fun _ => .bind (command_actsOn (by rfl) _) fun _ => .pure _
  cases code with
  | none => exact hclosing
  | some code => exact .bind (command_actsOn (by rfl) _) fun _ => hclosing

theorem recordRepublish_actsOn (publishedAt : Nat) (outcome : RepublishPc → Outcome)
    : (recordRepublish p.1 p.2 publishedAt outcome).ActsOn cells p := by
  unfold recordRepublish
  refine .bind (command_actsOn (by rfl) _) fun _ => ?_
  refine .bind (command_actsOn (by rfl) _) fun _ => ?_
  refine .bind (command_actsOn (by rfl) _) fun _ => ?_
  exact .bind (command_actsOn (by rfl) _) fun _ => .pure _

theorem publishForScheduler_actsOn (payload : CouponIssueRequestPayload) (outcome : Outcome)
    : (publishForScheduler payload outcome).ActsOn cells p := by
  unfold publishForScheduler
  refine .bind (note_actsOn _) fun _ => ?_
  split
  . exact .throw _
  . split
    . exact send_actsOn payload
    . dsimp only
      split
      . exact .bind (send_actsOn payload) fun _ => .throw _
      . exact .throw _

theorem republish_actsOn (visit : Visit)
    : (republish pending visit).ActsOn cells pending.pair := by
  unfold republish
  refine .bind (recordRepublish_actsOn (p := pending.pair) _ _) fun _ => ?_
  refine .bind ?_ fun _ => .tryCatch (publishForScheduler_actsOn _ _) fun _ => .pure _
  unfold toInstantString
  split
  . exact .pure _
  . exact .throw _

theorem visitEntry_actsOn (config : Config) (visit : Visit) (pending : PendingIssue)
    : (visitEntry config visit pending).ActsOn cells pending.pair := by
  unfold visitEntry
  refine .tryCatch (.bind (findOne_actsOn _) fun result => ?_) fun _ => .pure _
  cases result with
  | some result => exact markResult_actsOn (p := pending.pair) _ _ _
  | none =>
    dsimp only
    split
    . exact republish_actsOn visit
    . exact markResult_actsOn (p := pending.pair) _ _ _

end ActsOn

section Cycle

variable {find : Int → Nat → Flow (List PendingIssue)} {config : Config} {now : Nat}
variable {visits : Pair → Visit} {stale : List PendingIssue} {σ τ : Shared}

theorem exec_sweep
    (hfind : (find ((now : Int) - config.cutoff) config.batchSize).exec σ = (.ok stale, τ))
    : (sweep find config now visits).exec σ
        = (forM stale fun pending =>
            visitEntry config (visits pending.pair) pending : Flow PUnit).exec τ := by
  unfold sweep
  rw [Program.exec_bind, hfind]
  cases stale with
  | nil => rfl
  | cons pending stale => rfl

theorem exec_lift (flow : Flow PUnit) (s : Scheduler Shared)
    : (lift flow).exec s = ((flow.exec s.inner).1, ⟨s.running, (flow.exec s.inner).2⟩) := rfl

theorem exec_run (sweep : Flow PUnit) (s : Scheduler Shared)
    : (run sweep).exec s
        = (.ok ⟨⟩, if s.running then s else ⟨false, (sweep.exec s.inner).2⟩) := by
  unfold run
  rw [Program.exec_bind, Program.exec_get]
  dsimp only
  split
  . rfl
  . rw [Program.exec_bind, Program.exec_modify]
    dsimp only
    rw [Program.exec_tryFinally, Program.exec_tryCatch, exec_lift]
    rcases sweep.exec s.inner with ⟨_ | _, σ⟩ <;> rfl

end Cycle

/-- The flag stands exactly as long as a sweep runs, and no two of them run at the same time. -/
structure Guard (s : Scheduler State) : Prop where
  running : s.running = true ↔ ∃ c ∈ s.inner.calls, c.isSweeping = true
  solo : Solo s.inner

section Guard

variable {config : Config} {s t : Scheduler State} {act : ServerB.Act}

theorem next_other (h : next config s (.other act) = some t)
    : (∀ sweep, act ≠ .start (.sweep sweep))
        ∧ (calls config).machine.step s.inner act = some t.inner
        ∧ t.running = (s.running && !ends s.inner t.inner act) := by
  unfold next at h
  split at h
  . contradiction
  . contradiction
  . next hne heq =>
    cases heq
    obtain ⟨u, hnext, rfl⟩ := Option.map_eq_some_iff.mp h
    exact ⟨fun sweep heq => hne sweep (by rw [heq]), hnext, rfl⟩

theorem next_tick (config : Config) (hguard : Guard s) (hrunning : s.running = false)
    : ∃ t sweep, next config s .tick = some t ∧ t.running = true
        ∧ (calls config).machine.step s.inner (.start (.sweep sweep)) = some t.inner
        ∧ t.inner.calls = s.inner.calls ++ [.sweep sweep] ∧ sweep.pc.isRunning = true := by
  let sweep : Sweep := ⟨(s.inner.shared.clock : Int) - config.cutoff, .zrangebyscore⟩
  refine ⟨⟨true, ⟨s.inner.shared, s.inner.calls ++ [.sweep sweep]⟩⟩, sweep, ?_, rfl, ?_, rfl, rfl⟩
  . simp [next, hrunning, sweep]
  . have hstart : Call.start config s.inner.shared s.inner.calls (.sweep sweep) = true := by
      simp only [Call.start, sweep, beq_self_eq_true, Bool.true_and, Bool.not_eq_true',
        List.any_eq_false]
      intro c hc hsweeping
      have := hguard.running.mpr ⟨c, hc, hsweeping⟩
      rw [hrunning] at this
      contradiction
    simp [Calls.machine, Calls.next, calls, hstart]

theorem any_set {p : φ → Bool} {l : List φ} {i : Nat} {f f' : φ} (hf : l[i]? = some f)
    (h : p f' = p f)
    : (l.set i f').any p = l.any p := by
  obtain ⟨hi, rfl⟩ := List.getElem?_eq_some_iff.mp hf
  have hmap : (l.set i f').map p = l.map p := by
    rw [List.map_set, h, ← List.getElem_map p (h := by simpa using hi)]
    exact List.set_getElem_self _
  have hid : ∀ l : List φ, l.any p = (l.map p).any id := fun l => by rw [List.any_map]; rfl
  rw [hid, hid, hmap]

theorem Guard.running_step {i : Nat} {x : Input} (hguard : Guard s)
    (hnext : (calls config).next s.inner (.step i x) = some t.inner)
    (hrunning : t.running = (s.running && !ends s.inner t.inner (.step i x)))
    : t.running = true ↔ ∃ c ∈ t.inner.calls, c.isSweeping = true := by
  obtain ⟨f, shared, f', hf, _, hstep, ht⟩ := Calls.next_step hnext
  have hi : t.inner.calls[i]? = some f' := by
    rw [ht]
    exact List.getElem?_set_self (List.getElem?_eq_some_iff.mp hf).1
  have hends : ends s.inner t.inner (.step i x) = (f.isSweeping && !f'.isSweeping) := by
    unfold ends
    dsimp only
    rw [hf, hi]
    cases f with
    | sweep sweep =>
      obtain ⟨pc, rfl, _⟩ := Sweep.moves_of_step hstep
      have := SweepPc.isRunning_of_awaits (Call.awaits_of_steps (Call.step_spec hstep))
      simp [Call.isSweeping, this]
    | accept a => rfl
    | deliver d => rfl
  rw [hends] at hrunning
  cases hsweeping : f.isSweeping with
  | false =>
    have hf' : f'.isSweeping = f.isSweeping := by
      rw [hsweeping, ← Bool.not_eq_true]
      intro htrue
      rw [Call.isSweeping_of_steps (Call.step_spec hstep) htrue] at hsweeping
      contradiction
    rw [hrunning, hsweeping, Bool.false_and, Bool.not_false, Bool.and_true, hguard.running, ht,
      ← List.any_eq_true, ← List.any_eq_true, any_set hf hf']
  | true =>
    have hflag : s.running = true := hguard.running.mpr ⟨f, List.mem_of_getElem? hf, hsweeping⟩
    rw [hrunning, hflag, hsweeping, Bool.true_and, Bool.true_and, Bool.not_not]
    refine ⟨fun htrue => ⟨f', List.mem_of_getElem? hi, htrue⟩, ?_⟩
    rintro ⟨c, hc, htrue⟩
    obtain ⟨j, hj⟩ := List.mem_iff_getElem?.mp hc
    rw [ht] at hj
    rcases Calls.getElem?_set_cases hj with ⟨_, rfl⟩ | ⟨hji, hj⟩
    . exact htrue
    . have := hguard.solo i j f c (Ne.symm hji) hf hj hsweeping
      rw [htrue] at this
      contradiction

theorem Guard.next {a : Act} (hguard : Guard s) (hnext : next config s a = some t)
    : Guard t ∧ (calls config).machine.Run (fun _ _ => True) s.inner t.inner := by
  cases a with
  | tick =>
    cases hrunning : s.running with
    | true =>
      have : t = s := by simpa [Scheduler.next, hrunning] using hnext.symm
      subst this
      exact ⟨hguard, .refl⟩
    | false =>
      obtain ⟨u, sweep, hu, hflag, hstart, hcalls, hpc⟩ := next_tick config hguard hrunning
      cases hu.symm.trans hnext
      have hrun : (calls config).machine.Run (fun _ _ => True) s.inner t.inner :=
        .single trivial hstart
      refine ⟨⟨⟨fun _ => ⟨.sweep sweep, ?_, hpc⟩, fun _ => hflag⟩, hguard.solo.run hrun⟩, hrun⟩
      rw [hcalls]
      exact List.mem_concat_self
  | other act =>
    obtain ⟨hne, hstep, hflag⟩ := next_other hnext
    have hrun : (calls config).machine.Run (fun _ _ => True) s.inner t.inner :=
      .single trivial hstep
    refine ⟨⟨?_, hguard.solo.run hrun⟩, hrun⟩
    cases act with
    | start c =>
      obtain ⟨_, ht⟩ := Calls.next_start hstep
      have hc : c.isSweeping = false := by
        cases c with
        | sweep sweep => exact absurd rfl (hne sweep)
        | _ => rfl
      rw [hflag, ht]
      simpa [ends, hc] using hguard.running
    | step i x => exact hguard.running_step hstep hflag
    | env e =>
      obtain ⟨shared, _, ht⟩ := Calls.next_env hstep
      rw [hflag, ht]
      simpa [ends] using hguard.running

/--
Under the flag the flows run as in `ServerB.calls`, where a sweep starts only if no other one runs.
-/
theorem run_guarded {clock : Nat} {t : Scheduler State}
    (hrun : (machine config).Run (fun _ _ => True) (idle clock) t)
    : Guard t ∧ (calls config).machine.Run (fun _ _ => True) (init clock) t.inner := by
  refine hrun.invariant (I := fun t => Guard t
    ∧ (calls config).machine.Run (fun _ _ => True) (init clock) t.inner)
    ⟨⟨by simp [idle, init], ?_⟩, .refl⟩ ?_
  . exact solo_of_not_isSweeping (by simp [idle, init])
  . intro u a v hu _ hstep
    obtain ⟨hguard, hrun⟩ := hu.1.next hstep
    exact ⟨hguard, hu.2.trans hrun⟩

end Guard

def sweepOf (config : Config) (now : Nat) (visits : Pair → Visit) (stale : List PendingIssue)
    : Flow PUnit :=
  sweep (fun _ _ => return stale) config now visits

theorem exec_sweepOf (config : Config) (now : Nat) (visits : Pair → Visit)
    (stale : List PendingIssue) (σ : Shared)
    : (sweepOf config now visits stale).exec σ
        = (forM stale fun pending =>
            visitEntry config (visits pending.pair) pending : Flow PUnit).exec σ :=
  exec_sweep rfl

theorem exec_sweepOf_one (config : Config) (now : Nat) (visits : Pair → Visit)
    (pending : PendingIssue) (σ : Shared)
    : ((sweepOf config now visits [pending]).exec σ).2
        = ((visitEntry config (visits pending.pair) pending).exec σ).2 := by
  rw [exec_sweepOf, Program.forM_exec_cons fun _ _ => visitEntry_ok ..]
  rfl

/--
The entries of a cycle do not depend on each other, the cycle does not throw, and the flag lets at
most one of them run and the next one begin.
-/
theorem entries_independent (config : Config) (now : Nat) (visits : Pair → Visit)
    (stale : List PendingIssue) (hdistinct : (stale.map PendingIssue.pair).Nodup) (σ : Shared)
    : (∀ pending ∈ stale,
          cells.cell ((sweepOf config now visits stale).exec σ).2 pending.pair
              = cells.cell ((sweepOf config now visits [pending]).exec σ).2 pending.pair
            ∧ ((sweepOf config now visits [pending]).exec σ).2.topic
              = σ.topic ++ (sweepOf config now visits [pending]).added cells σ)
        ∧ ((sweepOf config now visits stale).exec σ).2.topic
          = σ.topic ++ stale.flatMap (fun pending =>
              (sweepOf config now visits [pending]).added cells σ)
        ∧ (∀ p ∉ stale.map PendingIssue.pair,
            cells.cell ((sweepOf config now visits stale).exec σ).2 p = cells.cell σ p)
        ∧ (∀ find (s : Scheduler Shared),
            (run (sweep find config now visits)).exec s
              = (.ok ⟨⟩, if s.running then s
                  else ⟨false, ((sweep find config now visits).exec s.inner).2⟩))
        ∧ ∀ clock t, (machine config).Run (fun _ _ => True) (idle clock) t
            → (∀ (i j : Nat) f g, t.inner.calls[i]? = some f → t.inner.calls[j]? = some g
                → f.isSweeping = true → g.isSweeping = true → i = j)
              ∧ (t.running = true ↔ ∃ c ∈ t.inner.calls, c.isSweeping = true)
              ∧ ∃ u, next config t .tick = some u ∧ u.running = true
                ∧ (t.running = true → u = t) := by
  have hadded : ∀ pending, (sweepOf config now visits [pending]).added cells σ
      = (visitEntry config (visits pending.pair) pending).added cells σ := by
    intro pending
    unfold Program.added
    rw [exec_sweepOf_one]
  obtain ⟨hown, hframe, hlog⟩ := Program.forM_independent
    (fun pending => visitEntry_actsOn config (visits pending.pair) pending)
    (fun _ _ => visitEntry_ok ..) hdistinct σ
  simp only [exec_sweepOf_one, hadded]
  rw [exec_sweepOf]
  refine ⟨fun pending hmem => ⟨hown pending hmem, ?_⟩, hlog, hframe, fun _ _ => exec_run .., ?_⟩
  . exact (visitEntry_actsOn config (visits pending.pair) pending).log σ
  . intro clock t hrun
    have hguard : Guard t := (run_guarded hrun).1
    refine ⟨?_, hguard.running, ?_⟩
    . intro i j f g hf hg hf' hg'
      by_contra hij
      have := hguard.solo i j f g hij hf hg hf'
      rw [hg'] at this
      contradiction
    . cases hrunning : t.running with
      | true => exact ⟨t, by simp [next, hrunning], hrunning, fun _ => rfl⟩
      | false =>
        obtain ⟨u, _, hu, hflag, _⟩ := next_tick config hguard hrunning
        exact ⟨u, hu, hflag, fun h => absurd h (by simp)⟩

def unreachable : PendingIssue where
  requestId := "a"
  userId := .ofInt 1
  eventId := .ofInt 10
  couponTypeId := .ofInt 20
  status := "PENDING"
  createdAt := some 0
  publishAttempts := .ofInt 1

def issued : PendingIssue :=
  { unreachable with requestId := "b", userId := .ofInt 2 }

def halfAnswered (p : Pair) : Visit where
  lookup := if p = issued.pair then some (some ⟨"CODE", "SUCCESS"⟩) else none
  markResult _ := .value
  recordRepublish _ := .value
  publishForScheduler := .value
  now := 10000

theorem entries_independent_unreachable
    : let σ := ((sweepOf defaults 10000 halfAnswered [unreachable, issued]).exec
          (init 10000).shared).2
      cells.cell σ issued.pair
          = cells.cell ((sweepOf defaults 10000 halfAnswered [issued]).exec
            (init 10000).shared).2 issued.pair
        ∧ σ.redis.get issued.pair.hashKey .status = some "SUCCESS" := by
  have h := entries_independent defaults 10000 halfAnswered [unreachable, issued] (by decide)
    (init 10000).shared
  exact ⟨(h.1 issued (by decide)).1, by decide +kernel⟩

end Scheduler

end ServerB
