import CouponIssuance.ServerB.Lemmas.Local

/-!
This module contains the steps of a sweep, one for each of its awaits, and that no two sweeps run at
the same time.
-/

namespace ServerB

open Concurrency Redis.Server

namespace SweepPc

def isSearching : SweepPc → Bool
  | zrangebyscore | hgetall _ _ _ _ _ | zrem _ _ _ => true
  | _ => false

def rest? : SweepPc → Option (List PendingIssue)
  | lookup _ stale | markResult _ _ stale | recordRepublish _ _ stale => some stale
  | _ => none

end SweepPc

namespace Sweep

def afterMark (mark : Mark) (gaveUp : Bool) (stale : List PendingIssue) : SweepPc :=
  match mark.next with
  | some mark => .markResult mark gaveUp stale
  | none => .visit stale

def afterRepublish (pending : PendingIssue) (republish : Republish) (stale : List PendingIssue)
    : SweepPc :=
  match republish.next with
  | some republish => .recordRepublish pending republish stale
  | none =>
    match pending.createdAt with
    | none => .visit stale
    | some createdAt => .publishForScheduler (republishPayload pending createdAt) stale

inductive Moves (config : Config) (σ σ' : Shared) (s : Sweep) : Input → SweepPc → Prop where
  | listed (hpc : s.pc = .zrangebyscore) (hredis : σ'.redis = σ.redis)
      : Moves config σ σ' s .ok (.scan (σ.redis.zset.range s.cutoffMs config.batchSize) [])
  | orphan (userId couponTypeId : JsNumber) (member : String) (members : List String)
      (result : List PendingIssue) (hpc : s.pc = .hgetall userId couponTypeId member members result)
      (hredis : σ'.redis = σ.redis)
      (hnone : σ.redis.hashes (RedisKeys.pendingHash userId couponTypeId) = none)
      : Moves config σ σ' s .ok (.zrem member members result)
  | skipped (userId couponTypeId : JsNumber) (member : String) (members : List String)
      (result : List PendingIssue) (hash : Redis.Hash Field)
      (hpc : s.pc = .hgetall userId couponTypeId member members result)
      (hredis : σ'.redis = σ.redis)
      (hhash : σ.redis.hashes (RedisKeys.pendingHash userId couponTypeId) = some hash)
      (hread : readEntry userId couponTypeId hash.fields = none)
      : Moves config σ σ' s .ok (.scan members result)
  | read (userId couponTypeId : JsNumber) (member : String) (members : List String)
      (result : List PendingIssue) (hash : Redis.Hash Field) (pending : PendingIssue)
      (hpc : s.pc = .hgetall userId couponTypeId member members result)
      (hredis : σ'.redis = σ.redis)
      (hhash : σ.redis.hashes (RedisKeys.pendingHash userId couponTypeId) = some hash)
      (hread : readEntry userId couponTypeId hash.fields = some pending)
      : Moves config σ σ' s .ok (.scan members (result ++ [pending]))
  | removed (member : String) (members : List String) (result : List PendingIssue)
      (hpc : s.pc = .zrem member members result)
      (hredis : σ'.redis = { σ.redis with zset := σ.redis.zset.remove member })
      : Moves config σ σ' s .ok (.scan members result)
  | synced (pending : PendingIssue) (stale : List PendingIssue) (result : UserCouponLookupResult)
      (hpc : s.pc = .lookup pending stale) (hredis : σ'.redis = σ.redis)
      : Moves config σ σ' s (.answer (some result))
          (.markResult (markResult pending.userId pending.couponTypeId (mapStatus result.status)
            (some result.code)) false stale)
  | republishes (pending : PendingIssue) (stale : List PendingIssue)
      (hpc : s.pc = .lookup pending stale) (hredis : σ'.redis = σ.redis)
      (hlt : JsNumber.lt pending.publishAttempts (.ofInt config.maxPublishAttempts) = true)
      : Moves config σ σ' s (.answer none)
          (.recordRepublish pending
            (recordRepublish pending.userId pending.couponTypeId σ.clock) stale)
  | givesUp (pending : PendingIssue) (stale : List PendingIssue)
      (hpc : s.pc = .lookup pending stale) (hredis : σ'.redis = σ.redis)
      (hlt : JsNumber.lt pending.publishAttempts (.ofInt config.maxPublishAttempts) = false)
      : Moves config σ σ' s (.answer none)
          (.markResult (markResult pending.userId pending.couponTypeId .failed none) true stale)
  | marked (mark : Mark) (gaveUp : Bool) (stale : List PendingIssue) (reply : Reply)
      (hpc : s.pc = .markResult mark gaveUp stale)
      (hexec : σ.redis.exec mark.command = some (σ'.redis, reply))
      : Moves config σ σ' s .ok (afterMark mark gaveUp stale)
  | bumped (pending : PendingIssue) (republish : Republish) (stale : List PendingIssue)
      (reply : Reply) (hpc : s.pc = .recordRepublish pending republish stale)
      (hexec : σ.redis.exec republish.command = some (σ'.redis, reply))
      : Moves config σ σ' s .ok (afterRepublish pending republish stale)
  | published (x : Input) (payload : CouponIssueRequestPayload) (stale : List PendingIssue)
      (hpc : s.pc = .publishForScheduler payload stale) (hredis : σ'.redis = σ.redis)
      : Moves config σ σ' s x (.visit stale)
  /-- The search for stale entries fails, and the sweep ends. -/
  | abandoned (executed : Bool) (hpc : s.pc.isSearching = true)
      (hredis : σ'.redis = σ.redis ∨ ∃ command reply, (Call.sweep s).awaits config = .redis command
        ∧ σ.redis.exec command = some (σ'.redis, reply))
      : Moves config σ σ' s (.fail executed) .finished
  /-- The visit of an entry fails, and the sweep goes on with the next one. -/
  | given (x : Input) (stale : List PendingIssue) (hpc : s.pc.rest? = some stale)
      (hx : x = .ok → ∃ command, (Call.sweep s).awaits config = .redis command
        ∧ σ.redis.exec command = none)
      (hanswer : ∀ result, x ≠ .answer result)
      (hredis : σ'.redis = σ.redis ∨ ∃ command reply, (Call.sweep s).awaits config = .redis command
        ∧ σ.redis.exec command = some (σ'.redis, reply))
      : Moves config σ σ' s x (.visit stale)
  | crashed (hredis : σ'.redis = σ.redis) (hpc : s.pc.isRunning = true)
      : Moves config σ σ' s .crash .crashed

section Step

variable {config : Config} {σ σ' : Shared} {s : Sweep} {c' : Call} {x : Input}

theorem moves_of_replied {command : Command} {reply : Reply}
    (hawaits : (Call.sweep s).awaits config = .redis command)
    (hexec : σ.redis.exec command = some (σ'.redis, reply))
    : ∃ pc, s.resume reply = s.goto pc ∧ s.Moves config σ σ' .ok pc := by
  unfold resume
  cases hpc : s.pc with
  | zrangebyscore =>
    simp only [Call.awaits, hpc, Await.redis.injEq] at hawaits
    subst hawaits
    obtain ⟨hredis, rfl⟩ := exec_zrangebyscore hexec
    exact ⟨_, rfl, .listed hpc hredis⟩
  | hgetall userId couponTypeId member members result =>
    simp only [Call.awaits, hpc, Await.redis.injEq] at hawaits
    subst hawaits
    obtain ⟨hredis, rfl⟩ := exec_hgetall hexec
    cases hhash : σ.redis.hashes (RedisKeys.pendingHash userId couponTypeId) with
    | none => exact ⟨_, rfl, .orphan _ _ _ _ _ hpc hredis hhash⟩
    | some hash =>
      dsimp only [Option.map_some]
      split
      . next hread => exact ⟨_, rfl, .skipped _ _ _ _ _ hash hpc hredis hhash hread⟩
      . next pending hread => exact ⟨_, rfl, .read _ _ _ _ _ hash pending hpc hredis hhash hread⟩
  | zrem member members result =>
    simp only [Call.awaits, hpc, Await.redis.injEq] at hawaits
    subst hawaits
    exact ⟨_, rfl, .removed _ _ _ hpc (exec_zrem hexec)⟩
  | markResult mark gaveUp stale =>
    simp only [Call.awaits, hpc, Await.redis.injEq] at hawaits
    subst hawaits
    refine ⟨afterMark mark gaveUp stale, ?_, .marked _ _ _ _ hpc hexec⟩
    dsimp only
    unfold afterMark
    cases mark.next <;> rfl
  | recordRepublish pending republish stale =>
    simp only [Call.awaits, hpc, Await.redis.injEq] at hawaits
    subst hawaits
    refine ⟨afterRepublish pending republish stale, ?_, .bumped _ _ _ _ hpc hexec⟩
    dsimp only
    unfold afterRepublish
    cases republish.next with
    | some republish => rfl
    | none => cases pending.createdAt <;> rfl
  | lookup pending stale => simp [Call.awaits, hpc] at hawaits
  | publishForScheduler payload stale => simp [Call.awaits, hpc] at hawaits
  | finished => simp [Call.awaits, hpc] at hawaits
  | crashed => simp [Call.awaits, hpc] at hawaits

theorem moves_of_rejected {command : Command}
    (hawaits : (Call.sweep s).awaits config = .redis command)
    (hx : (∃ executed, x = .fail executed) ∨ σ.redis.exec command = none ∧ x = .ok)
    (hredis : σ'.redis = σ.redis ∨ ∃ reply, σ.redis.exec command = some (σ'.redis, reply))
    : ∃ pc, s.reject = s.goto pc ∧ s.Moves config σ σ' x pc := by
  have hredis : σ'.redis = σ.redis ∨ ∃ command reply, (Call.sweep s).awaits config = .redis command
      ∧ σ.redis.exec command = some (σ'.redis, reply) :=
    hredis.imp_right fun ⟨reply, hexec⟩ => ⟨command, reply, hawaits, hexec⟩
  have hgiven : ∀ stale, s.pc.rest? = some stale → s.Moves config σ σ' x (.visit stale) := by
    intro stale hrest
    refine .given x stale hrest ?_ ?_ hredis
    . rintro rfl
      rcases hx with ⟨_, hfail⟩ | ⟨hnone, _⟩
      . contradiction
      . exact ⟨command, hawaits, hnone⟩
    . rintro result rfl
      rcases hx with ⟨_, hfail⟩ | ⟨_, hok⟩ <;> contradiction
  have hsearching : (∀ r : Redis, r.exec command ≠ none) → s.pc.isSearching = true
      → s.Moves config σ σ' x .finished := by
    intro hsome hpc
    rcases hx with ⟨executed, rfl⟩ | ⟨hnone, _⟩
    . exact .abandoned executed hpc hredis
    . exact absurd hnone (hsome _)
  unfold reject
  cases hpc : s.pc with
  | zrangebyscore =>
    simp only [Call.awaits, hpc, Await.redis.injEq] at hawaits
    subst hawaits
    exact ⟨_, rfl, hsearching (by simp [exec]) (by rw [hpc]; rfl)⟩
  | hgetall userId couponTypeId member members result =>
    simp only [Call.awaits, hpc, Await.redis.injEq] at hawaits
    subst hawaits
    exact ⟨_, rfl, hsearching (by simp [exec]) (by rw [hpc]; rfl)⟩
  | zrem member members result =>
    simp only [Call.awaits, hpc, Await.redis.injEq] at hawaits
    subst hawaits
    exact ⟨_, rfl, hsearching (by simp [exec]) (by rw [hpc]; rfl)⟩
  | markResult mark gaveUp stale => exact ⟨_, rfl, hgiven stale (by rw [hpc]; rfl)⟩
  | recordRepublish pending republish stale => exact ⟨_, rfl, hgiven stale (by rw [hpc]; rfl)⟩
  | lookup pending stale => simp [Call.awaits, hpc] at hawaits
  | publishForScheduler payload stale => simp [Call.awaits, hpc] at hawaits
  | finished => simp [Call.awaits, hpc] at hawaits
  | crashed => simp [Call.awaits, hpc] at hawaits

theorem moves_of_answered {userId couponTypeId : JsNumber}
    (hawaits : (Call.sweep s).awaits config = .lookup userId couponTypeId)
    (hredis : σ'.redis = σ.redis) (result : Option UserCouponLookupResult)
    : ∃ pc, s.answered config σ.clock result = s.goto pc
        ∧ s.Moves config σ σ' (.answer result) pc := by
  unfold answered
  cases hpc : s.pc with
  | lookup pending stale =>
    cases result with
    | some result => exact ⟨_, rfl, .synced pending stale result hpc hredis⟩
    | none =>
      dsimp only
      split
      . next hlt => exact ⟨_, rfl, .republishes pending stale hpc hredis hlt⟩
      . next hlt => exact ⟨_, rfl, .givesUp pending stale hpc hredis (by simpa using hlt)⟩
  | _ => simp [Call.awaits, hpc] at hawaits

theorem moves_of_step (h : (Call.sweep s).step config σ x = some (σ', c'))
    : ∃ pc, c' = .sweep (s.goto pc) ∧ s.Moves config σ σ' x pc := by
  have hmoves : ∀ s', (∃ pc, s' = s.goto pc ∧ s.Moves config σ σ' x pc)
      → ∃ pc, Call.sweep s' = .sweep (s.goto pc) ∧ s.Moves config σ σ' x pc := by
    rintro s' ⟨pc, rfl, hmoves⟩
    exact ⟨pc, rfl, hmoves⟩
  cases Call.step_spec h with
  | replied command reply hawaits hexec => exact hmoves _ (moves_of_replied hawaits hexec)
  | lost command reply hawaits hexec =>
    exact hmoves _ (moves_of_rejected hawaits (Or.inl ⟨_, rfl⟩) (Or.inr ⟨reply, hexec⟩))
  | failed x command hawaits hredis hx =>
    apply hmoves _ (moves_of_rejected hawaits ?_ (Or.inl hredis))
    rcases hx with hx | ⟨hnone, hx | hx⟩
    . exact Or.inl ⟨_, hx⟩
    . exact Or.inr ⟨hnone, hx⟩
    . exact Or.inl ⟨_, hx⟩
  | published x payload hawaits hredis =>
    apply hmoves
    unfold reject
    cases hpc : s.pc with
    | publishForScheduler payload stale => exact ⟨_, rfl, .published x payload stale hpc hredis⟩
    | _ => simp [Call.awaits, hpc] at hawaits
  | answered userId couponTypeId result hawaits hredis =>
    exact hmoves _ (moves_of_answered hawaits hredis result)
  | unanswered executed userId couponTypeId hawaits hredis =>
    apply hmoves
    unfold reject
    cases hpc : s.pc with
    | lookup pending stale =>
      refine ⟨_, rfl, .given _ stale (by rw [hpc]; rfl) ?_ ?_ (Or.inl hredis)⟩
      . rintro ⟨⟩
      . rintro _ ⟨⟩
    | _ => simp [Call.awaits, hpc] at hawaits
  | crashed hawaits hredis =>
    apply hmoves
    refine ⟨.crashed, rfl, .crashed hredis ?_⟩
    cases hpc : s.pc with
    | finished => simp [Call.awaits, hpc] at hawaits
    | crashed => simp [Call.awaits, hpc] at hawaits
    | _ => rfl

end Step

end Sweep

section Frame

variable {config : Config} {σ σ' : Shared} {c c' : Call} {x : Input}

theorem Call.events_crash (c : Call) : c.crash.events = [] := by
  cases c <;> rfl

theorem history_send (payload : CouponIssueRequestPayload)
    : (σ.send payload).history = σ.history ∧ (σ.send payload).clock = σ.clock := by
  unfold Shared.send
  split <;> exact ⟨rfl, rfl⟩

theorem history_execute (command : Command)
    : (σ.execute command).history = σ.history ∧ (σ.execute command).clock = σ.clock := by
  unfold Shared.execute
  split <;> exact ⟨rfl, rfl⟩

theorem Call.step_frame (h : c.step config σ x = some (σ', c'))
    : σ'.history = σ.history ++ c'.events ∧ σ'.clock = σ.clock := by
  have hproceed : ∀ (τ : Shared) (d : Call), τ.history = σ.history ∧ τ.clock = σ.clock
      → some (proceed τ d) = some (σ', c')
      → σ'.history = σ.history ++ c'.events ∧ σ'.clock = σ.clock := by
    intro τ d hτ heq
    simp only [proceed, Option.some.injEq, Prod.mk.injEq] at heq
    obtain ⟨rfl, rfl⟩ := heq
    exact ⟨by rw [← hτ.1], hτ.2⟩
  unfold step at h
  cases x with
  | ok =>
    dsimp only at h
    split at h
    . split at h
      . refine hproceed _ _ ?_ h
        exact ⟨rfl, rfl⟩
      . exact hproceed _ _ ⟨rfl, rfl⟩ h
    . exact hproceed _ _ (history_send _) h
    . contradiction
  | answer result =>
    dsimp only at h
    split at h
    . exact hproceed _ _ ⟨rfl, rfl⟩ h
    . contradiction
  | fail executed =>
    dsimp only at h
    split at h
    . refine hproceed _ _ ?_ h
      cases executed
      . exact ⟨rfl, rfl⟩
      . exact history_execute _
    . refine hproceed _ _ ?_ h
      cases executed
      . exact ⟨rfl, rfl⟩
      . exact history_send _
    . exact hproceed _ _ ⟨rfl, rfl⟩ h
    . contradiction
  | crash =>
    dsimp only at h
    split at h
    . contradiction
    . simp only [Option.some.injEq, Prod.mk.injEq] at h
      obtain ⟨rfl, rfl⟩ := h
      rw [events_crash, List.append_nil]
      exact ⟨rfl, rfl⟩

end Frame

section Solo

variable {config : Config} {σ σ' : Shared} {c c' : Call} {x : Input}

def Call.isSweeping : Call → Bool
  | sweep s => s.pc.isRunning
  | _ => false

def Solo (s : State) : Prop :=
  ∀ (i j : Nat) f g, i ≠ j → s.calls[i]? = some f → s.calls[j]? = some g
    → f.isSweeping = true → g.isSweeping = false

theorem SweepPc.isRunning_of_awaits {s : Sweep} (h : (Call.sweep s).awaits config ≠ .nothing)
    : s.pc.isRunning = true := by
  cases hpc : s.pc with
  | finished => simp [Call.awaits, hpc] at h
  | crashed => simp [Call.awaits, hpc] at h
  | _ => rfl

theorem Call.awaits_of_steps (h : c.Steps config σ σ' x c') : c.awaits config ≠ .nothing := by
  cases h with
  | crashed hawaits _ => exact hawaits
  | _ => simp [*]

theorem Call.isSweeping_of_steps (h : c.Steps config σ σ' x c') (hc' : c'.isSweeping = true)
    : c.isSweeping = true := by
  cases c with
  | sweep s => exact SweepPc.isRunning_of_awaits (awaits_of_steps h)
  | accept a => cases h <;> contradiction
  | deliver d => cases h <;> contradiction

theorem Call.not_isSweeping_of_start {calls : List Call} (h : c.start config σ calls = true)
    (hc : c.isSweeping = true) {d : Call} (hd : d ∈ calls)
    : d.isSweeping = false := by
  unfold start at h
  split at h
  . contradiction
  . simp only [Bool.and_eq_true, Bool.not_eq_true', List.any_eq_false] at h
    have := h.2 d hd
    rw [Bool.not_eq_true] at this
    exact this
  . contradiction
  . contradiction

theorem soloOutlined (config : Config) (ok : State → Act → Prop)
    : Calls.Outlined (calls config) ok (fun _ => True) (fun _ _ => True)
        (fun _ f g => f.isSweeping = true → g.isSweeping = false) where
  symm _ f g h hg := by
    cases hf : f.isSweeping with
    | false => rfl
    | true => exact absurd (hg.symm.trans (h hf)) (by decide)
  start s f _ _ hstart :=
    ⟨trivial, fun _ _ hg hf => Call.not_isSweeping_of_start hstart hf (List.mem_of_getElem? hg)⟩
  own _ _ _ _ _ _ _ _ _ _ := ⟨trivial, trivial⟩
  other s i x f σ' f' j g h _ hf hj hg _ hstep := by
    refine ⟨trivial, fun hf' => ?_⟩
    exact h.apart i j f g (Ne.symm hj) hf hg
      (Call.isSweeping_of_steps (Call.step_spec hstep) hf')
  third s i x f σ' f' j g k g' h _ _ _ hg _ hg' hjk _ := h.apart j k g g' hjk hg hg'
  env _ _ _ h _ _ := ⟨trivial, fun _ _ _ => trivial, h.apart⟩

theorem Solo.run {ok : State → Act → Prop} {s t : State} (h : Solo s)
    (hrun : (calls config).machine.Run ok s t)
    : Solo t :=
  ((soloOutlined config ok).run hrun ⟨trivial, fun _ _ _ => trivial, h⟩).apart

theorem solo_of_not_isSweeping {s : State} (h : ∀ c ∈ s.calls, c.isSweeping = false) : Solo s := by
  intro i j f g _ hf _ hsweeping
  rw [h f (List.mem_of_getElem? hf)] at hsweeping
  contradiction

end Solo

end ServerB
