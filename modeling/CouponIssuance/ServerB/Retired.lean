import CouponIssuance.ServerB.Lemmas.Held
import CouponIssuance.ServerB.Lemmas.Mark
import CouponIssuance.ServerB.Progress

/-!
This module contains how a concluded application leaves the queue of the scheduler: for good, unless
its member is added again behind the back of `markResult`.
-/

namespace ServerB

open Concurrency Redis.Server

def Call.succeeds (config : Config) (σ : Shared) (c : Call) (x : Input) : Bool :=
  match c.awaits config with
  | .redis command =>
    match x with
    | .ok => (σ.redis.exec command).isSome
    | _ => false
  | _ => true

def succeeding (config : Config) (s : State) : Act → Bool
  | .step i x => s.calls[i]?.all fun c => c.succeeds config s.shared x
  | _ => true

def Call.operates (p : Pair) : Call → Bool
  | accept a =>
    match a.pc with
    | .save _ => a.pair == p
    | _ => false
  | c => c.mark?.any (fun m => m.pair == p) || c.republish?.any (fun r => r.pair == p)

def isUndecided (redis : Redis) (p : Pair) : Bool :=
  (redis.hashes p.hashKey).isNone
    || redis.get p.hashKey .status == some IssuePendingStatus.pending.text

def Unrecorded (redis : Redis) (p : Pair) : Prop :=
  redis.get p.hashKey .status = none
    ∨ redis.get p.hashKey .status = some IssuePendingStatus.pending.text

def Republishes (s t : State) (payload : CouponIssueRequestPayload) : Prop :=
  ∃ events, t.shared.history = s.shared.history ++ events
    ∧ .publishedForScheduler payload ∈ events

/--
What is not being worked on and still listed is undecided, a sweep reads entries that are `PENDING`
only, and it publishes nothing that has a result.
-/
structure Retires (config : Config) (ok : State → Act → Prop) (s : State) : Prop where
  listed : ∀ p : Pair, (∀ c ∈ s.calls, c.operates p = false)
    → (s.shared.redis.zset.score p.member).isSome = true → isUndecided s.shared.redis p = true
  entries : ∀ w, .sweep w ∈ s.calls → ∀ e ∈ w.pc.entries, e.status = IssuePendingStatus.pending.text
  publishes : ∀ a t payload, ok s a → (calls config).next s a = some t → Republishes s t payload
    → Unrecorded t.shared.redis (payload.userId, payload.couponTypeId)

def isRecording (s : State) (p : Pair) : Bool :=
  s.calls.any fun c => c.mark?.any (Mark.removes p)

def isQueued (s : State) (p : Pair) : Bool :=
  (s.shared.redis.zset.score p.member).isSome && !isRecording s p

/--
`HGETALL` and the `ZADD` of `recordRepublish` meet a pair that is still queued, `recordRepublish`
writes to a hash that is still there, and the `ZADD` of an `accept` does not list a result.
-/
def Call.inTurn (s : State) : Call → Bool
  | accept a =>
    match a.pc with
    | .save .zadd => isUndecided s.shared.redis a.pair || isRecording s a.pair
    | _ => true
  | sweep w =>
    match w.pc with
    | .hgetall userId couponTypeId _ _ _ => isQueued s (userId, couponTypeId)
    | .recordRepublish _ republish _ =>
      match republish.pc with
      | .hincrby | .hset => (s.shared.redis.hashes republish.pair.hashKey).isSome
      | .expire => true
      | .zadd => isQueued s republish.pair
    | _ => true
  | deliver _ => true

def inTurn (s : State) : Act → Bool
  | .step i _ => s.calls[i]?.all (Call.inTurn s)
  | _ => true

section Steps

variable {config : Config} {σ σ' : Shared} {s t : State} {c c' : Call} {x : Input} {p : Pair}
variable {redis redis' : Redis} {command : Command} {reply : Reply} {m m' : Mark}

theorem isUndecided_iff
    : isUndecided redis p = true
        ↔ redis.hashes p.hashKey = none
          ∨ redis.get p.hashKey .status = some IssuePendingStatus.pending.text := by
  simp [isUndecided]

theorem status_of_hashes (h : redis.hashes p.hashKey = none) : redis.get p.hashKey .status = none := by
  simp [Redis.Server.get, h]

theorem Unrecorded.of_isUndecided (h : isUndecided redis p = true) : Unrecorded redis p :=
  (isUndecided_iff.mp h).imp_left status_of_hashes

theorem Call.Steps.of_succeeds (hsteps : c.Steps config σ σ' x c')
    (h : c.succeeds config σ x = true)
    : (∃ command reply, c.awaits config = .redis command
          ∧ σ.redis.exec command = some (σ'.redis, reply)
          ∧ c' = c.resume σ.redis.evictions reply)
        ∨ (∀ command, c.awaits config ≠ .redis command) ∧ σ'.redis = σ.redis := by
  cases hsteps with
  | replied command reply hawaits hexec => exact .inl ⟨command, reply, hawaits, hexec, rfl⟩
  | lost command reply hawaits hexec => simp [succeeds, hawaits] at h
  | failed x command hawaits hredis hx =>
    rcases hx with rfl | ⟨hnone, rfl | rfl⟩
    . simp [succeeds, hawaits] at h
    . simp [succeeds, hawaits, hnone] at h
    . simp [succeeds, hawaits] at h
  | published x payload hawaits hredis => exact .inr ⟨by simp [hawaits], hredis⟩
  | answered userId couponTypeId result hawaits hredis => exact .inr ⟨by simp [hawaits], hredis⟩
  | unanswered executed userId couponTypeId hawaits hredis => exact .inr ⟨by simp [hawaits], hredis⟩
  | crashed hawaits hredis =>
    refine .inr ⟨fun command hredis' => ?_, hredis⟩
    simp [succeeds, hredis'] at h

theorem Mark.removes_of_next (hnext : m.next = some m') : m'.removes p = (m.pair == p) := by
  obtain ⟨hpair, -, hpc⟩ := next_spec hnext
  simp [removes, hpair, hpc]

theorem Mark.zrem_of_next (hnext : m.next = none) : m.pc = .zrem := by
  unfold next at hnext
  split at hnext
  . split at hnext <;> contradiction
  . contradiction
  . contradiction
  . assumption

theorem Call.marks_resume (hm : c.mark? = some m) (hp : m.pair = p) (hpc : m.pc ≠ .zrem)
    (evictions : String → Nat) (reply : Reply)
    : (c.resume evictions reply).mark?.any (Mark.removes p) = true := by
  rw [Call.mark_resume hm]
  cases hnext : m.next with
  | none => exact absurd (Mark.zrem_of_next hnext) hpc
  | some m' => simp [Mark.removes_of_next hnext, hp]

theorem Call.Runs.expired (hruns : c.Runs config command)
    (hexec : redis.exec command = some (redis', reply)) (evictions : String → Nat)
    (hnone : redis.hashes p.hashKey = none)
    (hwrites : ∀ r, c.republish? = some r → r.pair = p → r.pc = .expire ∨ r.pc = .zadd)
    : isUndecided redis' p = true
        ∨ (c.resume evictions reply).mark?.any (Mark.removes p) = true
        ∨ redis'.get p.hashKey .status = none
          ∧ (c.resume evictions reply).isFilling p = true := by
  have hget : ∀ field, redis.get p.hashKey field = none := by
    intro field
    simp [Redis.Server.get, hnone]
  have hsame : (∀ field, redis'.get p.hashKey field = redis.get p.hashKey field)
      → isUndecided redis' p = true :=
    fun h => isUndecided_iff.mpr (.inl (hashes_of_get_eq h hnone))
  by_cases hkey : command.key? = some p.hashKey
  . cases hruns with
    | save a pc hc hpc =>
      rw [Save.key?_command] at hkey
      cases pc with
      | hsetnx =>
        have hp := Pair.hashKey_injective (Option.some.inj hkey)
        have hkey' : a.save.hashKey = p.hashKey := Option.some.inj hkey
        rcases exec_hsetnx hexec with ⟨hsome, -, -⟩ | ⟨-, rfl, rfl⟩
        . rw [hkey', hget] at hsome
          contradiction
        . refine .inr (.inr ⟨?_, ?_⟩)
          . rw [get_set, if_neg (by simp), hget]
          . simp [hc, resume, Accept.resume, hpc, isFilling, Accept.pair, hp]
      | hset =>
        have hp := Pair.hashKey_injective (Option.some.inj hkey)
        refine .inl (isUndecided_iff.mpr (.inr ?_))
        rw [← hp]
        exact Save.get_hset hexec _ (by simp [Save.fields])
      | expire =>
        left
        cases hexec
        exact hsame fun _ => get_setTtl ..
      | zadd => contradiction
    | mark m hm =>
      rw [Mark.key?_command] at hkey
      split at hkey
      . contradiction
      . next hpc =>
        have hp := Pair.hashKey_injective (Option.some.inj hkey)
        exact .inr (.inl (Call.marks_resume hm hp hpc _ _))
    | republish r hr =>
      rw [Republish.key?_command] at hkey
      split at hkey
      . contradiction
      . next hpc =>
        have hp := Pair.hashKey_injective (Option.some.inj hkey)
        left
        rcases hwrites r hr hp with hexpire | hzadd
        . rw [Republish.command, hexpire] at hexec
          cases hexec
          exact hsame fun _ => get_setTtl ..
        . contradiction
    | orphan member hmember => contradiction
    | hgetall s userId couponTypeId member members result hc hpc =>
      obtain ⟨rfl, -⟩ := exec_hgetall hexec
      exact .inl (hsame fun _ => rfl)
    | zrangebyscore s hc hpc => contradiction
  . exact .inl (hsame (exec_get_of_ne hkey hexec))

theorem Call.Runs.unrecorded (hruns : c.Runs config command)
    (hexec : redis.exec command = some (redis', reply)) (evictions : String → Nat) (p : Pair)
    : redis'.get p.hashKey .status = redis.get p.hashKey .status
        ∨ isUndecided redis' p = true
        ∨ (c.resume evictions reply).mark?.any (Mark.removes p) = true := by
  rcases hruns.status hexec p with hsame | ⟨-, -, -, -, hpending⟩ | ⟨m, hm, hp, hpc, -⟩
  . exact .inl hsame
  . exact .inr (.inl (isUndecided_iff.mpr (.inr hpending)))
  . exact .inr (.inr (Call.marks_resume hm hp (by simp [hpc]) _ _))

theorem Call.relisted (hawaits : c.awaits config = .redis command)
    (hexec : redis.exec command = some (redis', reply))
    (hscore : (redis'.zset.score p.member).isSome = true)
    : (redis.zset.score p.member).isSome = true
        ∨ (∃ a, c = .accept a ∧ a.pc = .save .zadd ∧ a.pair = p)
        ∨ ∃ w pending r stale, c = .sweep w ∧ w.pc = .recordRepublish pending r stale
            ∧ r.pc = .zadd ∧ r.pair = p := by
  obtain ⟨score, hsome⟩ := Option.isSome_iff_exists.mp hscore
  rcases (runs_of_awaits hawaits).score hexec hsome with hsome | ⟨q, hlists, hmember, -⟩
  . exact .inl (Option.isSome_of_eq_some hsome)
  obtain rfl := Pair.member_injective hmember
  unfold lists at hlists
  split at hlists
  . next a =>
    split at hlists
    . next hpc =>
      simp only [awaits, hpc, Await.redis.injEq] at hawaits
      rw [← hawaits] at hexec
      rw [exec_expire hexec] at hscore
      exact .inl hscore
    . next hpc => exact .inr (.inl ⟨a, rfl, hpc, beq_iff_eq.mp hlists⟩)
    . contradiction
  . next w =>
    split at hlists
    . next pending r stale hpc =>
      simp only [Bool.and_eq_true, Bool.or_eq_true, beq_iff_eq] at hlists
      obtain ⟨hexpire | hzadd, hp⟩ := hlists
      . simp only [awaits, hpc, Await.redis.injEq, Republish.command, hexpire] at hawaits
        rw [← hawaits] at hexec
        rw [exec_expire hexec] at hscore
        exact .inl hscore
      . exact .inr (.inr ⟨w, pending, r, stale, rfl, hpc, hzadd, hp⟩)
    . contradiction
  . contradiction

theorem Call.isFilling_spec (h : c.isFilling p = true)
    : ∃ a, c = .accept a ∧ a.pc = .save .hset ∧ a.pair = p := by
  unfold isFilling at h
  split at h
  . next a =>
    split at h
    . next hpc => exact ⟨a, rfl, hpc, beq_iff_eq.mp h⟩
    . contradiction
  . contradiction

end Steps

def Accounted (s : State) (p : Pair) : Prop :=
  isUndecided s.shared.redis p = true
    ∨ isRecording s p = true
    ∨ s.shared.redis.get p.hashKey .status = none ∧ s.calls.any (Call.isFilling p) = true

section Invariant

variable {config : Config} {σ' : Shared} {s t : State} {c c' : Call} {x : Input} {p : Pair} {i : Nat}

theorem any_set_new {P : Call → Bool} (hi : s.calls[i]? = some c) (h : P c' = true)
    : (s.calls.set i c').any P = true :=
  List.any_eq_true.mpr ⟨c', List.mem_set (List.getElem?_eq_some_iff.mp hi).1 _, h⟩

theorem any_set_old {P : Call → Bool} (hi : s.calls[i]? = some c) (h : s.calls.any P = true)
    : P c = true ∨ (s.calls.set i c').any P = true := by
  obtain ⟨d, hd, hP⟩ := List.any_eq_true.mp h
  obtain ⟨j, hj⟩ := List.mem_iff_getElem?.mp hd
  by_cases hji : j = i
  . subst hji
    rw [hi, Option.some.injEq] at hj
    exact .inl (hj ▸ hP)
  . right
    rw [← List.getElem?_set_ne (Ne.symm hji)] at hj
    exact List.any_eq_true.mpr ⟨d, List.mem_of_getElem? hj, hP⟩

theorem accounted_replied {command : Command} {reply : Reply} (hi : s.calls[i]? = some c)
    (hturn : c.inTurn s = true) (hawaits : c.awaits config = .redis command)
    (hexec : s.shared.redis.exec command = some (σ'.redis, reply))
    (h : (s.shared.redis.zset.score p.member).isSome = true → Accounted s p)
    (hlisted : (σ'.redis.zset.score p.member).isSome = true)
    : Accounted ⟨σ', s.calls.set i (c.resume s.shared.redis.evictions reply)⟩ p := by
  have hruns := Call.runs_of_awaits hawaits
  have hbefore : Accounted s p := by
    rcases Call.relisted hawaits hexec hlisted with hlisted | ⟨a, rfl, hpc, rfl⟩
      | ⟨w, pending, r, stale, rfl, hpc, hzadd, rfl⟩
    . exact h hlisted
    . simp only [Call.inTurn, hpc, Bool.or_eq_true] at hturn
      exact hturn.imp_right .inl
    . simp only [Call.inTurn, hpc, hzadd, isQueued, Bool.and_eq_true] at hturn
      exact h hturn.1
  have hwrites : s.shared.redis.hashes p.hashKey = none
      → ∀ r, c.republish? = some r → r.pair = p → r.pc = .expire ∨ r.pc = .zadd := by
    rintro hnone r hr rfl
    unfold Call.republish? at hr
    split at hr
    . split at hr
      . next hpc =>
        cases hr
        simp only [Call.inTurn, hpc] at hturn
        split at hturn
        . simp [hnone] at hturn
        . simp [hnone] at hturn
        . next hexpire => exact .inl hexpire
        . next hzadd => exact .inr hzadd
      . contradiction
    . contradiction
  have hstatus := hruns.unrecorded hexec s.shared.redis.evictions p
  rcases hbefore with hundecided | hrecording | ⟨hnone, hfilling⟩
  . rcases isUndecided_iff.mp hundecided with hnone | hpending
    . rcases hruns.expired hexec s.shared.redis.evictions hnone (hwrites hnone) with
        hundecided | hmark | ⟨hnone, hfilling⟩
      . exact .inl hundecided
      . exact .inr (.inl (any_set_new hi hmark))
      . exact .inr (.inr ⟨hnone, any_set_new hi hfilling⟩)
    . rcases hstatus with hsame | hundecided | hmark
      . exact .inl (isUndecided_iff.mpr (.inr (hsame.trans hpending)))
      . exact .inl hundecided
      . exact .inr (.inl (any_set_new hi hmark))
  . rcases any_set_old hi hrecording with hmark | hothers
    . obtain ⟨m, hm, hremoves⟩ := (Option.any_eq_true _ _).mp hmark
      simp only [Mark.removes, Bool.and_eq_true, beq_iff_eq] at hremoves
      obtain ⟨rfl, -⟩ := hremoves
      by_cases hzrem : m.pc = .zrem
      . rw [Call.awaits_of_mark config hm, Await.redis.injEq, Mark.command, hzrem] at hawaits
        rw [← hawaits] at hexec
        rw [exec_zrem hexec] at hlisted
        change ((s.shared.redis.zset.remove m.pair.member).score m.pair.member).isSome = true
          at hlisted
        rw [Redis.ZSet.score_remove, if_pos rfl] at hlisted
        contradiction
      . exact .inr (.inl (any_set_new hi (Call.marks_resume hm rfl hzrem _ _)))
    . exact .inr (.inl hothers)
  . rcases any_set_old hi hfilling with hfilling | hothers
    . obtain ⟨a, rfl, hpc, rfl⟩ := Call.isFilling_spec hfilling
      simp only [Call.awaits, hpc, Await.redis.injEq] at hawaits
      rw [← hawaits] at hexec
      exact .inl (isUndecided_iff.mpr (.inr (Save.get_hset hexec _ (by simp [Save.fields]))))
    . rcases hstatus with hsame | hundecided | hmark
      . exact .inr (.inr ⟨hsame.trans hnone, hothers⟩)
      . exact .inl hundecided
      . exact .inr (.inl (any_set_new hi hmark))

theorem accounted_step (hi : s.calls[i]? = some c) (hok : c.succeeds config s.shared x = true)
    (hturn : c.inTurn s = true) (hstep : c.step config s.shared x = some (σ', c'))
    (h : (s.shared.redis.zset.score p.member).isSome = true → Accounted s p)
    (hlisted : (σ'.redis.zset.score p.member).isSome = true)
    : Accounted ⟨σ', s.calls.set i c'⟩ p := by
  rcases (Call.step_spec hstep).of_succeeds hok with ⟨command, reply, hawaits, hexec, rfl⟩
    | ⟨hawaits, hredis⟩
  . exact accounted_replied hi hturn hawaits hexec h hlisted
  . have hmark : c.mark?.any (Mark.removes p) = true → False := by
      intro hmark
      obtain ⟨m, hm, -⟩ := (Option.any_eq_true _ _).mp hmark
      exact hawaits _ (Call.awaits_of_mark config hm)
    have hfilling : c.isFilling p = true → False := by
      intro hfilling
      obtain ⟨a, rfl, hpc, -⟩ := Call.isFilling_spec hfilling
      exact hawaits (a.save.command .hset) (by simp only [Call.awaits, hpc])
    rw [hredis] at hlisted
    unfold Accounted
    rw [hredis]
    rcases h hlisted with hundecided | hrecording | ⟨hnone, hfills⟩
    . exact .inl hundecided
    . exact .inr (.inl ((any_set_old hi hrecording).resolve_left hmark))
    . exact .inr (.inr ⟨hnone, (any_set_old hi hfills).resolve_left hfilling⟩)

theorem Accounted.start (h : Accounted s p) (c : Call) : Accounted ⟨s.shared, s.calls ++ [c]⟩ p := by
  unfold Accounted isRecording at h ⊢
  simp only [List.any_append, Bool.or_eq_true]
  exact h.imp_right (Or.imp .inl (And.imp_right .inl))

theorem Accounted.evict {redis : Redis} {key : String} (h : Accounted s p)
    (hevict : s.shared.redis.evict key = some redis)
    : Accounted ⟨{ s.shared with redis := redis }, s.calls⟩ p := by
  obtain ⟨-, hget, -⟩ := evict_spec _ hevict
  by_cases hkey : p.hashKey = key
  . refine .inl (isUndecided_iff.mpr (.inl ?_))
    rw [← Option.not_isSome_iff_eq_none, isSome_hashes]
    rintro ⟨field, hfield⟩
    rw [hget, if_pos hkey] at hfield
    contradiction
  . have hsame : ∀ field, redis.get p.hashKey field = s.shared.redis.get p.hashKey field := by
      intro field
      rw [hget, if_neg hkey]
    rcases h with hundecided | hrecording | ⟨hnone, hfills⟩
    . left
      rcases isUndecided_iff.mp hundecided with hnone | hpending
      . exact isUndecided_iff.mpr (.inl (hashes_of_get_eq hsame hnone))
      . exact isUndecided_iff.mpr (.inr ((hsame _).trans hpending))
    . exact .inr (.inl hrecording)
    . exact .inr (.inr ⟨(hsame _).trans hnone, hfills⟩)

structure QueueInv (s : State) : Prop where
  accounted : ∀ p : Pair, (s.shared.redis.zset.score p.member).isSome = true → Accounted s p
  entries : ∀ w, .sweep w ∈ s.calls → ∀ e ∈ w.pc.held, e.status = IssuePendingStatus.pending.text
  paired : ∀ w, .sweep w ∈ s.calls → w.pc.Paired

theorem QueueInv.unrecorded (h : QueueInv s) (hqueued : isQueued s p = true)
    : Unrecorded s.shared.redis p := by
  simp only [isQueued, Bool.and_eq_true, Bool.not_eq_true'] at hqueued
  rcases h.accounted p hqueued.1 with hundecided | hrecording | ⟨hnone, -⟩
  . exact .of_isUndecided hundecided
  . rw [hqueued.2] at hrecording
    contradiction
  . exact .inl hnone

theorem QueueInv.start (h : QueueInv s) (hstart : c.start config s.shared s.calls = true)
    : QueueInv ⟨s.shared, s.calls ++ [c]⟩ where
  accounted p hlisted := (h.accounted p hlisted).start c
  entries w hw e he := by
    rcases List.mem_append.mp hw with hw | hw
    . exact h.entries w hw e he
    . rw [← List.mem_singleton.mp hw] at hstart
      rw [(Call.sweep_of_start hstart).1] at he
      contradiction
  paired w hw := by
    rcases List.mem_append.mp hw with hw | hw
    . exact h.paired w hw
    . rw [← List.mem_singleton.mp hw] at hstart
      rw [(Call.sweep_of_start hstart).1]
      trivial

theorem QueueInv.step (h : QueueInv s) (hi : s.calls[i]? = some c)
    (hok : c.succeeds config s.shared x = true) (hturn : c.inTurn s = true)
    (hstep : c.step config s.shared x = some (σ', c'))
    : QueueInv ⟨σ', s.calls.set i c'⟩ where
  accounted p hlisted := accounted_step hi hok hturn hstep (h.accounted p) hlisted
  entries w hw e he := by
    rcases List.mem_or_eq_of_mem_set hw with hw | rfl
    . exact h.entries w hw e he
    cases c with
    | accept a => cases Call.step_spec hstep
    | deliver d => cases Call.step_spec hstep
    | sweep v =>
      obtain ⟨pc, heq, hmoves⟩ := Sweep.moves_of_step hstep
      cases heq
      rcases hmoves.held he with
        he | ⟨userId, couponTypeId, _, _, _, hash, hpc, -, hhash, hread⟩
      . exact h.entries v (List.mem_of_getElem? hi) e he
      . simp only [Call.inTurn, hpc] at hturn
        have hfield := (fields_of_readEntry hread).2.2.1
        rw [← get_of_hashes hhash] at hfield
        have hunrecorded := h.unrecorded hturn
        unfold Unrecorded Pair.hashKey at hunrecorded
        rw [hfield] at hunrecorded
        rcases hunrecorded with hnone | hpending
        . contradiction
        . exact Option.some.inj hpending
  paired w hw := by
    rcases List.mem_or_eq_of_mem_set hw with hw | rfl
    . exact h.paired w hw
    cases c with
    | accept a => cases Call.step_spec hstep
    | deliver d => cases Call.step_spec hstep
    | sweep v =>
      obtain ⟨pc, heq, hmoves⟩ := Sweep.moves_of_step hstep
      cases heq
      exact hmoves.paired (h.paired v (List.mem_of_getElem? hi))

theorem queueInv {clock : Nat} {ok : State → Act → Prop}
    (hturns : ∀ s a, ok s a → succeeding config s a = true ∧ inTurn s a = true)
    (hrun : (calls config).machine.Run ok (init clock) s)
    : QueueInv s := by
  apply hrun.invariant
  . exact ⟨fun _ hlisted => by contradiction, fun _ hw => by contradiction,
      fun _ hw => by contradiction⟩
  . intro u a v h hok hnext
    obtain ⟨hsucceeding, hturn⟩ := hturns u a hok
    cases a with
    | start c =>
      obtain ⟨hstart, rfl⟩ := Calls.next_start hnext
      exact h.start hstart
    | step i x =>
      obtain ⟨c, σ', c', hi, -, hstep, rfl⟩ := Calls.next_step hnext
      simp only [succeeding, inTurn, hi, Option.all_some] at hsucceeding hturn
      exact h.step hi hsucceeding hturn hstep
    | env e =>
      obtain ⟨shared, henv, rfl⟩ := Calls.next_env (C := calls config) hnext
      cases e with
      | tick ms =>
        obtain rfl := env_tick henv
        exact ⟨h.accounted, h.entries, h.paired⟩
      | expire userId couponTypeId =>
        obtain ⟨redis, hevict, rfl⟩ := env_expire henv
        obtain ⟨-, -, -, hzset, -⟩ := evict_spec _ hevict
        refine ⟨fun p hlisted => ?_, h.entries, h.paired⟩
        dsimp only at hlisted
        rw [hzset] at hlisted
        exact (h.accounted p hlisted).evict hevict

theorem Call.operates_of_filling (h : c.isFilling p = true) : c.operates p = true := by
  obtain ⟨a, rfl, hpc, rfl⟩ := isFilling_spec h
  simp [operates, hpc]

theorem Call.operates_of_removes (h : c.mark?.any (Mark.removes p) = true) : c.operates p = true := by
  obtain ⟨m, hm, hremoves⟩ := (Option.any_eq_true _ _).mp h
  simp only [Mark.removes, Bool.and_eq_true] at hremoves
  cases c with
  | accept a => contradiction
  | sweep w => simp [operates, hm, hremoves.1]
  | deliver d => simp [operates, hm, hremoves.1]

theorem QueueInv.listed (h : QueueInv s) (hidle : ∀ c ∈ s.calls, c.operates p = false)
    (hlisted : (s.shared.redis.zset.score p.member).isSome = true)
    : isUndecided s.shared.redis p = true := by
  have hnone : ∀ P : Call → Bool, (∀ c, P c = true → c.operates p = true)
      → s.calls.any P = false := by
    intro P hP
    rw [List.any_eq_false]
    intro c hc hPc
    have hoperates := hP c hPc
    rw [hidle c hc] at hoperates
    contradiction
  rcases h.accounted p hlisted with hundecided | hrecording | ⟨-, hfills⟩
  . exact hundecided
  . rw [isRecording, hnone _ fun _ => Call.operates_of_removes] at hrecording
    contradiction
  . rw [hnone _ fun _ => Call.operates_of_filling] at hfills
    contradiction

theorem QueueInv.publishes {payload : CouponIssueRequestPayload} (h : QueueInv s) {act : Act}
    (hturn : inTurn s act = true) (hnext : (calls config).next s act = some t)
    (hpublishes : Republishes s t payload)
    : Unrecorded t.shared.redis (payload.userId, payload.couponTypeId) := by
  obtain ⟨events, hhistory, hmem⟩ := hpublishes
  have hquiet : t.shared.history ≠ s.shared.history := by
    intro hsame
    rw [hsame, List.self_eq_append_right] at hhistory
    rw [hhistory] at hmem
    contradiction
  cases act with
  | start c =>
    obtain ⟨_, rfl⟩ := Calls.next_start hnext
    exact absurd rfl hquiet
  | env e =>
    obtain ⟨shared, henv, rfl⟩ := Calls.next_env (C := calls config) hnext
    refine absurd ?_ hquiet
    cases e with
    | tick ms =>
      obtain rfl := env_tick henv
      rfl
    | expire userId couponTypeId =>
      obtain ⟨redis, hevict, rfl⟩ := env_expire henv
      rfl
  | step i x =>
    obtain ⟨c, σ', c', hi, -, hstep, rfl⟩ := Calls.next_step hnext
    have hframe := (Call.step_frame hstep).1
    dsimp only at hhistory
    rw [hframe, List.append_cancel_left_eq] at hhistory
    rw [← hhistory] at hmem
    simp only [inTurn, hi, Option.all_some] at hturn
    cases c with
    | accept a =>
      cases Call.step_spec hstep <;> contradiction
    | deliver d => cases Call.step_spec hstep <;> contradiction
    | sweep w =>
      obtain ⟨pc, rfl, hmoves⟩ := Sweep.moves_of_step hstep
      have hpc : ∃ stale, pc = .publishForScheduler payload stale := by
        rw [Sweep.events_goto] at hmem
        unfold SweepPc.events at hmem
        split at hmem
        . simp at hmem
        . simp only [List.mem_singleton, Event.publishedForScheduler.injEq] at hmem
          exact ⟨_, by rw [hmem]⟩
        . contradiction
      obtain ⟨stale, rfl⟩ := hpc
      obtain ⟨pending, r, createdAt, hpc, hzadd, -, rfl, reply, hexec⟩ := hmoves.publishes
      have hpaired := h.paired w (List.mem_of_getElem? hi)
      rw [hpc] at hpaired
      simp only [Call.inTurn, hpc, hzadd] at hturn
      rw [Republish.command, hzadd] at hexec
      have hunrecorded := h.unrecorded hturn
      rw [hpaired] at hunrecorded
      rw [exec_zadd hexec]
      exact hunrecorded

/--
As long as the flows take their turns, a concluded application leaves the queue for good.
-/
theorem concluded_retires {clock : Nat}
    (hrun : (calls config).machine.Run (fun s a => succeeding config s a = true ∧ inTurn s a = true)
      (init clock) s)
    : Retires config (fun s a => succeeding config s a = true ∧ inTurn s a = true) s := by
  have hinv := queueInv (fun _ _ h => h) hrun
  refine ⟨fun p => hinv.listed, fun w hw e he => ?_, fun _ _ _ hok => hinv.publishes hok.2⟩
  exact hinv.entries w hw e (SweepPc.mem_held_of_mem_entries he)

end Invariant

def soldOutValue : String :=
  Js.Json.stringify (CouponIssueResultPayload.fields
    ⟨"a", .ofInt 1, .ofInt 10, .ofInt 20, .soldOut, none, "1970-01-01T00:00:11Z"⟩)

theorem start_soldOut
    : Deliver.start defaults soldOutValue
        = .markResult ⟨"a", .ofInt 1, .ofInt 10, .ofInt 20, .soldOut, none, "1970-01-01T00:00:11Z"⟩ 1
          (Deliver.mark
            ⟨"a", .ofInt 1, .ofInt 10, .ofInt 20, .soldOut, none, "1970-01-01T00:00:11Z"⟩) :=
  Deliver.start_of_parse (Deliver.parse_stringify _ rfl rfl rfl fun h => nomatch h) (by decide)

def delivered (i : Nat) : List Act :=
  .start (.deliver ⟨soldOutValue, Deliver.start defaults soldOutValue⟩)
    :: List.replicate 3 (.step i .ok)

def foundOnce : List Act :=
  .start (newAccept (application "a" 0)) :: finish 0
    ++ [.env (.tick 10000), .start (newSweep 0), .step 1 .ok, .step 1 .ok, .step 1 (.answer none)]

def isConcluded (s : State) : Bool :=
  s.calls.all (fun c => match c.awaits defaults with | .nothing => true | _ => false)
    && s.shared.redis.get (Pair.hashKey (application "a" 0).pair) .status
      == some IssuePendingStatus.soldOut.text

theorem concluded_retires_late
    : ∃ s, (calls defaults).machine.Run
          (fun s a => succeeding defaults s a = true ∧ inTurn s a = true) (init 0) s
        ∧ isConcluded s = true
        ∧ Retires defaults (fun s a => succeeding defaults s a = true ∧ inTurn s a = true) s := by
  obtain ⟨s, hrun, hs⟩ := Machine.exists_run_of_exec (calls defaults).machine
    (fun s a => succeeding defaults s a && inTurn s a)
    (fun s a => succeeding defaults s a = true ∧ inTurn s a = true) (fun _ _ => by simp)
    (foundOnce ++ List.replicate 5 (.step 1 .ok) ++ delivered 2) (init 0) isConcluded
    (by
      simp only [delivered, start_soldOut, Machine.exec_append, Deliver.exec_start start_soldOut]
      decide +kernel)
  exact ⟨s, hrun, hs, concluded_retires hrun⟩

/--
The result is recorded between the answer of the lookup and `recordRepublish`, which lists the pair
again.
-/
theorem concluded_returns
    : ¬∀ (config : Config) (clock : Nat) (s : State),
        (calls config).machine.Run (fun s a => succeeding config s a = true) (init clock) s
          → Retires config (fun s a => succeeding config s a = true) s := by
  intro h
  obtain ⟨s, hrun, hs⟩ := Machine.exists_run_of_exec (calls defaults).machine (succeeding defaults)
    (fun s a => succeeding defaults s a = true) (fun _ _ h => h)
    (foundOnce ++ delivered 2 ++ List.replicate 5 (.step 1 .ok)) (init 0)
    (fun s => isConcluded s
      && (s.shared.redis.zset.score (Pair.member (application "a" 0).pair)).isSome
      && s.calls.all fun c => !c.operates (application "a" 0).pair)
    (by
      simp only [delivered, start_soldOut, Machine.exec_append, Deliver.exec_start start_soldOut]
      decide +kernel)
  simp only [Bool.and_eq_true, List.all_eq_true, Bool.not_eq_true'] at hs
  obtain ⟨⟨hconcluded, hlisted⟩, hidle⟩ := hs
  have hundecided := (h defaults 0 s hrun).listed _ hidle hlisted
  simp only [isConcluded, Bool.and_eq_true, beq_iff_eq] at hconcluded
  rcases Unrecorded.of_isUndecided hundecided with hnone | hpending
  . rw [hconcluded.2] at hnone
    contradiction
  . rw [hconcluded.2] at hpending
    contradiction

end ServerB
