import CouponIssuance.ServerB.Accepted
import CouponIssuance.ServerB.Deadline
import CouponIssuance.ServerB.Progress
import CouponIssuance.ServerB.Repeated

/-!
This module contains the steps of calls that complete, and what the flows know of the hashes that
they work with: as long as no hash expires under them, the entries of a sweep are those of the
application that has claimed the hash.
-/

namespace ServerB

open Concurrency Redis.Server Js

section Completes

variable {config : Config} {σ σ' : Shared} {c c' : Call} {x : Input}

theorem Call.Steps.of_completes (hsteps : c.Steps config σ σ' x c')
    (h : c.completes config σ x = true)
    : (∃ command reply, c.awaits config = .redis command
          ∧ σ.redis.exec command = some (σ'.redis, reply)
          ∧ c' = c.resume σ.redis.evictions reply)
        ∨ (∃ userId couponTypeId result, c.awaits config = .lookup userId couponTypeId
          ∧ x = .answer result ∧ σ'.redis = σ.redis ∧ c' = c.answered config σ.clock result)
        ∨ (∃ payload, c.awaits config = .publish payload ∧ σ'.redis = σ.redis
          ∧ c' = c.published) := by
  cases hsteps with
  | replied command reply hawaits hexec => exact .inl ⟨command, reply, hawaits, hexec, rfl⟩
  | lost command reply hawaits hexec => simp [completes, hawaits] at h
  | failed x command hawaits hredis hx =>
    rcases hx with rfl | ⟨hnone, rfl | rfl⟩
    . simp [completes, hawaits] at h
    . simp [completes, hawaits, hnone] at h
    . simp [completes, hawaits] at h
  | published x payload hawaits hredis => exact .inr (.inr ⟨payload, hawaits, hredis, rfl⟩)
  | answered userId couponTypeId result hawaits hredis =>
    exact .inr (.inl ⟨userId, couponTypeId, result, hawaits, rfl, hredis, rfl⟩)
  | unanswered executed userId couponTypeId hawaits hredis => simp [completes, hawaits] at h
  | crashed hawaits hredis =>
    cases hc : c.awaits config with
    | nothing => exact absurd hc hawaits
    | _ => simp [completes, hc] at h

inductive Accept.Moves (redis redis' : Redis) (a : Accept) : Accept → Prop where
  | refused (hpc : a.pc = .save .hsetnx) (hredis : redis' = redis)
      : Moves redis redis' a
          { a with pc := .returned (IssueAcceptance.duplicate a.save.requestId) }
  | claims (hpc : a.pc = .save .hsetnx) (hnone : redis.get a.pair.hashKey .userId = none)
      (hredis : redis' = redis.set a.pair.hashKey .userId (toString a.save.userId))
      : Moves redis redis' a
          { a with generation := some (redis.evictions a.pair.hashKey), pc := .save .hset }
  | fills (reply : Reply) (hpc : a.pc = .save .hset)
      (hexec : redis.exec (a.save.command .hset) = some (redis', reply))
      : Moves redis redis' a { a with pc := .save .expire }
  | expires (hpc : a.pc = .save .expire) (hredis : redis' = redis.setTtl a.pair.hashKey)
      : Moves redis redis' a { a with pc := .save .zadd }
  | lists (hpc : a.pc = .save .zadd)
      (hredis : redis' = { redis with zset := redis.zset.add a.pair.member a.save.createdAt })
      : Moves redis redis' a { a with pc := .publish }
  | published (hpc : a.pc = .publish) (hredis : redis' = redis)
      : Moves redis redis' a a.published

theorem Accept.moves_of_step {a : Accept} (h : (Call.accept a).step config σ x = some (σ', c'))
    (hcompletes : (Call.accept a).completes config σ x = true)
    : ∃ a', c' = .accept a' ∧ a.Moves σ.redis σ'.redis a' := by
  rcases (Call.step_spec h).of_completes hcompletes with ⟨command, reply, hawaits, hexec, rfl⟩
    | ⟨_, _, _, hawaits, -⟩ | ⟨payload, hawaits, hredis, rfl⟩
  . refine ⟨_, rfl, ?_⟩
    simp only [Call.awaits] at hawaits
    split at hawaits
    . next q hq =>
      rw [Await.redis.injEq] at hawaits
      subst hawaits
      unfold resume
      rw [hq]
      cases q with
      | hsetnx =>
        rcases exec_hsetnx hexec with ⟨-, hredis, rfl⟩ | ⟨hnone, hredis, rfl⟩
        . exact .refused hq hredis
        . exact .claims hq hnone hredis
      | hset => exact .fills reply hq hexec
      | expire => exact .expires hq (exec_expire hexec)
      | zadd => exact .lists hq (exec_zadd hexec)
    . contradiction
    . contradiction
  . simp only [Call.awaits] at hawaits
    split at hawaits <;> contradiction
  . refine ⟨_, rfl, .published ?_ hredis⟩
    simp only [Call.awaits] at hawaits
    split at hawaits
    . contradiction
    . assumption
    . contradiction

end Completes

/-- The hash of the pair is still the one that the entry was made of. -/
def PendingIssue.MadeOf (redis : Redis) (e : PendingIssue) : Prop :=
  (redis.get e.pair.hashKey .requestId).isSome = true
    ∧ ∃ text, redis.get e.pair.hashKey .createdAt = some text
      ∧ e.createdAt = Date.ofNumber (JsNumber.ofString text)

def Accept.hasFilled (a : Accept) : Prop :=
  a.pc = .save .expire ∨ a.pc = .save .zadd ∨ writtenBy a.pc = true

/--
What the flows know of the hashes that they work with.
-/
structure Entered (s : State) : Prop where
  fresh : ∀ p : Pair, s.shared.redis.get p.hashKey .userId = none
    → s.shared.redis.get p.hashKey .requestId = none
  decimal : ∀ a, .accept a ∈ s.calls → isDecimalPair a.pair = true
  owns : ∀ a q, .accept a ∈ s.calls → a.pc = .save q → q ≠ .hsetnx → a.Owns s.shared.redis
  filling : ∀ a, .accept a ∈ s.calls → a.pc = .save .hset
    → s.shared.redis.get a.pair.hashKey .requestId = none
  filled : ∀ a, .accept a ∈ s.calls → a.hasFilled → a.Owns s.shared.redis
    → a.save.Left s.shared.redis ∧ ∃ attempts, Readable s.shared.redis a.pair attempts
  held : ∀ w, .sweep w ∈ s.calls → ∀ e ∈ w.pc.held, e.MadeOf s.shared.redis
  paired : ∀ w, .sweep w ∈ s.calls → w.pc.Paired

section Entered

variable {config : Config} {σ' : Shared} {s : State} {c c' d : Call} {x : Input} {i j : Nat}
variable {redis redis' : Redis} {p : Pair} {e : PendingIssue} {delay : Nat}

theorem AcceptOutline.unique {a b : Accept} (h : AcceptOutline writtenBy s)
    (hi : s.calls[i]? = some (.accept a)) (hj : s.calls[j]? = some (.accept b)) (hij : i ≠ j)
    (hp : a.pair = b.pair) (howns : a.Owns s.shared.redis)
    : ¬b.Owns s.shared.redis :=
  (h.apart i j _ _ hij hi hj).not_owns rfl rfl hp howns

theorem PendingIssue.MadeOf.of_same (h : e.MadeOf redis)
    (hsame : ∀ field ∈ [Field.requestId, .eventId, .createdAt],
      redis'.get e.pair.hashKey field = redis.get e.pair.hashKey field)
    : e.MadeOf redis' := by
  obtain ⟨hrequestId, text, hcreatedAt, hdate⟩ := h
  refine ⟨?_, text, ?_, hdate⟩
  . rw [hsame _ (by simp)]
    exact hrequestId
  . rw [hsame _ (by simp)]
    exact hcreatedAt

theorem PendingIssue.madeOf_of_readEntry {userId couponTypeId : JsNumber} {hash : Redis.Hash Field}
    (hhash : redis.hashes (RedisKeys.pendingHash userId couponTypeId) = some hash)
    (hread : readEntry userId couponTypeId hash.fields = some e)
    : e.MadeOf redis := by
  have hkey : e.pair.hashKey = RedisKeys.pendingHash userId couponTypeId := by
    rw [pair_of_readEntry hread]
    rfl
  obtain ⟨hrequestId, -, -, text, hcreatedAt, hdate⟩ := fields_of_readEntry hread
  rw [← get_of_hashes hhash] at hrequestId hcreatedAt
  rw [← hkey] at hrequestId hcreatedAt
  exact ⟨Option.isSome_of_eq_some hrequestId, text, hcreatedAt, hdate⟩

/-- Only the `HSET` of an `accept` changes what a hash says about its application. -/
theorem Call.origin_of_step (hstep : c.step config s.shared x = some (σ', c'))
    (hcompletes : c.completes config s.shared x = true) (p : Pair)
    : (∀ field ∈ [Field.requestId, .eventId, .createdAt],
          σ'.redis.get p.hashKey field = s.shared.redis.get p.hashKey field)
        ∨ ∃ a reply, c = .accept a ∧ a.pc = .save .hset ∧ a.pair = p
          ∧ s.shared.redis.exec (a.save.command .hset) = some (σ'.redis, reply)
          ∧ c' = .accept { a with pc := .save .expire } := by
  rcases (Call.step_spec hstep).redis with hredis | ⟨command, reply, hruns, hexec⟩
  . left
    intro field _
    rw [hredis]
  rcases hruns.origin hexec p with hsame | ⟨a, rfl, hpc, hp⟩
  . exact .inl hsame
  right
  obtain ⟨a', rfl, hmoves⟩ := Accept.moves_of_step hstep hcompletes
  cases hmoves with
  | fills reply _ hexec => exact ⟨a, reply, rfl, hpc, hp, hexec, rfl⟩
  | refused hpc' _ => cases hpc.symm.trans hpc'
  | claims hpc' _ _ => cases hpc.symm.trans hpc'
  | expires hpc' _ => cases hpc.symm.trans hpc'
  | lists hpc' _ => cases hpc.symm.trans hpc'
  | published hpc' _ => cases hpc.symm.trans hpc'

theorem Readable.step {attempts : JsNumber} (h : Readable s.shared.redis p attempts)
    (hsteps : c.Steps config s.shared σ' x c')
    : ∃ attempts, Readable σ'.redis p attempts := by
  rcases hsteps.redis with hredis | ⟨command, reply, hruns, hexec⟩
  . rw [hredis]
    exact ⟨attempts, h⟩
  . exact h.exec hruns hexec

/-- An application of another call stays as it is. -/
theorem Entered.same_other {b : Accept} (houtline : AcceptOutline writtenBy s) (h : Entered s)
    (hi : s.calls[i]? = some c) (hj : s.calls[j]? = some (.accept b)) (hji : j ≠ i)
    (howns : b.Owns s.shared.redis) (hstep : c.step config s.shared x = some (σ', c'))
    (hcompletes : c.completes config s.shared x = true)
    : ∀ field ∈ [Field.requestId, .eventId, .createdAt],
        σ'.redis.get b.pair.hashKey field = s.shared.redis.get b.pair.hashKey field := by
  rcases Call.origin_of_step hstep hcompletes b.pair with hsame | ⟨a, _, rfl, hpc, hp, -⟩
  . exact hsame
  . have howns' := h.owns a .hset (List.mem_of_getElem? hi) hpc (by decide)
    exact absurd howns (houtline.unique hi hj (Ne.symm hji) hp howns')

theorem Entered.same_held (h : Entered s) (hi : s.calls[i]? = some c)
    (hstep : c.step config s.shared x = some (σ', c'))
    (hcompletes : c.completes config s.shared x = true) (he : e.MadeOf s.shared.redis)
    : e.MadeOf σ'.redis := by
  rcases Call.origin_of_step hstep hcompletes e.pair with hsame | ⟨a, _, rfl, hpc, hp, -⟩
  . exact he.of_same hsame
  . have hnone := h.filling a (List.mem_of_getElem? hi) hpc
    have hsome := he.1
    rw [hp] at hnone
    rw [hnone] at hsome
    contradiction

theorem Accept.Moves.frame {a a' : Accept} (h : a.Moves redis redis' a')
    : a'.save = a.save
        ∧ (a'.generation = a.generation
          ∨ a'.pc = .save .hset ∧ a'.generation = some (redis.evictions a.pair.hashKey)) := by
  cases h with
  | claims hpc hnone hredis => exact ⟨rfl, .inr ⟨rfl, rfl⟩⟩
  | _ => exact ⟨rfl, .inl rfl⟩

theorem Accept.Moves.saving {a a' : Accept} {q : SavePc} (h : a.Moves redis redis' a')
    (hpc : a'.pc = .save q)
    : (∃ q', a.pc = .save q' ∧ q' ≠ .hsetnx ∧ a'.generation = a.generation)
        ∨ a'.generation = some (redis.evictions a.pair.hashKey) := by
  cases h with
  | refused _ _ => cases hpc
  | claims _ _ _ => exact .inr rfl
  | fills _ hbefore _ => exact .inl ⟨_, hbefore, by decide, rfl⟩
  | expires hbefore _ => exact .inl ⟨_, hbefore, by decide, rfl⟩
  | lists _ _ => cases hpc
  | published _ _ => cases hpc

/-- What is filled behind a step was filled before it, or is filled by it. -/
theorem Accept.Moves.hasFilled {a a' : Accept} (h : a.Moves redis redis' a') (hfilled : a'.hasFilled)
    : (a.hasFilled ∧ a.pc ≠ .save .hset ∧ a'.generation = a.generation)
        ∨ (∃ reply, redis.exec (a.save.command .hset) = some (redis', reply))
        ∨ a.pc = .save .hsetnx ∧ a'.generation = a.generation := by
  cases h with
  | refused hpc _ => exact .inr (.inr ⟨hpc, rfl⟩)
  | claims _ _ _ => rcases hfilled with hpc | hpc | hpc <;> cases hpc
  | fills reply _ hexec => exact .inr (.inl ⟨reply, hexec⟩)
  | expires hpc _ => exact .inl ⟨.inl hpc, by simp [hpc], rfl⟩
  | lists hpc _ => exact .inl ⟨.inr (.inl hpc), by simp [hpc], rfl⟩
  | published hpc _ => exact .inl ⟨.inr (.inr (by rw [hpc]; rfl)), by simp [hpc], rfl⟩

theorem Call.moves_of_accept {a' : Accept}
    (hstep : c.step config s.shared x = some (σ', .accept a'))
    (hcompletes : c.completes config s.shared x = true)
    : ∃ a, c = .accept a ∧ a.Moves s.shared.redis σ'.redis a' := by
  obtain ⟨a, rfl⟩ := Call.accept_of_steps (Call.step_spec hstep)
  obtain ⟨_, heq, hmoves⟩ := Accept.moves_of_step hstep hcompletes
  cases heq
  exact ⟨a, rfl, hmoves⟩

theorem Entered.step (houtline : AcceptOutline writtenBy s) (h : Entered s)
    (hi : s.calls[i]? = some c) (hstep : c.step config s.shared x = some (σ', c'))
    (hcompletes : c.completes config s.shared x = true)
    : Entered ⟨σ', s.calls.set i c'⟩ where
  fresh p hnone := by
    have hsteps := Call.step_spec hstep
    -- no command of a step takes a field away
    have hbefore : s.shared.redis.get p.hashKey .userId = none := by
      rcases hsteps.redis with hredis | ⟨command, reply, hruns, hexec⟩
      . rw [← hredis]
        exact hnone
      . by_contra hsome
        have := isSome_get_exec hexec (Option.isSome_iff_ne_none.mpr hsome)
        rw [hnone] at this
        contradiction
    rcases Call.origin_of_step hstep hcompletes p with hsame | ⟨a, reply, rfl, -, rfl, hexec, -⟩
    . exact (hsame _ (by simp)).trans (h.fresh p hbefore)
    . have hsome : σ'.redis.get a.pair.hashKey .userId = some (toString a.save.userId) :=
        a.save.get_hset hexec _ (by simp [Save.fields])
      exact absurd (hnone.symm.trans hsome) (by simp)
  decimal b hb := by
    rcases Calls.mem_set_cases hb with rfl | ⟨j, hj, hb⟩
    . obtain ⟨a, rfl, hmoves⟩ := Call.moves_of_accept hstep hcompletes
      rw [Accept.pair, hmoves.frame.1]
      exact h.decimal a (List.mem_of_getElem? hi)
    . exact h.decimal b (List.mem_of_getElem? hb)
  owns b q hb hpc hq := by
    rw [(Call.step_spec hstep).owns]
    rcases Calls.mem_set_cases hb with rfl | ⟨j, hj, hb⟩
    . obtain ⟨a, rfl, hmoves⟩ := Call.moves_of_accept hstep hcompletes
      have hpair : b.pair = a.pair := congrArg Save.pair hmoves.frame.1
      unfold Accept.Owns
      rw [hpair]
      rcases hmoves.saving hpc with ⟨q', hpc', hq', hgeneration⟩ | hgeneration
      . rw [hgeneration]
        exact h.owns a q' (List.mem_of_getElem? hi) hpc' hq'
      . exact hgeneration
    . exact h.owns b q (List.mem_of_getElem? hb) hpc hq
  filling b hb hpc := by
    rcases Calls.mem_set_cases hb with rfl | ⟨j, hj, hb⟩
    . obtain ⟨a, rfl, hmoves⟩ := Call.moves_of_accept hstep hcompletes
      cases hmoves with
      | claims _ hnone hredis =>
        -- HSETNX has claimed a hash in which nothing was
        rw [hredis]
        exact (get_set ..).trans ((if_neg (by simp)).trans (h.fresh a.pair hnone))
      | _ => cases hpc
    . have hmem := List.mem_of_getElem? hb
      rw [h.same_other houtline hi hb hj (h.owns b _ hmem hpc (by decide)) hstep hcompletes _
        (by simp)]
      exact h.filling b hmem hpc
  filled b hb hfilled howns := by
    have hsteps := Call.step_spec hstep
    have howns' := hsteps.owns.mp howns
    rcases Calls.mem_set_cases hb with rfl | ⟨j, hj, hb⟩
    . obtain ⟨a, rfl, hmoves⟩ := Call.moves_of_accept hstep hcompletes
      have hsave := hmoves.frame.1
      rw [Accept.Owns, Accept.pair, hsave] at howns'
      rw [Accept.pair, hsave]
      rcases hmoves.hasFilled hfilled with ⟨hbefore, hpc, hgeneration⟩ | ⟨reply, hexec⟩
        | ⟨hpc, hgeneration⟩
      . have howns : a.Owns s.shared.redis := hgeneration.symm.trans howns'
        obtain ⟨hleft, attempts, hreadable⟩ := h.filled a (List.mem_of_getElem? hi) hbefore howns
        refine ⟨hleft.of_same ?_, hreadable.step hsteps⟩
        rcases Call.origin_of_step hstep hcompletes a.pair with hsame | ⟨_, _, heq, hpc', -⟩
        . exact hsame
        . cases heq
          exact absurd hpc' hpc
      . exact ⟨Save.left_hset hexec, _, Save.readable hexec⟩
      . have hnone := ((houtline.calls i _ hi).2 a rfl).unclaimed hpc
        rw [hgeneration, hnone] at howns'
        contradiction
    . obtain ⟨hleft, attempts, hreadable⟩ := h.filled b (List.mem_of_getElem? hb) hfilled howns'
      exact ⟨hleft.of_same (h.same_other houtline hi hb hj howns' hstep hcompletes),
        hreadable.step hsteps⟩
  held w hw e he := by
    rcases Calls.mem_set_cases hw with rfl | ⟨j, hj, hw⟩
    . cases c with
      | accept a => cases Call.step_spec hstep
      | deliver d => cases Call.step_spec hstep
      | sweep v =>
        obtain ⟨pc, heq, hmoves⟩ := Sweep.moves_of_step hstep
        cases heq
        refine h.same_held hi hstep hcompletes ?_
        rcases hmoves.held he with he | ⟨userId, couponTypeId, _, _, _, hash, -, -, hhash, hread⟩
        . exact h.held v (List.mem_of_getElem? hi) e he
        . exact PendingIssue.madeOf_of_readEntry hhash hread
    . exact h.same_held hi hstep hcompletes (h.held w (List.mem_of_getElem? hw) e he)
  paired w hw := by
    rcases Calls.mem_set_cases hw with rfl | ⟨j, hj, hw⟩
    . cases c with
      | accept a => cases Call.step_spec hstep
      | deliver d => cases Call.step_spec hstep
      | sweep v =>
        obtain ⟨pc, heq, hmoves⟩ := Sweep.moves_of_step hstep
        cases heq
        exact hmoves.paired (h.paired v (List.mem_of_getElem? hi))
    . exact h.paired w (List.mem_of_getElem? hw)

theorem Entered.start (h : Entered s) (hstart : c.start config s.shared s.calls = true)
    (hok : prompt config delay s (.start c) = true)
    : Entered ⟨s.shared, s.calls ++ [c]⟩ where
  fresh := h.fresh
  decimal b hb := by
    rcases List.mem_append.mp hb with hb | hb
    . exact h.decimal b hb
    . rw [← List.mem_singleton.mp hb] at hok
      exact hok
  owns b q hb hpc hq := by
    rcases List.mem_append.mp hb with hb | hb
    . exact h.owns b q hb hpc hq
    . rw [← List.mem_singleton.mp hb] at hstart
      rw [(Call.generation_start hstart).2] at hpc
      cases hpc
      contradiction
  filling b hb hpc := by
    rcases List.mem_append.mp hb with hb | hb
    . exact h.filling b hb hpc
    . rw [← List.mem_singleton.mp hb] at hstart
      cases (Call.generation_start hstart).2.symm.trans hpc
  filled b hb hfilled howns := by
    rcases List.mem_append.mp hb with hb | hb
    . exact h.filled b hb hfilled howns
    . rw [← List.mem_singleton.mp hb] at hstart
      rw [Accept.Owns, (Call.generation_start hstart).1] at howns
      contradiction
  held w hw e he := by
    rcases List.mem_append.mp hw with hw | hw
    . exact h.held w hw e he
    . rw [← List.mem_singleton.mp hw] at hstart
      rw [(Call.sweep_of_start hstart).1] at he
      contradiction
  paired w hw := by
    rcases List.mem_append.mp hw with hw | hw
    . exact h.paired w hw
    . rw [← List.mem_singleton.mp hw] at hstart
      rw [(Call.sweep_of_start hstart).1]
      trivial

theorem Entered.evict {redis : Redis} {q : Pair} (houtline : AcceptOutline writtenBy s)
    (h : Entered s) (hevict : s.shared.redis.evict q.hashKey = some redis)
    (hfree : s.calls.any (Call.holds q) = false)
    : Entered ⟨{ s.shared with redis := redis }, s.calls⟩ := by
  obtain ⟨-, hget, -, hzset, hevictions⟩ := evict_spec _ hevict
  have hsame : ∀ p : Pair, p ≠ q → ∀ field, redis.get p.hashKey field
      = s.shared.redis.get p.hashKey field := by
    intro p hp field
    rw [hget, if_neg fun hkey => hp (Pair.hashKey_injective hkey)]
  rw [List.any_eq_false] at hfree
  refine ⟨?_, h.decimal, ?_, ?_, ?_, ?_, h.paired⟩
  . intro p hnone
    by_cases hp : p = q
    . subst hp
      exact (hget ..).trans (if_pos rfl)
    . dsimp only at hnone ⊢
      rw [hsame p hp] at hnone ⊢
      exact h.fresh p hnone
  . intro a pc ha hpc hne
    have howns := h.owns a pc ha hpc hne
    have hp : a.pair ≠ q := by
      rintro rfl
      have := hfree _ ha
      cases pc with
      | hsetnx => exact hne rfl
      | _ => simp [Call.holds, hpc] at this
    unfold Accept.Owns
    rw [hevictions, if_neg fun hkey => hp (Pair.hashKey_injective hkey)]
    exact howns
  . intro a ha hpc
    by_cases hp : a.pair = q
    . exact (hget ..).trans (if_pos (by rw [hp]))
    . exact (hsame _ hp _).trans (h.filling a ha hpc)
  . intro a ha hfilled howns
    unfold Accept.Owns at howns
    dsimp only at howns
    rw [hevictions] at howns
    by_cases hp : a.pair = q
    . -- the count of evictions has passed every generation that was claimed
      obtain ⟨i, hi⟩ := List.mem_iff_getElem?.mp ha
      have hle := ((houtline.calls i _ hi).2 a rfl).le _ howns
      rw [if_pos (by rw [hp])] at hle
      omega
    . rw [if_neg fun hkey => hp (Pair.hashKey_injective hkey)] at howns
      obtain ⟨hleft, attempts, hreadable⟩ := h.filled a ha hfilled howns
      exact ⟨hleft.of_same fun field _ => hsame _ hp field, attempts,
        hreadable.of_same ⟨hsame _ hp, fun hnone => by rw [hzset]; exact hnone⟩⟩
  . intro w hw e he
    have hp : e.pair ≠ q := by
      intro hp
      refine hfree _ hw ?_
      exact List.any_eq_true.mpr ⟨e, he, beq_iff_eq.mpr hp⟩
    exact (h.held w hw e he).of_same fun field _ => hsame _ hp field

end Entered

end ServerB
