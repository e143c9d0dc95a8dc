import CouponIssuance.ServerB.Acceptance
import CouponIssuance.ServerB.Lemmas.Local

/-!
This module contains the proof outline of `accept`: what a call knows about the hash that it has
claimed, and why the other flows leave it alone.
-/

namespace ServerB

open Concurrency Redis.Server

/--
What a call of `accept` knows about the hash that it has claimed. `settled` are the states of the
call in which it has written everything.
-/
structure Accept.Inv (settled : AcceptPc → Bool) (redis : Redis) (a : Accept) : Prop where
  unclaimed : a.pc = .save .hsetnx → a.generation = none
  generated : a.hasClaimed = true → a.generation ≠ none
  le : ∀ g, a.generation = some g → g ≤ redis.evictions a.pair.hashKey
  claimed : a.Owns redis → (redis.get a.pair.hashKey .userId).isSome = true
  filling : a.pc = .save .hset → a.Owns redis
  filled : a.pc = .save .expire ∨ a.pc = .save .zadd ∨ settled a.pc = true → a.Owns redis
    → Filled redis a.pair
  ttl : a.pc = .save .zadd ∨ settled a.pc = true → a.Owns redis → redis.ttl a.pair.hashKey = true
  listed : settled a.pc = true → a.Owns redis
    → redis.get a.pair.hashKey .status = some IssuePendingStatus.pending.text
    → (redis.zset.score a.pair.member).isSome = true

def Call.Inv (settled : AcceptPc → Bool) (redis : Redis) (c : Call) : Prop :=
  c.Local ∧ ∀ a, c = .accept a → a.Inv settled redis

/--
No other call has claimed the hash of `f`, and none is about to remove the member of a `PENDING`
pair that `f` has settled.
-/
structure Call.Sep (settled : AcceptPc → Bool) (redis : Redis) (f g : Call) : Prop where
  generation : ∀ a b, f = .accept a → g = .accept b → a.pair = b.pair → a.generation ≠ none
    → a.generation ≠ b.generation
  keeps : ∀ a, f = .accept a → settled a.pc = true → a.Owns redis
    → redis.get a.pair.hashKey .status = some IssuePendingStatus.pending.text
    → g.removes a.pair = false

def Call.Separate (settled : AcceptPc → Bool) (redis : Redis) (f g : Call) : Prop :=
  f.Sep settled redis g ∧ g.Sep settled redis f

section Stability

variable {config : Config} {settled : AcceptPc → Bool} {c : Call} {command : Command}
variable {redis redis' : Redis} {reply : Reply} {p : Pair}

theorem Call.Local.mark (h : c.Local) {m : Mark} (hm : c.mark? = some m) : m.status ≠ .pending := by
  unfold mark? at hm
  split at hm
  . split at hm
    . next hpc =>
      cases hm
      simp only [Call.Local, hpc, SweepPc.Local] at h
      exact h
    . contradiction
  . split at hm
    . next hpc =>
      cases hm
      simp only [Call.Local, hpc, DeliverPc.Local] at h
      exact h
    . contradiction
  . contradiction

theorem Call.Runs.pending (h : c.Runs config command) (hlocal : c.Local)
    (hexec : redis.exec command = some (redis', reply))
    (hpending : redis'.get p.hashKey .status = some IssuePendingStatus.pending.text)
    : redis.get p.hashKey .status = some IssuePendingStatus.pending.text
        ∨ ∃ a, c = .accept a ∧ a.pc = .save .hset ∧ a.pair = p := by
  rcases h.status hexec p with heq | ⟨a, hc, hpc, hp, _⟩ | ⟨m, hm, _, _, heq⟩
  . exact Or.inl (heq ▸ hpending)
  . exact Or.inr ⟨a, hc, hpc, hp⟩
  . rw [heq] at hpending
    exact absurd (IssuePendingStatus.text_injective (Option.some.inj hpending)) (hlocal.mark hm)

theorem Filled.of_exec (h : Filled redis p) (hruns : c.Runs config command)
    (hexec : redis.exec command = some (redis', reply))
    : Filled redis' p where
  requestId := isSome_get_exec hexec h.requestId
  eventId := isSome_get_exec hexec h.eventId
  createdAt := isSome_get_exec hexec h.createdAt
  status := by
    obtain ⟨status, hstatus⟩ := h.status
    rcases hruns.status hexec p with heq | ⟨_, _, _, _, heq⟩ | ⟨m, _, _, _, heq⟩
    . exact ⟨status, heq.trans hstatus⟩
    . exact ⟨_, heq⟩
    . exact ⟨_, heq⟩

theorem Accept.owns_of_exec {a : Accept} (hexec : redis.exec command = some (redis', reply))
    : a.Owns redis' ↔ a.Owns redis := by
  unfold Owns
  rw [exec_evictions hexec]

theorem Accept.Inv.of_exec {a : Accept} (h : a.Inv settled redis)
    (hruns : c.Runs config command) (hlocal : c.Local)
    (hexec : redis.exec command = some (redis', reply))
    (hfilling : ∀ b, c = .accept b → b.pc = .save .hset → b.pair = a.pair → ¬a.Owns redis)
    (hkeeps : settled a.pc = true → a.Owns redis
      → redis.get a.pair.hashKey .status = some IssuePendingStatus.pending.text
      → c.removes a.pair = false)
    : a.Inv settled redis' where
  unclaimed := h.unclaimed
  generated := h.generated
  le g hg := by
    rw [exec_evictions hexec]
    exact h.le g hg
  claimed howns := isSome_get_exec hexec (h.claimed ((owns_of_exec hexec).mp howns))
  filling hpc := (owns_of_exec hexec).mpr (h.filling hpc)
  filled hpc howns := (h.filled hpc ((owns_of_exec hexec).mp howns)).of_exec hruns hexec
  ttl hpc howns := ttl_le_exec hexec (h.ttl hpc ((owns_of_exec hexec).mp howns))
  listed hpc howns hpending := by
    have howns := (owns_of_exec hexec).mp howns
    rcases hruns.pending hlocal hexec hpending with hbefore | ⟨b, hc, hb, hp⟩
    . exact hruns.isSome_score hexec (hkeeps hpc howns hbefore) (h.listed hpc howns hbefore)
    . exact absurd howns (hfilling b hc hb hp)

end Stability

section Own

variable {config : Config} {settled : AcceptPc → Bool} {σ σ' : Shared} {a : Accept} {x : Input}
variable {redis redis' : Redis} {reply : Reply}

theorem Save.get_hset {s : Save} (hexec : redis.exec (s.command .hset) = some (redis', reply))
    {field : Field} (value : String) (hfield : (field, value) ∈ s.fields)
    : redis'.get s.pair.hashKey field = some value := by
  rw [exec_hset hexec]
  exact get_setAll_of_mem _ s.nodup_fields hfield

theorem Save.filled_hset {s : Save} (hexec : redis.exec (s.command .hset) = some (redis', reply))
    : Filled redis' s.pair where
  requestId := by rw [s.get_hset hexec s.requestId (by simp [fields])]; rfl
  eventId := by rw [s.get_hset hexec (toString s.eventId) (by simp [fields])]; rfl
  createdAt := by rw [s.get_hset hexec s.createdAtText (by simp [fields])]; rfl
  status := ⟨.pending, s.get_hset hexec _ (by simp [fields])⟩

theorem Save.ttl_expire {s : Save} (hexec : redis.exec (s.command .expire) = some (redis', reply))
    (h : (redis.get s.pair.hashKey .userId).isSome = true)
    : redis'.ttl s.pair.hashKey = true := by
  rw [exec_expire hexec, show s.hashKey = s.pair.hashKey from rfl, ttl_setTtl, if_pos rfl,
    isSome_hashes]
  exact ⟨_, h⟩

theorem Save.listed_zadd {s : Save} (hexec : redis.exec (s.command .zadd) = some (redis', reply))
    : (redis'.zset.score s.pair.member).isSome = true := by
  rw [exec_zadd hexec]
  change ((redis.zset.add s.pair.member s.createdAt).score s.pair.member).isSome = true
  rw [Redis.ZSet.score_add, if_pos rfl]
  rfl

theorem Accept.Inv.goto {pc : AcceptPc} (h : a.Inv settled redis) (hpc : ∀ q, pc ≠ .save q)
    (hgenerated : Accept.hasClaimed { a with pc := pc } = true → a.generation ≠ none)
    (hsettled : settled pc = true → settled a.pc = true
      ∨ a.generation = none)
    : Accept.Inv settled redis { a with pc := pc } := by
  have hbefore : settled pc = true → a.Owns redis → settled a.pc = true := by
    intro hpc howns
    rcases hsettled hpc with hsettled | hnone
    . exact hsettled
    . rw [Owns, hnone] at howns
      contradiction
  refine ⟨?_, hgenerated, h.le, h.claimed, ?_, ?_, ?_, ?_⟩
  . intro heq
    exact absurd heq (hpc _)
  . intro heq
    exact absurd heq (hpc _)
  . rintro (heq | heq | hs) howns
    . exact absurd heq (hpc _)
    . exact absurd heq (hpc _)
    . exact h.filled (Or.inr (Or.inr (hbefore hs howns))) howns
  . rintro (heq | hs) howns
    . exact absurd heq (hpc _)
    . exact h.ttl (Or.inr (hbefore hs howns)) howns
  . intro hs howns
    exact h.listed (hbefore hs howns) howns

theorem Accept.Inv.zadd {pc : AcceptPc} (h : a.Inv settled redis) (hzadd : a.pc = .save .zadd)
    (hruns : (Call.accept a).Runs config (a.save.command .zadd))
    (hexec : redis.exec (a.save.command .zadd) = some (redis', reply)) (hpc : ∀ q, pc ≠ .save q)
    : Accept.Inv settled redis' { a with pc := pc } := by
  have howns' : ∀ howns : a.Owns redis', a.Owns redis := fun howns =>
    (Accept.owns_of_exec hexec).mp howns
  refine ⟨?_, ?_, ?_, ?_, ?_, ?_, ?_, ?_⟩
  . intro heq
    exact absurd heq (hpc _)
  . intro _
    exact h.generated (by simp [Accept.hasClaimed, hzadd])
  . intro g hg
    rw [exec_evictions hexec]
    exact h.le g hg
  . intro howns
    exact isSome_get_exec hexec (h.claimed (howns' howns))
  . intro heq
    exact absurd heq (hpc _)
  . intro _ howns
    exact (h.filled (Or.inr (Or.inl hzadd)) (howns' howns)).of_exec hruns hexec
  . intro _ howns
    exact ttl_le_exec hexec (h.ttl (Or.inl hzadd) (howns' howns))
  . intro _ _ _
    exact a.save.listed_zadd hexec

theorem Accept.Inv.replied {q : SavePc} (h : a.Inv settled redis)
    (hsave : ∀ q, settled (.save q) = false) (hq : a.pc = .save q)
    (hexec : redis.exec (a.save.command q) = some (redis', reply))
    : (a.resume redis.evictions reply).Inv settled redis' := by
  have hruns : (Call.accept a).Runs ⟨0, 0, 0, 0⟩ (a.save.command q) := .save a q rfl hq
  have howns' : a.Owns redis' → a.Owns redis := (Accept.owns_of_exec hexec).mp
  have hle : ∀ g, a.generation = some g → g ≤ redis'.evictions a.pair.hashKey := by
    rw [exec_evictions hexec]
    exact h.le
  unfold resume
  rw [hq]
  cases q with
  | hsetnx =>
    have hnone := h.unclaimed hq
    rcases exec_hsetnx hexec with ⟨_, rfl, rfl⟩ | ⟨_, rfl, rfl⟩
    . exact h.goto (by simp) (by simp [hasClaimed, IssueAcceptance.duplicate])
        (fun _ => Or.inr hnone)
    . refine ⟨by simp, by simp, ?_, ?_, ?_, by simp [hsave], by simp [hsave], by simp [hsave]⟩
      . intro g hg
        exact Nat.le_of_eq (Option.some.inj hg).symm
      . intro _
        change ((redis.set a.pair.hashKey .userId _).get a.pair.hashKey .userId).isSome = true
        simp
      . intro _
        rfl
  | hset =>
    refine ⟨by simp, fun _ => h.generated (by simp [hasClaimed, hq]), hle, ?_, by simp, ?_,
      by simp [hsave], by simp [hsave]⟩
    . intro howns
      exact isSome_get_exec hexec (h.claimed (howns' howns))
    . intro _ _
      exact a.save.filled_hset hexec
  | expire =>
    refine ⟨by simp, fun _ => h.generated (by simp [hasClaimed, hq]), hle, ?_, by simp, ?_, ?_,
      by simp [hsave]⟩
    . intro howns
      exact isSome_get_exec hexec (h.claimed (howns' howns))
    . intro _ howns
      exact (h.filled (Or.inl hq) (howns' howns)).of_exec hruns hexec
    . intro _ howns
      exact a.save.ttl_expire hexec (h.claimed (howns' howns))
  | zadd => exact h.zadd hq hruns hexec (by simp)

theorem Accept.Inv.drop {command : Command} (h : a.Inv settled redis)
    (hexec : redis.exec command = some (redis', reply))
    (hsettled : a.generation ≠ none → settled .thrown = false)
    : Accept.Inv settled redis' { a with pc := .thrown } := by
  have hfalse : settled .thrown = true → ¬a.Owns redis' := by
    intro hs howns
    rw [hsettled (by rw [howns]; simp)] at hs
    contradiction
  refine ⟨by simp, by simp [hasClaimed], ?_, ?_, by simp, ?_, ?_, ?_⟩
  . intro g hg
    rw [exec_evictions hexec]
    exact h.le g hg
  . intro howns
    exact isSome_get_exec hexec (h.claimed ((owns_of_exec hexec).mp howns))
  . rintro (heq | heq | hs) howns
    . contradiction
    . contradiction
    . exact absurd howns (hfalse hs)
  . rintro (heq | hs) howns
    . contradiction
    . exact absurd howns (hfalse hs)
  . intro hs howns
    exact absurd howns (hfalse hs)

theorem Accept.Inv.steps {c' : Call} (h : a.Inv settled σ.redis)
    (hsave : ∀ q, settled (.save q) = false) (hpublish : settled .publish = true)
    (hcut : a.generation ≠ none → ∀ q, a.pc = .save q → x ≠ .ok → ¬(q = .zadd ∧ x = .fail true)
      → settled .thrown = false ∧ settled .crashed = false)
    (hsteps : (Call.accept a).Steps config σ σ' x c')
    : ∃ a', c' = .accept a' ∧ a'.Inv settled σ'.redis := by
  have hawaits : ∀ command, (Call.accept a).awaits config = .redis command
      → ∃ q, a.pc = .save q ∧ command = a.save.command q := by
    intro command hawaits
    simp only [Call.awaits] at hawaits
    split at hawaits
    . next q hq => exact ⟨q, hq, (Await.redis.inj hawaits).symm⟩
    . contradiction
    . contradiction
  cases hsteps with
  | replied command reply hredis hexec =>
    obtain ⟨q, hq, rfl⟩ := hawaits command hredis
    exact ⟨_, rfl, h.replied hsave hq hexec⟩
  | lost command reply hredis hexec =>
    obtain ⟨q, hq, rfl⟩ := hawaits command hredis
    refine ⟨_, rfl, ?_⟩
    by_cases hzadd : q = .zadd
    . subst hzadd
      have hruns : (Call.accept a).Runs config (a.save.command .zadd) := .save a _ rfl hq
      exact h.zadd hq hruns hexec (by simp)
    . apply h.drop hexec
      intro hgeneration
      exact (hcut hgeneration q hq (by simp) (fun hz => hzadd hz.1)).1
  | failed x command hredis hsame hx =>
    obtain ⟨q, hq, rfl⟩ := hawaits command hredis
    refine ⟨_, rfl, ?_⟩
    rw [hsame]
    have hx := hx.resolve_right fun h => a.save.exec_ne_none q _ h.1
    apply h.goto (by simp) (by simp [hasClaimed])
    intro hthrown
    by_contra hne
    simp only [not_or] at hne
    rw [(hcut hne.2 q hq (by simp [hx]) (by simp [hx])).1] at hthrown
    contradiction
  | published x payload hpub hsame =>
    refine ⟨_, rfl, ?_⟩
    rw [hsame]
    have hpc : a.pc = .publish := by
      simp only [Call.awaits] at hpub
      split at hpub
      . contradiction
      . assumption
      . contradiction
    exact h.goto (by simp) (fun _ => h.generated (by simp [hasClaimed, hpc]))
      (fun _ => Or.inl (hpc ▸ hpublish))
  | answered userId couponTypeId result hlookup _ =>
    simp only [Call.awaits] at hlookup
    split at hlookup <;> contradiction
  | unanswered executed userId couponTypeId hlookup _ =>
    simp only [Call.awaits] at hlookup
    split at hlookup <;> contradiction
  | crashed hne hsame =>
    refine ⟨_, rfl, ?_⟩
    rw [hsame]
    apply h.goto (by simp) (by simp [hasClaimed])
    intro hcrashed
    simp only [Call.awaits] at hne
    split at hne
    . next q hq =>
      by_contra hnot
      simp only [not_or] at hnot
      rw [(hcut hnot.2 q hq (by simp) (by simp)).2] at hcrashed
      contradiction
    . next hpc => exact Or.inl (hpc ▸ hpublish)
    . contradiction

end Own

section Others

variable {config : Config} {settled : AcceptPc → Bool} {σ σ' : Shared} {f f' g h : Call} {x : Input}

theorem Call.Steps.redis (hsteps : f.Steps config σ σ' x f')
    : σ'.redis = σ.redis
        ∨ ∃ command reply, f.Runs config command
            ∧ σ.redis.exec command = some (σ'.redis, reply) := by
  cases hsteps with
  | replied command reply hawaits hexec =>
    exact Or.inr ⟨command, reply, runs_of_awaits hawaits, hexec⟩
  | lost command reply hawaits hexec =>
    exact Or.inr ⟨command, reply, runs_of_awaits hawaits, hexec⟩
  | failed x command hawaits hredis hx => exact Or.inl hredis
  | published x payload hawaits hredis => exact Or.inl hredis
  | answered userId couponTypeId result hawaits hredis => exact Or.inl hredis
  | unanswered executed userId couponTypeId hawaits hredis => exact Or.inl hredis
  | crashed hawaits hredis => exact Or.inl hredis

theorem Call.Steps.executes (hsteps : f.Steps config σ σ' x f') (hredis : σ'.redis ≠ σ.redis)
    : x.executes = true := by
  cases hsteps with
  | replied command reply _ _ => rfl
  | lost command reply _ _ => rfl
  | failed x command _ hsame _ => exact absurd hsame hredis
  | published x payload _ hsame => exact absurd hsame hredis
  | answered userId couponTypeId result _ hsame => exact absurd hsame hredis
  | unanswered executed userId couponTypeId _ hsame => exact absurd hsame hredis
  | crashed _ hsame => exact absurd hsame hredis

theorem Call.Steps.evictions (hsteps : f.Steps config σ σ' x f')
    : σ'.redis.evictions = σ.redis.evictions := by
  rcases hsteps.redis with hredis | ⟨command, reply, _, hexec⟩
  . rw [hredis]
  . exact exec_evictions hexec

theorem Call.Steps.pending (hinv : f.Inv settled σ.redis) (hsteps : f.Steps config σ σ' x f')
    {p : Pair}
    (hpending : σ'.redis.get p.hashKey .status = some IssuePendingStatus.pending.text)
    : σ.redis.get p.hashKey .status = some IssuePendingStatus.pending.text
        ∨ ∃ a, f = .accept a ∧ a.pc = .save .hset ∧ a.pair = p ∧ a.Owns σ.redis := by
  rcases hsteps.redis with hredis | ⟨command, reply, hruns, hexec⟩
  . exact Or.inl (hredis ▸ hpending)
  . rcases hruns.pending hinv.1 hexec hpending with hbefore | ⟨a, hf, hpc, hp⟩
    . exact Or.inl hbefore
    . exact Or.inr ⟨a, hf, hpc, hp, (hinv.2 a hf).filling hpc⟩

theorem Call.Separate.not_owns {a b : Accept} (hsep : f.Separate settled σ.redis g)
    (hf : f = .accept a) (hg : g = .accept b) (hp : a.pair = b.pair) (ha : a.Owns σ.redis)
    : ¬b.Owns σ.redis := by
  intro hb
  apply hsep.1.generation a b hf hg hp (by rw [ha]; simp)
  rw [ha, hb, hp]

theorem Call.Inv.other (hf : f.Inv settled σ.redis) (hg : g.Inv settled σ.redis)
    (hsep : f.Separate settled σ.redis g) (hsteps : f.Steps config σ σ' x f')
    : g.Inv settled σ'.redis := by
  refine ⟨hg.1, ?_⟩
  intro b hb
  rcases hsteps.redis with hredis | ⟨command, reply, hruns, hexec⟩
  . rw [hredis]
    exact hg.2 b hb
  . apply (hg.2 b hb).of_exec hruns hf.1 hexec
    . intro a ha hpc hp
      exact hsep.not_owns ha hb hp ((hf.2 a ha).filling hpc)
    . exact hsep.2.keeps b hb

theorem Call.Steps.owns {a : Accept} (hsteps : f.Steps config σ σ' x f')
    : a.Owns σ'.redis ↔ a.Owns σ.redis := by
  unfold Accept.Owns
  rw [hsteps.evictions]

theorem Call.Sep.third (hinv : f.Inv settled σ.redis) (hfg : f.Separate settled σ.redis g)
    (hgh : g.Sep settled σ.redis h) (hsteps : f.Steps config σ σ' x f')
    : g.Sep settled σ'.redis h where
  generation := hgh.generation
  keeps b hb hs howns hpending := by
    have howns := hsteps.owns.mp howns
    rcases hsteps.pending hinv hpending with hbefore | ⟨a, ha, _, hp, hbusy⟩
    . exact hgh.keeps b hb hs howns hbefore
    . exact absurd howns (hfg.not_owns ha hb hp hbusy)

theorem Accept.generation_steps {a a' : Accept}
    (hsteps : (Call.accept a).Steps config σ σ' x (.accept a'))
    : a'.pair = a.pair
        ∧ (a'.generation = a.generation
          ∨ (a.pc = .save .hsetnx
            ∧ σ.redis.get a.pair.hashKey .userId = none
            ∧ a'.generation = some (σ.redis.evictions a.pair.hashKey))) := by
  generalize hc' : Call.accept a' = c' at hsteps
  cases hsteps with
  | replied command reply hawaits hexec =>
    rw [Call.resume, Call.accept.injEq] at hc'
    subst hc'
    simp only [Call.awaits] at hawaits
    split at hawaits
    . next q hq =>
      rw [← Await.redis.inj hawaits] at hexec
      cases q with
      | hsetnx =>
        rcases exec_hsetnx hexec with ⟨_, _, rfl⟩ | ⟨hnone, _, rfl⟩
        . simp [Accept.resume, hq, Accept.pair]
        . refine ⟨by simp [Accept.resume, hq, Accept.pair], Or.inr ⟨hq, hnone, ?_⟩⟩
          simp only [Accept.resume, hq]
          rfl
      | hset => simp [Accept.resume, hq, Accept.pair]
      | expire => simp [Accept.resume, hq, Accept.pair]
      | zadd => simp [Accept.resume, hq, Accept.pair]
    . contradiction
    . contradiction
  | lost command reply _ _ => cases hc'; exact ⟨rfl, Or.inl rfl⟩
  | failed x command _ _ _ => cases hc'; exact ⟨rfl, Or.inl rfl⟩
  | published x payload _ _ => cases hc'; exact ⟨rfl, Or.inl rfl⟩
  | answered userId couponTypeId result _ _ => cases hc'; exact ⟨rfl, Or.inl rfl⟩
  | unanswered executed userId couponTypeId _ _ => cases hc'; exact ⟨rfl, Or.inl rfl⟩
  | crashed _ _ => cases hc'; exact ⟨rfl, Or.inl rfl⟩

end Others

section Outline

variable {config : Config} {settled : AcceptPc → Bool} {σ σ' : Shared} {f f' g : Call} {x : Input}
variable {s : State} {i j : Nat}

abbrev AcceptOutline (settled : AcceptPc → Bool) (s : State) : Prop :=
  Calls.Outline (fun _ => True) (fun σ c => Call.Inv settled σ.redis c)
    (fun σ f g => Call.Separate settled σ.redis f g) s

/--
Which runs the outline covers: no step disturbs what was accepted, and a call that is cut off does
not count as settled.
-/
structure Covers (settled : AcceptPc → Bool) (ok : State → Act → Prop) : Prop where
  save : ∀ q, settled (.save q) = false
  publish : settled .publish = true
  quiet : ∀ s a, ok s a → undisturbed s a = true
  cut : ∀ s i x a, ok s (.step i x) → s.calls[i]? = some (.accept a) → a.generation ≠ none
    → ∀ q, a.pc = .save q → q ≠ .hsetnx → x ≠ .ok → ¬(q = .zadd ∧ x = .fail true)
    → settled .thrown = false ∧ settled .crashed = false

variable {ok : State → Act → Prop}

theorem Call.accept_of_steps {a' : Accept} (hsteps : f.Steps config σ σ' x (.accept a'))
    : ∃ a, f = .accept a := by
  cases f with
  | accept a => exact ⟨a, rfl⟩
  | sweep s =>
    generalize hc' : Call.accept a' = c' at hsteps
    cases hsteps <;> cases hc'
  | deliver d =>
    generalize hc' : Call.accept a' = c' at hsteps
    cases hsteps <;> cases hc'

theorem Accept.settled_steps {a a' : Accept} (hcovers : Covers settled ok)
    (hcut : a.generation ≠ none → ∀ q, a.pc = .save q → x ≠ .ok → ¬(q = .zadd ∧ x = .fail true)
      → settled .thrown = false ∧ settled .crashed = false)
    (hinv : a.Inv settled σ.redis)
    (hsteps : (Call.accept a).Steps config σ σ' x (.accept a')) (hsettled : settled a'.pc = true)
    (hgeneration : a'.generation ≠ none)
    : settled a.pc = true ∨ (a.pc = .save .zadd ∧ x.executes = true) := by
  have hawaits : ∀ command, (Call.accept a).awaits config = .redis command → ∃ q, a.pc = .save q := by
    intro command hawaits
    simp only [Call.awaits] at hawaits
    split at hawaits
    . next q hq => exact ⟨q, hq⟩
    . contradiction
    . contradiction
  generalize hc' : Call.accept a' = c' at hsteps
  cases hsteps with
  | replied command reply hredis hexec =>
    obtain ⟨q, hq⟩ := hawaits command hredis
    rw [Call.resume, Call.accept.injEq] at hc'
    subst hc'
    unfold resume at hsettled hgeneration
    rw [hq] at hsettled hgeneration
    cases q with
    | hsetnx =>
      dsimp only at hsettled hgeneration
      split at hsettled
      . exact absurd (hinv.unclaimed hq) hgeneration
      . rw [hcovers.save] at hsettled
        contradiction
    | hset => rw [hcovers.save] at hsettled; contradiction
    | expire => rw [hcovers.save] at hsettled; contradiction
    | zadd => exact Or.inr ⟨hq, rfl⟩
  | lost command reply hredis _ =>
    obtain ⟨q, hq⟩ := hawaits command hredis
    cases hc'
    by_cases hzadd : q = .zadd
    . exact Or.inr ⟨hzadd ▸ hq, rfl⟩
    . rw [(hcut hgeneration q hq (by simp) (fun hz => hzadd hz.1)).1] at hsettled
      contradiction
  | failed x command hredis _ hx =>
    obtain ⟨q, hq⟩ := hawaits command hredis
    simp only [Call.awaits, hq, Await.redis.injEq] at hredis
    rw [← hredis] at hx
    have hx := hx.resolve_right fun h => a.save.exec_ne_none q _ h.1
    cases hc'
    rw [(hcut hgeneration q hq (by simp [hx]) (by simp [hx])).1] at hsettled
    contradiction
  | published x payload hpub _ =>
    simp only [Call.awaits] at hpub
    split at hpub
    . contradiction
    . next hpc => exact Or.inl (hpc ▸ hcovers.publish)
    . contradiction
  | answered userId couponTypeId result hlookup _ =>
    simp only [Call.awaits] at hlookup
    split at hlookup <;> contradiction
  | unanswered executed userId couponTypeId hlookup _ =>
    simp only [Call.awaits] at hlookup
    split at hlookup <;> contradiction
  | crashed hne _ =>
    simp only [Call.awaits] at hne
    split at hne
    . next q hq =>
      cases hc'
      rw [(hcut hgeneration q hq (by simp) (by simp)).2] at hsettled
      contradiction
    . next hpc => exact Or.inl (hpc ▸ hcovers.publish)
    . contradiction

theorem Call.not_removes_of_undisturbed {a : Accept} (h : undisturbed s (.step i x) = true)
    (hi : s.calls[i]? = some (.accept a)) (hpc : a.pc = .save .zadd) (hx : x.executes = true)
    (hpending : s.shared.redis.get a.pair.hashKey .status = some IssuePendingStatus.pending.text)
    (hg : s.calls[j]? = some g)
    : g.removes a.pair = false := by
  simp only [undisturbed, hx, hi, Option.any_some, Bool.not_eq_true', listsRemoved, hpc, hpending,
    beq_self_eq_true, Bool.true_and, List.any_eq_false] at h
  simpa using h g (List.mem_of_getElem? hg)

theorem Call.Sep.own (hcovers : Covers settled ok) (h : AcceptOutline settled s)
    (hok : ok s (.step i x)) (hf : s.calls[i]? = some f) (hji : j ≠ i) (hg : s.calls[j]? = some g)
    (hsteps : f.Steps config s.shared σ' x f')
    : f'.Sep settled σ'.redis g where
  generation a' b hf' hb hp hgeneration := by
    subst hf' hb
    obtain ⟨a, rfl⟩ := accept_of_steps hsteps
    obtain ⟨hpair, hgen⟩ := Accept.generation_steps hsteps
    have hsep := (h.apart i j _ _ (Ne.symm hji) hf hg).1
    rcases hgen with hsame | ⟨_, hnone, hnew⟩
    . rw [hsame]
      exact hsep.generation a b rfl rfl (hpair.symm.trans hp) (hsame ▸ hgeneration)
    . intro heq
      have howns : b.Owns s.shared.redis := by
        rw [Accept.Owns, ← heq, hnew, ← hp, hpair]
      have hclaimed := ((h.calls j _ hg).2 b rfl).claimed howns
      rw [← hp, hpair, hnone] at hclaimed
      contradiction
  keeps a' hf' hsettled howns hpending := by
    subst hf'
    obtain ⟨a, rfl⟩ := accept_of_steps hsteps
    have hinv := h.calls i _ hf
    obtain ⟨hpair, hgen⟩ := Accept.generation_steps hsteps
    rw [hpair] at hpending ⊢
    have hgeneration : a'.generation ≠ none := by rw [howns]; simp
    have hbefore := Accept.settled_steps hcovers
      (fun hne q hq => hcovers.cut s i x a hok hf hne q hq
        (fun heq => hne ((hinv.2 a rfl).unclaimed (heq ▸ hq))))
      (hinv.2 a rfl) hsteps hsettled hgeneration
    have hpending : s.shared.redis.get a.pair.hashKey .status
        = some IssuePendingStatus.pending.text := by
      rcases hsteps.pending hinv hpending with hpending | ⟨a0, ha0, hpc, _⟩
      . exact hpending
      . cases ha0
        simp [hpc, hcovers.save] at hbefore
    rcases hbefore with hbefore | ⟨hzadd, hx⟩
    . have hsep := (h.apart i j _ _ (Ne.symm hji) hf hg).1
      apply hsep.keeps a rfl hbefore _ hpending
      rcases hgen with hsame | ⟨hpc, _⟩
      . rw [Accept.Owns, ← hsame, ← hpair]
        exact hsteps.owns.mp howns
      . rw [hpc, hcovers.save] at hbefore
        contradiction
    . exact not_removes_of_undisturbed (hcovers.quiet s _ hok) hf hzadd hx hpending hg

theorem Call.Sep.onto (h : AcceptOutline settled s)
    (hf : s.calls[i]? = some f) (hji : j ≠ i) (hg : s.calls[j]? = some g)
    (hsteps : f.Steps config s.shared σ' x f')
    : g.Sep settled σ'.redis f' where
  generation b a' hb hf' hp hgeneration := by
    subst hf' hb
    obtain ⟨a, rfl⟩ := accept_of_steps hsteps
    obtain ⟨hpair, hgen⟩ := Accept.generation_steps hsteps
    have hsep := (h.apart i j _ _ (Ne.symm hji) hf hg).2
    rcases hgen with hsame | ⟨_, hnone, hnew⟩
    . rw [hsame]
      exact hsep.generation b a rfl rfl (hp.trans hpair) hgeneration
    . intro heq
      have howns : b.Owns s.shared.redis := by
        rw [Accept.Owns, heq, hnew, hp, hpair]
      have hclaimed := ((h.calls j _ hg).2 b rfl).claimed howns
      rw [hp, hpair, hnone] at hclaimed
      contradiction
  keeps b hb hsettled howns hpending := by
    have hinv := h.calls i _ hf
    have hsep := h.apart i j _ _ (Ne.symm hji) hf hg
    have howns := hsteps.owns.mp howns
    rw [← Bool.not_eq_true]
    intro hremoves
    rcases hsteps.pending hinv hpending with hbefore | ⟨a, ha, _, hp, hbusy⟩
    . exact removes_steps hinv.1 hsteps (hsep.2.keeps b hb hsettled howns hbefore) hremoves hpending
    . exact absurd howns (hsep.not_owns ha hb hp hbusy)

theorem Accept.Inv.evict {redis redis' : Redis} {p : Pair} {a : Accept}
    (h : a.Inv settled redis) (hevict : redis.evict p.hashKey = some redis')
    (hfilling : a.pc = .save .hset → a.pair ≠ p)
    : a.Inv settled redis' := by
  obtain ⟨_, hget, httl, hzset, hevictions⟩ := evict_spec _ hevict
  by_cases hp : a.pair = p
  . have hnot : ¬a.Owns redis' := by
      intro howns
      have hle := h.le _ howns
      rw [hevictions, if_pos (congrArg Pair.hashKey hp)] at hle
      omega
    refine ⟨h.unclaimed, h.generated, ?_, ?_, ?_, ?_, ?_, ?_⟩
    . intro g hg
      have := h.le g hg
      rw [hevictions]
      split <;> omega
    . exact fun howns => absurd howns hnot
    . exact fun hpc => absurd hp (hfilling hpc)
    . exact fun _ howns => absurd howns hnot
    . exact fun _ howns => absurd howns hnot
    . exact fun _ howns => absurd howns hnot
  . have hkey : a.pair.hashKey ≠ p.hashKey := fun heq => hp (Pair.hashKey_injective heq)
    have hget (field : Field) : redis'.get a.pair.hashKey field = redis.get a.pair.hashKey field := by
      rw [hget, if_neg hkey]
    have hevictions : redis'.evictions a.pair.hashKey = redis.evictions a.pair.hashKey := by
      rw [hevictions, if_neg hkey]
    have howns : a.Owns redis' ↔ a.Owns redis := by
      unfold Owns
      rw [hevictions]
    refine ⟨h.unclaimed, h.generated, ?_, ?_, ?_, ?_, ?_, ?_⟩
    . intro g hg
      rw [hevictions]
      exact h.le g hg
    . intro ho
      rw [hget]
      exact h.claimed (howns.mp ho)
    . exact fun hpc => howns.mpr (h.filling hpc)
    . intro hpc ho
      have hfilled := h.filled hpc (howns.mp ho)
      constructor
      . rw [hget]; exact hfilled.requestId
      . rw [hget]; exact hfilled.eventId
      . rw [hget]; exact hfilled.createdAt
      . rw [hget]; exact hfilled.status
    . intro hpc ho
      rw [httl, if_neg hkey]
      exact h.ttl hpc (howns.mp ho)
    . intro hpc ho hpending
      rw [hget] at hpending
      rw [hzset]
      exact h.listed hpc (howns.mp ho) hpending

theorem Call.Sep.evict {redis redis' : Redis} {p : Pair} (h : f.Sep settled redis g)
    (hevict : redis.evict p.hashKey = some redis')
    : f.Sep settled redis' g where
  generation := h.generation
  keeps a ha hsettled howns hpending := by
    obtain ⟨_, hget, _, _, hevictions⟩ := evict_spec _ hevict
    by_cases hkey : a.pair.hashKey = p.hashKey
    . rw [hget, if_pos hkey] at hpending
      contradiction
    . rw [hget, if_neg hkey] at hpending
      rw [Accept.Owns, hevictions, if_neg hkey] at howns
      exact h.keeps a ha hsettled howns hpending

theorem Call.inv_start {calls : List Call} (h : f.start config σ calls = true)
    (hsave : ∀ q, settled (.save q) = false)
    : f.Inv settled σ.redis := by
  refine ⟨local_start h, ?_⟩
  intro a ha
  subst ha
  unfold Call.start at h
  split at h
  . next save heq =>
    cases heq
    exact ⟨by simp, by simp [Accept.hasClaimed], by simp, by simp [Accept.Owns], by simp,
      by simp [hsave], by simp [hsave], by simp [hsave]⟩
  . next heq => cases heq
  . next heq => cases heq
  . contradiction

theorem Call.generation_start {calls : List Call} {a : Accept}
    (h : (Call.accept a).start config σ calls = true)
    : a.generation = none ∧ a.pc = .save .hsetnx := by
  unfold Call.start at h
  split at h
  . next save heq => cases heq; exact ⟨rfl, rfl⟩
  . next heq => cases heq
  . next heq => cases heq
  . contradiction

theorem acceptOutlined (config : Config) (hcovers : Covers settled ok)
    : Calls.Outlined (calls config) ok (fun _ => True) (fun σ c => Call.Inv settled σ.redis c)
        (fun σ f g => Call.Separate settled σ.redis f g) where
  symm _ _ _ h := ⟨h.2, h.1⟩
  start s f h hok hstart := by
    refine ⟨Call.inv_start hstart hcovers.save, ?_⟩
    intro j g hg
    refine ⟨⟨?_, ?_⟩, ⟨?_, ?_⟩⟩
    . intro a b ha _ _ hgeneration
      subst ha
      exact absurd (Call.generation_start hstart).1 hgeneration
    . intro a ha hsettled
      subst ha
      rw [(Call.generation_start hstart).2, hcovers.save] at hsettled
      contradiction
    . intro a b _ hb _ hgeneration
      subst hb
      rw [(Call.generation_start hstart).1]
      exact hgeneration
    . intro _ _ _ _ _
      exact Call.removes_start hstart
  own s i x f σ' f' h hok hf hstep := by
    have hsteps := Call.step_spec hstep
    have hinv := h.calls i f hf
    refine ⟨trivial, hinv.1.steps hsteps, ?_⟩
    intro a' ha'
    subst ha'
    obtain ⟨a, rfl⟩ := Call.accept_of_steps hsteps
    obtain ⟨_, heq, hinv'⟩ := (hinv.2 a rfl).steps hcovers.save hcovers.publish
      (fun hne q hq => hcovers.cut s i x a hok hf hne q hq
        (fun heq => hne ((hinv.2 a rfl).unclaimed (heq ▸ hq)))) hsteps
    cases heq
    exact hinv'
  other s i x f σ' f' j g h hok hf hj hg _ hstep := by
    have hsteps := Call.step_spec hstep
    exact ⟨(h.calls i f hf).other (h.calls j g hg) (h.apart i j f g (Ne.symm hj) hf hg) hsteps,
      Call.Sep.own hcovers h hok hf hj hg hsteps, Call.Sep.onto h hf hj hg hsteps⟩
  third s i x f σ' f' j g k g' h _ hf hj hg hk hg' hjk hstep := by
    have hsteps := Call.step_spec hstep
    have hsep := h.apart j k g g' hjk hg hg'
    have hinv := h.calls i f hf
    exact ⟨Call.Sep.third hinv (h.apart i j f g (Ne.symm hj) hf hg) hsep.1 hsteps,
      Call.Sep.third hinv (h.apart i k f g' (Ne.symm hk) hf hg') hsep.2 hsteps⟩
  env s e σ' h hok henv := by
    cases e with
    | tick ms =>
      obtain rfl := env_tick henv
      exact ⟨trivial, h.calls, h.apart⟩
    | expire userId couponTypeId =>
      obtain ⟨redis, hevict, rfl⟩ := env_expire henv
      refine ⟨trivial, ?_, ?_⟩
      . intro i f hf
        refine ⟨(h.calls i f hf).1, ?_⟩
        intro a ha
        apply ((h.calls i f hf).2 a ha).evict (p := (userId, couponTypeId)) hevict
        intro hpc hp
        have hquiet := hcovers.quiet s _ hok
        simp only [undisturbed, Bool.not_eq_true', List.any_eq_false] at hquiet
        have := hquiet f (List.mem_of_getElem? hf)
        simp [ha, Call.isFilling, hpc, hp] at this
      . intro i j f g hij hf hg
        have hsep := h.apart i j f g hij hf hg
        exact ⟨hsep.1.evict (p := (userId, couponTypeId)) hevict,
          hsep.2.evict (p := (userId, couponTypeId)) hevict⟩

theorem acceptOutline {clock : Nat} {s : State} (hcovers : Covers settled ok)
    (hrun : (calls config).machine.Run ok (init clock) s)
    : AcceptOutline settled s := by
  apply (acceptOutlined config hcovers).run hrun
  exact ⟨trivial, fun i f h => by simp [init] at h, fun i j f g _ h => by simp [init] at h⟩

end Outline

end ServerB
