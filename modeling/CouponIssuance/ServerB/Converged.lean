import CouponIssuance.ServerB.Accepted
import CouponIssuance.ServerB.Lemmas.Attempts

/-!
This module contains the promise of the cap on republishing: the visits to an entry are counted,
and the last one gives up.
-/

namespace ServerB

open Concurrency Redis.Server

section Step

variable {config : Config} {total : Nat} {value : Nat → JsNumber} {p : Pair} {base k : Nat}
variable {stage : Stage} {σ σ' : Shared} {x : Input}

theorem follows_step {s : Sweep} {pc : SweepPc}
    (hcounter : Counter config.maxPublishAttempts total value)
    (hfits : s.pc.Fits p (value k) stage) (hholds : stage.Holds total value p base σ k)
    (hsole : Sole σ.redis p) (hallows : s.pc.allows p σ.redis x = true)
    (hmoves : s.Moves config σ σ' x pc) (hhistory : σ'.history = σ.history ++ pc.events)
    : ∃ stage' k', Follows total value p base σ' pc stage' k' := by
  by_cases hsearching : s.pc.isSearching = true
  . obtain ⟨stage', h⟩ := follows_search hfits hholds hsole hsearching hmoves hhistory
    exact ⟨stage', k, h⟩
  rw [Bool.not_eq_true] at hsearching
  by_cases hfree : s.pc.stage p = .free
  . obtain ⟨stage', h⟩ := follows_other hfits hholds hsearching hfree hmoves hhistory
    exact ⟨stage', k, h⟩
  cases hpc : s.pc with
  | lookup pending stale =>
    have hp : pending.pair = p := by
      by_contra hne
      exact hfree (by rw [hpc]; exact if_neg hne)
    exact follows_visiting hcounter hfits hholds hpc hp hallows hmoves hhistory
  | markResult mark gaveUp stale =>
    have hp : mark.pair = p := by
      by_contra hne
      exact hfree (by rw [hpc]; exact if_neg hne)
    exact follows_marking hfits hholds hpc hp hallows hmoves hhistory
  | recordRepublish pending republish stale =>
    have hp : republish.pair = p := by
      by_contra hne
      exact hfree (by rw [hpc]; exact if_neg hne)
    exact follows_republishing hcounter hfits hholds hpc hp hallows hmoves hhistory
  | publishForScheduler payload stale =>
    have hp : (payload.userId, payload.couponTypeId) = p := by
      by_contra hne
      exact hfree (by rw [hpc]; exact if_neg hne)
    exact follows_publishing hfits hholds hpc hp hmoves hhistory
  | _ =>
    rw [hpc] at hfree
    exact absurd rfl hfree

theorem Sole.of_steps {c c' : Call} (h : Sole σ.redis p) (hsteps : c.Steps config σ σ' x c')
    : Sole σ'.redis p := by
  rcases hsteps.redis with hredis | ⟨command, reply, hruns, hexec⟩
  . rw [hredis]
    exact h
  . exact h.of_exec hruns hexec

theorem concerns_attempt {payload : CouponIssueResultPayload}
    (hne : (payload.userId, payload.couponTypeId) ≠ p) (text : String) (n : Nat)
    : (Call.deliver ⟨text, Deliver.attempt config payload n⟩).concerns p = false := by
  unfold Deliver.attempt
  split
  . simp [Call.concerns, Deliver.mark, markResult, Mark.pair, hne]
  . rfl

theorem Call.concerns_of_steps {c c' : Call} (hc : c.isSweep = false)
    (hconcerns : c.concerns p = false) (hsteps : c.Steps config σ σ' x c')
    : c'.concerns p = false ∧ c'.isSweep = false := by
  cases c with
  | sweep s => contradiction
  | accept a =>
    obtain ⟨a', rfl⟩ : ∃ a', c' = .accept a' := by cases hsteps <;> exact ⟨_, rfl⟩
    refine ⟨?_, rfl⟩
    rw [Call.concerns, (Accept.generation_steps hsteps).1]
    exact hconcerns
  | deliver d =>
    have hmark : ∀ payload n mark, d.pc = .markResult payload n mark
        → (payload.userId, payload.couponTypeId) ≠ p ∧ mark.pair ≠ p := by
      intro payload n mark hpc
      simpa [Call.concerns, hpc] using hconcerns
    have hreject : (Call.deliver (d.reject config)).concerns p = false := by
      cases hpc : d.pc with
      | markResult payload n mark =>
        simp only [Deliver.reject, hpc]
        exact concerns_attempt (hmark payload n mark hpc).1 _ _
      | _ => simp [Call.concerns, Deliver.reject, hpc]
    cases hsteps with
    | replied command reply hawaits hexec =>
      refine ⟨?_, rfl⟩
      cases hpc : d.pc with
      | markResult payload n mark =>
        obtain ⟨hne, hne'⟩ := hmark payload n mark hpc
        simp only [Call.resume, Call.concerns, Deliver.resume, hpc]
        cases hnext : mark.next with
        | none => rfl
        | some mark' => simp [(Mark.next_spec hnext).1, hne, hne']
      | _ => simp [Call.resume, Call.concerns, Deliver.resume, hpc]
    | lost command reply hawaits hexec => exact ⟨hreject, rfl⟩
    | failed x command hawaits hredis hx => exact ⟨hreject, rfl⟩
    | published x payload hawaits hredis => exact ⟨hconcerns, rfl⟩
    | answered userId couponTypeId result hawaits hredis => exact ⟨hconcerns, rfl⟩
    | unanswered executed userId couponTypeId hawaits hredis => exact ⟨hreject, rfl⟩
    | crashed hawaits hredis => exact ⟨rfl, rfl⟩

theorem samePair_of_concerns {c c' : Call} (hc : c.isSweep = false)
    (hconcerns : c.concerns p = false) (hsteps : c.Steps config σ σ' x c')
    : SamePair p σ.redis σ'.redis := by
  rcases hsteps.redis with hredis | ⟨command, reply, hruns, hexec⟩
  . exact .of_eq hredis
  cases hruns with
  | save a pc hc' hpc =>
    subst hc'
    refine Save.samePair ?_ hexec
    simpa [Call.concerns, Accept.pair] using hconcerns
  | mark m hm =>
    refine Mark.samePair ?_ hexec
    cases c with
    | deliver d =>
      simp only [Call.mark?] at hm
      split at hm
      . next payload n mark hpc =>
        cases hm
        simp only [Call.concerns, hpc, Bool.or_eq_false_iff, beq_eq_false_iff_ne] at hconcerns
        exact hconcerns.2
      . contradiction
    | sweep s => contradiction
    | accept a => contradiction
  | republish r hr => cases c <;> contradiction
  | orphan member hmember => cases c <;> contradiction
  | hgetall s userId couponTypeId member members result hc' hpc => subst hc'; contradiction
  | zrangebyscore s hc' hpc => subst hc'; contradiction

theorem Call.events_of_not_isSweep {c : Call} (hc : c.isSweep = false) : c.events = [] := by
  cases c with
  | sweep s => contradiction
  | accept a => rfl
  | deliver d => rfl

theorem Call.Fits.of_concerns {c : Call} {attempts : JsNumber} (hc : c.isSweep = false)
    (hconcerns : c.concerns p = false)
    : c.Fits p attempts stage := by
  cases c with
  | sweep s => contradiction
  | accept a => exact hconcerns
  | deliver d => exact hconcerns

theorem Call.Fits.other {c : Call} {attempts attempts' : JsNumber} {stage' : Stage}
    (h : c.Fits p attempts stage) (hc : c.isSweeping = false)
    : c.Fits p attempts' stage' := by
  cases c with
  | sweep s => exact fun hrunning => absurd (hrunning.symm.trans hc) (by decide)
  | accept a => exact h
  | deliver d => exact h

end Step

section Run

variable {config : Config} {total : Nat} {value : Nat → JsNumber} {p : Pair} {base k : Nat}
variable {stage : Stage} {s t : State}

theorem Tracked.step_sweep {i : Nat} {x : Input} {w : Sweep} {σ' : Shared} {c' : Call}
    (hcounter : Counter config.maxPublishAttempts total value)
    (h : Tracked total value p base stage k s) (hsolo : Solo s)
    (hi : s.calls[i]? = some (.sweep w)) (hallows : w.pc.allows p s.shared.redis x = true)
    (hstep : (Call.sweep w).step config s.shared x = some (σ', c'))
    : ∃ stage' k', Tracked total value p base stage' k' ⟨σ', s.calls.set i c'⟩ := by
  have hlt := (List.getElem?_eq_some_iff.mp hi).1
  have hrunning : w.pc.isRunning = true :=
    SweepPc.isRunning_of_awaits (Call.awaits_of_steps (Call.step_spec hstep))
  have hfits : w.pc.Fits p (value k) stage := h.calls _ (List.mem_of_getElem? hi) hrunning
  have hhistory := (Call.step_frame hstep).1
  have hsole := h.sole.of_steps (Call.step_spec hstep)
  obtain ⟨pc, rfl, hmoves⟩ := Sweep.moves_of_step hstep
  rw [Sweep.events_goto] at hhistory
  obtain ⟨stage', k', hfollows⟩ :=
    follows_step hcounter hfits h.holds h.sole hallows hmoves hhistory
  refine ⟨stage', k', hfollows.holds, hsole, ?_, ?_⟩
  . intro c hc
    rcases Calls.mem_set_cases hc with rfl | ⟨j, hji, hj⟩
    . exact hfollows.fits
    . exact (h.calls c (List.mem_of_getElem? hj)).other (hsolo i j _ c (Ne.symm hji) hi hj hrunning)
  . cases hpc : pc.isRunning with
    | false => exact Or.inl (hfollows.rests hpc)
    | true => exact Or.inr ⟨_, List.mem_set hlt _, hpc⟩

theorem Tracked.step_other {i : Nat} {x : Input} {c c' : Call} {σ' : Shared}
    (h : Tracked total value p base stage k s) (hi : s.calls[i]? = some c)
    (hc : c.isSweep = false) (hstep : c.step config s.shared x = some (σ', c'))
    : Tracked total value p base stage k ⟨σ', s.calls.set i c'⟩ := by
  have hsteps := Call.step_spec hstep
  have hconcerns : c.concerns p = false := by
    have hfits := h.calls c (List.mem_of_getElem? hi)
    cases c with
    | sweep s => contradiction
    | accept a => exact hfits
    | deliver d => exact hfits
  obtain ⟨hconcerns', hc'⟩ := Call.concerns_of_steps hc hconcerns hsteps
  have hhistory := (Call.step_frame hstep).1
  rw [Call.events_of_not_isSweep hc'] at hhistory
  refine ⟨?_, h.sole.of_steps hsteps, ?_, ?_⟩
  . exact h.holds.of_same (samePair_of_concerns hc hconcerns hsteps) hhistory rfl rfl
  . intro d hd
    rcases Calls.mem_set_cases hd with rfl | ⟨j, -, hj⟩
    . exact .of_concerns hc' hconcerns'
    . exact h.calls d (List.mem_of_getElem? hj)
  . refine h.rests.imp_right ?_
    rintro ⟨d, hd, hsweeping⟩
    obtain ⟨j, hj⟩ := List.mem_iff_getElem?.mp hd
    have hne : i ≠ j := by
      rintro rfl
      rw [hi, Option.some.injEq] at hj
      subst hj
      cases c <;> contradiction
    refine ⟨d, List.mem_of_getElem? (i := j) ?_, hsweeping⟩
    rw [List.getElem?_set_ne hne]
    exact hj

theorem Tracked.start {c : Call} (h : Tracked total value p base stage k s)
    (hok : answersNull p s (.start c) = true) (hstart : c.start config s.shared s.calls = true)
    : Tracked total value p base stage k ⟨s.shared, s.calls ++ [c]⟩ := by
  have hfits : c.Fits p (value k) stage := by
    cases hc : c.isSweep with
    | false =>
      refine .of_concerns hc ?_
      cases c with
      | sweep s => contradiction
      | accept a => simpa [answersNull] using hok
      | deliver d => simpa [answersNull] using hok
    | true =>
      cases c with
      | accept a => contradiction
      | deliver d => contradiction
      | sweep w =>
        intro hrunning
        have hrests : stage.rests = true := by
          refine h.rests.resolve_right ?_
          rintro ⟨d, hd, hsweeping⟩
          rw [Call.not_isSweeping_of_start hstart hrunning hd] at hsweeping
          contradiction
        rw [(Call.sweep_of_start hstart).1]
        refine ⟨Stage.flow_of_rests hrests, Nat.zero_le _, ?_, ?_, ?_⟩
        . intro e he; contradiction
        . intro _ _ _ heq; contradiction
        . intro _ _ _ heq; contradiction
  refine ⟨h.holds, h.sole, ?_, ?_⟩
  . intro d hd
    rcases List.mem_append.mp hd with hd | hd
    . exact h.calls d hd
    . rw [List.mem_singleton.mp hd]
      exact hfits
  . refine h.rests.imp_right ?_
    rintro ⟨d, hd, hsweeping⟩
    exact ⟨d, List.mem_append_left _ hd, hsweeping⟩

theorem Stage.Holds.expire {σ σ' : Shared} {key : String}
    (h : stage.Holds total value p base σ k) (hevict : σ.redis.evict key = some σ'.redis)
    (hhistory : σ'.history = σ.history)
    : stage.Holds total value p base σ' k := by
  obtain ⟨_, hget, _, hzset, _⟩ := evict_spec _ hevict
  by_cases hkey : p.hashKey = key
  . have hnone : ∀ field, σ'.redis.get p.hashKey field = none := by
      intro field
      rw [hget, if_pos hkey]
    have hexpired : σ'.redis.hashes p.hashKey = none := by
      rw [← Option.not_isSome_iff_eq_none, isSome_hashes]
      rintro ⟨field, hfield⟩
      rw [hnone] at hfield
      contradiction
    have hcounting : ∀ n, Counting total value p σ.redis n → Counting total value p σ'.redis n :=
      fun n h => ⟨h.le, Or.inl (hnone _)⟩
    cases stage with
    | free => exact ⟨hhistory ▸ h.1, hcounting _ h.2⟩
    | visiting => exact ⟨hhistory ▸ h.1, hcounting _ h.2⟩
    | republishing pc => exact ⟨h.1, hhistory ▸ h.2.1, hcounting _ h.2.2⟩
    | publishing => exact ⟨h.1, hhistory ▸ h.2.1, hcounting _ h.2.2⟩
    | marking pc => exact ⟨h.1, hhistory ▸ h.2.1, fun _ => Or.inl hexpired⟩
    | concluded => exact ⟨h.1, hhistory ▸ h.2.1, Or.inl hexpired, by rw [hzset]; exact h.2.2.unlisted⟩
  . refine h.of_same ⟨fun field => ?_, fun hnone => ?_⟩ (hhistory.trans (List.append_nil _).symm) rfl
      rfl
    . rw [hget, if_neg hkey]
    . rw [hzset]
      exact hnone

theorem Tracked.env {e : Env} {σ' : Shared} (h : Tracked total value p base stage k s)
    (henv : ServerB.env s.shared e = some σ')
    : Tracked total value p base stage k ⟨σ', s.calls⟩ := by
  cases e with
  | tick ms =>
    obtain rfl := env_tick henv
    refine ⟨?_, h.sole, h.calls, h.rests⟩
    exact h.holds.of_same (.of_eq rfl) (List.append_nil _).symm rfl rfl
  | expire userId couponTypeId =>
    obtain ⟨redis, hevict, rfl⟩ := env_expire henv
    refine ⟨h.holds.expire hevict rfl, ?_, h.calls, h.rests⟩
    obtain ⟨_, _, _, hzset, _⟩ := evict_spec _ hevict
    intro member hscore hparse
    rw [hzset] at hscore
    exact h.sole member hscore hparse

theorem tracked_of_run (hcounter : Counter config.maxPublishAttempts total value)
    (hsolo : Solo s) (h : Tracked total value p base stage k s)
    (hrun : (calls config).machine.Run (fun s a => answersNull p s a = true) s t)
    : ∃ stage' k', Tracked total value p base stage' k' t := by
  refine hrun.invariant_of (K := Solo)
    (I := fun t => ∃ stage' k', Tracked total value p base stage' k' t)
    (fun u hu => hsolo.run hu) ⟨stage, k, h⟩ ?_
  rintro u a v hsolo _ ⟨stage, k, h⟩ hok hnext
  cases a with
  | start c =>
    obtain ⟨hstart, rfl⟩ := Calls.next_start hnext
    exact ⟨stage, k, h.start hok hstart⟩
  | step i x =>
    obtain ⟨c, σ', c', hc, _, hstep, rfl⟩ := Calls.next_step hnext
    cases hsweep : c.isSweep with
    | false => exact ⟨stage, k, h.step_other hc hsweep hstep⟩
    | true =>
      cases c with
      | sweep w =>
        refine h.step_sweep hcounter hsolo hc ?_ hstep
        simpa [answersNull, hc, Call.allows] using hok
      | accept a => contradiction
      | deliver d => contradiction
  | env e =>
    obtain ⟨σ', henv, rfl⟩ := Calls.next_env hnext
    exact ⟨stage, k, h.env henv⟩

theorem SweepPc.works_of_stage {pc : SweepPc} (h : pc.stage p ≠ .free) : pc.works p = true := by
  cases pc with
  | lookup pending stale =>
    by_contra hworks
    exact h (if_neg (by simpa [works] using hworks))
  | markResult mark gaveUp stale =>
    by_contra hworks
    exact h (if_neg (by simpa [works] using hworks))
  | recordRepublish pending republish stale =>
    by_contra hworks
    exact h (if_neg (by simpa [works] using hworks))
  | publishForScheduler payload stale =>
    by_contra hworks
    exact h (if_neg (by simpa [works] using hworks))
  | _ => exact absurd rfl h

theorem Tracked.rests_of_works (h : Tracked total value p base stage k s)
    (hworks : ∀ c ∈ s.calls, c.works p = false)
    : stage.rests = true := by
  refine h.rests.elim id ?_
  rintro ⟨c, hc, hsweeping⟩
  cases c with
  | sweep w =>
    have hfits : w.pc.Fits p (value k) stage := h.calls _ hc hsweeping
    refine hfits.rests ?_
    by_contra hne
    exact absurd ((SweepPc.works_of_stage hne).symm.trans (hworks _ hc)) (by decide)
  | accept a => contradiction
  | deliver d => contradiction

theorem Stage.Holds.recorded {σ : Shared} (h : stage.Holds total value p base σ k)
    : ∃ visits, visits ≤ total + 1 ∧ Recorded value p base σ.history visits total
        ∧ (visits = total + 1 → stage.rests = true → GivenUp σ.redis p) := by
  cases stage with
  | free =>
    have hle := h.2.le
    refine ⟨k, by omega, h.1.mono hle, fun heq => ?_⟩
    omega
  | visiting =>
    have hle := h.2.le
    exact ⟨k + 1, by omega, h.1.mono hle, fun _ hrests => nomatch hrests⟩
  | republishing pc =>
    have hlt := h.1
    exact ⟨k + 1, by omega, h.2.1.mono (by omega), fun _ hrests => nomatch hrests⟩
  | publishing =>
    have hlt := h.1
    exact ⟨k + 1, by omega, h.2.1.mono (by omega), fun _ hrests => nomatch hrests⟩
  | marking pc =>
    have heq := h.1
    exact ⟨k + 1, by omega, h.2.1.mono (by omega), fun _ hrests => nomatch hrests⟩
  | concluded =>
    have heq := h.1
    exact ⟨k + 1, by omega, h.2.1.mono (by omega), fun _ _ => h.2.2⟩

theorem Tracked.converges {attempts : JsNumber} {m : Nat}
    (hcounter : Counter m (rounds m attempts) value)
    (h : Tracked (rounds m attempts) value p base stage k t)
    : Converges m attempts p (t.shared.history.drop base) t := by
  obtain ⟨visits, hle, hrecorded, hgivenUp⟩ := h.holds.recorded
  have hlength : (visitsOf p (t.shared.history.drop base)).length = visits := by
    rw [hrecorded.visits, List.length_map, List.length_range]
  refine ⟨?_, hrecorded.publishes, hlength.trans_le hle, ?_⟩
  . rw [hrecorded.visits, List.pairwise_map]
    refine List.pairwise_lt_range.imp_of_mem ?_
    intro i j _ hj hij
    rw [List.mem_range] at hj
    exact hcounter.increasing i j hij (by omega)
  . intro hlast hworks
    exact hgivenUp (hlength.symm.trans hlast) (h.rests_of_works hworks)

/--
The visits to an entry converge when its first visit gives up, or when its counter is stored and can
be counted exactly.
-/
theorem republish_converges {attempts : JsNumber} (hstored : Stored s p attempts)
    (hexact : CountsExactly config.maxPublishAttempts attempts s.shared.redis p)
    (hrun : (calls config).machine.Run (fun s a => answersNull p s a = true) s t)
    : Converges config.maxPublishAttempts attempts p
        (t.shared.history.drop s.shared.history.length) t := by
  obtain ⟨value, hcounter, rfl, hcounted⟩ := exists_counter hexact
  have hcalm : ∀ c ∈ s.calls, c.isSweeping = false := by
    intro c hc
    have hconcerns := hstored.calm c hc
    cases c with
    | sweep w => exact hconcerns
    | accept a => rfl
    | deliver d => rfl
  have hrecorded : Recorded value p s.shared.history.length s.shared.history 0 0 := by
    refine ⟨Nat.le_refl _, ?_, ?_⟩ <;> rw [List.drop_length] <;> rfl
  have htracked : Tracked (rounds config.maxPublishAttempts (value 0)) value p
      s.shared.history.length .free 0 s := by
    refine ⟨⟨hrecorded, Nat.zero_le _, Or.inr ⟨hstored.readable, hcounted⟩⟩, hstored.sole, ?_,
      Or.inl rfl⟩
    intro c hc
    cases c with
    | sweep w =>
      intro hrunning
      exact absurd (hrunning.symm.trans (hcalm _ hc)) (by decide)
    | accept a => exact hstored.calm _ hc
    | deliver d => exact hstored.calm _ hc
  obtain ⟨stage, k, htracked⟩ := tracked_of_run hcounter (solo_of_not_isSweeping hcalm) htracked hrun
  exact htracked.converges hcounter

def isStored (s : State) (p : Pair) (attempts : JsNumber) : Bool :=
  let get := s.shared.redis.get p.hashKey
  (get .requestId).isSome && (get .eventId).isSome && (get .status).isSome && (get .createdAt).isSome
    && readAttempts (get .publishAttempts) == some attempts
    && (s.shared.redis.zset.score p.member).isSome && isDecimalPair p
    && s.shared.redis.zset.entries.all (fun e => parseMember e.1 != some p || e.1 == p.member)
    && s.calls.all (!·.concerns p)

theorem stored_of_isStored {attempts : JsNumber} (h : isStored s p attempts = true)
    : Stored s p attempts := by
  simp only [isStored, Bool.and_eq_true, beq_iff_eq, List.all_eq_true, Bool.not_eq_true',
    Bool.or_eq_true, bne_iff_ne] at h
  obtain ⟨⟨⟨⟨⟨⟨⟨⟨hrequestId, heventId⟩, hstatus⟩, hcreatedAt⟩, hattempts⟩, hlisted⟩, hdecimal⟩, hsole⟩,
    hcalm⟩ := h
  refine ⟨⟨hrequestId, heventId, hstatus, hcreatedAt, hattempts⟩, hlisted, hdecimal, ?_, hcalm⟩
  intro member hscore hparse
  obtain ⟨score, hentry⟩ := (Redis.ZSet.isSome_score _).mp hscore
  exact (hsole _ hentry).resolve_left fun hne => hne hparse

def applicant : Pair :=
  (.ofInt 1, .ofInt 20)

def entry (attempts : List (Field × String)) : State where
  shared := {
    redis :=
      let fields := (application "a" 0).fields.filter (·.1 != .publishAttempts) ++ attempts
      let redis : Redis := (empty.setAll applicant.hashKey fields).setTtl applicant.hashKey
      { redis with zset := redis.zset.add applicant.member 0 }
    clock := 0
    topic := []
    history := []
  }
  calls := []

def visitAfter (i : Nat) (seconds : Nat) : List Act :=
  [.env (.tick 10000), .start (newSweep (seconds * 1000)), .step i .ok, .step i .ok,
    .step i (.answer none)]

def republished (i : Nat) : List Act :=
  List.replicate 5 (.step i .ok)

def givenUp (i : Nat) : List Act :=
  List.replicate 3 (.step i .ok)

theorem republish_converges_defaults
    : ∃ s t, Stored s applicant (.ofInt 1)
        ∧ (calls defaults).machine.Run (fun s a => answersNull applicant s a = true) s t
        ∧ visitsOf applicant (t.shared.history.drop s.shared.history.length)
            = [.ofInt 1, .ofInt 2, .ofInt 3]
        ∧ Converges 3 (.ofInt 1) applicant (t.shared.history.drop s.shared.history.length) t := by
  have hstored : Stored (entry [(.publishAttempts, "1")]) applicant (.ofInt 1) :=
    stored_of_isStored (by decide +kernel)
  obtain ⟨t, hrun, ht⟩ := Machine.exists_run_of_exec (calls defaults).machine
    (answersNull applicant) (fun s a => answersNull applicant s a = true) (fun _ _ h => h)
    (visitAfter 0 0 ++ republished 0 ++ visitAfter 1 10 ++ republished 1 ++ visitAfter 2 20
      ++ givenUp 2)
    (entry [(.publishAttempts, "1")])
    (fun t => visitsOf applicant t.shared.history == [.ofInt 1, .ofInt 2, .ofInt 3])
    (by decide +kernel)
  refine ⟨_, t, hstored, hrun, beq_iff_eq.mp ht, ?_⟩
  refine republish_converges hstored (Or.inr ⟨?_, 1, ?_⟩) hrun
  . decide
  . exact ⟨by decide, rfl, by decide +kernel⟩

/--
A counter that is not stored reads 1 once more after its first increment.
-/
theorem republish_uncounted
    : ¬∀ (config : Config) (s t : State) (p : Pair) (attempts : JsNumber),
        1 ≤ config.maxPublishAttempts → Stored s p attempts
          → (calls config).machine.Run (fun s a => answersNull p s a = true) s t
          → Converges config.maxPublishAttempts attempts p
              (t.shared.history.drop s.shared.history.length) t := by
  intro h
  obtain ⟨t, hrun, ht⟩ := Machine.exists_run_of_exec (calls defaults).machine
    (answersNull applicant) (fun s a => answersNull applicant s a = true) (fun _ _ h => h)
    (visitAfter 0 0 ++ republished 0 ++ visitAfter 1 10) (entry [])
    (fun t => visitsOf applicant t.shared.history == [.ofInt 1, .ofInt 1])
    (by decide +kernel)
  have hincreasing := (h defaults (entry []) t applicant (.ofInt 1) (by decide)
    (stored_of_isStored (by decide +kernel)) hrun).increasing
  have hvisits : visitsOf applicant (t.shared.history.drop (entry []).shared.history.length)
      = [.ofInt 1, .ofInt 1] := beq_iff_eq.mp ht
  rw [hvisits] at hincreasing
  exact absurd hincreasing (by decide +kernel)

end Run

end ServerB
