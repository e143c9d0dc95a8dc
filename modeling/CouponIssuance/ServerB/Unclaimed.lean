import CouponIssuance.ServerB.Duplicate
import CouponIssuance.ServerB.Lemmas.Sweep

/-!
This module contains how a pair stays unclaimed: until the `HSETNX` of an `accept` is executed.
-/

namespace ServerB

open Concurrency Redis.Server

def Accept.isUnchecked (a : Accept) : Bool :=
  match a.pc with
  | .save .hsetnx => true
  | _ => false

def State.isUnclaimed (s : State) (p : Pair) : Bool :=
  (s.shared.redis.get p.hashKey .userId).isNone && !s.calls.any (Call.isFilling p)

section Steps

variable {config : Config} {σ σ' : Shared} {s t : State} {a : Accept} {f f' : Call} {x : Input}
variable {p : Pair}

theorem Accept.isRunning_steps (hsteps : (Call.accept a).Steps config σ σ' x f')
    : a.isRunning = true := by
  have hawaits := Call.awaits_of_steps hsteps
  unfold isRunning
  split
  . rfl
  . rfl
  . next hsave hpublish =>
    exact absurd (by simp [Call.awaits]) hawaits

theorem Accept.isUnchecked_steps {a' : Accept}
    (hsteps : (Call.accept a).Steps config σ σ' x (.accept a'))
    : a'.isUnchecked = false := by
  have hrunning := isRunning_steps hsteps
  generalize hc' : Call.accept a' = c' at hsteps
  cases hsteps with
  | replied command reply hawaits hexec =>
    rw [Call.resume, Call.accept.injEq] at hc'
    subst hc'
    simp only [Call.awaits] at hawaits
    split at hawaits
    . next q hq =>
      cases q with
      | hsetnx =>
        rw [← Await.redis.inj hawaits] at hexec
        rcases exec_hsetnx hexec with ⟨_, _, rfl⟩ | ⟨_, _, rfl⟩
        . simp [resume, hq, isUnchecked]
        . simp [resume, hq, isUnchecked]
      | hset => simp [resume, hq, isUnchecked]
      | expire => simp [resume, hq, isUnchecked]
      | zadd => simp [resume, hq, isUnchecked]
    . contradiction
    . contradiction
  | lost command reply _ _ => cases hc'; rfl
  | failed x command _ _ _ => cases hc'; rfl
  | published x payload _ _ => cases hc'; rfl
  | answered userId couponTypeId result hlookup _ =>
    simp only [Call.awaits] at hlookup
    split at hlookup <;> contradiction
  | unanswered executed userId couponTypeId _ _ => cases hc'; rfl
  | crashed _ _ => cases hc'; rfl

theorem Call.Steps.isFilling (hsteps : f.Steps config σ σ' x f') (hfilling : f'.isFilling p = true)
    : ∃ a, f = .accept a ∧ a.pair = p ∧ a.isUnchecked = true ∧ x.executes = true := by
  unfold Call.isFilling at hfilling
  split at hfilling
  . next a' =>
    split at hfilling
    . next hpc =>
      obtain ⟨a, rfl⟩ := accept_of_steps hsteps
      have hpair := (Accept.generation_steps hsteps).1
      refine ⟨a, rfl, hpair.symm.trans (beq_iff_eq.mp hfilling), ?_⟩
      generalize hc' : Call.accept a' = c' at hsteps
      cases hsteps with
      | replied command reply hawaits hexec =>
        rw [Call.resume, Call.accept.injEq] at hc'
        subst hc'
        simp only [Call.awaits] at hawaits
        split at hawaits
        . next q hq =>
          cases q with
          | hsetnx => exact ⟨by simp [Accept.isUnchecked, hq], rfl⟩
          | hset => simp [Accept.resume, hq] at hpc
          | expire => simp [Accept.resume, hq] at hpc
          | zadd => simp [Accept.resume, hq] at hpc
        . contradiction
        . contradiction
      | lost command reply _ _ => cases hc'; contradiction
      | failed x command _ _ _ => cases hc'; contradiction
      | published x payload _ _ => cases hc'; contradiction
      | answered userId couponTypeId result hlookup _ =>
        simp only [Call.awaits] at hlookup
        split at hlookup <;> contradiction
      | unanswered executed userId couponTypeId _ _ => cases hc'; contradiction
      | crashed _ _ => cases hc'; contradiction
    . contradiction
  . contradiction

theorem isUnclaimed_next {act : Act} (h : s.isUnclaimed p = true)
    (hnext : (calls config).next s act = some t)
    (hno : ∀ j x a, act = .step j x → s.calls[j]? = some (.accept a) → a.pair = p
      → a.isUnchecked = true → x.executes = false)
    : t.isUnclaimed p = true := by
  simp only [State.isUnclaimed, Bool.and_eq_true, Option.isNone_iff_eq_none, Bool.not_eq_true',
    List.any_eq_false] at h ⊢
  obtain ⟨hnone, hfilling⟩ := h
  cases act with
  | start f =>
    obtain ⟨hstart, rfl⟩ := Calls.next_start hnext
    refine ⟨hnone, ?_⟩
    intro c hc
    rcases List.mem_append.mp hc with hc | hc
    . exact hfilling c hc
    . rw [List.mem_singleton.mp hc]
      intro hf
      unfold Call.isFilling at hf
      split at hf
      . split at hf
        . next a _ hpc =>
          simp only [calls, Call.start] at hstart
          split at hstart <;> simp_all
        . contradiction
      . contradiction
  | step j x =>
    obtain ⟨f, σ', f', hf, _, hstep, rfl⟩ := Calls.next_step hnext
    have hsteps := Call.step_spec hstep
    refine ⟨?_, ?_⟩
    . by_contra hsome
      rw [← ne_eq, Option.ne_none_iff_isSome] at hsome
      have hchanged : σ'.redis ≠ s.shared.redis := by
        intro heq
        rw [heq, hnone] at hsome
        contradiction
      rcases hsteps.redis with hredis | ⟨command, reply, hruns, hexec⟩
      . exact hchanged hredis
      . obtain ⟨a, rfl, hpair, hpc⟩ := hruns.userId hexec hnone hsome
        rcases hpc with hpc | hpc
        . have := hno j x a rfl hf hpair (by simp [Accept.isUnchecked, hpc])
          rw [hsteps.executes hchanged] at this
          contradiction
        . refine hfilling _ (List.mem_of_getElem? hf) ?_
          simp [Call.isFilling, hpc, hpair]
    . intro c hc hfill
      obtain ⟨k, hk⟩ := List.mem_iff_getElem?.mp hc
      rcases Calls.getElem?_set_cases hk with ⟨rfl, rfl⟩ | ⟨_, hk⟩
      . obtain ⟨a, rfl, hpair, hunchecked, hexecutes⟩ := hsteps.isFilling hfill
        rw [hno k x a rfl hf hpair hunchecked] at hexecutes
        contradiction
      . exact hfilling c (List.mem_of_getElem? hk) hfill
  | env e =>
    obtain ⟨shared, henv, rfl⟩ := Calls.next_env hnext
    refine ⟨?_, hfilling⟩
    cases e with
    | tick ms =>
      obtain rfl := env_tick henv
      exact hnone
    | expire userId couponTypeId =>
      obtain ⟨redis, hevict, rfl⟩ := env_expire henv
      obtain ⟨_, hget, _, _, _⟩ := evict_spec _ hevict
      dsimp only
      rw [hget]
      split
      . rfl
      . exact hnone

end Steps

end ServerB
