import CouponIssuance.ServerB.Accepted

/-!
This module contains the promise of `DUPLICATE`: it is answered only for an application that is
really alive, unless an `accept` has been cut off before.
-/

namespace ServerB

open Concurrency Redis.Server

/--
The step from `s` to `t` lets call `i` answer `DUPLICATE` for the pair, and no other call of
`accept` for it is in progress.
-/
structure AnswersDuplicate (s t : State) (i : Nat) (p : Pair) : Prop where
  before : ∃ a, s.calls[i]? = some (.accept a) ∧ a.isRunning = true
  after : ∃ b, t.calls[i]? = some (.accept b) ∧ b.isDuplicate = true ∧ b.pair = p
  alone : ∀ (j : Nat) c, j ≠ i → t.calls[j]? = some (.accept c) → c.pair = p → c.isRunning = false

def overAfterZadd : AcceptPc → Bool
  | .save _ => false
  | _ => true

def quiet (s : State) (a : Act) : Bool :=
  undisturbed s a && uncut s a

theorem covers_uncut {ok : State → Act → Prop} (h : ∀ s a, ok s a → quiet s a = true)
    : Covers overAfterZadd ok where
  save _ := rfl
  publish := rfl
  quiet s a hok := by
    have := h s a hok
    simp only [quiet, Bool.and_eq_true] at this
    exact this.1
  cut s i x a hok hi _ q hq hne hx hzadd := by
    have := h s _ hok
    simp only [quiet, uncut, hi, Option.any_some, Bool.and_eq_true, Bool.not_eq_true',
      Call.isCut, hq] at this
    cases q with
    | hsetnx => contradiction
    | hset => cases x <;> simp_all
    | expire => cases x <;> simp_all
    | zadd => cases x <;> simp_all

def Claimed (s : State) : Prop :=
  ∀ p : Pair, (s.shared.redis.get p.hashKey .userId).isSome = true
    → ∃ (i : Nat) (a : Accept), s.calls[i]? = some (.accept a) ∧ a.pair = p ∧ a.Owns s.shared.redis

section Claims

variable {config : Config} {c : Call} {command : Command} {redis redis' : Redis} {reply : Reply}

theorem Call.Runs.userId (h : c.Runs config command)
    (hexec : redis.exec command = some (redis', reply)) {p : Pair}
    (hnone : redis.get p.hashKey .userId = none)
    (hsome : (redis'.get p.hashKey .userId).isSome = true)
    : ∃ a, c = .accept a ∧ a.pair = p ∧ (a.pc = .save .hsetnx ∨ a.pc = .save .hset) := by
  rcases h.get hexec p .userId with hsame | hwrites
  . rw [hsame, hnone] at hsome
    contradiction
  cases hwrites with
  | claim a hc hpc hp => exact ⟨a, hc, hp, Or.inl hpc⟩
  | fill a field hc hpc hp hfield => exact ⟨a, hc, hp, Or.inr hpc⟩

end Claims

section Run

variable {config : Config} {clock : Nat} {σ σ' : Shared} {s t : State} {c' : Call} {x : Input}

theorem Accept.steps_accept {a : Accept} (hsteps : (Call.accept a).Steps config σ σ' x c')
    : ∃ a', c' = .accept a' := by
  cases hsteps <;> exact ⟨_, rfl⟩

theorem Accept.Owns.steps {a a' : Accept} (h : a.Owns σ.redis)
    (hsteps : (Call.accept a).Steps config σ σ' x (.accept a'))
    : a'.Owns σ'.redis := by
  obtain ⟨hpair, hgen⟩ := generation_steps hsteps
  rw [Owns, hpair, hsteps.evictions]
  rcases hgen with hsame | ⟨_, _, hnew⟩
  . exact hsame.trans h
  . exact hnew

theorem Accept.owns_of_hsetnx {a : Accept} (hpc : a.pc = .save .hsetnx)
    (hcut : (Call.accept a).isCut x = false) (hsteps : (Call.accept a).Steps config σ σ' x c')
    (hnone : σ.redis.get a.pair.hashKey .userId = none)
    (hsome : (σ'.redis.get a.pair.hashKey .userId).isSome = true)
    : ∃ a', c' = .accept a' ∧ a'.pair = a.pair ∧ a'.Owns σ'.redis := by
  have hsame : σ'.redis ≠ σ.redis := by
    intro heq
    rw [heq, hnone] at hsome
    contradiction
  have hevictions := hsteps.evictions
  cases hsteps with
  | replied command reply hawaits hexec =>
    simp only [Call.awaits, hpc, Await.redis.injEq] at hawaits
    rw [← hawaits] at hexec
    rcases exec_hsetnx hexec with ⟨_, heq, _⟩ | ⟨_, _, rfl⟩
    . exact absurd heq hsame
    . refine ⟨_, rfl, ?_, ?_⟩
      . simp [resume, hpc, pair]
      . rw [Owns, hevictions]
        simp only [resume, hpc]
        rfl
  | lost command reply _ _ => simp [Call.isCut, hpc] at hcut
  | failed x command _ heq _ => exact absurd heq hsame
  | published x payload _ heq => exact absurd heq hsame
  | answered userId couponTypeId result _ heq => exact absurd heq hsame
  | unanswered executed userId couponTypeId _ heq => exact absurd heq hsame
  | crashed _ heq => exact absurd heq hsame

theorem Claimed.step {i : Nat} (h : Claimed s)
    (houtline : AcceptOutline overAfterZadd s) (hok : quiet s (.step i x) = true)
    (hnext : (calls config).next s (.step i x) = some t)
    : Claimed t := by
  obtain ⟨f, σ', f', hf, _, hstep, rfl⟩ := Calls.next_step hnext
  have hsteps := Call.step_spec hstep
  have hlt := (List.getElem?_eq_some_iff.mp hf).1
  -- a claim of the call that steps stands at its place
  have hown : ∀ a p, f' = .accept a → a.pair = p → a.Owns σ'.redis
      → ∃ (j : Nat) (a : Accept), (s.calls.set i f')[j]? = some (.accept a) ∧ a.pair = p
        ∧ a.Owns σ'.redis := by
    intro a p hf' hp howns
    exact ⟨i, a, by rw [List.getElem?_set_self hlt, hf'], hp, howns⟩
  intro p hp
  cases hbefore : s.shared.redis.get p.hashKey .userId with
  | some userId =>
    obtain ⟨j, a, ha, hpair, howns⟩ := h p (by rw [hbefore]; rfl)
    by_cases hij : j = i
    . subst hij
      rw [ha, Option.some.injEq] at hf
      subst hf
      obtain ⟨a', rfl⟩ := Accept.steps_accept hsteps
      exact hown a' p rfl ((Accept.generation_steps hsteps).1.trans hpair) (howns.steps hsteps)
    . exact ⟨j, a, by rw [List.getElem?_set_ne (Ne.symm hij)]; exact ha, hpair,
        hsteps.owns.mpr howns⟩
  | none =>
    have hcut : f.isCut x = false := by
      simp only [quiet, uncut, hf, Option.any_some, Bool.and_eq_true, Bool.not_eq_true'] at hok
      exact hok.2
    rcases hsteps.redis with hredis | ⟨command, reply, hruns, hexec⟩
    . rw [hredis, hbefore] at hp
      contradiction
    . obtain ⟨a, rfl, hpair, hpc⟩ := hruns.userId hexec hbefore hp
      subst hpair
      rcases hpc with hpc | hpc
      . obtain ⟨a', hf', hp', howns⟩ := Accept.owns_of_hsetnx hpc hcut hsteps hbefore hp
        exact hown a' _ hf' hp' howns
      . obtain ⟨a', rfl⟩ := Accept.steps_accept hsteps
        have howns := ((houtline.calls i _ hf).2 a rfl).filling hpc
        exact hown a' _ rfl (Accept.generation_steps hsteps).1 (howns.steps hsteps)

theorem claimed (hrun : (calls config).machine.Run (fun s a => quiet s a = true) (init clock) s)
    : Claimed s := by
  apply hrun.invariant_of (K := AcceptOutline overAfterZadd)
  . intro u hu
    exact acceptOutline (covers_uncut (fun _ _ h => h)) hu
  . intro p hp
    contradiction
  . intro u a v hu _ hclaimed hok hnext
    cases a with
    | step i x => exact hclaimed.step hu hok hnext
    | start f =>
      obtain ⟨_, rfl⟩ := Calls.next_start hnext
      intro p hp
      obtain ⟨j, a, ha, hpair, howns⟩ := hclaimed p hp
      exact ⟨j, a, by rw [List.getElem?_append_left (List.getElem?_eq_some_iff.mp ha).1]; exact ha,
        hpair, howns⟩
    | env e =>
      obtain ⟨shared, henv, rfl⟩ := Calls.next_env hnext
      cases e with
      | tick ms =>
        obtain rfl := env_tick henv
        exact hclaimed
      | expire userId couponTypeId =>
        obtain ⟨redis, hevict, rfl⟩ := env_expire henv
        obtain ⟨_, hget, _, _, hevictions⟩ := evict_spec _ hevict
        intro p hp
        rw [hget] at hp
        split at hp
        . contradiction
        . next hkey =>
          obtain ⟨j, a, ha, rfl, howns⟩ := hclaimed p hp
          refine ⟨j, a, ha, rfl, ?_⟩
          rw [Accept.Owns, hevictions, if_neg hkey]
          exact howns

theorem Accept.isDuplicate_steps {a b : Accept}
    (hsteps : (Call.accept a).Steps config σ σ' x (.accept b)) (hdup : b.isDuplicate = true)
    : a.pc = .save .hsetnx ∧ b.pair = a.pair ∧ σ'.redis = σ.redis
        ∧ (σ.redis.get a.pair.hashKey .userId).isSome = true := by
  have hpair := (generation_steps hsteps).1
  generalize hc' : Call.accept b = c' at hsteps
  cases hsteps with
  | replied command reply hawaits hexec =>
    rw [Call.resume, Call.accept.injEq] at hc'
    subst hc'
    simp only [Call.awaits] at hawaits
    split at hawaits
    . next q hq =>
      rw [← Await.redis.inj hawaits] at hexec
      cases q with
      | hsetnx =>
        rcases exec_hsetnx hexec with ⟨hsome, hsame, _⟩ | ⟨_, _, rfl⟩
        . exact ⟨hq, hpair, hsame, hsome⟩
        . simp [resume, hq, isDuplicate] at hdup
      | hset => simp [resume, hq, isDuplicate] at hdup
      | expire => simp [resume, hq, isDuplicate] at hdup
      | zadd => simp [resume, hq, isDuplicate] at hdup
    . contradiction
    . contradiction
  | lost command reply _ _ => cases hc'; contradiction
  | failed x command _ _ _ => cases hc'; contradiction
  | published x payload hpub _ =>
    cases hc'
    simp [published, isDuplicate, IssueAcceptance.accepted] at hdup
  | answered userId couponTypeId result hlookup _ =>
    simp only [Call.awaits] at hlookup
    split at hlookup <;> contradiction
  | unanswered executed userId couponTypeId hlookup _ => cases hc'; contradiction
  | crashed _ _ => cases hc'; contradiction

/--
If no `accept` is cut off and nothing disturbs what was accepted, then `DUPLICATE` is answered only
for an application that is alive.
-/
theorem duplicate_alive {i : Nat} {p : Pair}
    (hrun : (calls config).machine.Run (fun s a => quiet s a = true) (init clock) s)
    (hnext : (calls config).next s (.step i x) = some t) (hanswers : AnswersDuplicate s t i p)
    : Alive t.shared.redis p := by
  have houtline := acceptOutline (covers_uncut (fun _ _ h => h)) hrun
  obtain ⟨f, σ', f', hf, _, hstep, rfl⟩ := Calls.next_step hnext
  have hlt := (List.getElem?_eq_some_iff.mp hf).1
  obtain ⟨a, ha, _⟩ := hanswers.before
  obtain ⟨b, hb, hdup, rfl⟩ := hanswers.after
  rw [ha, Option.some.injEq] at hf
  rw [List.getElem?_set_self hlt, Option.some.injEq] at hb
  subst hf hb
  obtain ⟨hpc, hpair, hredis, hsome⟩ :=
    Accept.isDuplicate_steps (Call.step_spec hstep) hdup
  obtain ⟨j, c, hc, hcpair, howns⟩ := claimed hrun a.pair hsome
  have hji : j ≠ i := by
    rintro rfl
    rw [ha, Option.some.injEq, Call.accept.injEq] at hc
    subst hc
    rw [Accept.Owns, ((houtline.calls j _ ha).2 a rfl).unclaimed hpc] at howns
    contradiction
  have hover := hanswers.alone j c hji
    (by rw [List.getElem?_set_ne (Ne.symm hji)]; exact hc) (hcpair.trans hpair.symm)
  have hsettled : overAfterZadd c.pc = true := by
    unfold Accept.isRunning at hover
    unfold overAfterZadd
    split at hover
    . contradiction
    . contradiction
    . next hsave _ =>
      split
      . next q heq => exact absurd heq (hsave q)
      . rfl
  have hinv := (houtline.calls j _ hc).2 c rfl
  have hfilled := hinv.filled (Or.inr (Or.inr hsettled)) howns
  change Alive σ'.redis b.pair
  rw [hredis, hpair, ← hcpair]
  refine ⟨hinv.ttl (Or.inr hsettled) howns, hfilled.requestId, hfilled.eventId, hfilled.createdAt, ?_⟩
  rcases hinv.outcome hsettled howns with hconcluded | hwaiting
  . exact Or.inl hconcluded
  . exact Or.inr ⟨hwaiting.status, hwaiting.listed⟩

def isOver (p : Pair) : Call → Bool
  | .accept c => c.pair != p || !c.isRunning
  | _ => true

def answersDuplicate (s t : State) (i : Nat) (p : Pair) : Bool :=
  match s.calls[i]?, t.calls[i]? with
  | some (.accept a), some (.accept b) =>
    a.isRunning && b.isDuplicate && b.pair == p && (t.calls.eraseIdx i).all (isOver p)
  | _, _ => false

theorem answersDuplicate_spec {i : Nat} {p : Pair} (h : answersDuplicate s t i p = true)
    : AnswersDuplicate s t i p := by
  unfold answersDuplicate at h
  split at h
  . next a b ha hb =>
    simp only [Bool.and_eq_true, beq_iff_eq, List.all_eq_true] at h
    obtain ⟨⟨⟨hrunning, hdup⟩, hpair⟩, halone⟩ := h
    refine ⟨⟨a, ha, hrunning⟩, ⟨b, hb, hdup, hpair⟩, ?_⟩
    intro j c hj hc hcpair
    have hover := halone (.accept c) (List.mem_eraseIdx_iff_getElem?.mpr ⟨j, hj, hc⟩)
    simpa [isOver, hcpair] using hover
  . contradiction

def appliedTwice : List Act :=
  [.start (newAccept (application "a" 0))] ++ finish 0 ++ [.start (newAccept (application "b" 0))]

theorem duplicate_alive_twice
    : ∃ s t, (calls defaults).machine.Run (fun s a => quiet s a = true) (init 0) s
        ∧ (calls defaults).next s (.step 1 .ok) = some t
        ∧ AnswersDuplicate s t 1 (application "b" 0).pair
        ∧ Alive t.shared.redis (application "b" 0).pair := by
  obtain ⟨s, hrun, hs⟩ := Machine.exists_run_of_exec (calls defaults).machine quiet
    (fun s a => quiet s a = true) (fun _ _ h => h) appliedTwice (init 0)
    (fun s => ((calls defaults).next s (.step 1 .ok)).any
      (answersDuplicate s · 1 (application "b" 0).pair))
    (by decide +kernel)
  obtain ⟨t, hnext, hanswers⟩ := (Option.any_eq_true ..).mp hs
  have hanswers := answersDuplicate_spec hanswers
  exact ⟨s, t, hrun, hnext, hanswers, duplicate_alive hrun hnext hanswers⟩

def refused : List Act :=
  [.start (newAccept (application "a" 0)), .step 0 .ok, .step 0 .crash,
    .start (newAccept (application "b" 0))]

theorem duplicate_refused
    : ¬∀ (config : Config) (clock : Nat) (s t : State) (i : Nat) (x : Input) (p : Pair),
        (calls config).machine.Run (fun _ _ => True) (init clock) s
          → (calls config).next s (.step i x) = some t → AnswersDuplicate s t i p
          → Alive t.shared.redis p := by
  intro h
  obtain ⟨s, hrun, hs⟩ := Machine.exists_run_of_exec (calls defaults).machine (fun _ _ => true)
    (fun _ _ => True) (fun _ _ _ => trivial) refused (init 0)
    (fun s => ((calls defaults).next s (.step 1 .ok)).any fun t =>
      answersDuplicate s t 1 (application "b" 0).pair
        && !t.shared.redis.ttl (application "b" 0).pair.hashKey)
    (by decide +kernel)
  obtain ⟨t, hnext, ht⟩ := (Option.any_eq_true ..).mp hs
  rw [Bool.and_eq_true, Bool.not_eq_true'] at ht
  have halive := h defaults 0 s t 1 .ok _ hrun hnext (answersDuplicate_spec ht.1)
  exact absurd (halive.ttl.symm.trans ht.2) (by decide)

end Run

end ServerB
