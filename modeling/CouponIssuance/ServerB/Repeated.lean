import CouponIssuance.ServerB.Lemmas.Held
import CouponIssuance.ServerB.Unclaimed

/-!
This module contains what a republish repeats: the request of the `accept` that has stored the entry.
-/

namespace ServerB

open Concurrency Redis.Server Js

inductive Happening where
  /-- the `HSET` of this `accept` -/
  | stored (i : Nat) (p : Pair)
  /-- what this `accept` passes to `publish` -/
  | sent (i : Nat) (payload : CouponIssueRequestPayload)
  /-- the hash of the pair expires -/
  | expired (p : Pair)
  /-- the entry that this sweep makes of a hash -/
  | read (j : Nat) (pending : PendingIssue)
  /-- what this sweep passes to `publishForScheduler` -/
  | republished (j : Nat) (payload : CouponIssueRequestPayload)
deriving DecidableEq

def happening (s : State) (act : Act) (t : State) : Option Happening :=
  match act with
  | .step i x =>
    match s.calls[i]?, t.calls[i]? with
    | some (.accept a), some (.accept a') =>
      match a.pc, a'.pc with
      | .save .hset, _ => if x.executes then some (.stored i a.pair) else none
      | _, .publish => some (.sent i a'.payload)
      | _, _ => none
    | some (.sweep w), some (.sweep w') =>
      match w.pc, w'.pc with
      | .hgetall userId couponTypeId _ _ _, _ =>
        match x with
        | .ok =>
          let entries := s.shared.redis.get (RedisKeys.pendingHash userId couponTypeId)
          (readEntry userId couponTypeId entries).map (.read i)
        | _ => none
      | _, .publishForScheduler payload _ => some (.republished i payload)
      | _, _ => none
    | _, _ => none
  | .env (.expire userId couponTypeId) => some (.expired (userId, couponTypeId))
  | _ => none

def fills (p : Pair) (filled : Option Nat) : Happening → Option Nat
  | .stored i q => if q = p then some i else filled
  | .expired q => if q = p then none else filled
  | _ => filled

def storedBy (l : List Happening) (p : Pair) : Option Nat :=
  l.foldl (fills p) none

theorem storedBy_append (l : List Happening) (h : Happening) (p : Pair)
    : storedBy (l ++ [h]) p = fills p (storedBy l p) h := by
  simp [storedBy]

def State.save? (s : State) (i : Nat) : Option Save :=
  match s.calls[i]? with
  | some (.accept a) => some a.save
  | _ => none

structure Save.Left (redis : Redis) (v : Save) : Prop where
  requestId : redis.get v.pair.hashKey .requestId = some v.requestId
  eventId : redis.get v.pair.hashKey .eventId = some (toString v.eventId)
  createdAt : redis.get v.pair.hashKey .createdAt = some v.createdAtText

structure PendingIssue.IsOf (e : PendingIssue) (v : Save) : Prop where
  pair : v.pair = e.pair
  requestId : e.requestId = v.requestId
  eventId : e.eventId = v.eventId
  createdAt : ∀ time, e.createdAt = some time → time = v.createdAt

def ReadFrom (l : List Happening) (j : Nat) (e : PendingIssue) (i : Nat) : Prop :=
  ∃ earlier later, l = earlier ++ .read j e :: later ∧ storedBy earlier e.pair = some i

section Steps

variable {config : Config} {σ σ' : Shared} {s t : State} {c c' : Call} {x : Input} {p : Pair}
variable {redis redis' : Redis} {command : Command} {reply : Reply}

theorem Accept.save_steps {a a' : Accept} (hsteps : (Call.accept a).Steps config σ σ' x (.accept a'))
    : a'.save = a.save := by
  generalize hc' : Call.accept a' = c' at hsteps
  cases hsteps with
  | replied command reply hawaits hexec =>
    rw [Call.resume, Call.accept.injEq] at hc'
    subst hc'
    unfold resume
    split
    . split <;> rfl
    . rfl
    . rfl
    . rfl
    . rfl
  | _ => cases hc'; rfl

theorem save_next {act : Act} {i : Nat} {v : Save} (hnext : (calls config).next s act = some t)
    (h : s.save? i = some v)
    : t.save? i = some v := by
  unfold State.save? at h ⊢
  split at h
  . next a hi =>
    rcases Calls.getElem?_of_next hnext hi with hi' | ⟨x, f', rfl, hi', hstep⟩
    . rw [hi']
      exact h
    . have hsteps := Call.step_spec hstep
      obtain ⟨a', rfl⟩ : ∃ a', f' = .accept a' := by
        cases hsteps <;> exact ⟨_, rfl⟩
      rw [hi']
      dsimp only
      rw [Accept.save_steps hsteps]
      exact h
  . contradiction

theorem Call.Runs.origin (h : c.Runs config command)
    (hexec : redis.exec command = some (redis', reply)) (p : Pair)
    : (∀ field ∈ [Field.requestId, .eventId, .createdAt],
          redis'.get p.hashKey field = redis.get p.hashKey field)
        ∨ ∃ a, c = .accept a ∧ a.pc = .save .hset ∧ a.pair = p := by
  by_cases hfills : ∃ a, c = .accept a ∧ a.pc = .save .hset ∧ a.pair = p
  . exact .inr hfills
  . left
    intro field hfield
    rcases h.get hexec p field with hsame | hwrites
    . exact hsame
    . cases hwrites with
      | fill a field hc hpc hp _ => exact absurd ⟨a, hc, hpc, hp⟩ hfills
      | _ => simp at hfield

theorem Save.left_hset {v : Save} (hexec : redis.exec (v.command .hset) = some (redis', reply))
    : v.Left redis' where
  requestId := v.get_hset hexec _ (by simp [fields])
  eventId := v.get_hset hexec _ (by simp [fields])
  createdAt := v.get_hset hexec _ (by simp [fields])

theorem Save.Left.of_same {v : Save} (h : v.Left redis)
    (hsame : ∀ field ∈ [Field.requestId, .eventId, .createdAt],
      redis'.get v.pair.hashKey field = redis.get v.pair.hashKey field)
    : v.Left redis' where
  requestId := (hsame _ (by simp)).trans h.requestId
  eventId := (hsame _ (by simp)).trans h.eventId
  createdAt := (hsame _ (by simp)).trans h.createdAt

theorem Save.Left.isOf {v : Save} (h : v.Left redis) {userId couponTypeId : JsNumber}
    {e : PendingIssue} (hpair : v.pair = (userId, couponTypeId))
    (hread : readEntry userId couponTypeId (redis.get (RedisKeys.pendingHash userId couponTypeId))
      = some e)
    : e.IsOf v := by
  have hkey : RedisKeys.pendingHash userId couponTypeId = v.pair.hashKey := by
    rw [hpair]
    rfl
  rw [hkey] at hread
  obtain ⟨hrequestId, ⟨eventId, heventId, hevent⟩, -, createdAt, hcreatedAt, hdate⟩ :=
    fields_of_readEntry hread
  rw [h.requestId, Option.some.injEq] at hrequestId
  rw [h.eventId, Option.some.injEq] at heventId
  rw [h.createdAt, Option.some.injEq] at hcreatedAt
  refine ⟨hpair.trans (pair_of_readEntry hread).symm, hrequestId.symm, ?_, fun time htime => ?_⟩
  . rw [hevent, ← heventId, JsNumber.ofString_toString]
  . rw [hdate, ← hcreatedAt, Save.createdAtText, JsNumber.ofString_toString] at htime
    exact Date.eq_of_ofNumber htime

end Steps

structure LogInv (s : State) (l : List Happening) : Prop where
  hashes : ∀ p : Pair, (s.shared.redis.get p.hashKey .requestId).isSome = true
    → ∃ i v, storedBy l p = some i ∧ s.save? i = some v ∧ v.pair = p ∧ v.Left s.shared.redis
  held : ∀ j w, s.calls[j]? = some (.sweep w) → ∀ e ∈ w.pc.held,
    ∃ i v, ReadFrom l j e i ∧ s.save? i = some v ∧ e.IsOf v
  sent : ∀ i payload, .sent i payload ∈ l
    → ∃ a, s.calls[i]? = some (.accept a) ∧ a.payload = payload

section Invariant

variable {config : Config} {σ' : Shared} {s t : State} {l : List Happening} {c c' : Call}
variable {x : Input} {act : Act} {i j : Nat} {e : PendingIssue}

theorem ReadFrom.mono (h : ReadFrom l j e i) (l' : List Happening) : ReadFrom (l ++ l') j e i := by
  obtain ⟨earlier, later, rfl, hstored⟩ := h
  exact ⟨earlier, later ++ l', by simp, hstored⟩

theorem sent_next {payload : CouponIssueRequestPayload} (hnext : (calls config).next s act = some t)
    (h : ∃ a, s.calls[i]? = some (.accept a) ∧ a.payload = payload)
    : ∃ a, t.calls[i]? = some (.accept a) ∧ a.payload = payload := by
  obtain ⟨a, hi, rfl⟩ := h
  have hsave : s.save? i = some a.save := by simp [State.save?, hi]
  have hsave' := save_next hnext hsave
  unfold State.save? at hsave'
  split at hsave'
  . next a' hi' =>
    rw [Option.some.injEq] at hsave'
    exact ⟨a', hi', by simp only [Accept.payload, hsave']⟩
  . contradiction

theorem LogInv.held_next (h : LogInv s l) (hnext : (calls config).next s act = some t)
    : ∀ j w, t.calls[j]? = some (.sweep w) → ∀ e ∈ w.pc.held,
        ∃ i v, ReadFrom (l ++ (happening s act t).toList) j e i ∧ t.save? i = some v ∧ e.IsOf v := by
  intro j w hj e he
  have hold : ∀ w', s.calls[j]? = some (.sweep w') → e ∈ w'.pc.held
      → ∃ i v, ReadFrom (l ++ (happening s act t).toList) j e i ∧ t.save? i = some v
        ∧ e.IsOf v := by
    intro w' hj' he'
    obtain ⟨i, v, hread, hsave, hof⟩ := h.held j w' hj' e he'
    exact ⟨i, v, hread.mono _, save_next hnext hsave, hof⟩
  rcases Calls.getElem?_next hnext hj with hj' | ⟨x, f, rfl, hj', hstep⟩ | ⟨rfl, -⟩
  . exact hold w hj' he
  . cases f with
    | accept a => cases Call.step_spec hstep
    | deliver d => cases Call.step_spec hstep
    | sweep v =>
      obtain ⟨pc, heq, hmoves⟩ := Sweep.moves_of_step hstep
      cases heq
      rcases hmoves.held he with he | ⟨userId, couponTypeId, _, _, _, hash, hpc, rfl, hhash, hread⟩
      . exact hold v hj' he
      . have hentries : s.shared.redis.get (RedisKeys.pendingHash userId couponTypeId)
            = hash.fields := funext (get_of_hashes hhash)
        have hpair : e.pair = (userId, couponTypeId) := pair_of_readEntry hread
        have hread' := hread
        rw [← hentries] at hread'
        have hsome : (s.shared.redis.get e.pair.hashKey .requestId).isSome = true := by
          rw [hpair]
          exact Option.isSome_of_eq_some (fields_of_readEntry hread').1
        obtain ⟨i, save, hstored, hsave, hsavePair, hleft⟩ := h.hashes e.pair hsome
        refine ⟨i, save, ⟨l, [], ?_, hstored⟩, save_next hnext hsave,
          hleft.isOf (hsavePair.trans hpair) hread'⟩
        simp only [happening, hj', hj, hpc, hread', Option.map_some, Option.toList_some]
  . obtain ⟨hstart, rfl⟩ := Calls.next_start hnext
    change Call.start config s.shared s.calls (.sweep w) = true at hstart
    rw [(Call.sweep_of_start hstart).1] at he
    contradiction

theorem LogInv.sent_next (h : LogInv s l) (hnext : (calls config).next s act = some t)
    : ∀ i payload, .sent i payload ∈ l ++ (happening s act t).toList
        → ∃ a, t.calls[i]? = some (.accept a) ∧ a.payload = payload := by
  intro i payload hmem
  rcases List.mem_append.mp hmem with hmem | hmem
  . exact ServerB.sent_next hnext (h.sent i payload hmem)
  . rw [Option.mem_toList] at hmem
    unfold happening at hmem
    split at hmem
    . split at hmem
      . next a a' hi hi' =>
        split at hmem
        . split at hmem <;> cases hmem
        . cases hmem
          exact ⟨a', hi', rfl⟩
        . contradiction
      . split at hmem
        . split at hmem
          . obtain ⟨_, _, heq⟩ := Option.map_eq_some_iff.mp hmem
            contradiction
          . contradiction
        . cases hmem
        . contradiction
      . contradiction
    . cases hmem
    . contradiction

theorem Call.Steps.stored {a : Accept} {σ : Shared} (hpc : a.pc = .save .hset)
    (hsteps : (Call.accept a).Steps config σ σ' x c')
    : if x.executes then
        ∃ reply, σ.redis.exec (a.save.command .hset) = some (σ'.redis, reply)
      else
        σ'.redis = σ.redis := by
  cases hsteps with
  | replied command reply hawaits hexec =>
    simp only [Call.awaits, hpc, Await.redis.injEq] at hawaits
    exact ⟨reply, hawaits ▸ hexec⟩
  | lost command reply hawaits hexec =>
    simp only [Call.awaits, hpc, Await.redis.injEq] at hawaits
    exact ⟨reply, hawaits ▸ hexec⟩
  | failed x command hawaits hredis hx =>
    simp only [Call.awaits, hpc, Await.redis.injEq] at hawaits
    rcases hx with rfl | ⟨hnone, -⟩
    . exact hredis
    . exact absurd (hawaits ▸ hnone) (a.save.exec_ne_none .hset σ.redis)
  | published x payload hawaits hredis => simp [Call.awaits, hpc] at hawaits
  | answered userId couponTypeId result hawaits hredis => simp [Call.awaits, hpc] at hawaits
  | unanswered executed userId couponTypeId hawaits hredis => simp [Call.awaits, hpc] at hawaits
  | crashed hawaits hredis => exact hredis

theorem LogInv.hash_of_same (h : LogInv s l) (hnext : (calls config).next s act = some t) {p : Pair}
    (hsame : ∀ field ∈ [Field.requestId, .eventId, .createdAt],
      t.shared.redis.get p.hashKey field = s.shared.redis.get p.hashKey field)
    (hlog : storedBy (l ++ (happening s act t).toList) p = storedBy l p)
    (hsome : (t.shared.redis.get p.hashKey .requestId).isSome = true)
    : ∃ i v, storedBy (l ++ (happening s act t).toList) p = some i ∧ t.save? i = some v ∧ v.pair = p
        ∧ v.Left t.shared.redis := by
  rw [hsame _ (by simp)] at hsome
  obtain ⟨i, v, hstored, hsave, rfl, hleft⟩ := h.hashes p hsome
  exact ⟨i, v, hlog.trans hstored, save_next hnext hsave, rfl, hleft.of_same hsame⟩

theorem storedBy_step (l : List Happening) (p : Pair)
    (hfilling : ¬∃ a, s.calls[i]? = some (.accept a) ∧ a.pc = .save .hset)
    : storedBy (l ++ (happening s (.step i x) t).toList) p = storedBy l p := by
  cases hnoted : happening s (.step i x) t with
  | none => rw [Option.toList_none, List.append_nil]
  | some y =>
    rw [Option.toList_some, storedBy_append]
    unfold happening at hnoted
    dsimp only at hnoted
    split at hnoted
    . next a a' hi hi' =>
      split at hnoted
      . next hpc => exact absurd ⟨a, hi, hpc⟩ hfilling
      . cases hnoted
        rfl
      . contradiction
    . split at hnoted
      . split at hnoted
        . obtain ⟨e, -, rfl⟩ := Option.map_eq_some_iff.mp hnoted
          rfl
        . contradiction
      . cases hnoted
        rfl
      . contradiction
    . contradiction

theorem LogInv.hashes_next (h : LogInv s l) (hnext : (calls config).next s act = some t)
    : ∀ p : Pair, (t.shared.redis.get p.hashKey .requestId).isSome = true
        → ∃ i v, storedBy (l ++ (happening s act t).toList) p = some i ∧ t.save? i = some v
          ∧ v.pair = p ∧ v.Left t.shared.redis := by
  intro p hsome
  cases act with
  | start c =>
    obtain ⟨hstart, rfl⟩ := Calls.next_start hnext
    exact h.hash_of_same hnext (fun _ _ => rfl) (by simp [happening]) hsome
  | env ev =>
    have hnext' := hnext
    obtain ⟨shared, henv, rfl⟩ := Calls.next_env (C := calls config) hnext'
    cases ev with
    | tick ms =>
      obtain rfl := env_tick henv
      exact h.hash_of_same hnext (fun _ _ => rfl) (by simp [happening]) hsome
    | expire userId couponTypeId =>
      obtain ⟨redis, hevict, rfl⟩ := env_expire henv
      obtain ⟨-, hget, -⟩ := evict_spec _ hevict
      by_cases hp : p = (userId, couponTypeId)
      . -- the hash has gone
        dsimp only at hsome
        rw [hget, if_pos (by rw [hp]; rfl)] at hsome
        contradiction
      . have hkey : p.hashKey ≠ RedisKeys.pendingHash userId couponTypeId :=
          fun heq => hp (Pair.hashKey_injective (q := (userId, couponTypeId)) heq)
        refine h.hash_of_same hnext (fun field _ => ?_) ?_ hsome
        . rw [hget, if_neg hkey]
        . simp only [happening, Option.toList_some, storedBy_append, fills]
          rw [if_neg (Ne.symm hp)]
  | step i x =>
    have hnext' := hnext
    obtain ⟨c, σ', c', hi, -, hstep, rfl⟩ := Calls.next_step hnext'
    have hlt := (List.getElem?_eq_some_iff.mp hi).1
    have hsteps := Call.step_spec hstep
    by_cases hfilling : ∃ a, c = .accept a ∧ a.pc = .save .hset
    . obtain ⟨a, rfl, hpc⟩ := hfilling
      obtain ⟨a', rfl⟩ : ∃ a', c' = .accept a' := by
        cases hsteps <;> exact ⟨_, rfl⟩
      have hstored := Call.Steps.stored hpc hsteps
      have hhappening : happening s (.step i x) ⟨σ', s.calls.set i (.accept a')⟩
          = if x.executes then some (.stored i a.pair) else none := by
        simp [happening, hi, List.getElem?_set_self hlt, hpc]
      split at hstored
      . next hexecutes =>
        obtain ⟨reply, hexec⟩ := hstored
        rw [if_pos hexecutes] at hhappening
        by_cases hp : a.pair = p
        . -- from here on the application of this `accept` is the one in the hash
          rw [hhappening, Option.toList_some, storedBy_append]
          refine ⟨i, a.save, if_pos hp, ?_, hp, Save.left_hset hexec⟩
          exact save_next hnext (by simp [State.save?, hi])
        . have hkey : (a.save.command .hset).key? ≠ some p.hashKey := by
            intro heq
            rw [Save.key?_command] at heq
            exact hp (Pair.hashKey_injective (Option.some.inj heq))
          refine h.hash_of_same hnext (fun field _ => exec_get_of_ne hkey hexec field) ?_ hsome
          rw [hhappening, Option.toList_some, storedBy_append]
          exact if_neg hp
      . next hexecutes =>
        refine h.hash_of_same hnext (fun field _ => by rw [hstored]) ?_ hsome
        rw [hhappening, if_neg hexecutes, Option.toList_none, List.append_nil]
    . refine h.hash_of_same hnext ?_ (storedBy_step l p ?_) hsome
      . rcases hsteps.redis with hredis | ⟨command, reply, hruns, hexec⟩
        . intro field _
          rw [hredis]
        . rcases hruns.origin hexec p with hsame | ⟨a, hc, hpc, -⟩
          . exact hsame
          . exact absurd ⟨a, hc, hpc⟩ hfilling
      . rintro ⟨a, ha, hpc⟩
        rw [hi, Option.some.injEq] at ha
        exact hfilling ⟨a, ha, hpc⟩

theorem logInv {clock : Nat} {ok : State → Act → Prop}
    (hrun : (calls config).machine.Logged ok happening (init clock) s l)
    : LogInv s l := by
  apply hrun.invariant
  . refine ⟨fun _ hsome => ?_, fun _ _ hj => ?_, fun _ _ hmem => ?_⟩
    . contradiction
    . simp [init] at hj
    . contradiction
  . intro u a v l h _ hnext
    exact ⟨h.hashes_next hnext, h.held_next hnext, h.sent_next hnext⟩

theorem save_of_logged {ok : State → Act → Prop} {v : Save}
    (hrun : (calls config).machine.Logged ok happening s t l) (h : s.save? i = some v)
    : t.save? i = some v :=
  hrun.invariant (I := fun (t : State) _ => t.save? i = some v) h
    fun _ _ _ _ h _ hnext => save_next hnext h

theorem republished_spec {payload : CouponIssueRequestPayload}
    (h : happening s act t = some (.republished j payload))
    : ∃ x w w' stale, act = .step j x ∧ s.calls[j]? = some (.sweep w)
        ∧ t.calls[j]? = some (.sweep w') ∧ w'.pc = .publishForScheduler payload stale := by
  unfold happening at h
  split at h
  . split at h
    . split at h
      . split at h <;> cases h
      . cases h
      . contradiction
    . next w w' hi hi' =>
      split at h
      . split at h
        . obtain ⟨_, _, heq⟩ := Option.map_eq_some_iff.mp h
          contradiction
        . contradiction
      . next hpc _ =>
        cases h
        exact ⟨_, w, w', _, rfl, hi, hi', hpc⟩
      . contradiction
    . contradiction
  . cases h
  . contradiction

theorem LogInv.republished {payload : CouponIssueRequestPayload} (h : LogInv s l)
    (hnext : (calls config).next s act = some t)
    (hnoted : happening s act t = some (.republished j payload))
    : ∃ i v e createdAt, ReadFrom l j e i ∧ e.createdAt = some createdAt
        ∧ payload = Sweep.republishPayload e createdAt ∧ s.save? i = some v ∧ e.IsOf v := by
  obtain ⟨x, w, w', stale, rfl, hw, hw', hpc⟩ := republished_spec hnoted
  obtain ⟨c, σ', c', hc, -, hstep, rfl⟩ := Calls.next_step hnext
  rw [hw, Option.some.injEq] at hc
  subst hc
  obtain ⟨pc, rfl, hmoves⟩ := Sweep.moves_of_step hstep
  rw [List.getElem?_set_self (List.getElem?_eq_some_iff.mp hw).1, Option.some.injEq,
    Call.sweep.injEq] at hw'
  rw [← hw'] at hpc
  obtain rfl : pc = .publishForScheduler payload stale := hpc
  obtain ⟨pending, r, createdAt, hpc, -, hcreatedAt, hpayload, -⟩ := hmoves.publishes
  have hheld : pending ∈ w.pc.held := by
    rw [hpc]
    exact List.mem_cons_self
  obtain ⟨i, v, hread, hsave, hof⟩ := h.held j w hw pending hheld
  exact ⟨i, v, pending, createdAt, hread, hcreatedAt, hpayload, hsave, hof⟩

theorem PendingIssue.IsOf.payload {a : Accept} {createdAt : Int} (h : e.IsOf a.save)
    (hcreatedAt : e.createdAt = some createdAt)
    : a.payload = Sweep.republishPayload e createdAt := by
  have hpair := h.pair
  simp only [Save.pair, PendingIssue.pair, Prod.mk.injEq] at hpair
  simp only [Accept.payload, Sweep.republishPayload, h.requestId, h.eventId, hpair.1, hpair.2,
    h.createdAt createdAt hcreatedAt]

/--
A republish repeats the request that the `accept` has published which has stored the entry.
-/
theorem republish_repeats {clock : Nat} {payload : CouponIssueRequestPayload}
    {before after : List Happening}
    (hrun : (calls config).machine.Logged (fun _ _ => True) happening (init clock) s
      (before ++ .republished j payload :: after))
    : ∃ i a e createdAt, ReadFrom before j e i ∧ e.createdAt = some createdAt
        ∧ payload = Sweep.republishPayload e createdAt ∧ s.calls[i]? = some (.accept a)
        ∧ a.payload = payload
        ∧ ∀ sent, .sent i sent ∈ before ++ .republished j payload :: after → sent = payload := by
  obtain ⟨u, act, v, hbefore, -, hnext, hnoted, hafter⟩ := hrun.at
  obtain ⟨i, save, e, createdAt, hread, hcreatedAt, rfl, hsave, hof⟩ :=
    (logInv hbefore).republished hnext hnoted
  have hsave' := save_of_logged hafter (save_next hnext hsave)
  unfold State.save? at hsave'
  split at hsave'
  . next a ha =>
    rw [Option.some.injEq] at hsave'
    subst hsave'
    refine ⟨i, a, e, createdAt, hread, hcreatedAt, rfl, ha, hof.payload hcreatedAt, ?_⟩
    intro sent hsent
    obtain ⟨a', ha', rfl⟩ := (logInv hrun).sent i sent hsent
    rw [ha, Option.some.injEq, Call.accept.injEq] at ha'
    rw [← ha']
    exact hof.payload hcreatedAt
  . contradiction

end Invariant

def republishOnce (i cutoffMs : Nat) : List Act :=
  [.start (newSweep cutoffMs), .step i .ok, .step i .ok, .step i (.answer none)]
    ++ List.replicate 5 (.step i .ok)

def republishedBoth : List Act :=
  .start (newAccept (application "a" 0)) :: finish 0 ++ .env (.tick 10000) :: republishOnce 1 0
    ++ [.env (.tick 86400000), .env (.expire (.ofInt 1) (.ofInt 20)),
      .start (newAccept (application "b" 86410000))]
    ++ finish 2 ++ .env (.tick 10000) :: republishOnce 3 86410000

def republishedLast (l : List Happening) : Bool :=
  match l.getLast? with
  | some (.republished j payload) => j == 3 && payload.requestId == "b"
  | _ => false

theorem republish_repeats_reapplied
    : ∃ (s : State) (before : List Happening) (payload : CouponIssueRequestPayload),
        (calls defaults).machine.Logged (fun _ _ => True) happening (init 0) s
            (before ++ [.republished 3 payload])
          ∧ payload.requestId = "b"
          ∧ ∃ i a e createdAt, ReadFrom before 3 e i ∧ e.createdAt = some createdAt
            ∧ payload = Sweep.republishPayload e createdAt ∧ s.calls[i]? = some (.accept a)
            ∧ a.payload = payload
            ∧ ∀ sent, .sent i sent ∈ before ++ [.republished 3 payload] → sent = payload := by
  obtain ⟨s, l, hrun, hlast⟩ := Machine.exists_logged_of_log (calls defaults).machine
    (fun _ _ => true) (fun _ _ => True) (fun _ _ _ => trivial) happening republishedBoth (init 0)
    (fun _ l => republishedLast l) (by decide +kernel)
  unfold republishedLast at hlast
  split at hlast
  . next j payload hlast' =>
    simp only [Bool.and_eq_true, beq_iff_eq] at hlast
    obtain ⟨rfl, hrequestId⟩ := hlast
    obtain ⟨before, rfl⟩ := List.getLast?_eq_some_iff.mp hlast'
    exact ⟨s, before, payload, hrun, hrequestId, republish_repeats hrun⟩
  . contradiction

end ServerB
