import CouponIssuance.ServerB.Accepted
import CouponIssuance.ServerB.Find
import CouponIssuance.ServerB.Lemmas.Attempts

/-!
This module contains the progress of `findPendingOlderThan`: what the members of the sorted set must
be so that none of them is passed over again and again.
-/

namespace ServerB

open Concurrency Redis.Server

def Recoverable (redis : Redis) (cutoffMs : Int) : Prop :=
  ∃ (p : Pair) (score : Int), isDecimalPair p = true
    ∧ redis.zset.score p.member = some score ∧ score ≤ cutoffMs
    ∧ ∃ attempts, Readable redis p attempts

def Progresses (redis : Redis) (cutoffMs : Int) (batchSize : Nat) : Prop :=
  (findPendingOlderThan redis cutoffMs batchSize).2 ≠ []
    ∨ ∃ member, (redis.zset.score member).isSome = true
      ∧ (findPendingOlderThan redis cutoffMs batchSize).1.zset.score member = none

def isReadable (redis : Redis) (p : Pair) : Bool :=
  (readEntry p.1 p.2 (redis.get p.hashKey)).isSome

namespace Call

def lists (p : Pair) : Call → Bool
  | accept a =>
    match a.pc with
    | .save .expire | .save .zadd => a.pair == p
    | _ => false
  | sweep s =>
    match s.pc with
    | .recordRepublish _ republish _ =>
      (republish.pc == .expire || republish.pc == .zadd) && republish.pair == p
    | _ => false
  | deliver _ => false

def creates? : Call → Option Pair
  | accept a =>
    match a.pc with
    | .save .hsetnx => some a.pair
    | _ => none
  | c =>
    match c.mark? with
    | some m =>
      match m.pc with
      | .hsetStatus | .hsetCode _ => some m.pair
      | _ => none
    | none => none

def updates? (c : Call) : Option Pair :=
  match c.republish? with
  | some r =>
    match r.pc with
    | .hincrby | .hset => some r.pair
    | _ => none
  | none => none

end Call

def isListed (s : State) (p : Pair) : Bool :=
  (s.shared.redis.zset.score p.member).isSome || s.calls.any (Call.lists p)

def Call.keepsWhole (s : State) (c : Call) : Bool :=
  c.creates?.all (fun p => (s.shared.redis.hashes p.hashKey).isSome || !isListed s p)
    && c.updates?.all (isReadable s.shared.redis)

/--
Applications have ids that are written in digits, and no hash that has expired comes back in parts.
-/
def whole (s : State) : Act → Bool
  | .start (.accept a) => isDecimalPair a.pair
  | .step i _ => s.calls[i]?.all (Call.keepsWhole s)
  | _ => true

def Sound (redis : Redis) (p : Pair) : Prop :=
  redis.hashes p.hashKey = none ∨ ∃ attempts, Readable redis p attempts

section Hashes

variable {config : Config} {c : Call} {command : Command} {redis redis' : Redis} {reply : Reply}
variable {p : Pair} {attempts : JsNumber}

theorem Readable.hashes (h : Readable redis p attempts) : redis.hashes p.hashKey ≠ none := by
  intro hnone
  have hget := h.requestId
  simp [Redis.Server.get, hnone] at hget

theorem exists_readable_of_isReadable (h : isReadable redis p = true)
    : ∃ attempts, Readable redis p attempts := by
  unfold isReadable readEntry at h
  obtain ⟨pending, hread⟩ := Option.isSome_iff_exists.mp h
  simp only [Option.bind_eq_bind, Option.bind_eq_some_iff] at hread
  obtain ⟨_, hrequestId, _, heventId, _, hstatus, _, hcreatedAt, hread⟩ := hread
  have hattempts : ∃ attempts, readAttempts (redis.get p.hashKey .publishAttempts) = some attempts := by
    split at hread
    . next hnone => exact ⟨_, by rw [hnone]; rfl⟩
    . next text htext =>
      obtain ⟨attempts, hattempts, _⟩ := Option.bind_eq_some_iff.mp hread
      exact ⟨attempts, by rw [htext]; exact hattempts⟩
  obtain ⟨attempts, hattempts⟩ := hattempts
  exact ⟨attempts, by simp [hrequestId], by simp [heventId], by simp [hstatus],
    by simp [hcreatedAt], hattempts⟩

theorem Call.Runs.publishAttempts (h : c.Runs config command)
    (hexec : redis.exec command = some (redis', reply)) (p : Pair)
    : redis'.get p.hashKey .publishAttempts = redis.get p.hashKey .publishAttempts
        ∨ ∃ n : Int, -2 ^ 63 ≤ n ∧ n < 2 ^ 63
            ∧ redis'.get p.hashKey .publishAttempts = some (toString n) := by
  rcases h.get hexec p .publishAttempts with hsame | hwrites
  . exact .inl hsame
  cases hwrites with
  | fill a field hc hpc hp hfield =>
    right
    refine ⟨1, by decide, by decide, ?_⟩
    rw [exec_hset hexec, ← hp]
    exact get_setAll_of_mem _ a.save.nodup_fields (by simp [Save.fields]; decide)
  | attempts r hr hpc hp =>
    right
    rw [Republish.command, hpc] at hexec
    obtain ⟨n, _, hlow, hhigh, rfl⟩ := exec_hincrby hexec
    refine ⟨n + 1, hlow, hhigh, ?_⟩
    rw [← hp]
    exact (get_set ..).trans (if_pos ⟨rfl, rfl⟩)

theorem Readable.exec (h : Readable redis p attempts) (hruns : c.Runs config command)
    (hexec : redis.exec command = some (redis', reply))
    : ∃ attempts, Readable redis' p attempts := by
  have hattempts : ∃ attempts, readAttempts (redis'.get p.hashKey .publishAttempts)
      = some attempts := by
    rcases hruns.publishAttempts hexec p with heq | ⟨n, hlow, hhigh, heq⟩
    . rw [heq]
      exact ⟨_, h.attempts⟩
    . rw [heq]
      exact ⟨_, readAttempts_toString hlow hhigh⟩
  obtain ⟨attempts', hattempts⟩ := hattempts
  exact ⟨attempts', isSome_get_exec hexec h.requestId, isSome_get_exec hexec h.eventId,
    isSome_get_exec hexec h.status, isSome_get_exec hexec h.createdAt, hattempts⟩

theorem Save.readable {s : Save} (hexec : redis.exec (s.command .hset) = some (redis', reply))
    : Readable redis' s.pair (.ofInt 1) := by
  have hget : ∀ field value, (field, value) ∈ s.fields
      → redis'.get s.pair.hashKey field = some value := by
    intro field value hmem
    cases hexec
    exact get_setAll_of_mem _ s.nodup_fields hmem
  constructor
  . rw [hget .requestId s.requestId (by simp [Save.fields])]
    rfl
  . rw [hget .eventId (toString s.eventId) (by simp [Save.fields])]
    rfl
  . rw [hget .status IssuePendingStatus.pending.text (by simp [Save.fields])]
    rfl
  . rw [hget .createdAt s.createdAtText (by simp [Save.fields])]
    rfl
  . rw [hget .publishAttempts "1" (by simp [Save.fields])]
    decide

theorem Call.creates_of_mark {m : Mark} (hm : c.mark? = some m)
    (hpc : m.pc = .hsetStatus ∨ ∃ code, m.pc = .hsetCode code)
    : c.creates? = some m.pair := by
  cases c with
  | accept a => contradiction
  | sweep s => rcases hpc with hpc | ⟨_, hpc⟩ <;> simp [creates?, hm, hpc]
  | deliver d => rcases hpc with hpc | ⟨_, hpc⟩ <;> simp [creates?, hm, hpc]

theorem Call.updates_of_republish {r : Republish} (hr : c.republish? = some r)
    (hpc : r.pc = .hincrby ∨ r.pc = .hset)
    : c.updates? = some r.pair := by
  rcases hpc with hpc | hpc <;> simp [updates?, hr, hpc]

theorem Call.lists_of_republish {r : Republish} (hr : c.republish? = some r)
    (hpc : r.pc = .expire ∨ r.pc = .zadd)
    : c.lists r.pair = true := by
  unfold republish? at hr
  split at hr
  . split at hr
    . next hs =>
      cases hr
      rcases hpc with hpc | hpc <;> simp [lists, hs, hpc]
    . contradiction
  . contradiction

theorem hashes_of_get_eq (h : ∀ field, redis'.get p.hashKey field = redis.get p.hashKey field)
    (hnone : redis.hashes p.hashKey = none)
    : redis'.hashes p.hashKey = none := by
  rw [← Option.not_isSome_iff_eq_none, isSome_hashes] at hnone ⊢
  rintro ⟨field, hfield⟩
  rw [h] at hfield
  exact hnone ⟨field, hfield⟩

theorem Sound.exec (h : Sound redis p) (hruns : c.Runs config command)
    (hexec : redis.exec command = some (redis', reply))
    (hcreates : c.creates? = some p → (redis.hashes p.hashKey).isSome = true)
    (hupdates : c.updates? = some p → isReadable redis p = true)
    : Sound redis' p := by
  rcases h with hnone | ⟨attempts, hreadable⟩
  . by_cases hkey : command.key? = some p.hashKey
    . have hcreated : c.creates? ≠ some p := by
        intro hc
        have := hcreates hc
        simp [hnone] at this
      have hupdated : c.updates? ≠ some p := by
        intro hc
        obtain ⟨attempts, hreadable⟩ := exists_readable_of_isReadable (hupdates hc)
        exact hreadable.hashes hnone
      cases hruns with
      | save a pc hc hpc =>
        rw [Save.key?_command] at hkey
        cases pc with
        | hsetnx =>
          have hp := Pair.hashKey_injective (Option.some.inj hkey)
          exact absurd (by rw [hc]; simp [Call.creates?, hpc, ← hp, Accept.pair]) hcreated
        | hset =>
          have hp := Pair.hashKey_injective (Option.some.inj hkey)
          rw [← hp]
          exact Or.inr ⟨_, Save.readable hexec⟩
        | expire =>
          left
          cases hexec
          exact hashes_of_get_eq (fun _ => get_setTtl ..) hnone
        | zadd => contradiction
      | mark m hm =>
        rw [Mark.key?_command] at hkey
        unfold Mark.command at hexec
        cases hpc : m.pc with
        | hsetStatus =>
          rw [hpc] at hkey
          have hp := Pair.hashKey_injective (Option.some.inj hkey)
          exact absurd (hp ▸ Call.creates_of_mark hm (Or.inl hpc)) hcreated
        | hsetCode code =>
          rw [hpc] at hkey
          have hp := Pair.hashKey_injective (Option.some.inj hkey)
          exact absurd (hp ▸ Call.creates_of_mark hm (Or.inr ⟨code, hpc⟩)) hcreated
        | expire =>
          left
          rw [hpc] at hexec
          cases hexec
          exact hashes_of_get_eq (fun _ => get_setTtl ..) hnone
        | zrem =>
          rw [hpc] at hkey
          contradiction
      | republish r hr =>
        rw [Republish.key?_command] at hkey
        unfold Republish.command at hexec
        cases hpc : r.pc with
        | hincrby =>
          rw [hpc] at hkey
          have hp := Pair.hashKey_injective (Option.some.inj hkey)
          exact absurd (hp ▸ Call.updates_of_republish hr (Or.inl hpc)) hupdated
        | hset =>
          rw [hpc] at hkey
          have hp := Pair.hashKey_injective (Option.some.inj hkey)
          exact absurd (hp ▸ Call.updates_of_republish hr (Or.inr hpc)) hupdated
        | expire =>
          left
          rw [hpc] at hexec
          cases hexec
          exact hashes_of_get_eq (fun _ => get_setTtl ..) hnone
        | zadd =>
          rw [hpc] at hkey
          contradiction
      | orphan member hmember => contradiction
      | hgetall s userId couponTypeId member members result hc hpc => contradiction
      | zrangebyscore s hc hpc => contradiction
    . exact Or.inl (hashes_of_get_eq (exec_get_of_ne hkey hexec) hnone)
  . exact Or.inr (hreadable.exec hruns hexec)

theorem Call.Runs.score (h : c.Runs config command)
    (hexec : redis.exec command = some (redis', reply)) {member : String} {score : Int}
    (hscore : redis'.zset.score member = some score)
    : redis.zset.score member = some score
        ∨ ∃ p : Pair, c.lists p = true ∧ member = p.member ∧ 0 ≤ score := by
  have hremoved : ∀ member', redis' = { redis with zset := redis.zset.remove member' }
      → redis.zset.score member = some score := by
    intro member' heq
    rw [heq, Redis.ZSet.score_remove] at hscore
    split at hscore
    . contradiction
    . exact hscore
  have hadded : ∀ (p : Pair) (n : Nat),
      redis' = { redis with zset := redis.zset.add p.member n } → c.lists p = true
      → redis.zset.score member = some score
        ∨ ∃ p : Pair, c.lists p = true ∧ member = p.member ∧ 0 ≤ score := by
    intro p n heq hlists
    rw [heq, Redis.ZSet.score_add] at hscore
    split at hscore
    . next hmember =>
      rw [Option.some.injEq] at hscore
      exact Or.inr ⟨p, hlists, hmember, by omega⟩
    . exact Or.inl hscore
  by_cases hmember : command.member? = some member
  . cases h with
    | save a pc hc hpc =>
      cases pc with
      | zadd => exact hadded a.pair _ (exec_zadd hexec) (by rw [hc]; simp [lists, hpc])
      | _ => contradiction
    | mark m hm =>
      unfold Mark.command at hexec hmember
      cases hpc : m.pc with
      | zrem => rw [hpc] at hexec; exact Or.inl (hremoved _ (exec_zrem hexec))
      | _ => rw [hpc] at hmember; contradiction
    | republish r hr =>
      unfold Republish.command at hexec hmember
      cases hpc : r.pc with
      | zadd =>
        rw [hpc] at hexec
        exact hadded r.pair _ (exec_zadd hexec) (lists_of_republish hr (Or.inr hpc))
      | _ => rw [hpc] at hmember; contradiction
    | orphan member' hmember' => exact Or.inl (hremoved _ (exec_zrem hexec))
    | hgetall s userId couponTypeId member' members result hc hpc => contradiction
    | zrangebyscore s hc hpc => contradiction
  . rw [exec_score_of_ne hmember hexec] at hscore
    exact Or.inl hscore

theorem Sound.evict {key : String} (h : Sound redis p) (hevict : redis.evict key = some redis')
    : Sound redis' p := by
  obtain ⟨_, hget, _⟩ := evict_spec _ hevict
  by_cases hkey : p.hashKey = key
  . left
    rw [← Option.not_isSome_iff_eq_none, isSome_hashes]
    rintro ⟨field, hfield⟩
    rw [hget, if_pos hkey] at hfield
    contradiction
  . have hsame : ∀ field, redis'.get p.hashKey field = redis.get p.hashKey field := by
      intro field
      rw [hget, if_neg hkey]
    rcases h with hnone | ⟨attempts, h⟩
    . exact Or.inl (hashes_of_get_eq hsame hnone)
    . right
      refine ⟨attempts, ?_⟩
      constructor
      . rw [hsame]; exact h.requestId
      . rw [hsame]; exact h.eventId
      . rw [hsame]; exact h.status
      . rw [hsame]; exact h.createdAt
      . rw [hsame]; exact h.attempts

end Hashes

section Sweeps

variable {config : Config} {σ σ' : Shared} {s : Sweep} {x : Input} {pc : SweepPc} {d : Pair → Prop}

def SweepPc.About (d : Pair → Prop) : SweepPc → Prop
  | hgetall userId couponTypeId _ members result =>
    d (userId, couponTypeId) ∧ (∀ m ∈ members, ∀ q, parseMember m = some q → d q)
      ∧ ∀ e ∈ result, d e.pair
  | zrem _ members result =>
    (∀ m ∈ members, ∀ q, parseMember m = some q → d q) ∧ ∀ e ∈ result, d e.pair
  | lookup pending stale => d pending.pair ∧ ∀ e ∈ stale, d e.pair
  | markResult mark _ stale => d mark.pair ∧ ∀ e ∈ stale, d e.pair
  | recordRepublish _ republish stale => d republish.pair ∧ ∀ e ∈ stale, d e.pair
  | publishForScheduler _ stale => ∀ e ∈ stale, d e.pair
  | _ => True

theorem SweepPc.about_visit {stale : List PendingIssue} (h : ∀ e ∈ stale, d e.pair)
    : (visit stale).About d := by
  cases stale with
  | nil => trivial
  | cons pending stale =>
    exact ⟨h pending List.mem_cons_self, fun e he => h e (List.mem_cons_of_mem _ he)⟩

theorem SweepPc.about_scan {members : List String} {result : List PendingIssue}
    (hmembers : ∀ m ∈ members, ∀ q, parseMember m = some q → d q)
    (hresult : ∀ e ∈ result, d e.pair)
    : (scan members result).About d := by
  induction members with
  | nil => exact about_visit hresult
  | cons member members ih =>
    have hrest : ∀ m ∈ members, ∀ q, parseMember m = some q → d q :=
      fun m hm => hmembers m (List.mem_cons_of_mem _ hm)
    unfold scan
    split
    . next userId couponTypeId hparse =>
      exact ⟨hmembers member List.mem_cons_self _ hparse, hrest, hresult⟩
    . exact ih hrest

theorem SweepPc.About.moves (h : s.pc.About d)
    (hlisted : ∀ m, (σ.redis.zset.score m).isSome = true → ∀ q, parseMember m = some q → d q)
    (hmoves : s.Moves config σ σ' x pc)
    : pc.About d := by
  cases hmoves with
  | listed hpc hredis =>
    apply about_scan
    . intro m hm
      obtain ⟨score, hscore, _⟩ := Redis.ZSet.mem_range _ hm
      exact hlisted m (Option.isSome_of_eq_some hscore)
    . intro e he
      contradiction
  | orphan userId couponTypeId member members result hpc hredis hnone =>
    rw [hpc] at h
    exact ⟨h.2.1, h.2.2⟩
  | skipped userId couponTypeId member members result hash hpc hredis hhash hread =>
    rw [hpc] at h
    exact about_scan h.2.1 h.2.2
  | read userId couponTypeId member members result hash pending hpc hredis hhash hread =>
    rw [hpc] at h
    apply about_scan h.2.1
    intro e he
    rcases List.mem_append.mp he with he | he
    . exact h.2.2 e he
    . rw [List.mem_singleton.mp he, pair_of_readEntry hread]
      exact h.1
  | removed member members result hpc hredis =>
    rw [hpc] at h
    exact about_scan h.1 h.2
  | synced pending stale result hpc hredis =>
    rw [hpc] at h
    exact h
  | republishes pending stale hpc hredis hlt =>
    rw [hpc] at h
    exact h
  | givesUp pending stale hpc hredis hlt =>
    rw [hpc] at h
    exact h
  | marked mark gaveUp stale reply hpc hexec =>
    rw [hpc] at h
    unfold Sweep.afterMark
    split
    . next mark' hnext =>
      refine ⟨?_, h.2⟩
      rw [(Mark.next_spec hnext).1]
      exact h.1
    . exact about_visit h.2
  | bumped pending republish stale reply hpc hexec =>
    rw [hpc] at h
    unfold Sweep.afterRepublish
    split
    . next republish' hnext =>
      refine ⟨?_, h.2⟩
      rw [(Republish.next_spec hnext).1]
      exact h.1
    . split
      . exact about_visit h.2
      . exact h.2
  | published x payload stale hpc hredis =>
    rw [hpc] at h
    exact about_visit h
  | abandoned executed hpc hredis => trivial
  | given x stale hpc hx hanswer hredis =>
    cases hs : s.pc with
    | lookup pending stale' =>
      rw [hs] at h hpc
      cases hpc
      exact about_visit h.2
    | markResult mark gaveUp stale' =>
      rw [hs] at h hpc
      cases hpc
      exact about_visit h.2
    | recordRepublish pending republish stale' =>
      rw [hs] at h hpc
      cases hpc
      exact about_visit h.2
    | _ =>
      rw [hs] at hpc
      contradiction
  | crashed hredis hpc => trivial

end Sweeps

section Steps

variable {config : Config} {σ σ' : Shared} {c c' : Call} {x : Input} {p : Pair}

theorem SweepPc.lists_visit (s : Sweep) (stale : List PendingIssue)
    : (Call.sweep (s.goto (.visit stale))).lists p = false := by
  rcases visit_cases stale with h | ⟨_, _, _, h⟩ <;> rw [h] <;> rfl

theorem SweepPc.lists_scan (s : Sweep) (members : List String) (result : List PendingIssue)
    : (Call.sweep (s.goto (.scan members result))).lists p = false := by
  rcases scan_cases members result with h | ⟨_, _, _, _, _, h⟩
  . rw [h]
    exact lists_visit s result
  . rw [h]
    rfl

theorem Sweep.lists_moves {s : Sweep} {pc : SweepPc} (hmoves : s.Moves config σ σ' x pc)
    (h : (Call.sweep (s.goto pc)).lists p = true)
    : (Call.sweep s).lists p = true ∨ (Call.sweep s).updates? = some p := by
  have hvisit : ∀ stale, (Call.sweep (s.goto (.visit stale))).lists p ≠ true := by
    intro stale
    rw [SweepPc.lists_visit]
    exact Bool.false_ne_true
  have hscan : ∀ members result, (Call.sweep (s.goto (.scan members result))).lists p ≠ true := by
    intro members result
    rw [SweepPc.lists_scan]
    exact Bool.false_ne_true
  cases hmoves with
  | listed hpc hredis => exact absurd h (hscan _ _)
  | skipped userId couponTypeId member members result hash hpc hredis hhash hread =>
    exact absurd h (hscan _ _)
  | read userId couponTypeId member members result hash pending hpc hredis hhash hread =>
    exact absurd h (hscan _ _)
  | removed member members result hpc hredis => exact absurd h (hscan _ _)
  | marked mark gaveUp stale reply hpc hexec =>
    unfold afterMark at h
    split at h
    . contradiction
    . exact absurd h (hvisit _)
  | bumped pending republish stale reply hpc hexec =>
    unfold afterRepublish at h
    split at h
    . next republish' hnext =>
      simp only [Call.lists, goto, Bool.and_eq_true, Bool.or_eq_true, beq_iff_eq] at h
      have hpair := (Republish.next_spec hnext).1.symm.trans h.2
      have hr : (Call.sweep s).republish? = some republish := by simp [Call.republish?, hpc]
      cases hrpc : republish.pc with
      | hset => exact Or.inr (hpair ▸ Call.updates_of_republish hr (Or.inr hrpc))
      | expire => exact Or.inl (hpair ▸ Call.lists_of_republish hr (Or.inl hrpc))
      | zadd => exact Or.inl (hpair ▸ Call.lists_of_republish hr (Or.inr hrpc))
      | hincrby =>
        simp only [Republish.next, hrpc, Option.some.injEq] at hnext
        subst hnext
        simp at h
    . split at h
      . exact absurd h (hvisit _)
      . contradiction
  | published x payload stale hpc hredis => exact absurd h (hvisit _)
  | given x stale hpc hx hanswer hredis => exact absurd h (hvisit _)
  | _ => contradiction

theorem Call.lists_step (hstep : c.step config σ x = some (σ', c')) (h : c'.lists p = true)
    : c.lists p = true ∨ c.updates? = some p ∨ ∃ attempts, Readable σ'.redis p attempts := by
  cases c with
  | sweep s =>
    obtain ⟨pc, rfl, hmoves⟩ := Sweep.moves_of_step hstep
    exact (Sweep.lists_moves hmoves h).imp_right Or.inl
  | deliver d => cases step_spec hstep <;> contradiction
  | accept a =>
    cases step_spec hstep with
    | replied command reply hawaits hexec =>
      simp only [awaits] at hawaits
      split at hawaits
      . next pc hpc =>
        cases hawaits
        simp only [resume, Accept.resume, hpc] at h
        cases pc with
        | hsetnx =>
          dsimp only at h
          split at h <;> contradiction
        | hset =>
          right
          right
          have hp : a.pair = p := by simpa [lists, Accept.pair] using h
          rw [← hp]
          exact ⟨_, Save.readable hexec⟩
        | expire => exact Or.inl (by simpa [lists, hpc, Accept.pair] using h)
        | zadd => contradiction
      . contradiction
      . contradiction
    | lost command reply hawaits hexec => contradiction
    | failed x command hawaits hredis hx => contradiction
    | published x payload hawaits hredis => contradiction
    | answered userId couponTypeId result hawaits hredis => exact Or.inl h
    | unanswered executed userId couponTypeId hawaits hredis => contradiction
    | crashed hawaits hredis => contradiction

end Steps

section Run

variable {config : Config} {s t : State} {a : Act}

/--
Every member stands for a pair that can be read back, and its hash is complete as long as it lives.
-/
structure Orderly (s : State) : Prop where
  listed : ∀ member score, s.shared.redis.zset.score member = some score
    → 0 ≤ score ∧ ∃ p : Pair, member = p.member ∧ isDecimalPair p = true
      ∧ Sound s.shared.redis p
  lists : ∀ c ∈ s.calls, ∀ p, c.lists p = true → Sound s.shared.redis p
  accepts : ∀ a, .accept a ∈ s.calls → isDecimalPair a.pair = true
  sweeps : ∀ w, .sweep w ∈ s.calls → w.pc.About (isDecimalPair · = true)

theorem Orderly.sound (h : Orderly s) {p : Pair} (hlisted : isListed s p = true)
    : Sound s.shared.redis p := by
  rcases Bool.or_eq_true_iff.mp hlisted with hlisted | hlists
  . obtain ⟨score, hscore⟩ := Option.isSome_iff_exists.mp hlisted
    obtain ⟨_, q, hmember, _, hsound⟩ := h.listed _ score hscore
    rw [Pair.member_injective hmember]
    exact hsound
  . obtain ⟨c, hc, hlists⟩ := List.any_eq_true.mp hlists
    exact h.lists c hc p hlists

theorem Orderly.isDecimalPair (h : Orderly s) {c : Call} (hc : c ∈ s.calls) {p : Pair}
    (hlists : c.lists p = true)
    : isDecimalPair p = true := by
  cases c with
  | accept a =>
    have hp : a.pair = p := by
      simp only [Call.lists] at hlists
      split at hlists
      . exact beq_iff_eq.mp hlists
      . exact beq_iff_eq.mp hlists
      . contradiction
    rw [← hp]
    exact h.accepts a hc
  | deliver d => contradiction
  | sweep w =>
    have habout := h.sweeps w hc
    simp only [Call.lists] at hlists
    split at hlists
    . next pending republish stale hpc =>
      rw [hpc] at habout
      rw [← beq_iff_eq.mp (Bool.and_eq_true_iff.mp hlists).2]
      exact habout.1
    . contradiction

theorem Call.keepsWhole_spec {c : Call} (hkeeps : c.keepsWhole s = true) {p : Pair}
    (hlisted : isListed s p = true)
    : (c.creates? = some p → (s.shared.redis.hashes p.hashKey).isSome = true)
        ∧ (c.updates? = some p → isReadable s.shared.redis p = true) := by
  obtain ⟨hcreates, hupdates⟩ := Bool.and_eq_true_iff.mp hkeeps
  constructor
  . intro hc
    rw [hc] at hcreates
    simpa [hlisted] using hcreates
  . intro hc
    rw [hc] at hupdates
    exact hupdates

theorem Orderly.start (h : Orderly s) {c : Call} (hok : whole s (.start c) = true)
    (hstart : c.start config s.shared s.calls = true)
    : Orderly ⟨s.shared, s.calls ++ [c]⟩ := by
  have hnew : ∀ {d : Call}, d ∈ s.calls ++ [c] → d ∈ s.calls ∨ d = c := by
    intro d hd
    exact (List.mem_append.mp hd).imp_right List.mem_singleton.mp
  refine ⟨h.listed, ?_, ?_, ?_⟩
  . intro d hd p hlists
    rcases hnew hd with hd | rfl
    . exact h.lists d hd p hlists
    . unfold Call.start at hstart
      split at hstart
      . contradiction
      . contradiction
      . contradiction
      . contradiction
  . intro a ha
    rcases hnew ha with ha | rfl
    . exact h.accepts a ha
    . exact hok
  . intro w hw
    rcases hnew hw with hw | rfl
    . exact h.sweeps w hw
    . rw [(Call.sweep_of_start hstart).1]
      trivial

theorem Orderly.step (h : Orderly s) {i : Nat} {x : Input} {c c' : Call} {σ' : Shared}
    (hi : s.calls[i]? = some c) (hok : whole s (.step i x) = true)
    (hstep : c.step config s.shared x = some (σ', c'))
    : Orderly ⟨σ', s.calls.set i c'⟩ := by
  have hmem := List.mem_of_getElem? hi
  have hkeeps : c.keepsWhole s = true := by
    simpa only [whole, hi, Option.all_some] using hok
  have hsound : ∀ p, isListed s p = true → Sound σ'.redis p := by
    intro p hlisted
    obtain ⟨hcreates, hupdates⟩ := Call.keepsWhole_spec hkeeps hlisted
    rcases (Call.step_spec hstep).redis with hredis | ⟨command, reply, hruns, hexec⟩
    . rw [hredis]
      exact h.sound hlisted
    . exact (h.sound hlisted).exec hruns hexec hcreates hupdates
  have hlisted : ∀ {p : Pair} {d : Call}, d ∈ s.calls → d.lists p = true → isListed s p = true := by
    intro p d hd hlists
    exact Bool.or_eq_true_iff.mpr (Or.inr (List.any_eq_true.mpr ⟨d, hd, hlists⟩))
  have hset : ∀ {d : Call}, d ∈ s.calls.set i c' → d = c' ∨ d ∈ s.calls :=
    fun hd => (List.mem_or_eq_of_mem_set hd).symm
  refine ⟨?_, ?_, ?_, ?_⟩
  . intro member score hscore
    have hold : s.shared.redis.zset.score member = some score
        ∨ ∃ p : Pair, c.lists p = true ∧ member = p.member ∧ 0 ≤ score := by
      rcases (Call.step_spec hstep).redis with hredis | ⟨command, reply, hruns, hexec⟩
      . exact Or.inl (hredis ▸ hscore)
      . exact hruns.score hexec hscore
    rcases hold with hscore | ⟨p, hlists, rfl, hnonneg⟩
    . obtain ⟨hnonneg, p, rfl, hdecimal, _⟩ := h.listed member score hscore
      refine ⟨hnonneg, p, rfl, hdecimal, hsound p ?_⟩
      exact Bool.or_eq_true_iff.mpr (Or.inl (Option.isSome_of_eq_some hscore))
    . exact ⟨hnonneg, p, rfl, h.isDecimalPair hmem hlists, hsound p (hlisted hmem hlists)⟩
  . intro d hd p hlists
    rcases hset hd with rfl | hd
    . rcases Call.lists_step hstep hlists with hlists | hupdates | hreadable
      . exact hsound p (hlisted hmem hlists)
      . -- the hash was complete before, and stays so
        have hreadable : isReadable s.shared.redis p = true := by
          have := (Bool.and_eq_true_iff.mp hkeeps).2
          rw [hupdates] at this
          exact this
        obtain ⟨attempts, hreadable⟩ := exists_readable_of_isReadable hreadable
        right
        rcases (Call.step_spec hstep).redis with hredis | ⟨command, reply, hruns, hexec⟩
        . rw [hredis]
          exact ⟨attempts, hreadable⟩
        . exact hreadable.exec hruns hexec
      . exact Or.inr hreadable
    . exact hsound p (hlisted hd hlists)
  . intro a ha
    rcases hset ha with rfl | ha
    . cases c with
      | accept b =>
        rw [(Accept.generation_steps (Call.step_spec hstep)).1]
        exact h.accepts b hmem
      | sweep w =>
        obtain ⟨_, heq, _⟩ := Sweep.moves_of_step hstep
        contradiction
      | deliver d => cases Call.step_spec hstep
    . exact h.accepts a ha
  . intro w hw
    rcases hset hw with rfl | hw
    . cases c with
      | accept b => cases Call.step_spec hstep
      | sweep v =>
        obtain ⟨pc, heq, hmoves⟩ := Sweep.moves_of_step hstep
        cases heq
        refine (h.sweeps v hmem).moves ?_ hmoves
        intro member hscore q hparse
        obtain ⟨score, hscore⟩ := Option.isSome_iff_exists.mp hscore
        obtain ⟨_, p, rfl, hdecimal, _⟩ := h.listed member score hscore
        rw [← Pair.eq_of_parseMember hparse]
        exact hdecimal
      | deliver d => cases Call.step_spec hstep
    . exact h.sweeps w hw

theorem orderly {clock : Nat}
    (hrun : (calls config).machine.Run (fun s a => whole s a = true) (init clock) s)
    : Orderly s := by
  apply hrun.invariant
  . refine ⟨?_, ?_, ?_, ?_⟩
    . intro _ _ hscore
      contradiction
    . intro _ hc
      contradiction
    . intro _ hc
      contradiction
    . intro _ hc
      contradiction
  . intro u a v h hok hnext
    cases a with
    | start c =>
      obtain ⟨hstart, rfl⟩ := Calls.next_start hnext
      exact h.start hok hstart
    | step i x =>
      obtain ⟨c, shared, c', hi, _, hstep, rfl⟩ := Calls.next_step hnext
      exact h.step hi hok hstep
    | env e =>
      obtain ⟨shared, henv, rfl⟩ := Calls.next_env (C := calls config) hnext
      cases e with
      | tick ms =>
        obtain rfl := env_tick henv
        exact ⟨h.listed, h.lists, h.accepts, h.sweeps⟩
      | expire userId couponTypeId =>
        obtain ⟨redis, hevict, rfl⟩ := env_expire henv
        obtain ⟨_, _, _, hzset, _⟩ := evict_spec _ hevict
        refine ⟨?_, ?_, h.accepts, h.sweeps⟩
        . intro member score hscore
          dsimp only at hscore
          rw [hzset] at hscore
          obtain ⟨hnonneg, p, hmember, hdecimal, hsound⟩ := h.listed member score hscore
          exact ⟨hnonneg, p, hmember, hdecimal, hsound.evict hevict⟩
        . intro c hc p hlists
          exact (h.lists c hc p hlists).evict hevict

theorem score_findMembers {redis : Redis} {members : List String} {member : String}
    (hnone : redis.zset.score member = none)
    : (findMembers redis members).1.zset.score member = none := by
  induction members generalizing redis with
  | nil => exact hnone
  | cons m members ih =>
    unfold findMembers
    split
    . exact ih hnone
    . split
      . apply ih
        change (redis.zset.remove m).score member = none
        rw [Redis.ZSet.score_remove, hnone, ite_self]
      . split
        . exact ih hnone
        . exact ih hnone

theorem Orderly.progresses (h : Orderly s) {cutoffMs : Int} {batchSize : Nat} (hbatch : 1 ≤ batchSize)
    (hrecoverable : Recoverable s.shared.redis cutoffMs)
    : Progresses s.shared.redis cutoffMs batchSize := by
  obtain ⟨p, score, _, hscore, hcutoff, _⟩ := hrecoverable
  have hne := Redis.ZSet.range_ne_nil _ hbatch hscore (h.listed _ _ hscore).1 hcutoff
  obtain ⟨member, members, hrange⟩ := List.exists_cons_of_ne_nil hne
  obtain ⟨score', hscore', _⟩ :=
    Redis.ZSet.mem_range _ (hrange ▸ List.mem_cons_self : member ∈ _)
  obtain ⟨_, q, rfl, hdecimal, hsound⟩ := h.listed member score' hscore'
  have hparse : parseMember q.member = some q := by
    rw [Pair.parseMember_member, if_pos hdecimal]
  unfold Progresses findPendingOlderThan
  rw [hrange]
  rcases hsound with hnone | ⟨attempts, hreadable⟩
  . right
    refine ⟨q.member, Option.isSome_of_eq_some hscore', ?_⟩
    unfold findMembers
    rw [hparse]
    dsimp only
    rw [show s.shared.redis.hashes (RedisKeys.pendingHash q.1 q.2) = none from hnone]
    dsimp only
    apply score_findMembers
    change (s.shared.redis.zset.remove q.member).score q.member = none
    rw [Redis.ZSet.score_remove, if_pos rfl]
  . left
    obtain ⟨hash, hhash⟩ := Option.ne_none_iff_exists'.mp hreadable.hashes
    obtain ⟨pending, hread, _⟩ := readEntry_of_readable hhash hreadable
    have hmem : q.member ∈ q.member :: members := List.mem_cons_self
    exact List.ne_nil_of_mem (mem_findMembers hmem hparse hhash hread)

/--
As long as the ids are written in digits, and no hash that has expired comes back in parts, the
search does not come back with nothing while there is something to be found.
-/
theorem find_progresses {clock : Nat}
    (hrun : (calls config).machine.Run (fun s a => whole s a = true) (init clock) s)
    {cutoffMs : Int} {batchSize : Nat} (hbatch : 1 ≤ batchSize)
    (hrecoverable : Recoverable s.shared.redis cutoffMs)
    : Progresses s.shared.redis cutoffMs batchSize :=
  (orderly hrun).progresses hbatch hrecoverable

def republishedOnce : List Act :=
  [.start (newAccept (application "a" 0))] ++ finish 0
    ++ [.env (.tick 10000), .start (newSweep 0), .step 1 .ok, .step 1 .ok, .step 1 (.answer none),
      .step 1 .ok, .step 1 .ok, .step 1 .ok, .step 1 .ok]

theorem recoverable_of_isReadable {redis : Redis} {cutoffMs score : Int} (p : Pair)
    (hdecimal : isDecimalPair p = true) (hscore : redis.zset.score p.member = some score)
    (hcutoff : score ≤ cutoffMs) (hreadable : isReadable redis p = true)
    : Recoverable redis cutoffMs :=
  ⟨p, score, hdecimal, hscore, hcutoff, exists_readable_of_isReadable hreadable⟩

theorem find_progresses_republished
    : ∃ s, (calls defaults).machine.Run (fun s a => whole s a = true) (init 0) s
        ∧ Recoverable s.shared.redis 10000
        ∧ Progresses s.shared.redis 10000 1 := by
  obtain ⟨s, hrun, hs⟩ := Machine.exists_run_of_exec (calls defaults).machine whole
    (fun s a => whole s a = true) (fun _ _ h => h) republishedOnce (init 0)
    (fun s => s.shared.redis.zset.score (Pair.member (application "a" 0).pair) == some 10000
      && isReadable s.shared.redis (application "a" 0).pair)
    (by decide +kernel)
  simp only [Bool.and_eq_true, beq_iff_eq] at hs
  have hrecoverable := recoverable_of_isReadable (application "a" 0).pair (by decide) hs.1
    (Int.le_refl 10000) hs.2
  exact ⟨s, hrun, hrecoverable, find_progresses hrun (Nat.le_refl 1) hrecoverable⟩

def starving : List Act :=
  [.start (newAccept { application "a" 0 with couponTypeId := .ofInt (10 ^ 21) })] ++ finish 0
    ++ [.env (.tick 1), .start (newAccept (application "b" 1))] ++ finish 1

/--
The member of the first application is `1:1e+21`, and the search passes it over for ever.
-/
theorem find_starves
    : ¬∀ (config : Config) (clock : Nat) (s : State) (cutoffMs : Int) (batchSize : Nat),
        (calls config).machine.Run (fun _ _ => True) (init clock) s → 1 ≤ batchSize
          → Recoverable s.shared.redis cutoffMs → Progresses s.shared.redis cutoffMs batchSize := by
  intro h
  obtain ⟨s, hrun, hs⟩ := Machine.exists_run_of_exec (calls defaults).machine (fun _ _ => true)
    (fun _ _ => True) (fun _ _ _ => trivial) starving (init 0)
    (fun s => s.shared.redis.zset.score (Pair.member (application "b" 1).pair) == some 1
      && isReadable s.shared.redis (application "b" 1).pair
      && s.shared.redis.zset.range 1 1 == ["1:1e+21"])
    (by decide +kernel)
  simp only [Bool.and_eq_true, beq_iff_eq] at hs
  obtain ⟨⟨hscore, hreadable⟩, hrange⟩ := hs
  have hprogresses := h defaults 0 s 1 1 hrun (Nat.le_refl 1)
    (recoverable_of_isReadable (application "b" 1).pair (by decide) hscore (Int.le_refl 1) hreadable)
  have hfind : findPendingOlderThan s.shared.redis 1 1 = (s.shared.redis, []) := by
    unfold findPendingOlderThan findMembers
    rw [hrange]
    dsimp only
    rw [show parseMember "1:1e+21" = none by decide]
    rfl
  unfold Progresses at hprogresses
  rw [hfind] at hprogresses
  rcases hprogresses with hne | ⟨member, hsome, hnone⟩
  . contradiction
  . rw [hnone] at hsome
    contradiction

end Run

end ServerB
