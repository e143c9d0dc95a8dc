import CouponIssuance.ServerB.Calls

/-!
This module contains what a step of a flow of server-b can do: to the flow itself, and to the hash
and the member of a pair.
-/

namespace ServerB

def Mark.pair (m : Mark) : Pair :=
  (m.userId, m.couponTypeId)

def Republish.pair (r : Republish) : Pair :=
  (r.userId, r.couponTypeId)

def Accept.pair (a : Accept) : Pair :=
  a.save.pair

namespace Pair

def hashKey (p : Pair) : String :=
  RedisKeys.pendingHash p.1 p.2

def member (p : Pair) : String :=
  RedisKeys.pendingZsetMember p.1 p.2

theorem hashKey_injective {p q : Pair} (h : p.hashKey = q.hashKey) : p = q := by
  have := RedisKeys.pendingHash_injective h
  exact Prod.ext this.1 this.2

theorem member_injective {p q : Pair} (h : p.member = q.member) : p = q := by
  have := RedisKeys.pendingZsetMember_injective h
  exact Prod.ext this.1 this.2

theorem parseMember_member (p : Pair)
    : parseMember p.member = if isDecimalPair p then some p else none :=
  parseMember_pendingZsetMember p.1 p.2

theorem eq_of_parseMember {p q : Pair} (h : parseMember p.member = some q) : p = q := by
  rw [parseMember_member] at h
  split at h
  . exact Option.some.inj h
  . contradiction

end Pair

def Mark.removes (p : Pair) (m : Mark) : Bool :=
  m.pair == p && m.pc != .hsetStatus

def SweepPc.removes (p : Pair) : SweepPc → Bool
  | .zrem member _ _ => member == p.member
  | .markResult mark _ _ => mark.removes p
  | _ => false

def DeliverPc.removes (p : Pair) : DeliverPc → Bool
  | .markResult _ _ mark => mark.removes p
  | _ => false

namespace Call

variable {config : Config} {σ σ' : Shared} {c c' : Call} {x : Input}

def removes (p : Pair) : Call → Bool
  | accept _ => false
  | sweep s => s.pc.removes p
  | deliver d => d.pc.removes p

inductive Steps (config : Config) (σ : Shared) (c : Call) (σ' : Shared) : Input → Call → Prop where
  | replied (command : Command) (reply : Reply) (hawaits : c.awaits config = .redis command)
      (hexec : σ.redis.exec command = some (σ'.redis, reply))
      : Steps config σ c σ' .ok (c.resume σ.redis.evictions reply)
  /-- The command is executed, but its answer is lost. -/
  | lost (command : Command) (reply : Reply) (hawaits : c.awaits config = .redis command)
      (hexec : σ.redis.exec command = some (σ'.redis, reply))
      : Steps config σ c σ' (.fail true) (c.reject config)
  /-- The command is not executed. -/
  | failed (x : Input) (command : Command) (hawaits : c.awaits config = .redis command)
      (hredis : σ'.redis = σ.redis)
      (hx : x = .fail false ∨ σ.redis.exec command = none ∧ (x = .ok ∨ x = .fail true))
      : Steps config σ c σ' x (c.reject config)
  | published (x : Input) (payload : CouponIssueRequestPayload)
      (hawaits : c.awaits config = .publish payload) (hredis : σ'.redis = σ.redis)
      : Steps config σ c σ' x c.published
  | answered (userId couponTypeId : JsNumber) (result : Option UserCouponLookupResult)
      (hawaits : c.awaits config = .lookup userId couponTypeId) (hredis : σ'.redis = σ.redis)
      : Steps config σ c σ' (.answer result) (c.answered config σ.clock result)
  | unanswered (executed : Bool) (userId couponTypeId : JsNumber)
      (hawaits : c.awaits config = .lookup userId couponTypeId) (hredis : σ'.redis = σ.redis)
      : Steps config σ c σ' (.fail executed) (c.reject config)
  | crashed (hawaits : c.awaits config ≠ .nothing) (hredis : σ'.redis = σ.redis)
      : Steps config σ c σ' .crash c.crash

theorem redis_send (payload : CouponIssueRequestPayload) : (σ.send payload).redis = σ.redis := by
  unfold Shared.send
  split <;> rfl

theorem step_spec (h : c.step config σ x = some (σ', c')) : Steps config σ c σ' x c' := by
  unfold step at h
  cases x with
  | ok =>
    dsimp only at h
    split at h
    . next command hawaits =>
      split at h
      . next redis reply hexec =>
        simp only [proceed, Option.some.injEq, Prod.mk.injEq] at h
        obtain ⟨rfl, rfl⟩ := h
        exact .replied command reply hawaits hexec
      . next hexec =>
        simp only [proceed, Option.some.injEq, Prod.mk.injEq] at h
        obtain ⟨rfl, rfl⟩ := h
        exact .failed _ command hawaits rfl (Or.inr ⟨hexec, Or.inl rfl⟩)
    . next payload hawaits =>
      simp only [proceed, Option.some.injEq, Prod.mk.injEq] at h
      obtain ⟨rfl, rfl⟩ := h
      exact .published _ payload hawaits (redis_send payload)
    . contradiction
  | answer result =>
    dsimp only at h
    split at h
    . next userId couponTypeId hawaits =>
      simp only [proceed, Option.some.injEq, Prod.mk.injEq] at h
      obtain ⟨rfl, rfl⟩ := h
      exact .answered userId couponTypeId result hawaits rfl
    . contradiction
  | fail executed =>
    dsimp only at h
    split at h
    . next command hawaits =>
      simp only [proceed, Option.some.injEq, Prod.mk.injEq] at h
      obtain ⟨rfl, rfl⟩ := h
      cases executed with
      | true =>
        cases hexec : σ.redis.exec command with
        | none =>
          refine .failed _ command hawaits ?_ (Or.inr ⟨hexec, Or.inr rfl⟩)
          simp [Shared.execute, hexec]
        | some r =>
          refine .lost command r.2 hawaits ?_
          simp [Shared.execute, hexec]
      | false => exact .failed _ command hawaits rfl (Or.inl rfl)
    . next payload hawaits =>
      simp only [proceed, Option.some.injEq, Prod.mk.injEq] at h
      obtain ⟨rfl, rfl⟩ := h
      refine .published _ payload hawaits ?_
      cases executed with
      | true => exact redis_send payload
      | false => rfl
    . next userId couponTypeId hawaits =>
      simp only [proceed, Option.some.injEq, Prod.mk.injEq] at h
      obtain ⟨rfl, rfl⟩ := h
      exact .unanswered executed userId couponTypeId hawaits rfl
    . contradiction
  | crash =>
    dsimp only at h
    split at h
    . contradiction
    . next hawaits =>
      simp only [Option.some.injEq, Prod.mk.injEq] at h
      obtain ⟨rfl, rfl⟩ := h
      exact .crashed hawaits rfl

def mark? : Call → Option Mark
  | sweep s =>
    match s.pc with
    | .markResult mark _ _ => some mark
    | _ => none
  | deliver d =>
    match d.pc with
    | .markResult _ _ mark => some mark
    | _ => none
  | accept _ => none

def republish? : Call → Option Republish
  | sweep s =>
    match s.pc with
    | .recordRepublish _ republish _ => some republish
    | _ => none
  | _ => none

def orphan? : Call → Option String
  | sweep s =>
    match s.pc with
    | .zrem member _ _ => some member
    | _ => none
  | _ => none

inductive Runs (config : Config) (c : Call) : Command → Prop where
  | save (a : Accept) (pc : SavePc) (hc : c = accept a) (hpc : a.pc = .save pc)
      : Runs config c (a.save.command pc)
  | mark (m : Mark) (hm : c.mark? = some m) : Runs config c m.command
  | republish (r : Republish) (hr : c.republish? = some r) : Runs config c r.command
  | orphan (member : String) (hmember : c.orphan? = some member) : Runs config c (.zrem member)
  | hgetall (s : Sweep) (userId couponTypeId : JsNumber) (member : String) (members : List String)
      (result : List PendingIssue) (hc : c = sweep s)
      (hpc : s.pc = .hgetall userId couponTypeId member members result)
      : Runs config c (.hgetall (RedisKeys.pendingHash userId couponTypeId))
  | zrangebyscore (s : Sweep) (hc : c = sweep s) (hpc : s.pc = .zrangebyscore)
      : Runs config c (.zrangebyscore s.cutoffMs config.batchSize)

theorem removes_of_mark {m : Mark} (h : c.mark? = some m) (p : Pair)
    : c.removes p = m.removes p := by
  unfold mark? at h
  split at h
  . split at h
    . next hpc => cases h; simp [removes, hpc, SweepPc.removes]
    . contradiction
  . split at h
    . next hpc => cases h; simp [removes, hpc, DeliverPc.removes]
    . contradiction
  . contradiction

theorem removes_of_orphan {m : String} (h : c.orphan? = some m) (p : Pair)
    : c.removes p = (m == p.member) := by
  unfold orphan? at h
  split at h
  . split at h
    . next hpc => cases h; simp [removes, hpc, SweepPc.removes]
    . contradiction
  . contradiction

theorem runs_of_awaits {command : Command} (h : c.awaits config = .redis command)
    : Runs config c command := by
  unfold awaits at h
  split at h
  . next a =>
    split at h
    . next pc hpc => cases h; exact .save a pc rfl hpc
    . contradiction
    . contradiction
  . next s =>
    split at h
    . next hpc => cases h; exact .zrangebyscore s rfl hpc
    . next hpc => cases h; exact .hgetall s _ _ _ _ _ rfl hpc
    . next hpc => cases h; exact .orphan _ (by simp [orphan?, hpc])
    . contradiction
    . next hpc => cases h; exact .mark _ (by simp [mark?, hpc])
    . next hpc => cases h; exact .republish _ (by simp [republish?, hpc])
    . contradiction
    . contradiction
  . next d =>
    split at h
    . next hpc => cases h; exact .mark _ (by simp [mark?, hpc])
    . contradiction

end Call

theorem env_tick {σ σ' : Shared} {ms : Nat} (h : env σ (.tick ms) = some σ')
    : σ' = { σ with clock := σ.clock + ms } := by
  simp only [env] at h
  split at h
  . exact (Option.some.inj h).symm
  . contradiction

theorem env_expire {σ σ' : Shared} {userId couponTypeId : JsNumber}
    (h : env σ (.expire userId couponTypeId) = some σ')
    : ∃ redis, σ.redis.evict (RedisKeys.pendingHash userId couponTypeId) = some redis
        ∧ σ' = { σ with redis := redis } := by
  obtain ⟨redis, hevict, heq⟩ := Option.map_eq_some_iff.mp h
  exact ⟨redis, hevict, heq.symm⟩

theorem Save.exec_ne_none (s : Save) (pc : SavePc) (redis : Redis) : redis.exec (s.command pc) ≠ none := by
  cases pc with
  | hsetnx =>
    simp only [Save.command, Redis.Server.exec]
    split <;> simp
  | hset => simp [Save.command, Redis.Server.exec]
  | expire => simp [Save.command, Redis.Server.exec]
  | zadd => simp [Save.command, Redis.Server.exec]

theorem Save.nodup_fields (s : Save) : (s.fields.map (·.1)).Nodup := by
  simp [fields]

theorem Save.key?_command (s : Save) (pc : SavePc)
    : (s.command pc).key? = if pc = .zadd then none else some s.pair.hashKey := by
  cases pc <;> rfl

theorem Mark.key?_command (m : Mark)
    : m.command.key? = if m.pc = .zrem then none else some m.pair.hashKey := by
  unfold Mark.command
  cases m.pc <;> rfl

theorem Republish.key?_command (r : Republish)
    : r.command.key? = if r.pc = .zadd then none else some r.pair.hashKey := by
  unfold Republish.command
  cases r.pc <;> rfl

theorem Mark.member?_command (m : Mark)
    : m.command.member? = if m.pc = .zrem then some m.pair.member else none := by
  unfold Mark.command
  cases m.pc <;> rfl

theorem Republish.member?_command (r : Republish)
    : r.command.member? = if r.pc = .zadd then some r.pair.member else none := by
  unfold Republish.command
  cases r.pc <;> rfl

theorem Save.member?_command (s : Save) (pc : SavePc)
    : (s.command pc).member? = if pc = .zadd then some s.pair.member else none := by
  cases pc <;> rfl

section Effects

variable {config : Config} {c : Call} {command : Command} {redis redis' : Redis} {reply : Reply}

open Redis.Server

inductive Call.Writes (c : Call) (p : Pair) : Field → Command → Prop where
  | claim (a : Accept) (hc : c = .accept a) (hpc : a.pc = .save .hsetnx) (hp : a.pair = p)
      : Writes c p .userId (a.save.command .hsetnx)
  | fill (a : Accept) (field : Field) (hc : c = .accept a) (hpc : a.pc = .save .hset)
      (hp : a.pair = p) (hfield : field ≠ .code)
      : Writes c p field (a.save.command .hset)
  | status (m : Mark) (hm : c.mark? = some m) (hpc : m.pc = .hsetStatus) (hp : m.pair = p)
      : Writes c p .status m.command
  | code (m : Mark) (code : String) (hm : c.mark? = some m) (hpc : m.pc = .hsetCode code)
      (hp : m.pair = p)
      : Writes c p .code m.command
  | attempts (r : Republish) (hr : c.republish? = some r) (hpc : r.pc = .hincrby) (hp : r.pair = p)
      : Writes c p .publishAttempts r.command
  | publishedAt (r : Republish) (hr : c.republish? = some r) (hpc : r.pc = .hset) (hp : r.pair = p)
      : Writes c p .lastPublishedAt r.command

theorem Call.Runs.get (h : c.Runs config command)
    (hexec : redis.exec command = some (redis', reply)) (p : Pair) (field : Field)
    : redis'.get p.hashKey field = redis.get p.hashKey field ∨ c.Writes p field command := by
  by_cases hkey : command.key? = some p.hashKey
  . cases h with
    | save a pc hc hpc =>
      rw [Save.key?_command] at hkey
      cases pc with
      | hsetnx =>
        have hp := Pair.hashKey_injective (Option.some.inj hkey)
        rcases exec_hsetnx hexec with ⟨_, rfl, _⟩ | ⟨_, rfl, _⟩
        . exact .inl rfl
        . by_cases hfield : field = .userId
          . subst hfield
            exact .inr (.claim a hc hpc hp)
          . left
            rw [get_set, if_neg (fun heq => hfield heq.2)]
      | hset =>
        have hp := Pair.hashKey_injective (Option.some.inj hkey)
        by_cases hfield : field = .code
        . subst hfield
          left
          rw [exec_hset hexec]
          exact get_setAll_of_notMem _ (Or.inr (by simp [Save.fields]))
        . exact .inr (.fill a field hc hpc hp hfield)
      | expire =>
        rw [exec_expire hexec]
        exact .inl (get_setTtl ..)
      | zadd => contradiction
    | mark m hm =>
      rw [Mark.key?_command] at hkey
      cases hpc : m.pc with
      | hsetStatus =>
        rw [hpc] at hkey
        have hp := Pair.hashKey_injective (Option.some.inj hkey)
        by_cases hfield : field = .status
        . subst hfield
          exact .inr (.status m hm hpc hp)
        . left
          rw [Mark.command, hpc] at hexec
          rw [exec_hset hexec]
          exact get_setAll_of_notMem _ (Or.inr (by simpa using hfield))
      | hsetCode code =>
        rw [hpc] at hkey
        have hp := Pair.hashKey_injective (Option.some.inj hkey)
        by_cases hfield : field = .code
        . subst hfield
          exact .inr (.code m code hm hpc hp)
        . left
          rw [Mark.command, hpc] at hexec
          rw [exec_hset hexec]
          exact get_setAll_of_notMem _ (Or.inr (by simpa using hfield))
      | expire =>
        left
        rw [Mark.command, hpc] at hexec
        rw [exec_expire hexec]
        exact get_setTtl ..
      | zrem =>
        rw [hpc] at hkey
        contradiction
    | republish r hr =>
      rw [Republish.key?_command] at hkey
      cases hpc : r.pc with
      | hincrby =>
        rw [hpc] at hkey
        have hp := Pair.hashKey_injective (Option.some.inj hkey)
        by_cases hfield : field = .publishAttempts
        . subst hfield
          exact .inr (.attempts r hr hpc hp)
        . left
          rw [Republish.command, hpc] at hexec
          obtain ⟨n, _, _, _, rfl⟩ := exec_hincrby hexec
          rw [get_set, if_neg (fun heq => hfield heq.2)]
      | hset =>
        rw [hpc] at hkey
        have hp := Pair.hashKey_injective (Option.some.inj hkey)
        by_cases hfield : field = .lastPublishedAt
        . subst hfield
          exact .inr (.publishedAt r hr hpc hp)
        . left
          rw [Republish.command, hpc] at hexec
          rw [exec_hset hexec]
          exact get_setAll_of_notMem _ (Or.inr (by simpa using hfield))
      | expire =>
        left
        rw [Republish.command, hpc] at hexec
        rw [exec_expire hexec]
        exact get_setTtl ..
      | zadd =>
        rw [hpc] at hkey
        contradiction
    | orphan member hmember => contradiction
    | hgetall s userId couponTypeId member members result hc hpc =>
      obtain ⟨rfl, -⟩ := exec_hgetall hexec
      exact .inl rfl
    | zrangebyscore s hc hpc => contradiction
  . exact .inl (exec_get_of_ne hkey hexec _)

theorem Call.Runs.status (h : c.Runs config command)
    (hexec : redis.exec command = some (redis', reply)) (p : Pair)
    : redis'.get p.hashKey .status = redis.get p.hashKey .status
        ∨ (∃ a, c = .accept a ∧ a.pc = .save .hset ∧ a.pair = p
            ∧ redis'.get p.hashKey .status = some IssuePendingStatus.pending.text)
        ∨ (∃ m, c.mark? = some m ∧ m.pair = p ∧ m.pc = .hsetStatus
            ∧ redis'.get p.hashKey .status = some m.status.text) := by
  rcases h.get hexec p .status with hsame | hwrites
  . exact .inl hsame
  cases hwrites with
  | fill a field hc hpc hp hfield =>
    right
    left
    refine ⟨a, hc, hpc, hp, ?_⟩
    rw [exec_hset hexec, ← hp]
    exact get_setAll_of_mem _ a.save.nodup_fields (by simp [Save.fields])
  | status m hm hpc hp =>
    right
    right
    refine ⟨m, hm, hp, hpc, ?_⟩
    rw [Mark.command, hpc] at hexec
    rw [exec_hset hexec, ← hp]
    exact get_setAll_of_mem _ (by simp) (by simp)

theorem Call.Runs.code (h : c.Runs config command)
    (hexec : redis.exec command = some (redis', reply)) (p : Pair)
    : redis'.get p.hashKey .code = redis.get p.hashKey .code
        ∨ ∃ m code, c.mark? = some m ∧ m.pair = p ∧ m.pc = .hsetCode code
            ∧ redis'.get p.hashKey .code = some code := by
  rcases h.get hexec p .code with hsame | hwrites
  . exact .inl hsame
  cases hwrites with
  | fill a field hc hpc hp hfield => contradiction
  | code m code hm hpc hp =>
    right
    refine ⟨m, code, hm, hp, hpc, ?_⟩
    rw [Mark.command, hpc] at hexec
    rw [exec_hset hexec, ← hp]
    exact get_setAll_of_mem _ (by simp) (by simp)

/-- Where the score of a member comes from that is not removed. -/
theorem Call.Runs.score_cases (h : c.Runs config command)
    (hexec : redis.exec command = some (redis', reply)) {p : Pair} (hremoves : c.removes p = false)
    : redis'.zset.score p.member = redis.zset.score p.member
        ∨ (∃ a, c = .accept a ∧ a.pc = .save .zadd ∧ a.pair = p
          ∧ redis'.zset.score p.member = some (a.save.createdAt : Int))
        ∨ ∃ w pending r stale, c = .sweep w ∧ w.pc = .recordRepublish pending r stale
          ∧ r.pc = .zadd ∧ r.pair = p
          ∧ redis'.zset.score p.member = some (r.publishedAt : Int) := by
  by_cases hmember : command.member? = some p.member
  . cases h with
    | save a pc hc hpc =>
      cases pc with
      | zadd =>
        obtain rfl : a.pair = p := Pair.member_injective (Option.some.inj hmember)
        refine .inr (.inl ⟨a, hc, hpc, rfl, ?_⟩)
        rw [exec_zadd hexec]
        exact (Redis.ZSet.score_add ..).trans (if_pos rfl)
      | _ => contradiction
    | mark m hm =>
      rw [Mark.member?_command] at hmember
      split at hmember
      . next hpc =>
        have hp := Pair.member_injective (Option.some.inj hmember)
        rw [Call.removes_of_mark hm] at hremoves
        simp [Mark.removes, hp, hpc] at hremoves
      . contradiction
    | republish r hr =>
      rw [Republish.member?_command] at hmember
      split at hmember
      . next hpc =>
        obtain rfl : r.pair = p := Pair.member_injective (Option.some.inj hmember)
        unfold Call.republish? at hr
        split at hr
        . next w =>
          split at hr
          . next pending r' stale hw =>
            cases hr
            refine .inr (.inr ⟨w, pending, r, stale, rfl, hw, hpc, rfl, ?_⟩)
            rw [Republish.command, hpc] at hexec
            rw [exec_zadd hexec]
            exact (Redis.ZSet.score_add ..).trans (if_pos rfl)
          . contradiction
        . contradiction
      . contradiction
    | orphan member hmember' =>
      rw [Call.removes_of_orphan hmember', beq_eq_false_iff_ne] at hremoves
      exact absurd (Option.some.inj hmember) hremoves
    | hgetall s userId couponTypeId member members result hc hpc => contradiction
    | zrangebyscore s hc hpc => contradiction
  . exact .inl (exec_score_of_ne hmember hexec)

theorem Call.Runs.isSome_score (h : c.Runs config command)
    (hexec : redis.exec command = some (redis', reply)) {p : Pair}
    (hremoves : c.removes p = false) (hscore : (redis.zset.score p.member).isSome = true)
    : (redis'.zset.score p.member).isSome = true := by
  rcases h.score_cases hexec hremoves with hsame | ⟨a, -, -, -, hadded⟩
    | ⟨w, _, r, _, -, -, -, -, hadded⟩
  . rw [hsame]
    exact hscore
  . exact Option.isSome_of_eq_some hadded
  . exact Option.isSome_of_eq_some hadded

end Effects

end ServerB
