import CouponIssuance.Common.UserId
import CouponIssuance.ServerB.Lemmas.Local

/-!
This module contains `savePendingIfAbsent` and `findPendingOlderThan` as a whole, with no command of
another flow in between, and what the second one makes of what the first one has stored.
-/

namespace ServerB

open Concurrency Js Redis.Server

def savePendingIfAbsent (redis : Redis) (s : Save) : Redis × Bool :=
  match redis.exec (s.command .hsetnx) with
  | some (redis, .integer 0) => (redis, false)
  | some (redis, _) => ([.hset, .expire, .zadd].foldl (fun r pc => r.execute (s.command pc)) redis, true)
  | none => (redis, false)

def findMembers (redis : Redis) : List String → Redis × List PendingIssue
  | [] => (redis, [])
  | member :: members =>
    match parseMember member with
    | none => findMembers redis members
    | some (userId, couponTypeId) =>
      match redis.hashes (RedisKeys.pendingHash userId couponTypeId) with
      | none => findMembers (redis.execute (.zrem member)) members
      | some hash =>
        match readEntry userId couponTypeId hash.fields with
        | none => findMembers redis members
        | some pending =>
          let (redis, result) := findMembers redis members
          (redis, pending :: result)

def findPendingOlderThan (redis : Redis) (cutoffMs : Int) (batchSize : Nat)
    : Redis × List PendingIssue :=
  findMembers redis (redis.zset.range cutoffMs batchSize)

section Flows

variable {config : Config} {s : State} {i : Nat}

theorem run_ok (config : Config) {c : Call} {command : Command} {redis : Redis} {reply : Reply}
    (hi : s.calls[i]? = some c) (hawaits : c.awaits config = .redis command)
    (hexec : s.shared.redis.exec command = some (redis, reply))
    : ∃ t, (calls config).machine.Run (fun _ a => a = .step i .ok) s t
        ∧ t.shared.redis = redis
        ∧ t.calls[i]? = some (c.resume s.shared.redis.evictions reply) := by
  let c' := c.resume s.shared.redis.evictions reply
  let t : State := ⟨(Call.proceed { s.shared with redis := redis } c').1, s.calls.set i c'⟩
  have hnext : (calls config).machine.step s (.step i .ok) = some t := by
    simp [Calls.machine, Calls.next, hi, calls, Call.step, hawaits, hexec, t, c', Call.proceed]
  exact ⟨t, Machine.Run.single rfl hnext, rfl,
    List.getElem?_set_self (List.getElem?_eq_some_iff.mp hi).1⟩

theorem Sweep.run_findMembers (config : Config) {sweep : Sweep} (members : List String)
    (result : List PendingIssue)
    (hi : s.calls[i]? = some (.sweep (sweep.goto (.scan members result))))
    : ∃ t, (calls config).machine.Run (fun _ a => a = .step i .ok) s t
        ∧ t.shared.redis = (findMembers s.shared.redis members).1
        ∧ t.calls[i]? = some (.sweep (sweep.goto
            (.visit (result ++ (findMembers s.shared.redis members).2)))) := by
  induction members generalizing s result with
  | nil =>
    refine ⟨s, .refl, rfl, ?_⟩
    rw [hi, SweepPc.scan]
    simp [findMembers]
  | cons member members ih =>
    unfold SweepPc.scan at hi
    unfold findMembers
    cases hparse : parseMember member with
    | none =>
      simp only [hparse] at hi
      exact ih result hi
    | some pair =>
      obtain ⟨userId, couponTypeId⟩ := pair
      simp only [hparse] at hi
      obtain ⟨t, hrun, hredis, hcall⟩ := run_ok config hi rfl rfl
      dsimp only
      cases hhash : s.shared.redis.hashes (RedisKeys.pendingHash userId couponTypeId) with
      | none =>
        simp only [hhash, Option.map_none, Call.resume, resume, goto] at hcall
        obtain ⟨u, hrun', hredis', hcall'⟩ := run_ok config hcall rfl rfl
        obtain ⟨v, hrun'', hredis'', hcall''⟩ := ih (s := u) result (by rw [hcall']; rfl)
        rw [hredis', hredis] at hredis'' hcall''
        exact ⟨v, (hrun.trans hrun').trans hrun'', hredis'', hcall''⟩
      | some hash =>
        simp only [hhash, Option.map_some, Call.resume, resume, goto] at hcall
        cases hread : readEntry userId couponTypeId hash.fields with
        | none =>
          simp only [hread] at hcall ⊢
          obtain ⟨u, hrun', hredis', hcall'⟩ := ih (s := t) result hcall
          rw [hredis] at hredis' hcall'
          exact ⟨u, hrun.trans hrun', hredis', hcall'⟩
        | some pending =>
          simp only [hread] at hcall ⊢
          obtain ⟨u, hrun', hredis', hcall'⟩ := ih (s := t) (result ++ [pending]) hcall
          rw [hredis] at hredis' hcall'
          refine ⟨u, hrun.trans hrun', hredis', ?_⟩
          rw [hcall', List.append_assoc]
          rfl

/--
A sweep that is alone visits what `findPendingOlderThan` finds.
-/
theorem Sweep.run_findPendingOlderThan {sweep : Sweep} (hi : s.calls[i]? = some (.sweep sweep))
    (hpc : sweep.pc = .zrangebyscore)
    : ∃ t, (calls config).machine.Run (fun _ a => a = .step i .ok) s t
        ∧ t.shared.redis
            = (findPendingOlderThan s.shared.redis sweep.cutoffMs config.batchSize).1
        ∧ t.calls[i]? = some (.sweep (sweep.goto (.visit
            (findPendingOlderThan s.shared.redis sweep.cutoffMs config.batchSize).2))) := by
  have hawaits : (Call.sweep sweep).awaits config
      = .redis (.zrangebyscore sweep.cutoffMs config.batchSize) := by
    simp [Call.awaits, hpc]
  obtain ⟨t, hrun, hredis, hcall⟩ := run_ok config hi hawaits rfl
  simp only [Call.resume, resume, hpc] at hcall
  obtain ⟨u, hrun', hredis', hcall'⟩ := Sweep.run_findMembers config _ [] hcall
  rw [hredis] at hredis' hcall'
  exact ⟨u, hrun.trans hrun', hredis', hcall'⟩

/--
An application that is alone does what `savePendingIfAbsent` does, and goes on after its answer.
-/
theorem Accept.run_savePendingIfAbsent {a : Accept} (hi : s.calls[i]? = some (.accept a))
    (hpc : a.pc = .save .hsetnx)
    : ∃ t a', (calls config).machine.Run (fun _ a => a = .step i .ok) s t
        ∧ t.shared.redis = (savePendingIfAbsent s.shared.redis a.save).1
        ∧ t.calls[i]? = some (.accept a')
        ∧ a'.pc = if (savePendingIfAbsent s.shared.redis a.save).2 then .publish
            else .returned (IssueAcceptance.duplicate a.save.requestId) := by
  have hawaits : ∀ (b : Accept) pc, b.pc = .save pc
      → (Call.accept b).awaits config = .redis (b.save.command pc) := by
    intro b pc hpc
    simp [Call.awaits, hpc]
  by_cases hget : (s.shared.redis.get a.save.hashKey .userId).isSome = true
  . have hexec : s.shared.redis.exec (a.save.command .hsetnx)
        = some (s.shared.redis, .integer 0) := by
      simp [Save.command, exec, hget]
    obtain ⟨t, hrun, hredis, hcall⟩ := run_ok config hi (hawaits a _ hpc) hexec
    simp only [Call.resume, resume, hpc] at hcall
    refine ⟨t, _, hrun, ?_, hcall, ?_⟩ <;> simp [savePendingIfAbsent, hexec, hredis]
  . have hexec : s.shared.redis.exec (a.save.command .hsetnx)
        = some (s.shared.redis.set a.save.hashKey .userId (toString a.save.userId), .integer 1) := by
      simp [Save.command, exec, hget]
    obtain ⟨t, hrun, hredis, hcall⟩ := run_ok config hi (hawaits a _ hpc) hexec
    simp only [Call.resume, resume, hpc] at hcall
    obtain ⟨u, hrun', hredis', hcall'⟩ := run_ok config hcall (hawaits _ _ rfl) rfl
    obtain ⟨v, hrun'', hredis'', hcall''⟩ := run_ok config hcall' (hawaits _ _ rfl) rfl
    obtain ⟨w, hrunLast, hredisLast, hcallLast⟩ := run_ok config hcall'' (hawaits _ _ rfl) rfl
    refine ⟨w, _, ((hrun.trans hrun').trans hrun'').trans hrunLast, ?_, hcallLast, ?_⟩
    . rw [hredisLast, hredis'', hredis', hredis]
      simp only [savePendingIfAbsent, hexec]
      rfl
    . simp only [savePendingIfAbsent, hexec]
      rfl

end Flows

def Save.entry (s : Save) : PendingIssue where
  requestId := s.requestId
  userId := s.userId
  eventId := s.eventId
  couponTypeId := s.couponTypeId
  status := IssuePendingStatus.pending.text
  createdAt := some s.createdAt
  publishAttempts := .ofInt 1

def Save.member (s : Save) : String :=
  RedisKeys.pendingZsetMember s.userId s.couponTypeId

section Store

variable {redis : Redis} {s : Save}

theorem savePendingIfAbsent_eq (hnew : (savePendingIfAbsent redis s).2 = true)
    : (savePendingIfAbsent redis s).1
        = { (((redis.set s.hashKey .userId (toString s.userId)).setAll s.hashKey s.fields).setTtl
              s.hashKey)
            with zset := redis.zset.add s.member s.createdAt } := by
  by_cases hget : (redis.get s.hashKey .userId).isSome = true
  . have hexec : redis.exec (s.command .hsetnx) = some (redis, .integer 0) := by
      simp [Save.command, exec, hget]
    simp [savePendingIfAbsent, hexec] at hnew
  . have hexec : redis.exec (s.command .hsetnx)
        = some (redis.set s.hashKey .userId (toString s.userId), .integer 1) := by
      simp [Save.command, exec, hget]
    unfold savePendingIfAbsent
    rw [hexec]
    simp only [List.foldl_cons, List.foldl_nil, Save.command, execute, exec, Save.member,
      zset_setTtl, zset_setAll, zset_set]

theorem get_savePendingIfAbsent (hnew : (savePendingIfAbsent redis s).2 = true) {field : Field}
    {value : String} (hmem : (field, value) ∈ s.fields)
    : (savePendingIfAbsent redis s).1.get s.hashKey field = some value := by
  rw [savePendingIfAbsent_eq hnew, get_zset, get_setTtl]
  exact get_setAll_of_mem _ (by simp [Save.fields]) hmem

theorem score_savePendingIfAbsent (hnew : (savePendingIfAbsent redis s).2 = true)
    : (savePendingIfAbsent redis s).1.zset.score s.member = some (s.createdAt : Int) := by
  rw [savePendingIfAbsent_eq hnew]
  simp

theorem readEntry_savePendingIfAbsent (hnew : (savePendingIfAbsent redis s).2 = true)
    (hdate : (s.createdAt : Int) ≤ maxTime)
    : ∃ hash, (savePendingIfAbsent redis s).1.hashes s.hashKey = some hash
        ∧ readEntry s.userId s.couponTypeId hash.fields = some s.entry := by
  have hget : ∀ field value, (field, value) ∈ s.fields
      → (savePendingIfAbsent redis s).1.get s.hashKey field = some value :=
    fun _ _ hmem => get_savePendingIfAbsent hnew hmem
  have hsome := (isSome_hashes (savePendingIfAbsent redis s).1).mpr ⟨.userId,
    Option.isSome_of_eq_some (hget .userId (toString s.userId) (by simp [Save.fields]))⟩
  obtain ⟨hash, hhash⟩ := Option.isSome_iff_exists.mp hsome
  refine ⟨hash, hhash, ?_⟩
  have hfields : ∀ field value, (field, value) ∈ s.fields → hash.fields field = some value := by
    intro field value hmem
    have hvalue := hget field value hmem
    simp only [Redis.Server.get, hhash, Option.bind_some] at hvalue
    exact hvalue
  have hcreatedAt : Date.ofNumber (JsNumber.ofString s.createdAtText) = some (s.createdAt : Int) := by
    rw [Save.createdAtText, JsNumber.ofString_toString]
    apply Date.ofNumber_of_le
    unfold maxTime at hdate ⊢
    omega
  have hone : parseLongStrict "1".toList = some (JsNumber.ofInt 1) := by decide
  unfold readEntry
  rw [hfields .requestId s.requestId (by simp [Save.fields]),
    hfields .eventId (toString s.eventId) (by simp [Save.fields]),
    hfields .status IssuePendingStatus.pending.text (by simp [Save.fields]),
    hfields .createdAt s.createdAtText (by simp [Save.fields]),
    hfields .publishAttempts "1" (by simp [Save.fields])]
  simp only [Option.bind_eq_bind, Option.bind_some, hone, hcreatedAt, JsNumber.ofString_toString]
  rfl

theorem mem_findMembers {members : List String} {member : String} {userId couponTypeId : JsNumber}
    {hash : Redis.Hash Field} {pending : PendingIssue} (hmem : member ∈ members)
    (hparse : parseMember member = some (userId, couponTypeId))
    (hhash : redis.hashes (RedisKeys.pendingHash userId couponTypeId) = some hash)
    (hread : readEntry userId couponTypeId hash.fields = some pending)
    : pending ∈ (findMembers redis members).2 := by
  induction members generalizing redis with
  | nil => contradiction
  | cons m members ih =>
    unfold findMembers
    rcases List.mem_cons.mp hmem with rfl | hmem
    . rw [hparse]
      dsimp only
      rw [hhash]
      dsimp only
      rw [hread]
      exact List.mem_cons_self
    . split
      . exact ih hmem hhash
      . split
        . exact ih hmem hhash
        . split
          . exact ih hmem hhash
          . exact List.mem_cons_of_mem _ (ih hmem hhash)

end Store

/--
A new application can be read back from the sorted set and found again exactly when both of its ids
are written without an exponent.
-/
theorem pending_found (redis : Redis) (s : Save) (hnew : (savePendingIfAbsent redis s).2 = true)
    (hdate : (s.createdAt : Int) ≤ maxTime)
    : (((savePendingIfAbsent redis s).1.zset.score s.member = some (s.createdAt : Int)
          ∧ parseMember s.member = some s.pair
          ∧ ∀ (cutoffMs : Int) batchSize, (s.createdAt : Int) ≤ cutoffMs
              → ((savePendingIfAbsent redis s).1.zset.entries.filter fun e =>
                  0 ≤ e.2 && e.2 ≤ cutoffMs).length ≤ batchSize
              → s.entry ∈ (findPendingOlderThan (savePendingIfAbsent redis s).1 cutoffMs
                  batchSize).2)
        ↔ isDecimalPair s.pair = true)
      ∧ ∀ other : Save, other.pair ≠ s.pair
          → other.member ≠ s.member ∧ other.hashKey ≠ s.hashKey := by
  have hmember : parseMember s.member = if isDecimalPair s.pair then some s.pair else none :=
    parseMember_pendingZsetMember s.userId s.couponTypeId
  refine ⟨?_, ?_⟩
  . constructor
    . rintro ⟨_, hparse, _⟩
      by_contra hdecimal
      rw [hmember, if_neg hdecimal] at hparse
      contradiction
    . intro hdecimal
      rw [hmember, if_pos hdecimal]
      refine ⟨score_savePendingIfAbsent hnew, rfl, ?_⟩
      intro cutoffMs batchSize hcutoff hbatch
      obtain ⟨hash, hhash, hread⟩ := readEntry_savePendingIfAbsent hnew hdate
      have hrange := Redis.ZSet.mem_range_of_le _ hbatch (score_savePendingIfAbsent hnew)
        (Int.natCast_nonneg _) hcutoff
      exact mem_findMembers hrange (hmember.trans (if_pos hdecimal)) hhash hread
  . intro other hne
    have hpair : ∀ {u t : JsNumber}, other.userId = u ∧ other.couponTypeId = t
        → (u, t) = other.pair := by
      rintro u t ⟨rfl, rfl⟩
      rfl
    constructor
    . intro heq
      exact hne (hpair (RedisKeys.pendingZsetMember_injective heq)).symm
    . intro heq
      exact hne (hpair (RedisKeys.pendingHash_injective heq)).symm

def firstSave : Save :=
  ⟨"a", .ofInt 7, .ofInt 10, .ofInt 20, 5⟩

theorem pending_found_first
    : firstSave.entry ∈ (findPendingOlderThan (savePendingIfAbsent .empty firstSave).1 5 1).2 := by
  have h := pending_found .empty firstSave (by decide) (by decide)
  exact (h.1.mpr (by decide)).2.2 5 1 (by decide) (by decide)

def hugeSave : Save :=
  { firstSave with userId := .ofInt (10 ^ 21) }

/--
Such a user is admitted, but the member of the application is `1e+21:20`.
-/
theorem pending_lost
    : ¬∀ raw (redis : Redis) (s : Save), UserId.decode raw = .ok s.userId
        → Call.isAdmitted s = true → (savePendingIfAbsent redis s).2 = true
        → (s.createdAt : Int) ≤ maxTime → parseMember s.member = some s.pair := by
  intro h
  have hparse := h _ .empty hugeSave (UserId.decode_write (10 ^ 21)) (by decide +kernel)
    (by decide +kernel) (by decide)
  have hmember := parseMember_pendingZsetMember hugeSave.userId hugeSave.couponTypeId
  rw [if_neg (by decide +kernel)] at hmember
  exact Option.some_ne_none _ (hparse.symm.trans hmember)

end ServerB
