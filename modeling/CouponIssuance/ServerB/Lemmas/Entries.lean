import CouponIssuance.ServerB.Attempts

/-!
This module contains what `findPendingOlderThan` makes of the hash of a pair, and which commands
leave everything about a pair as it is.
-/

namespace ServerB

open Redis.Server

section Entries

variable {redis redis' : Redis} {p : Pair}

theorem get_of_hashes {hash : Redis.Hash Field} {key : String} (h : redis.hashes key = some hash)
    (field : Field)
    : redis.get key field = hash.fields field := by
  simp [Redis.Server.get, h]

theorem readEntry_of_readable {hash : Redis.Hash Field} {attempts : JsNumber}
    (hhash : redis.hashes p.hashKey = some hash) (h : Readable redis p attempts)
    : ∃ pending, readEntry p.1 p.2 hash.fields = some pending
        ∧ pending.publishAttempts = attempts
        ∧ pending.pair = p := by
  obtain ⟨requestId, hrequestId⟩ := Option.isSome_iff_exists.mp h.requestId
  obtain ⟨eventId, heventId⟩ := Option.isSome_iff_exists.mp h.eventId
  obtain ⟨status, hstatus⟩ := Option.isSome_iff_exists.mp h.status
  obtain ⟨createdAt, hcreatedAt⟩ := Option.isSome_iff_exists.mp h.createdAt
  have hattempts := h.attempts
  rw [get_of_hashes hhash] at hrequestId heventId hstatus hcreatedAt hattempts
  unfold readEntry
  rw [hrequestId, heventId, hstatus, hcreatedAt]
  cases hcounter : hash.fields .publishAttempts with
  | none =>
    rw [hcounter] at hattempts
    cases hattempts
    exact ⟨_, rfl, rfl, rfl⟩
  | some text =>
    rw [hcounter] at hattempts
    change parseLongStrict text.toList = some attempts at hattempts
    simp only [Option.bind_eq_bind, Option.bind_some, hattempts]
    exact ⟨_, rfl, rfl, rfl⟩

theorem pair_of_readEntry {userId couponTypeId : JsNumber} {entries : Field → Option String}
    {pending : PendingIssue} (h : readEntry userId couponTypeId entries = some pending)
    : pending.pair = (userId, couponTypeId) := by
  unfold readEntry at h
  simp only [Option.bind_eq_bind, Option.bind_eq_some_iff] at h
  obtain ⟨_, _, _, _, _, _, _, _, h⟩ := h
  split at h
  . cases h
    rfl
  . obtain ⟨_, _, h⟩ := Option.bind_eq_some_iff.mp h
    cases h
    rfl

theorem fields_of_readEntry {userId couponTypeId : JsNumber} {entries : Field → Option String}
    {pending : PendingIssue} (h : readEntry userId couponTypeId entries = some pending)
    : entries .requestId = some pending.requestId
        ∧ (∃ text, entries .eventId = some text ∧ pending.eventId = JsNumber.ofString text)
        ∧ entries .status = some pending.status
        ∧ ∃ text, entries .createdAt = some text
          ∧ pending.createdAt = Js.Date.ofNumber (JsNumber.ofString text) := by
  unfold readEntry at h
  simp only [Option.bind_eq_bind, Option.bind_eq_some_iff] at h
  obtain ⟨requestId, hrequestId, eventId, heventId, status, hstatus, createdAt, hcreatedAt, h⟩ := h
  split at h
  . cases h
    exact ⟨hrequestId, ⟨_, heventId, rfl⟩, hstatus, _, hcreatedAt, rfl⟩
  . obtain ⟨_, _, h⟩ := Option.bind_eq_some_iff.mp h
    cases h
    exact ⟨hrequestId, ⟨_, heventId, rfl⟩, hstatus, _, hcreatedAt, rfl⟩

theorem requestId_of_readEntry {userId couponTypeId : JsNumber} {entries : Field → Option String}
    {pending : PendingIssue} (h : readEntry userId couponTypeId entries = some pending)
    : entries .requestId = some pending.requestId :=
  (fields_of_readEntry h).1

structure SamePair (p : Pair) (redis redis' : Redis) : Prop where
  get : ∀ field, redis'.get p.hashKey field = redis.get p.hashKey field
  score : redis.zset.score p.member = none → redis'.zset.score p.member = none

theorem SamePair.of_eq (h : redis' = redis) : SamePair p redis redis' := by
  rw [h]
  exact ⟨fun _ => rfl, id⟩

theorem SamePair.of_exec {command : Command} {reply : Reply}
    (hexec : redis.exec command = some (redis', reply)) (hkey : command.key? ≠ some p.hashKey)
    (hmember : command.member? ≠ some p.member)
    : SamePair p redis redis' :=
  ⟨exec_get_of_ne hkey hexec, (exec_score_of_ne hmember hexec).trans⟩

theorem SamePair.hashes (h : SamePair p redis redis') (hnone : redis.hashes p.hashKey = none)
    : redis'.hashes p.hashKey = none := by
  rw [← Option.not_isSome_iff_eq_none, isSome_hashes] at hnone ⊢
  rintro ⟨field, hfield⟩
  rw [h.get] at hfield
  exact hnone ⟨field, hfield⟩

theorem MarkedFailed.of_same (h : MarkedFailed redis p) (hsame : SamePair p redis redis')
    : MarkedFailed redis' p :=
  h.imp hsame.hashes (hsame.get _).trans

theorem Readable.of_same {attempts : JsNumber} (h : Readable redis p attempts)
    (hsame : SamePair p redis redis')
    : Readable redis' p attempts := by
  constructor
  . rw [hsame.get]; exact h.requestId
  . rw [hsame.get]; exact h.eventId
  . rw [hsame.get]; exact h.status
  . rw [hsame.get]; exact h.createdAt
  . rw [hsame.get]; exact h.attempts

theorem Mark.samePair {m : Mark} {reply : Reply} (hne : m.pair ≠ p)
    (hexec : redis.exec m.command = some (redis', reply))
    : SamePair p redis redis' := by
  apply SamePair.of_exec hexec
  . rw [Mark.key?_command]
    split
    . simp
    . exact fun h => hne (Pair.hashKey_injective (Option.some.inj h))
  . rw [Mark.member?_command]
    split
    . exact fun h => hne (Pair.member_injective (Option.some.inj h))
    . simp

theorem Republish.samePair {r : Republish} {reply : Reply} (hne : r.pair ≠ p)
    (hexec : redis.exec r.command = some (redis', reply))
    : SamePair p redis redis' := by
  apply SamePair.of_exec hexec
  . rw [Republish.key?_command]
    split
    . simp
    . exact fun h => hne (Pair.hashKey_injective (Option.some.inj h))
  . rw [Republish.member?_command]
    split
    . exact fun h => hne (Pair.member_injective (Option.some.inj h))
    . simp

theorem Save.samePair {s : Save} {pc : SavePc} {reply : Reply} (hne : s.pair ≠ p)
    (hexec : redis.exec (s.command pc) = some (redis', reply))
    : SamePair p redis redis' := by
  apply SamePair.of_exec hexec
  . rw [Save.key?_command]
    split
    . simp
    . exact fun h => hne (Pair.hashKey_injective (Option.some.inj h))
  . rw [Save.member?_command]
    split
    . exact fun h => hne (Pair.member_injective (Option.some.inj h))
    . simp

theorem isSome_score_of_exec {config : Config} {c : Call} {command : Command} {reply : Reply}
    (h : c.Runs config command) (hexec : redis.exec command = some (redis', reply))
    {member : String} (hscore : (redis'.zset.score member).isSome = true)
    : (redis.zset.score member).isSome = true ∨ ∃ q : Pair, member = q.member := by
  by_cases hmember : command.member? = some member
  . cases h with
    | save a pc hc hpc =>
      rw [Save.member?_command] at hmember
      split at hmember
      . exact Or.inr ⟨_, (Option.some.inj hmember).symm⟩
      . contradiction
    | mark m hm =>
      rw [Mark.member?_command] at hmember
      split at hmember
      . exact Or.inr ⟨_, (Option.some.inj hmember).symm⟩
      . contradiction
    | republish r hr =>
      rw [Republish.member?_command] at hmember
      split at hmember
      . exact Or.inr ⟨_, (Option.some.inj hmember).symm⟩
      . contradiction
    | orphan member' hmember' =>
      rw [exec_zrem hexec] at hscore
      simp only [Redis.ZSet.score_remove] at hscore
      split at hscore
      . contradiction
      . exact Or.inl hscore
    | hgetall s userId couponTypeId member members result hc hpc => contradiction
    | zrangebyscore s hc hpc => contradiction
  . rw [exec_score_of_ne hmember hexec] at hscore
    exact Or.inl hscore

theorem Sole.of_exec {config : Config} {c : Call} {command : Command} {reply : Reply}
    (hsole : Sole redis p) (h : c.Runs config command)
    (hexec : redis.exec command = some (redis', reply))
    : Sole redis' p := by
  intro member hscore hparse
  rcases isSome_score_of_exec h hexec hscore with hold | ⟨q, rfl⟩
  . exact hsole member hold hparse
  . rw [Pair.eq_of_parseMember hparse]

end Entries

end ServerB
