import CouponIssuance.ServerB.Lemmas.Mark
import CouponIssuance.ServerC.Outbox
import CouponIssuance.ServerC.Query

/-!
This module contains the two ways in which server-b learns what server-c has decided about an
application: the lookup of the scheduler, and the message of the outbox.
-/

open Js

namespace ServerB

open Redis.Server

/--
`UserCouponClient.findOne`: no answer when it throws, and `some none` for a 404.
-/
def UserCouponClient.findOne (db : ServerC.Db) (userId couponTypeId : JsNumber)
    : Option (Option UserCouponLookupResult) :=
  (ServerC.findOne db userId.render couponTypeId.render).map fun view =>
    view.map fun view => ⟨view.code, view.status⟩

def syncFromC (userId couponTypeId : JsNumber) (result : UserCouponLookupResult) : Mark :=
  markResult userId couponTypeId (Sweep.mapStatus result.status) (some result.code)

theorem Sweep.answered_some {config : Config} {now : Nat} {s : Sweep} {pending : PendingIssue}
    {stale : List PendingIssue} (hpc : s.pc = .lookup pending stale)
    (result : UserCouponLookupResult)
    : s.answered config now (some result)
        = s.goto (.markResult (syncFromC pending.userId pending.couponTypeId result) false stale) := by
  unfold answered
  rw [hpc]
  rfl

inductive RecoveryPath where
  | scheduler
  | kafka

def RecoveryPath.mark (db : ServerC.Db) (value : String) (p : Pair) : RecoveryPath → Option Mark
  | scheduler =>
    match UserCouponClient.findOne db p.1 p.2 with
    | some (some result) => some (syncFromC p.1 p.2 result)
    | _ => none
  | kafka => (Deliver.parse value).map Deliver.mark

def RecoveryPath.apply (db : ServerC.Db) (value : String) (p : Pair) (redis : Redis)
    (path : RecoveryPath) : Redis :=
  match path.mark db value p with
  | some mark => mark.run redis
  | none => redis

/--
The two states agree about the result of the pair.
-/
structure SameResult (p : Pair) (redis redis' : Redis) : Prop where
  status : redis.get p.hashKey .status = redis'.get p.hashKey .status
  code : redis.get p.hashKey .code = redis'.get p.hashKey .code
  zset : redis.zset = redis'.zset

/--
Any paths one after the other do what each single path does.
-/
def Interchangeable (db : ServerC.Db) (value : String) (p : Pair) (redis : Redis) : Prop :=
  ∀ (paths : List RecoveryPath) (path : RecoveryPath), paths ≠ []
    → SameResult p (paths.foldl (RecoveryPath.apply db value p) redis)
        (path.apply db value p redis)

def recoveredStatus : ServerC.UserCouponStatus → IssuePendingStatus
  | .success | .used => .success
  | .soldOut => .soldOut
  | .failed => .failed

section Flows

open Concurrency

variable {config : Config} {db : ServerC.Db} {value : String} {s : State} {i : Nat}

/--
A sweep that gets its answer from server-c and is alone takes the path of the scheduler.
-/
theorem scheduler_run {sweep : Sweep} {pending : PendingIssue} {stale : List PendingIssue}
    {result : UserCouponLookupResult} (hi : s.calls[i]? = some (.sweep sweep))
    (hpc : sweep.pc = .lookup pending stale)
    (hfind : UserCouponClient.findOne db pending.userId pending.couponTypeId = some (some result))
    : ∃ t, (calls config).machine.Run
            (fun _ a => a = .step i (.answer (some result)) ∨ a = .step i .ok) s t
        ∧ t.shared.redis = RecoveryPath.scheduler.apply db value pending.pair s.shared.redis := by
  let mark := syncFromC pending.userId pending.couponTypeId result
  let c : Call := .sweep (sweep.goto (.markResult mark false stale))
  let t : State := ⟨(Call.proceed s.shared c).1, s.calls.set i c⟩
  have hnext : (calls config).machine.step s (.step i (.answer (some result))) = some t := by
    simp [Calls.machine, Calls.next, hi, calls, Call.step, Call.awaits, hpc, Call.answered,
      Sweep.answered_some hpc, t, c, mark, Call.proceed]
  have hcall : t.calls[i]? = some c :=
    List.getElem?_set_self (List.getElem?_eq_some_iff.mp hi).1
  obtain ⟨u, _, hrun, hredis, _⟩ := Mark.completes config hcall (m := mark) rfl
  refine ⟨u, Machine.Run.trans (t := t) ?_ (hrun.mono fun _ _ h => Or.inr h), ?_⟩
  . exact Machine.Run.single (Or.inl rfl) hnext
  . rw [hredis]
    simp only [RecoveryPath.apply, RecoveryPath.mark, PendingIssue.pair, hfind]
    rfl

/--
A delivery that is alone takes the path of the message.
-/
theorem kafka_run {payload : CouponIssueResultPayload} {p : Pair}
    (hconfig : 1 ≤ config.maxDeliveryAttempts) (hparse : Deliver.parse value = some payload)
    : ∃ t, (calls config).machine.Run
            (fun _ a => a = .start (.deliver ⟨value, Deliver.start config value⟩)
              ∨ a = .step s.calls.length .ok) s t
        ∧ t.shared.redis = RecoveryPath.kafka.apply db value p s.shared.redis := by
  have hstart : Deliver.start config value = .markResult payload 1 (Deliver.mark payload) := by
    simp [Deliver.start, hparse, Deliver.attempt, hconfig]
  let c : Call := .deliver ⟨value, Deliver.start config value⟩
  let t : State := ⟨s.shared, s.calls ++ [c]⟩
  have hnext : (calls config).machine.step s (.start c) = some t := by
    simp [Calls.machine, Calls.next, calls, Call.start, t, c]
  have hcall : t.calls[s.calls.length]? = some c := by simp [t]
  obtain ⟨u, _, hrun, hredis, _⟩ := Mark.completes config hcall
    (m := Deliver.mark payload) (by simp [c, Call.mark?, hstart])
  refine ⟨u, Machine.Run.trans (t := t) ?_ (hrun.mono fun _ _ h => Or.inr h), ?_⟩
  . exact Machine.Run.single (Or.inl rfl) hnext
  . rw [hredis]
    simp only [RecoveryPath.apply, RecoveryPath.mark, hparse, Option.map_some]
    rfl

end Flows

section Paths

variable {db : ServerC.Db} {row : ServerC.UserCoupon} {o : ServerC.OutboxEvent} {redis : Redis}

theorem JsNumber.isDecimal_of_isBigint {n : JsNumber} (h : ServerC.isBigint n = true)
    : n.isInteger = true ∧ n.isDecimal = true := by
  cases n with
  | int n hn =>
    refine ⟨rfl, ?_⟩
    simp only [ServerC.isBigint, Bool.and_eq_true, decide_eq_true_eq] at h
    simp only [JsNumber.isDecimal, decide_eq_true_eq]
    rw [Nat.length_toDigits_le_iff (by decide) (by decide)]
    simp only [applySign] at h
    split at h <;> omega
  | posInf => contradiction
  | negInf => contradiction
  | nan => contradiction

theorem findOne_of_mem (hwf : db.Wf) (hrow : row ∈ db.coupons)
    : UserCouponClient.findOne db row.userId row.couponTypeId
        = some (some ⟨row.code, row.status.text⟩) := by
  have hbigint := hwf.bigint row hrow
  unfold UserCouponClient.findOne ServerC.findOne
  rw [ServerC.parseLong_render, ServerC.parseLong_render,
    if_pos (JsNumber.isDecimal_of_isBigint hbigint.1).2,
    if_pos (JsNumber.isDecimal_of_isBigint hbigint.2.2).2]
  simp only [Option.bind_eq_bind, Option.bind_some, Option.pure_def, Option.map_some,
    (ServerC.findByUserIdAndCouponTypeId_eq_some hwf).mpr hrow]
  rfl

theorem mapStatus_text (status : ServerC.UserCouponStatus)
    : Sweep.mapStatus status.text = recoveredStatus status := by
  cases status <;> decide

theorem mapStatus_issued (status : ServerC.UserCouponStatus)
    : Deliver.mapStatus status.issued = recoveredStatus status := by
  cases status <;> rfl

theorem scheduler_mark (hwf : db.Wf) (hrow : row ∈ db.coupons)
    : RecoveryPath.scheduler.mark db o.payload row.pair
        = some (markResult row.userId row.couponTypeId (recoveredStatus row.status)
            (some row.code)) := by
  simp only [RecoveryPath.mark, ServerC.UserCoupon.pair, findOne_of_mem hwf hrow, syncFromC,
    mapStatus_text]

theorem couponCode_of_success {i : ServerC.Issued} (h : i.status = .success)
    : i.couponCode ≠ none := by
  unfold ServerC.Issued.couponCode
  rw [if_pos h]
  exact Option.some_ne_none _

theorem parse_of_announcedBy (hwf : db.Wf) (hrow : row ∈ db.coupons)
    (hannounced : row.issued.AnnouncedBy o.record)
    : ∃ processedAt,
        Deliver.parse o.payload = some (row.issued.payload o.aggregateId processedAt) := by
  obtain ⟨processedAt, hpayload⟩ := hannounced
  obtain ⟨huser, hevent, htype⟩ := hwf.bigint row hrow
  refine ⟨processedAt, ?_⟩
  rw [show o.payload = _ from hpayload]
  exact Deliver.parse_stringify (row.issued.payload o.aggregateId processedAt)
    (JsNumber.isDecimal_of_isBigint huser).1 (JsNumber.isDecimal_of_isBigint hevent).1
    (JsNumber.isDecimal_of_isBigint htype).1 couponCode_of_success

theorem kafka_mark (hwf : db.Wf) (hrow : row ∈ db.coupons)
    (hannounced : row.issued.AnnouncedBy o.record)
    : RecoveryPath.kafka.mark db o.payload row.pair
        = some (markResult row.userId row.couponTypeId (recoveredStatus row.status)
            row.issued.couponCode) := by
  obtain ⟨processedAt, hparse⟩ := parse_of_announcedBy hwf hrow hannounced
  simp only [RecoveryPath.mark, hparse, Option.map_some, Deliver.mark]
  rw [← mapStatus_issued]
  rfl

/-- Both paths have come to their end, and there was no other writer. -/
structure Recovered (row : ServerC.UserCoupon) (zset : Redis.ZSet String) (redis : Redis) : Prop where
  status : redis.get (Pair.hashKey row.pair) .status = some (recoveredStatus row.status).text
  code : redis.get (Pair.hashKey row.pair) .code = some row.code
  zset : redis.zset = zset.remove (Pair.member row.pair)

theorem Recovered.sameResult {z : Redis.ZSet String} {redis redis' : Redis}
    (h : Recovered row z redis) (h' : Recovered row z redis')
    : SameResult row.pair redis redis' :=
  ⟨h.status.trans h'.status.symm, h.code.trans h'.code.symm, h.zset.trans h'.zset.symm⟩

theorem issued_eq_success (status : ServerC.UserCouponStatus)
    : status.issued = .success ↔ status = .success ∨ status = .used := by
  cases status <;> decide

theorem couponCode_issued (row : ServerC.UserCoupon)
    : row.issued.couponCode
        = if row.status = .success ∨ row.status = .used then some row.code else none := by
  exact if_congr (issued_eq_success row.status) rfl rfl

theorem scheduler_apply (hwf : db.Wf) (hrow : row ∈ db.coupons)
    : Recovered row redis.zset (RecoveryPath.scheduler.apply db o.payload row.pair redis) := by
  unfold RecoveryPath.apply
  rw [scheduler_mark hwf hrow]
  have hspec := Mark.run_spec redis
    (m := markResult row.userId row.couponTypeId (recoveredStatus row.status) (some row.code)) rfl
  exact ⟨hspec.1, hspec.2.1, hspec.2.2⟩

theorem code_kafka_apply (hwf : db.Wf) (hrow : row ∈ db.coupons)
    (hannounced : row.issued.AnnouncedBy o.record)
    : (RecoveryPath.kafka.apply db o.payload row.pair redis).get (Pair.hashKey row.pair) .code
        = if row.status = .success ∨ row.status = .used then
            some row.code
          else
            redis.get (Pair.hashKey row.pair) .code := by
  unfold RecoveryPath.apply
  rw [kafka_mark hwf hrow hannounced]
  have hspec := Mark.run_spec redis
    (m := markResult row.userId row.couponTypeId (recoveredStatus row.status)
      row.issued.couponCode) rfl
  refine hspec.2.1.trans ?_
  change row.issued.couponCode.or _ = _
  rw [couponCode_issued]
  split <;> rfl

theorem kafka_apply (hwf : db.Wf) (hrow : row ∈ db.coupons)
    (hannounced : row.issued.AnnouncedBy o.record)
    (hcode : row.status = .success ∨ row.status = .used
      ∨ redis.get (Pair.hashKey row.pair) .code = some row.code)
    : Recovered row redis.zset (RecoveryPath.kafka.apply db o.payload row.pair redis) := by
  refine ⟨?_, ?_, ?_⟩
  . unfold RecoveryPath.apply
    rw [kafka_mark hwf hrow hannounced]
    exact (Mark.run_spec _ rfl).1
  . rw [code_kafka_apply hwf hrow hannounced]
    split
    . rfl
    . next hother => exact (or_assoc.mpr hcode).resolve_left hother
  . unfold RecoveryPath.apply
    rw [kafka_mark hwf hrow hannounced]
    exact (Mark.run_spec _ rfl).2.2

theorem recovered_apply (hwf : db.Wf) (hrow : row ∈ db.coupons)
    (hannounced : row.issued.AnnouncedBy o.record)
    (hcode : row.status = .success ∨ row.status = .used
      ∨ redis.get (Pair.hashKey row.pair) .code = some row.code) (path : RecoveryPath)
    : Recovered row redis.zset (path.apply db o.payload row.pair redis) := by
  cases path with
  | scheduler => exact scheduler_apply hwf hrow
  | kafka => exact kafka_apply hwf hrow hannounced hcode

theorem recovered_foldl {zset : Redis.ZSet String} (hwf : db.Wf) (hrow : row ∈ db.coupons)
    (hannounced : row.issued.AnnouncedBy o.record) (h : Recovered row zset redis)
    (paths : List RecoveryPath)
    : Recovered row zset (paths.foldl (RecoveryPath.apply db o.payload row.pair) redis) := by
  induction paths generalizing redis with
  | nil => exact h
  | cons path paths ih =>
    rw [List.foldl_cons]
    apply ih
    have happly := recovered_apply hwf hrow hannounced (Or.inr (Or.inr h.code)) path
    refine ⟨happly.status, happly.code, ?_⟩
    rw [happly.zset, h.zset, Redis.ZSet.remove_remove]

theorem interchangeable_iff (hwf : db.Wf) (hrow : row ∈ db.coupons)
    (hannounced : row.issued.AnnouncedBy o.record)
    : Interchangeable db o.payload row.pair redis
        ↔ row.status = .success ∨ row.status = .used
          ∨ redis.get (Pair.hashKey row.pair) .code = some row.code := by
  constructor
  . intro h
    -- the message alone against the lookup alone
    have hsame := (h [.kafka] .scheduler (by simp)).code
    rw [List.foldl_cons, List.foldl_nil, (scheduler_apply hwf hrow).code,
      code_kafka_apply hwf hrow hannounced] at hsame
    split at hsame
    . next hissued => exact or_assoc.mp (Or.inl hissued)
    . exact Or.inr (Or.inr hsame)
  . intro hcode paths path hne
    cases paths with
    | nil => contradiction
    | cons first rest =>
      rw [List.foldl_cons]
      apply Recovered.sameResult (z := redis.zset)
      . exact recovered_foldl hwf hrow hannounced (recovered_apply hwf hrow hannounced hcode first)
          rest
      . exact recovered_apply hwf hrow hannounced hcode path

end Paths

section Run

open ServerC

variable {batchSize : Nat} {db : ServerC.Db} {s : ServerC.State} {row : ServerC.UserCoupon}
variable {o : ServerC.OutboxEvent} {n : Nat}

theorem announcedBy_of_run {ok : ServerC.State → ServerC.Act → Prop} (hwf : db.Wf)
    (hcoupons : db.coupons = []) (houtbox : db.outbox = [])
    (hrun : (ServerC.calls batchSize).machine.Run ok (ServerC.init db) s)
    (hrow : s.shared.db.coupons[n]? = some row) (ho : s.shared.db.outbox[n]? = some o)
    : s.shared.db.Wf ∧ row ∈ s.shared.db.coupons ∧ row.issued.AnnouncedBy o.record := by
  refine ⟨(outline hwf hrun).shared, List.mem_of_getElem? hrow, ?_⟩
  have hannounced := (transactional hwf hcoupons houtbox hrun).announced
  rw [List.forall₂_map_left_iff, List.forall₂_map_right_iff, List.forall₂_iff_get] at hannounced
  obtain ⟨hlt, rfl⟩ := List.getElem?_eq_some_iff.mp hrow
  obtain ⟨hlt', rfl⟩ := List.getElem?_eq_some_iff.mp ho
  exact hannounced.2 n hlt hlt'

/--
For a row that `process` has committed both paths are interchangeable if and only if the row has
been issued, or the hash holds the code of the row already.
-/
theorem recovery_interchangeable_iff (hwf : db.Wf) (hcoupons : db.coupons = [])
    (houtbox : db.outbox = [])
    (hrun : (ServerC.calls batchSize).machine.Run (fun _ _ => True) (ServerC.init db) s)
    (hrow : s.shared.db.coupons[n]? = some row) (ho : s.shared.db.outbox[n]? = some o)
    (redis : Redis)
    : Interchangeable s.shared.db o.payload row.pair redis
        ↔ row.status = .success ∨ row.status = .used
          ∨ redis.get (Pair.hashKey row.pair) .code = some row.code := by
  obtain ⟨hwf', hmem, hannounced⟩ := announcedBy_of_run hwf hcoupons houtbox hrun hrow ho
  exact interchangeable_iff hwf' hmem hannounced

def pendingOnly (save : Save) : Redis :=
  [SavePc.hsetnx, .hset, .expire, .zadd].foldl (fun redis pc => redis.execute (save.command pc)) .empty

def loser : Save where
  requestId := "b"
  userId := .ofInt 2
  eventId := .ofInt 10
  couponTypeId := .ofInt 20
  createdAt := 0

def isRaced (s : ServerC.State) : Bool :=
  match s.shared.db.coupons, s.shared.db.outbox with
  | [row, row'], [_, _] =>
    row.status == .success && row'.status == .soldOut
      && ((pendingOnly loser).get (Pair.hashKey row'.pair) .code).isNone
  | _, _ => false

theorem exists_race
    : ∃ s row row' o o', (ServerC.calls 1).machine.Run (fun _ _ => True) (ServerC.init lastCoupon) s
        ∧ s.shared.db.coupons = [row, row']
        ∧ s.shared.db.outbox = [o, o']
        ∧ row.status = .success
        ∧ row'.status = .soldOut
        ∧ (pendingOnly loser).get (Pair.hashKey row'.pair) .code = none := by
  obtain ⟨s, hrun, hs⟩ := Concurrency.Machine.exists_run_of_exec
    (ServerC.calls 1).machine (fun _ _ => true) (fun _ _ => True) (fun _ _ _ => trivial) race
    (ServerC.init lastCoupon)
    isRaced (by decide +kernel)
  unfold isRaced at hs
  split at hs
  . next row row' o o' hcoupons houtbox =>
    simp only [Bool.and_eq_true, beq_iff_eq, Option.isNone_iff_eq_none] at hs
    exact ⟨s, row, row', o, o', hrun, hcoupons, houtbox, hs.1.1, hs.1.2, hs.2⟩
  . contradiction

theorem recovery_interchangeable_race
    : ∃ s row o, (ServerC.calls 1).machine.Run (fun _ _ => True) (ServerC.init lastCoupon) s
        ∧ s.shared.db.coupons[0]? = some row
        ∧ s.shared.db.outbox[0]? = some o
        ∧ Interchangeable s.shared.db o.payload row.pair (pendingOnly loser) := by
  obtain ⟨s, row, row', o, o', hrun, hcoupons, houtbox, hsuccess, _⟩ := exists_race
  have hrow : s.shared.db.coupons[0]? = some row := by rw [hcoupons]; rfl
  have ho : s.shared.db.outbox[0]? = some o := by rw [houtbox]; rfl
  exact ⟨s, row, o, hrun, hrow, ho, (recovery_interchangeable_iff lastCoupon_wf rfl rfl hrun hrow ho
    (pendingOnly loser)).mpr (Or.inl hsuccess)⟩

theorem recovery_differs
    : ¬∀ (batchSize : Nat) (db : ServerC.Db) (s : ServerC.State) (n : Nat) row o (redis : Redis),
        db.Wf → db.coupons = [] → db.outbox = []
          → (ServerC.calls batchSize).machine.Run (fun _ _ => True) (ServerC.init db) s
          → s.shared.db.coupons[n]? = some row → s.shared.db.outbox[n]? = some o
          → Interchangeable s.shared.db o.payload row.pair redis := by
  intro h
  obtain ⟨s, row, row', o, o', hrun, hcoupons, houtbox, _, hsoldOut, hcode⟩ := exists_race
  have hrow : s.shared.db.coupons[1]? = some row' := by rw [hcoupons]; rfl
  have ho : s.shared.db.outbox[1]? = some o' := by rw [houtbox]; rfl
  have hsame := h 1 lastCoupon s 1 row' o' (pendingOnly loser) lastCoupon_wf rfl rfl hrun hrow ho
  obtain ⟨hwf, hmem, hannounced⟩ := announcedBy_of_run lastCoupon_wf rfl rfl hrun hrow ho
  rw [interchangeable_iff hwf hmem hannounced, hsoldOut, hcode] at hsame
  simp at hsame

end Run

end ServerB
