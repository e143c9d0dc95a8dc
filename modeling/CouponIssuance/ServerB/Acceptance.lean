import CouponIssuance.ServerB.Lemmas.Steps

/-!
This module contains what an accepted application is: what Redis holds about its pair, and the two
races that can undo it.
-/

namespace ServerB

def Concluded (redis : Redis) (p : Pair) : Prop :=
  ∃ status : IssuePendingStatus, status ≠ .pending
    ∧ redis.get p.hashKey .status = some status.text

structure Filled (redis : Redis) (p : Pair) : Prop where
  requestId : (redis.get p.hashKey .requestId).isSome = true
  eventId : (redis.get p.hashKey .eventId).isSome = true
  createdAt : (redis.get p.hashKey .createdAt).isSome = true
  status : ∃ status : IssuePendingStatus, redis.get p.hashKey .status = some status.text

structure Waiting (redis : Redis) (p : Pair) : Prop where
  status : redis.get p.hashKey .status = some IssuePendingStatus.pending.text
  requestId : (redis.get p.hashKey .requestId).isSome = true
  eventId : (redis.get p.hashKey .eventId).isSome = true
  createdAt : (redis.get p.hashKey .createdAt).isSome = true
  listed : (redis.zset.score p.member).isSome = true

/-- The application is really alive: its hash expires in the end, and it will be concluded. -/
structure Alive (redis : Redis) (p : Pair) : Prop where
  ttl : redis.ttl p.hashKey = true
  requestId : (redis.get p.hashKey .requestId).isSome = true
  eventId : (redis.get p.hashKey .eventId).isSome = true
  createdAt : (redis.get p.hashKey .createdAt).isSome = true
  outcome : Concluded redis p
    ∨ (redis.get p.hashKey .status = some IssuePendingStatus.pending.text
        ∧ (redis.zset.score p.member).isSome = true)

namespace Accept

def Owns (redis : Redis) (a : Accept) : Prop :=
  a.generation = some (redis.evictions a.pair.hashKey)

def hasClaimed (a : Accept) : Bool :=
  match a.pc with
  | .save .hsetnx => false
  | .save _ | .publish => true
  | .returned result => result.status == .accepted
  | .thrown | .crashed => false

def isAccepted (a : Accept) : Bool :=
  match a.pc with
  | .returned result => result.status == .accepted
  | _ => false

def isDuplicate (a : Accept) : Bool :=
  match a.pc with
  | .returned result => result.status == .duplicate
  | _ => false

def isRunning (a : Accept) : Bool :=
  match a.pc with
  | .save _ | .publish => true
  | _ => false

end Accept

namespace Call

def listsRemoved (s : State) : Call → Bool
  | accept a =>
    match a.pc with
    | .save .zadd =>
      s.shared.redis.get a.pair.hashKey .status == some IssuePendingStatus.pending.text
        && s.calls.any (removes a.pair)
    | _ => false
  | _ => false

def isFilling (p : Pair) : Call → Bool
  | accept a =>
    match a.pc with
    | .save .hset => a.pair == p
    | _ => false
  | _ => false

def isCut (x : Input) : Call → Bool
  | accept a =>
    match a.pc, x with
    | .save _, .ok => false
    | .save .hsetnx, .fail executed => executed
    | .save .hsetnx, .crash => false
    | .save .zadd, .fail executed => !executed
    | .save _, _ => true
    | _, _ => false
  | _ => false

end Call

/--
No `accept` lists a `PENDING` pair whose member is about to be removed, and no hash expires before
the call that has claimed it has filled it.
-/
def undisturbed (s : State) : Act → Bool
  | .step i x => !(x.executes && s.calls[i]?.any (Call.listsRemoved s))
  | .env (.expire userId couponTypeId) => !(s.calls.any (Call.isFilling (userId, couponTypeId)))
  | _ => true

def uncut (s : State) : Act → Bool
  | .step i x => !(s.calls[i]?.any (Call.isCut x))
  | _ => true

end ServerB
