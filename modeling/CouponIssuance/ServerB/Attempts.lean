import CouponIssuance.ServerB.Lemmas.Sweep

/-!
This module contains the cap on republishing: what a stored entry is, which visits the scheduler
pays to it, and how often it may publish it before it gives up.
-/

namespace ServerB

open Js

def readAttempts : Option String → Option JsNumber
  | none => some (JsNumber.ofInt 1)
  | some attempts => parseLongStrict attempts.toList

structure Readable (redis : Redis) (p : Pair) (attempts : JsNumber) : Prop where
  requestId : (redis.get p.hashKey .requestId).isSome = true
  eventId : (redis.get p.hashKey .eventId).isSome = true
  status : (redis.get p.hashKey .status).isSome = true
  createdAt : (redis.get p.hashKey .createdAt).isSome = true
  attempts : readAttempts (redis.get p.hashKey .publishAttempts) = some attempts

def Sole (redis : Redis) (p : Pair) : Prop :=
  ∀ member, (redis.zset.score member).isSome = true → parseMember member = some p
    → member = p.member

def Call.isSweep : Call → Bool
  | sweep _ => true
  | _ => false

def Call.concerns (p : Pair) : Call → Bool
  | accept a => a.pair == p
  | sweep s => s.pc.isRunning
  | deliver d =>
    match d.pc with
    | .markResult payload _ mark =>
      (payload.userId, payload.couponTypeId) == p || mark.pair == p
    | _ => false

/--
An entry that `findPendingOlderThan` accepts, and that no flow is working on.
-/
structure Stored (s : State) (p : Pair) (attempts : JsNumber) : Prop where
  readable : Readable s.shared.redis p attempts
  listed : (s.shared.redis.zset.score p.member).isSome = true
  decimal : isDecimalPair p = true
  sole : Sole s.shared.redis p
  calm : ∀ c ∈ s.calls, c.concerns p = false

def SweepPc.works (p : Pair) : SweepPc → Bool
  | lookup pending _ => pending.pair == p
  | markResult mark _ _ => mark.pair == p
  | recordRepublish _ republish _ => republish.pair == p
  | publishForScheduler payload _ => (payload.userId, payload.couponTypeId) == p
  | _ => false

def Call.works (p : Pair) : Call → Bool
  | sweep s => s.pc.works p
  | _ => false

/--
Lookups of the pair answer `null`, and its store calls succeed. Publishing it may fail.
-/
def SweepPc.allows (p : Pair) (redis : Redis) (x : Input) : SweepPc → Bool
  | lookup pending _ =>
    pending.pair != p ||
      match x with
      | .answer none => true
      | _ => false
  | markResult mark _ _ =>
    mark.pair != p ||
      match x with
      | .ok => true
      | _ => false
  | recordRepublish _ republish _ =>
    republish.pair != p ||
      match x with
      | .ok => (redis.exec republish.command).isSome
      | _ => false
  | _ => true

def Call.allows (p : Pair) (redis : Redis) (x : Input) : Call → Bool
  | sweep s => s.pc.allows p redis x
  | _ => true

/--
Only sweeps work on the pair, and they get `null` from server-c.
-/
def answersNull (p : Pair) (s : State) : Act → Bool
  | .start (.sweep _) => true
  | .start c => !c.concerns p
  | .step i x => s.calls[i]?.all (Call.allows p s.shared.redis x)
  | .env _ => true

def visitsOf (p : Pair) (events : List Event) : List JsNumber :=
  events.filterMap fun
    | .visited pending => if pending.pair = p then some pending.publishAttempts else none
    | .publishedForScheduler _ => none

def publishesOf (p : Pair) (events : List Event) : Nat :=
  events.countP fun
    | .visited _ => false
    | .publishedForScheduler payload => (payload.userId, payload.couponTypeId) == p

def rounds (m : Nat) (attempts : JsNumber) : Nat :=
  match attempts with
  | .int n _ => if JsNumber.lt attempts (.ofInt m) then (m - n).toNat else 0
  | _ => 0

def MarkedFailed (redis : Redis) (p : Pair) : Prop :=
  redis.hashes p.hashKey = none
    ∨ redis.get p.hashKey .status = some IssuePendingStatus.failed.text

structure GivenUp (redis : Redis) (p : Pair) : Prop where
  marked : MarkedFailed redis p
  unlisted : redis.zset.score p.member = none

/--
The visits to the pair converge: their counters increase, and after the last one the pair has been
given up.
-/
structure Converges (m : Nat) (attempts : JsNumber) (p : Pair) (events : List Event) (t : State)
    : Prop where
  increasing : (visitsOf p events).Pairwise fun a b => JsNumber.lt a b = true
  publishes : publishesOf p events ≤ rounds m attempts
  visits : (visitsOf p events).length ≤ rounds m attempts + 1
  concluded : (visitsOf p events).length = rounds m attempts + 1
    → (∀ c ∈ t.calls, c.works p = false) → GivenUp t.shared.redis p

def CountedExactly (redis : Redis) (p : Pair) (attempts : JsNumber) : Prop :=
  ∃ n : Int, n.natAbs ≤ 2 ^ 53 ∧ attempts = .ofInt n
    ∧ redis.get p.hashKey .publishAttempts = some (toString n)

def CountsExactly (m : Nat) (attempts : JsNumber) (redis : Redis) (p : Pair) : Prop :=
  JsNumber.lt attempts (.ofInt m) = false ∨ m ≤ 2 ^ 53 ∧ CountedExactly redis p attempts

end ServerB
