import CouponIssuance.ServerB.Acceptance
import CouponIssuance.ServerB.Lemmas.Held

/-!
This module contains the time that an application has: the cycles of the scheduler, the deadline that
they are meant to keep, and which flows are in time for it.
-/

namespace ServerB

open Js

def Config.window (config : Config) : Nat :=
  config.cutoff * config.maxPublishAttempts

/--
No accepted application is still `PENDING` behind its deadline.
-/
def InTime (config : Config) (s : State) : Prop :=
  ∀ a, .accept a ∈ s.calls → a.isAccepted = true → a.Owns s.shared.redis
    → s.shared.redis.get a.pair.hashKey .status = some IssuePendingStatus.pending.text
    → s.shared.clock ≤ a.save.createdAt + config.window

def Sweep.startedAt (config : Config) (w : Sweep) : Int :=
  w.cutoffMs + config.cutoff

namespace Call

def startedAt? (config : Config) : Call → Option Int
  | sweep w => some (w.startedAt config)
  | _ => none

/-- Kafka may fail, Redis and server-c do not. -/
def completes (config : Config) (σ : Shared) (c : Call) (x : Input) : Bool :=
  match c.awaits config, x with
  | .redis command, .ok => (σ.redis.exec command).isSome
  | .lookup _ _, .answer _ => true
  | .publish _, .crash => false
  | .publish _, _ => true
  | .nothing, _ => true
  | _, _ => false

def fitsBatch (config : Config) (σ : Shared) : Call → Bool
  | sweep w =>
    match w.pc with
    | .zrangebyscore =>
      let stale := σ.redis.zset.entries.filter fun e => 0 ≤ e.2 && e.2 ≤ w.cutoffMs
      stale.length ≤ config.batchSize
    | _ => true
  | _ => true

end Call

def cycles (config : Config) (s : State) : List Int :=
  s.calls.filterMap (Call.startedAt? config)

/--
The first cycle starts at once, and then one starts every `delay` milliseconds: a cycle that is still
running holds the clock there, so none overruns the delay.
-/
def scheduled (config : Config) (delay : Nat) (s : State) : Act → Bool
  | .start (.sweep _) => (cycles config s).all fun t => t + delay ≤ s.shared.clock
  | .start _ => true
  | .step i x =>
    s.calls[i]?.all fun c => c.completes config s.shared x && c.fitsBatch config s.shared
  | .env (.tick ms) => (cycles config s).any fun t => s.shared.clock + ms ≤ t + delay
  | .env (.expire _ _) => true

namespace Call

/-- A `null` that has the entry republished leaves time for one more visit. -/
def leavesTime (config : Config) (delay now : Nat) (x : Input) : Call → Bool
  | sweep w =>
    match w.pc, x with
    | .lookup pending _, .answer none =>
      !JsNumber.lt pending.publishAttempts (.ofInt config.maxPublishAttempts)
        || pending.createdAt.any fun createdAt =>
          now + (config.cutoff + 2 * delay : Int) ≤ createdAt + config.window
    | _, _ => true
  | _ => true

def savesWithin (limit now : Nat) : Call → Bool
  | accept a =>
    match a.pc with
    | .save _ => now ≤ a.save.createdAt + limit
    | _ => true
  | _ => true

def holds (p : Pair) : Call → Bool
  | accept a =>
    match a.pc with
    | .save .hsetnx => false
    | .save _ => a.pair == p
    | _ => false
  | sweep w => w.pc.held.any fun e => e.pair == p
  | deliver _ => false

end Call

/--
Applications have ids that are written in digits and are listed within the cutoff, no hash expires
under a flow that holds it, and server-c knows a result in time.
-/
def prompt (config : Config) (delay : Nat) (s : State) : Act → Bool
  | .start (.accept a) => isDecimalPair a.pair
  | .start _ => true
  | .step i x => s.calls[i]?.all (Call.leavesTime config delay s.shared.clock x)
  | .env (.tick ms) => s.calls.all (Call.savesWithin config.cutoff (s.shared.clock + ms))
  | .env (.expire userId couponTypeId) => !s.calls.any (Call.holds (userId, couponTypeId))

end ServerB
