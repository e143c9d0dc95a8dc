import CouponIssuance.Concurrency.Machine
import CouponIssuance.Kafka.Parse

/-!
This module contains the batch loop that both consumers run (`eachBatch` and `deliver`) against the
log of one partition. What the Kafka client does around it is in the actions: it fetches from behind
the last resolved record, and after a restart from the committed offset.
-/

namespace Kafka

structure Record (α : Type u) where
  offset : Nat
  value : α
deriving DecidableEq

/-- `parse` gives `none` for a record that is skipped. -/
structure Consumer (α : Type u) (π : Type v) where
  parse : α → Option π
  maxRecordsPerBatch : Nat
  maxDeliveryAttempts : Nat

/--
One call of `deliver`: how often it has called the handler, how the calls that are over ended, and
whether it has returned.
-/
structure Delivery (α : Type u) where
  record : Record α
  calls : Nat
  outcomes : List Bool
  returned : Bool
deriving DecidableEq

inductive Pc (α : Type u) where
  /-- No batch is being worked on. -/
  | idle
  /-- the head of the loop -/
  | loop (messages : List (Record α)) (processed : Nat)
  | handler (delivery : Delivery α) (attempt : Nat) (messages : List (Record α)) (processed : Nat)
  /-- the pause before the next attempt -/
  | pause (delivery : Delivery α) (attempt : Nat) (messages : List (Record α)) (processed : Nat)
  | commitOffsetsIfNecessary (messages : List (Record α)) (processed : Nat)
  | heartbeat (messages : List (Record α)) (processed : Nat)
deriving DecidableEq

/--
`position` is where the next batch of the session starts, and `deliveries` is a history variable:
the calls of `deliver` that are over.
-/
structure State (α : Type u) where
  committed : Nat
  position : Nat
  deliveries : List (Delivery α)
  pc : Pc α
deriving DecidableEq

inductive Act where
  /-- The client hands over that many records at most. -/
  | fetch (limit : Nat)
  | check (isRunning isStale : Bool)
  | handled (ok : Bool)
  | elapsed
  /-- The commit may be unnecessary, and it may throw though it was executed. -/
  | commit (executed threw : Bool)
  | beat (threw : Bool)
  /-- The client commits by itself what has been resolved. -/
  | autoCommit
  /-- A crash, a restart or a rebalance -/
  | restart
deriving DecidableEq

def pending (log : List (Record α)) (position : Nat) : List (Record α) :=
  log.filter fun r => position ≤ r.offset

def Pc.current : Pc α → List (Delivery α)
  | handler delivery _ _ _ | pause delivery _ _ _ => [delivery]
  | _ => []

namespace State

def history (s : State α) : List (Delivery α) :=
  s.deliveries ++ s.pc.current

def resolve (s : State α) (delivery : Delivery α) (messages : List (Record α)) (processed : Nat)
    : State α :=
  { s with
    position := delivery.record.offset + 1
    deliveries := s.deliveries ++ [{ delivery with returned := true }]
    pc := .commitOffsetsIfNecessary messages processed
  }

end State

namespace Consumer

def attempt (C : Consumer α π) (s : State α) (delivery : Delivery α) (n : Nat)
    (messages : List (Record α)) (processed : Nat) : State α :=
  if n ≤ C.maxDeliveryAttempts then
    { s with pc := .handler { delivery with calls := delivery.calls + 1 } n messages processed }
  else
    s.resolve delivery messages processed

def deliver (C : Consumer α π) (s : State α) (message : Record α) (messages : List (Record α))
    (processed : Nat) : State α :=
  match C.parse message.value with
  | none => s.resolve ⟨message, 0, [], false⟩ messages processed
  | some _ => C.attempt s ⟨message, 0, [], false⟩ 1 messages processed

def step (C : Consumer α π) (log : List (Record α)) (s : State α) : Act → Option (State α)
  | .fetch limit =>
    match s.pc with
    | .idle => some { s with pc := .loop ((pending log s.position).take limit) 0 }
    | _ => none
  | .check isRunning isStale =>
    match s.pc with
    | .loop [] _ => some { s with pc := .idle }
    | .loop (message :: messages) processed =>
      if !isRunning || isStale then
        some { s with pc := .idle }
      else if processed ≥ C.maxRecordsPerBatch then
        some { s with pc := .idle }
      else
        some (C.deliver s message messages processed)
    | _ => none
  | .handled ok =>
    match s.pc with
    | .handler delivery n messages processed =>
      let delivery := { delivery with outcomes := delivery.outcomes ++ [ok] }
      if ok then
        some (s.resolve delivery messages processed)
      else if n = C.maxDeliveryAttempts then
        some (s.resolve delivery messages processed)
      else
        some { s with pc := .pause delivery n messages processed }
    | _ => none
  | .elapsed =>
    match s.pc with
    | .pause delivery n messages processed => some (C.attempt s delivery (n + 1) messages processed)
    | _ => none
  | .commit executed threw =>
    match s.pc with
    | .commitOffsetsIfNecessary messages processed =>
      some { s with
        committed := if executed then s.position else s.committed
        pc := if threw then .idle else .heartbeat messages processed
      }
    | _ => none
  | .beat threw =>
    match s.pc with
    | .heartbeat messages processed =>
      some { s with pc := if threw then .idle else .loop messages (processed + 1) }
    | _ => none
  | .autoCommit => some { s with committed := s.position }
  | .restart =>
    some { s with position := s.committed, deliveries := s.history, pc := .idle }

def machine (C : Consumer α π) (log : List (Record α)) : Concurrency.Machine (State α) Act where
  step := C.step log

end Consumer

def init : State α where
  committed := 0
  position := 0
  deliveries := []
  pc := .idle

abbrev Buffer := List UInt8

end Kafka

open Kafka (Buffer)

/--
`toText` is `Buffer.toString`, which gives a text for any bytes.
-/
def CouponIssueRequestConsumer.consumer (toText : Buffer → String)
    (maxRecordsPerBatch maxDeliveryAttempts : Nat) : Kafka.Consumer (Option Buffer) Js.Json where
  parse value := CouponIssueRequestConsumer.parse (value.map toText)
  maxRecordsPerBatch := maxRecordsPerBatch
  maxDeliveryAttempts := maxDeliveryAttempts

def CouponIssueResultConsumer.consumer (toText : Buffer → String)
    (maxRecordsPerBatch maxDeliveryAttempts : Nat) : Kafka.Consumer (Option Buffer) Js.Json where
  parse value := CouponIssueResultConsumer.parse (value.map toText)
  maxRecordsPerBatch := maxRecordsPerBatch
  maxDeliveryAttempts := maxDeliveryAttempts
