import CouponIssuance.Common.LocalDateTime
import CouponIssuance.Common.Payloads
import CouponIssuance.Redis.Lemmas
import CouponIssuance.ServerB.RedisKeys

/-!
This module contains the pending hash of server-b and the commands of `RedisPendingIssueStore`, one
sequence of commands for each of its operations.
-/

namespace ServerB

open Js

inductive Field where
  | requestId
  | userId
  | eventId
  | couponTypeId
  | status
  | createdAt
  | code
  | publishAttempts
  | lastPublishedAt
deriving DecidableEq

inductive IssuePendingStatus where
  | pending
  | success
  | soldOut
  | failed
deriving DecidableEq

def IssuePendingStatus.text : IssuePendingStatus → String
  | pending => "PENDING"
  | success => "SUCCESS"
  | soldOut => "SOLD_OUT"
  | failed => "FAILED"

abbrev Redis := Redis.Server String Field String

abbrev Command := Redis.Command String Field String

abbrev Reply := Redis.Reply Field String

/-- `createdAt` is `none` for an `Invalid Date`. -/
structure PendingIssue where
  requestId : String
  userId : JsNumber
  eventId : JsNumber
  couponTypeId : JsNumber
  status : String
  createdAt : Option Int
  publishAttempts : JsNumber
deriving DecidableEq

def PendingIssue.pair (p : PendingIssue) : Pair :=
  (p.userId, p.couponTypeId)

/--
The entry that `findPendingOlderThan` makes of a hash, `none` when it skips it.
-/
def readEntry (userId couponTypeId : JsNumber) (entries : Field → Option String)
    : Option PendingIssue := do
  let requestId ← entries .requestId
  let eventId ← entries .eventId
  let status ← entries .status
  let createdAt ← entries .createdAt
  let publishAttempts ←
    match entries .publishAttempts with
    | none => some (JsNumber.ofInt 1)
    | some attempts => parseLongStrict attempts.toList
  return {
    requestId
    userId
    eventId := JsNumber.ofString eventId
    couponTypeId
    status
    createdAt := Date.ofNumber (JsNumber.ofString createdAt)
    publishAttempts
  }

inductive SavePc where
  | hsetnx
  | hset
  | expire
  | zadd
deriving DecidableEq

structure Save where
  requestId : String
  userId : JsNumber
  eventId : JsNumber
  couponTypeId : JsNumber
  createdAt : Nat

namespace Save

def pair (s : Save) : Pair :=
  (s.userId, s.couponTypeId)

def hashKey (s : Save) : String :=
  RedisKeys.pendingHash s.userId s.couponTypeId

def createdAtText (s : Save) : String :=
  toString (JsNumber.ofInt s.createdAt)

def fields (s : Save) : List (Field × String) :=
  [
    (.requestId, s.requestId),
    (.userId, toString s.userId),
    (.eventId, toString s.eventId),
    (.couponTypeId, toString s.couponTypeId),
    (.status, IssuePendingStatus.pending.text),
    (.createdAt, s.createdAtText),
    (.publishAttempts, "1"),
    (.lastPublishedAt, s.createdAtText)
  ]

def command (s : Save) : SavePc → Command
  | .hsetnx => .hsetnx s.hashKey .userId (toString s.userId)
  | .hset => .hset s.hashKey s.fields
  | .expire => .expire s.hashKey
  | .zadd => .zadd (RedisKeys.pendingZsetMember s.userId s.couponTypeId) s.createdAt

end Save

inductive RepublishPc where
  | hincrby
  | hset
  | expire
  | zadd
deriving DecidableEq

structure Republish where
  userId : JsNumber
  couponTypeId : JsNumber
  publishedAt : Nat
  pc : RepublishPc

namespace Republish

def hashKey (r : Republish) : String :=
  RedisKeys.pendingHash r.userId r.couponTypeId

def command (r : Republish) : Command :=
  match r.pc with
  | .hincrby => .hincrby r.hashKey .publishAttempts 1
  | .hset => .hset r.hashKey [(.lastPublishedAt, toString (JsNumber.ofInt r.publishedAt))]
  | .expire => .expire r.hashKey
  | .zadd => .zadd (RedisKeys.pendingZsetMember r.userId r.couponTypeId) r.publishedAt

/-- `none`: it has returned. -/
def next (r : Republish) : Option Republish :=
  match r.pc with
  | .hincrby => some { r with pc := .hset }
  | .hset => some { r with pc := .expire }
  | .expire => some { r with pc := .zadd }
  | .zadd => none

end Republish

inductive MarkPc where
  | hsetStatus
  | hsetCode (code : String)
  | expire
  | zrem
deriving DecidableEq

structure Mark where
  userId : JsNumber
  couponTypeId : JsNumber
  status : IssuePendingStatus
  code : Option String
  pc : MarkPc
deriving DecidableEq

namespace Mark

def hashKey (m : Mark) : String :=
  RedisKeys.pendingHash m.userId m.couponTypeId

def command (m : Mark) : Command :=
  match m.pc with
  | .hsetStatus => .hset m.hashKey [(.status, m.status.text)]
  | .hsetCode code => .hset m.hashKey [(.code, code)]
  | .expire => .expire m.hashKey
  | .zrem => .zrem (RedisKeys.pendingZsetMember m.userId m.couponTypeId)

/-- `none`: it has returned. -/
def next (m : Mark) : Option Mark :=
  match m.pc with
  | .hsetStatus =>
    match m.code with
    | some code => some { m with pc := .hsetCode code }
    | none => some { m with pc := .expire }
  | .hsetCode _ => some { m with pc := .expire }
  | .expire => some { m with pc := .zrem }
  | .zrem => none

end Mark

def recordRepublish (userId couponTypeId : JsNumber) (publishedAt : Nat) : Republish where
  userId := userId
  couponTypeId := couponTypeId
  publishedAt := publishedAt
  pc := .hincrby

def markResult (userId couponTypeId : JsNumber) (status : IssuePendingStatus)
    (code : Option String) : Mark where
  userId := userId
  couponTypeId := couponTypeId
  status := status
  code := code
  pc := .hsetStatus

end ServerB
