import CouponIssuance.Js.Number
import Mathlib.Data.List.Sort
import Mathlib.Logic.Function.Basic

/-!
This module contains the part of Redis that keeps hashes and one sorted set: the commands, each of
them atomic, and what a client can observe of the server through them.
-/

namespace Redis

/-- A hash holds at least one field, it is gone as soon as it holds none. -/
structure Hash (F : Type u) where
  fields : F → Option String
  inhabited : ∃ f, (fields f).isSome = true
  ttl : Bool

structure ZSet (M : Type v) where
  entries : List (M × Int)
  nodup : (entries.map (·.1)).Nodup

namespace ZSet

variable {M : Type v} [DecidableEq M]

def empty : ZSet M where
  entries := []
  nodup := List.nodup_nil

def remove (z : ZSet M) (member : M) : ZSet M where
  entries := z.entries.filter fun e => e.1 ≠ member
  nodup := z.nodup.sublist (List.filter_sublist.map _)

def add (z : ZSet M) (member : M) (score : Int) : ZSet M where
  entries := (member, score) :: (z.remove member).entries
  nodup := by
    rw [List.map_cons, List.nodup_cons]
    refine ⟨?_, (z.remove member).nodup⟩
    simp [remove]

def score (z : ZSet M) (member : M) : Option Int :=
  (z.entries.find? fun e => e.1 = member).map (·.2)

/-- By score, and by member on a tie -/
def Before [LE M] (a b : M × Int) : Prop :=
  a.2 < b.2 ∨ (a.2 = b.2 ∧ a.1 ≤ b.1)

instance [LE M] [DecidableRel (α := M) (· ≤ ·)] : DecidableRel (Before (M := M)) :=
  fun a b => inferInstanceAs (Decidable (a.2 < b.2 ∨ (a.2 = b.2 ∧ a.1 ≤ b.1)))

/-- `ZRANGEBYSCORE key 0 max LIMIT 0 limit` -/
def range [LE M] [DecidableRel (α := M) (· ≤ ·)] (z : ZSet M) (max : Int) (limit : Nat) : List M :=
  let inRange := z.entries.filter fun e => 0 ≤ e.2 && e.2 ≤ max
  ((inRange.insertionSort Before).take limit).map (·.1)

end ZSet

/-- `evictions` is a history variable: how often the hash under this key has expired. -/
structure Server (K : Type u) (F : Type v) (M : Type w) where
  hashes : K → Option (Hash F)
  zset : ZSet M
  evictions : K → Nat

inductive Command (K : Type u) (F : Type v) (M : Type w) where
  | hsetnx (key : K) (field : F) (value : String)
  | hset (key : K) (fields : List (F × String))
  | hincrby (key : K) (field : F) (increment : Int)
  | expire (key : K)
  | hgetall (key : K)
  | zadd (member : M) (score : Int)
  | zrem (member : M)
  | zrangebyscore (max : Int) (limit : Nat)

inductive Reply (F : Type v) (M : Type w) where
  | integer (n : Int)
  /-- `none` is the answer for a hash that does not exist. -/
  | entries (fields : Option (F → Option String))
  | members (l : List M)

/--
The 64-bit integers that `HINCRBY` accepts, in their only spelling.
-/
def readInteger (s : String) : Option Int :=
  let n := Js.applySign (Js.splitSign s.toList).1
    (Nat.ofDigitChars 10 (Js.splitSign s.toList).2 0)
  if toString n = s ∧ -2 ^ 63 ≤ n ∧ n < 2 ^ 63 then some n else none

namespace Server

variable {K : Type u} {F : Type v} {M : Type w}

def empty : Server K F M where
  hashes _ := none
  zset := { entries := [], nodup := List.nodup_nil }
  evictions _ := 0

def get (r : Server K F M) (key : K) (field : F) : Option String :=
  (r.hashes key).bind fun h => h.fields field

def ttl (r : Server K F M) (key : K) : Bool :=
  (r.hashes key).any (·.ttl)

variable [DecidableEq K] [DecidableEq F] [DecidableEq M]

def set (r : Server K F M) (key : K) (field : F) (value : String) : Server K F M :=
  let hash : Hash F := {
    fields := Function.update (fun f => r.get key f) field (some value)
    inhabited := ⟨field, by simp⟩
    ttl := r.ttl key
  }
  { r with hashes := Function.update r.hashes key (some hash) }

def setAll (r : Server K F M) (key : K) (fields : List (F × String)) : Server K F M :=
  fields.foldl (fun r f => r.set key f.1 f.2) r

def setTtl (r : Server K F M) (key : K) : Server K F M :=
  { r with
    hashes := Function.update r.hashes key ((r.hashes key).map fun h => { h with ttl := true })
  }

/-- A hash with a time to live expires. -/
def evict (r : Server K F M) (key : K) : Option (Server K F M) :=
  if r.ttl key then
    some { r with
      hashes := Function.update r.hashes key none
      evictions := Function.update r.evictions key (r.evictions key + 1)
    }
  else
    none

/--
Run a command. `none` is an error reply, which changes nothing.
-/
def exec [LE M] [DecidableRel (α := M) (· ≤ ·)] (r : Server K F M)
    : Command K F M → Option (Server K F M × Reply F M)
  | .hsetnx key field value =>
    if (r.get key field).isSome then
      some (r, .integer 0)
    else
      some (r.set key field value, .integer 1)
  | .hset key fields =>
    let added := fields.filter fun f => (r.get key f.1).isNone
    some (r.setAll key fields, .integer added.length)
  | .hincrby key field increment =>
    match readInteger ((r.get key field).getD "0") with
    | none => none
    | some n =>
      if -2 ^ 63 ≤ n + increment ∧ n + increment < 2 ^ 63 then
        some (r.set key field (toString (n + increment)), .integer (n + increment))
      else
        none
  | .expire key => some (r.setTtl key, .integer (if (r.hashes key).isSome then 1 else 0))
  | .hgetall key => some (r, .entries ((r.hashes key).map (·.fields)))
  | .zadd member score =>
    some ({ r with zset := r.zset.add member score },
      .integer (if (r.zset.score member).isSome then 0 else 1))
  | .zrem member =>
    some ({ r with zset := r.zset.remove member },
      .integer (if (r.zset.score member).isSome then 1 else 0))
  | .zrangebyscore max limit => some (r, .members (r.zset.range max limit))

def execute [LE M] [DecidableRel (α := M) (· ≤ ·)] (r : Server K F M) (c : Command K F M)
    : Server K F M :=
  match r.exec c with
  | some (r', _) => r'
  | none => r

end Server

end Redis
