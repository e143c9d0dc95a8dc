import CouponIssuance.Redis.Lemmas

/-!
This module contains what a command reads and writes: the commands that concern one hash and one
member only, what they do to these, and what they leave alone.
-/

namespace Redis

variable {K : Type u} {F : Type v} {M : Type w}

def Command.Concerns (key : K) (member : M) : Command K F M → Prop
  | hsetnx key' _ _ | hset key' _ | hincrby key' _ _ | expire key' | hgetall key' => key' = key
  | zadd member' _ | zrem member' => member' = member
  | zrangebyscore _ _ => False

namespace Server

section Hashes

variable [DecidableEq K] [DecidableEq F] {r r' : Server K F M}

theorem hashes_set_congr {key : K} (h : r.hashes key = r'.hashes key) (field : F) (value : String)
    : (r.set key field value).hashes key = (r'.set key field value).hashes key := by
  simp only [set, get, ttl, h, Function.update_self]

theorem hashes_setAll_congr {key : K} (fields : List (F × String))
    (h : r.hashes key = r'.hashes key)
    : (r.setAll key fields).hashes key = (r'.setAll key fields).hashes key := by
  unfold setAll
  induction fields generalizing r r' with
  | nil => exact h
  | cons f fields ih => exact ih (hashes_set_congr h f.1 f.2)

theorem hashes_set_of_ne {key key' : K} (h : key' ≠ key) (field : F) (value : String)
    : (r.set key field value).hashes key' = r.hashes key' :=
  Function.update_of_ne h ..

theorem hashes_setAll_of_ne {key key' : K} (h : key' ≠ key) (fields : List (F × String))
    : (r.setAll key fields).hashes key' = r.hashes key' := by
  unfold setAll
  induction fields generalizing r with
  | nil => rfl
  | cons f fields ih => exact ih.trans (hashes_set_of_ne h f.1 f.2)

end Hashes

section Exec

variable [DecidableEq K] [DecidableEq F] [DecidableEq M]
variable [LE M] [DecidableRel (α := M) (· ≤ ·)]
variable {r r' : Server K F M} {c : Command K F M} {reply : Reply F M}

theorem exec_congr {key : K} {member : M} (hc : c.Concerns key member)
    (hhash : r.hashes key = r'.hashes key)
    (hscore : r.zset.score member = r'.zset.score member)
    : (r.exec c).map (fun x => (x.1.hashes key, x.1.zset.score member, x.2))
        = (r'.exec c).map fun x => (x.1.hashes key, x.1.zset.score member, x.2) := by
  have hget : ∀ field, r.get key field = r'.get key field := by
    intro field
    unfold get
    rw [hhash]
  cases c with
  | hsetnx key' field value =>
    cases hc
    simp only [exec, hget]
    split
    . simp [hhash, hscore]
    . simp [hashes_set_congr hhash, hscore]
  | hset key' fields =>
    cases hc
    simp [exec, hget, hashes_setAll_congr fields hhash, hscore]
  | hincrby key' field increment =>
    cases hc
    simp only [exec, hget]
    split
    . rfl
    . split
      . simp [hashes_set_congr hhash, hscore]
      . rfl
  | expire key' =>
    cases hc
    simp [exec, setTtl, hhash, hscore]
  | hgetall key' =>
    cases hc
    simp [exec, hhash, hscore]
  | zadd member' score =>
    cases hc
    simp [exec, hhash, hscore]
  | zrem member' =>
    cases hc
    simp [exec, hhash, hscore]
  | zrangebyscore max limit => contradiction

/--
What a command does to the other hashes and members.
-/
theorem exec_of_concerns {key key' : K} {member member' : M} (hc : c.Concerns key member)
    (hexec : r.exec c = some (r', reply)) (hkey : key' ≠ key) (hmember : member' ≠ member)
    : r'.hashes key' = r.hashes key' ∧ r'.zset.score member' = r.zset.score member' := by
  constructor
  . cases c with
    | hsetnx key'' field value =>
      cases hc
      rcases exec_hsetnx hexec with ⟨_, rfl, _⟩ | ⟨_, rfl, _⟩
      . rfl
      . exact hashes_set_of_ne hkey field value
    | hset key'' fields =>
      cases hc
      cases hexec
      exact hashes_setAll_of_ne hkey fields
    | hincrby key'' field increment =>
      cases hc
      obtain ⟨n, _, _, _, rfl⟩ := exec_hincrby hexec
      exact hashes_set_of_ne hkey field _
    | expire key'' =>
      cases hc
      cases hexec
      exact Function.update_of_ne hkey ..
    | hgetall key'' => cases hexec; rfl
    | zadd member'' score => cases hexec; rfl
    | zrem member'' => cases hexec; rfl
    | zrangebyscore max limit => contradiction
  . apply exec_score_of_ne _ hexec
    cases c with
    | zadd member'' score =>
      cases hc
      exact fun heq => hmember (Option.some.inj heq).symm
    | zrem member'' =>
      cases hc
      exact fun heq => hmember (Option.some.inj heq).symm
    | _ => exact Option.some_ne_none _ ∘ Eq.symm

end Exec

end Server

end Redis
