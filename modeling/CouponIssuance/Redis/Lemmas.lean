import CouponIssuance.Redis.Basic

/-!
This module contains what the commands do to what a client can observe: the fields and the time to
live of the hashes, and the scores of the sorted set.
-/

namespace Redis

namespace ZSet

variable {M : Type v} (z : ZSet M)

section Range

variable [LE M] [DecidableRel (α := M) (· ≤ ·)]

theorem nodup_range (max : Int) (limit : Nat) : (z.range max limit).Nodup := by
  apply List.Nodup.sublist (List.Sublist.map _ (List.take_sublist _ _))
  have hperm := List.perm_insertionSort Before (z.entries.filter fun e => 0 ≤ e.2 && e.2 ≤ max)
  rw [(hperm.map (·.1)).nodup_iff]
  exact z.nodup.sublist (List.filter_sublist.map _)

end Range

variable [DecidableEq M]

theorem score_eq_some {member : M} {s : Int}
    : z.score member = some s ↔ (member, s) ∈ z.entries := by
  constructor
  . intro h
    obtain ⟨e, he, hs⟩ := Option.map_eq_some_iff.mp h
    have hmem := List.mem_of_find?_eq_some he
    have hkey := List.find?_some he
    simp only [decide_eq_true_eq] at hkey
    rwa [← hkey, ← hs]
  . intro h
    unfold score
    cases he : z.entries.find? fun e => e.1 = member with
    | none =>
      have := List.find?_eq_none.mp he _ h
      simp at this
    | some e =>
      have hmem := List.mem_of_find?_eq_some he
      have hkey := List.find?_some he
      simp only [decide_eq_true_eq] at hkey
      rw [List.inj_on_of_nodup_map z.nodup hmem h hkey]
      rfl

theorem isSome_score {member : M}
    : (z.score member).isSome = true ↔ ∃ s, (member, s) ∈ z.entries := by
  simp only [Option.isSome_iff_exists, score_eq_some]

@[simp]
theorem score_remove (member member' : M)
    : (z.remove member).score member' = if member' = member then none else z.score member' := by
  apply Option.ext
  intro s
  simp only [score_eq_some, remove, List.mem_filter, decide_not, Bool.not_eq_true', decide_eq_false_iff_not]
  split
  . next h => simp [h]
  . next h => simp [h, score_eq_some]

theorem remove_remove (member : M) : (z.remove member).remove member = z.remove member := by
  simp only [remove, List.filter_filter, Bool.and_self]

@[simp]
theorem score_add (member member' : M) (s : Int)
    : (z.add member s).score member' = if member' = member then some s else z.score member' := by
  apply Option.ext
  intro t
  rw [score_eq_some]
  simp only [add, List.mem_cons, Prod.mk.injEq]
  rw [← score_eq_some, score_remove]
  split
  . next h => simp [h, eq_comm]
  . next h => simp [h]

section Range

variable [LE M] [DecidableRel (α := M) (· ≤ ·)]

theorem mem_range {max : Int} {limit : Nat} {member : M} (h : member ∈ z.range max limit)
    : ∃ s, z.score member = some s ∧ 0 ≤ s ∧ s ≤ max := by
  obtain ⟨e, he, rfl⟩ := List.mem_map.mp h
  have hmem := (List.mem_insertionSort _).mp (List.mem_of_mem_take he)
  simp only [List.mem_filter, Bool.and_eq_true, decide_eq_true_eq] at hmem
  exact ⟨e.2, z.score_eq_some.mpr hmem.1, hmem.2.1, hmem.2.2⟩

theorem range_ne_nil {max s : Int} {limit : Nat} {member : M} (hlimit : 0 < limit)
    (hscore : z.score member = some s) (hnonneg : 0 ≤ s) (hmax : s ≤ max)
    : z.range max limit ≠ [] := by
  have hmem : (member, s) ∈ z.entries.filter fun e => 0 ≤ e.2 && e.2 ≤ max := by
    simp [z.score_eq_some.mp hscore, hnonneg, hmax]
  intro hnil
  simp only [range, List.map_eq_nil_iff, List.take_eq_nil_iff] at hnil
  rcases hnil with hzero | hnil
  . omega
  . rw [← List.mem_insertionSort Before, hnil] at hmem
    contradiction

theorem mem_range_of_le {max s : Int} {limit : Nat} {member : M}
    (hlimit : (z.entries.filter fun e => 0 ≤ e.2 && e.2 ≤ max).length ≤ limit)
    (hscore : z.score member = some s) (hnonneg : 0 ≤ s) (hmax : s ≤ max)
    : member ∈ z.range max limit := by
  simp only [range]
  rw [List.take_of_length_le (by rw [List.length_insertionSort]; exact hlimit)]
  refine List.mem_map.mpr ⟨(member, s), ?_, rfl⟩
  rw [List.mem_insertionSort]
  simp [z.score_eq_some.mp hscore, hnonneg, hmax]

end Range

end ZSet

namespace Server

variable {K : Type u} {F : Type v} {M : Type w} (r : Server K F M)

theorem isSome_hashes {key : K}
    : (r.hashes key).isSome = true ↔ ∃ f, (r.get key f).isSome = true := by
  constructor
  . intro h
    obtain ⟨hash, hhash⟩ := Option.isSome_iff_exists.mp h
    obtain ⟨f, hf⟩ := hash.inhabited
    exact ⟨f, by simpa [get, hhash] using hf⟩
  . rintro ⟨f, hf⟩
    cases hhash : r.hashes key with
    | none => simp [get, hhash] at hf
    | some _ => rfl

@[simp]
theorem get_zset (z : ZSet M) (key : K) (field : F)
    : ({ r with zset := z } : Server K F M).get key field = r.get key field := rfl

variable [DecidableEq K]

@[simp]
theorem get_setTtl (key key' : K) (field : F)
    : (r.setTtl key).get key' field = r.get key' field := by
  by_cases hkey : key' = key
  . subst hkey
    simp only [setTtl, get, Function.update_self]
    cases r.hashes key' <;> rfl
  . simp [setTtl, get, hkey]

@[simp]
theorem ttl_setTtl (key key' : K)
    : (r.setTtl key).ttl key'
        = if key' = key then (r.hashes key').isSome else r.ttl key' := by
  by_cases hkey : key' = key
  . subst hkey
    simp only [setTtl, ttl, Function.update_self, ↓reduceIte]
    cases r.hashes key' <;> rfl
  . simp [setTtl, ttl, hkey]

@[simp]
theorem zset_setTtl (key : K) : (r.setTtl key).zset = r.zset := rfl

theorem evict_spec {r' : Server K F M} {key : K} (h : r.evict key = some r')
    : r.ttl key = true
        ∧ (∀ key' field, r'.get key' field = if key' = key then none else r.get key' field)
        ∧ (∀ key', r'.ttl key' = if key' = key then false else r.ttl key')
        ∧ r'.zset = r.zset
        ∧ (∀ key', r'.evictions key'
            = if key' = key then r.evictions key' + 1 else r.evictions key') := by
  unfold evict at h
  split at h
  . next httl =>
    rw [Option.some.injEq] at h
    subst h
    refine ⟨httl, ?_, ?_, rfl, ?_⟩
    . intro key' field
      split
      . next hkey => simp [get, hkey]
      . next hkey => simp [get, hkey]
    . intro key'
      split
      . next hkey => simp [ttl, hkey]
      . next hkey => simp [ttl, hkey]
    . intro key'
      split
      . next hkey => simp [hkey]
      . next hkey => simp [hkey]
  . contradiction

variable [DecidableEq F]

@[simp]
theorem get_set (key key' : K) (field field' : F) (value : String)
    : (r.set key field value).get key' field'
        = if key' = key ∧ field' = field then some value else r.get key' field' := by
  by_cases hkey : key' = key
  . subst hkey
    by_cases hfield : field' = field
    . subst hfield
      simp [set, get]
    . simp [set, get, hfield]
  . simp [set, get, hkey]

@[simp]
theorem ttl_set (key key' : K) (field : F) (value : String)
    : (r.set key field value).ttl key' = r.ttl key' := by
  by_cases hkey : key' = key
  . subst hkey
    simp [set, ttl]
  . simp [set, ttl, hkey]

@[simp]
theorem zset_set (key : K) (field : F) (value : String) : (r.set key field value).zset = r.zset := rfl

@[simp]
theorem evictions_set (key : K) (field : F) (value : String)
    : (r.set key field value).evictions = r.evictions := rfl

@[simp]
theorem zset_setAll (key : K) (fields : List (F × String)) : (r.setAll key fields).zset = r.zset := by
  unfold setAll
  induction fields generalizing r with
  | nil => rfl
  | cons f fields ih => rw [List.foldl_cons, ih, zset_set]

@[simp]
theorem evictions_setAll (key : K) (fields : List (F × String))
    : (r.setAll key fields).evictions = r.evictions := by
  unfold setAll
  induction fields generalizing r with
  | nil => rfl
  | cons f fields ih => rw [List.foldl_cons, ih, evictions_set]

@[simp]
theorem ttl_setAll (key key' : K) (fields : List (F × String))
    : (r.setAll key fields).ttl key' = r.ttl key' := by
  unfold setAll
  induction fields generalizing r with
  | nil => rfl
  | cons f fields ih => rw [List.foldl_cons, ih, ttl_set]

theorem get_setAll_of_notMem {key key' : K} {field : F} {fields : List (F × String)}
    (h : key' ≠ key ∨ field ∉ fields.map (·.1))
    : (r.setAll key fields).get key' field = r.get key' field := by
  unfold setAll
  induction fields generalizing r with
  | nil => rfl
  | cons f fields ih =>
    simp only [List.map_cons, List.mem_cons, not_or] at h
    rw [List.foldl_cons, ih _ (h.imp_right And.right), get_set, if_neg]
    rintro ⟨hkey, hfield⟩
    cases h with
    | inl hne => exact hne hkey
    | inr hne => exact hne.1 hfield

theorem get_setAll_of_mem {key : K} {field : F} {value : String} {fields : List (F × String)}
    (hnodup : (fields.map (·.1)).Nodup) (hmem : (field, value) ∈ fields)
    : (r.setAll key fields).get key field = some value := by
  induction fields generalizing r with
  | nil => contradiction
  | cons f fields ih =>
    rw [List.map_cons, List.nodup_cons] at hnodup
    cases hmem with
    | head =>
      change ((r.set key field value).setAll key fields).get key field = some value
      rw [get_setAll_of_notMem _ (Or.inr hnodup.1), get_set, if_pos ⟨rfl, rfl⟩]
    | tail _ hmem => exact ih (r.set key f.1 f.2) hnodup.2 hmem

theorem isSome_get_setAll {key key' : K} {field : F} (fields : List (F × String))
    (h : (r.get key' field).isSome = true)
    : ((r.setAll key fields).get key' field).isSome = true := by
  unfold setAll
  induction fields generalizing r with
  | nil => exact h
  | cons f fields ih =>
    rw [List.foldl_cons]
    apply ih
    rw [get_set]
    split
    . rfl
    . exact h

end Server

namespace Command

variable {K : Type u} {F : Type v} {M : Type w}

def key? : Command K F M → Option K
  | hsetnx key _ _ | hset key _ | hincrby key _ _ | expire key => some key
  | _ => none

def member? : Command K F M → Option M
  | zadd member _ | zrem member => some member
  | _ => none

end Command

namespace Server

section Exec

variable {K : Type u} {F : Type v} {M : Type w} [DecidableEq K] [DecidableEq F] [DecidableEq M]
variable [LE M] [DecidableRel (α := M) (· ≤ ·)]
variable {r r' : Server K F M} {c : Command K F M} {reply : Reply F M}

theorem exec_hsetnx {key : K} {field : F} {value : String}
    (h : r.exec (.hsetnx key field value) = some (r', reply))
    : ((r.get key field).isSome = true ∧ r' = r ∧ reply = .integer 0)
        ∨ (r.get key field = none ∧ r' = r.set key field value ∧ reply = .integer 1) := by
  simp only [exec] at h
  split at h
  . next hget =>
    simp only [Option.some.injEq, Prod.mk.injEq] at h
    exact Or.inl ⟨hget, h.1.symm, h.2.symm⟩
  . next hget =>
    simp only [Option.some.injEq, Prod.mk.injEq] at h
    exact Or.inr ⟨by simpa using hget, h.1.symm, h.2.symm⟩

theorem exec_hincrby {key : K} {field : F} {increment : Int}
    (h : r.exec (.hincrby key field increment) = some (r', reply))
    : ∃ n, readInteger ((r.get key field).getD "0") = some n
        ∧ -2 ^ 63 ≤ n + increment
        ∧ n + increment < 2 ^ 63
        ∧ r' = r.set key field (toString (n + increment)) := by
  simp only [exec] at h
  split at h
  . contradiction
  . next n hn =>
    split at h
    . next hrange =>
      simp only [Option.some.injEq, Prod.mk.injEq] at h
      exact ⟨n, hn, hrange.1, hrange.2, h.1.symm⟩
    . contradiction

theorem exec_hset {key : K} {fields : List (F × String)}
    (h : r.exec (.hset key fields) = some (r', reply))
    : r' = r.setAll key fields := by
  cases h
  rfl

theorem exec_expire {key : K} (h : r.exec (.expire key) = some (r', reply))
    : r' = r.setTtl key := by
  cases h
  rfl

theorem exec_hgetall {key : K} (h : r.exec (.hgetall key) = some (r', reply))
    : r' = r ∧ reply = .entries ((r.hashes key).map (·.fields)) := by
  cases h
  exact ⟨rfl, rfl⟩

theorem exec_zadd {member : M} {score : Int} (h : r.exec (.zadd member score) = some (r', reply))
    : r' = { r with zset := r.zset.add member score } := by
  cases h
  rfl

theorem exec_zrem {member : M} (h : r.exec (.zrem member) = some (r', reply))
    : r' = { r with zset := r.zset.remove member } := by
  cases h
  rfl

theorem exec_zrangebyscore {max : Int} {limit : Nat}
    (h : r.exec (.zrangebyscore max limit) = some (r', reply))
    : r' = r ∧ reply = .members (r.zset.range max limit) := by
  cases h
  exact ⟨rfl, rfl⟩

theorem exec_evictions (h : r.exec c = some (r', reply)) : r'.evictions = r.evictions := by
  cases c with
  | hsetnx key field value =>
    rcases exec_hsetnx h with ⟨_, rfl, _⟩ | ⟨_, rfl, _⟩ <;> rfl
  | hincrby key field increment =>
    obtain ⟨n, _, _, _, rfl⟩ := exec_hincrby h
    rfl
  | hset key fields => cases h; exact evictions_setAll ..
  | expire key => cases h; rfl
  | hgetall key => cases h; rfl
  | zadd member score => cases h; rfl
  | zrem member => cases h; rfl
  | zrangebyscore max limit => cases h; rfl

theorem exec_get_of_ne {key : K} (hkey : c.key? ≠ some key) (h : r.exec c = some (r', reply))
    (field : F)
    : r'.get key field = r.get key field := by
  cases c with
  | hsetnx key' field' value =>
    rcases exec_hsetnx h with ⟨_, rfl, _⟩ | ⟨_, rfl, _⟩
    . rfl
    . rw [get_set, if_neg]
      rintro ⟨rfl, _⟩
      exact hkey rfl
  | hincrby key' field' increment =>
    obtain ⟨n, _, _, _, rfl⟩ := exec_hincrby h
    rw [get_set, if_neg]
    rintro ⟨rfl, _⟩
    exact hkey rfl
  | hset key' fields =>
    cases h
    apply get_setAll_of_notMem
    left
    rintro rfl
    exact hkey rfl
  | expire key' => cases h; exact get_setTtl ..
  | hgetall key => cases h; rfl
  | zadd member score => cases h; rfl
  | zrem member => cases h; rfl
  | zrangebyscore max limit => cases h; rfl

theorem exec_ttl_of_ne {key : K} (hkey : c.key? ≠ some key) (h : r.exec c = some (r', reply))
    : r'.ttl key = r.ttl key := by
  cases c with
  | hsetnx key' field' value =>
    rcases exec_hsetnx h with ⟨_, rfl, _⟩ | ⟨_, rfl, _⟩
    . rfl
    . exact ttl_set ..
  | hincrby key' field' increment =>
    obtain ⟨n, _, _, _, rfl⟩ := exec_hincrby h
    exact ttl_set ..
  | hset key' fields => cases h; exact ttl_setAll ..
  | expire key' =>
    cases h
    rw [ttl_setTtl, if_neg]
    rintro rfl
    exact hkey rfl
  | hgetall key => cases h; rfl
  | zadd member score => cases h; rfl
  | zrem member => cases h; rfl
  | zrangebyscore max limit => cases h; rfl

theorem exec_score_of_ne {member : M} (hmember : c.member? ≠ some member)
    (h : r.exec c = some (r', reply))
    : r'.zset.score member = r.zset.score member := by
  cases c with
  | hsetnx key' field' value =>
    rcases exec_hsetnx h with ⟨_, rfl, _⟩ | ⟨_, rfl, _⟩ <;> rfl
  | hincrby key' field' increment =>
    obtain ⟨n, _, _, _, rfl⟩ := exec_hincrby h
    rfl
  | hset key' fields => cases h; rw [zset_setAll]
  | expire key' => cases h; rfl
  | hgetall key => cases h; rfl
  | zadd member' score =>
    cases h
    rw [ZSet.score_add, if_neg]
    rintro rfl
    exact hmember rfl
  | zrem member' =>
    cases h
    rw [ZSet.score_remove, if_neg]
    rintro rfl
    exact hmember rfl
  | zrangebyscore max limit => cases h; rfl

theorem isSome_get_exec {key : K} {field : F} (h : r.exec c = some (r', reply))
    (hget : (r.get key field).isSome = true)
    : (r'.get key field).isSome = true := by
  have hset : ∀ key' field' value,
      ((r.set key' field' value).get key field).isSome = true := by
    intro key' field' value
    rw [get_set]
    split
    . rfl
    . exact hget
  cases c with
  | hsetnx key' field' value =>
    rcases exec_hsetnx h with ⟨_, rfl, _⟩ | ⟨_, rfl, _⟩
    . exact hget
    . exact hset ..
  | hincrby key' field' increment =>
    obtain ⟨n, _, _, _, rfl⟩ := exec_hincrby h
    exact hset ..
  | hset key' fields => cases h; exact isSome_get_setAll _ _ hget
  | expire key' => cases h; rw [get_setTtl]; exact hget
  | hgetall key => cases h; exact hget
  | zadd member score => cases h; exact hget
  | zrem member => cases h; exact hget
  | zrangebyscore max limit => cases h; exact hget

theorem ttl_le_exec {key : K} (h : r.exec c = some (r', reply)) (httl : r.ttl key = true)
    : r'.ttl key = true := by
  by_cases hkey : c.key? = some key
  . cases c with
    | hsetnx key' field' value =>
      rcases exec_hsetnx h with ⟨_, rfl, _⟩ | ⟨_, rfl, _⟩
      . exact httl
      . rw [ttl_set]; exact httl
    | hincrby key' field' increment =>
      obtain ⟨n, _, _, _, rfl⟩ := exec_hincrby h
      rw [ttl_set]; exact httl
    | hset key' fields => cases h; rw [ttl_setAll]; exact httl
    | expire key' =>
      cases h
      rw [ttl_setTtl]
      split
      . unfold ttl at httl
        cases hhash : r.hashes key with
        | none => simp [hhash] at httl
        | some _ => rfl
      . exact httl
    | hgetall key => contradiction
    | zadd member score => contradiction
    | zrem member => contradiction
    | zrangebyscore max limit => contradiction
  . rw [exec_ttl_of_ne hkey h]
    exact httl

end Exec

end Server

theorem toList_toString (n : Int)
    : (toString n).toList
        = if n < 0 then '-' :: Nat.toDigits 10 n.natAbs else Nat.toDigits 10 n.natAbs := by
  cases n with
  | ofNat m =>
    rw [if_neg (by simp)]
    exact Nat.toList_repr
  | negSucc m =>
    rw [if_pos (Int.negSucc_lt_zero m)]
    change ("-" ++ Nat.repr (m + 1)).toList = _
    rw [String.toList_append, Nat.toList_repr]
    rfl

theorem readInteger_toString {n : Int} (hlow : -2 ^ 63 ≤ n) (hhigh : n < 2 ^ 63)
    : readInteger (toString n) = some n := by
  have hvalue : Js.applySign (Js.splitSign (toString n).toList).1
      (Nat.ofDigitChars 10 (Js.splitSign (toString n).toList).2 0) = n := by
    rw [toList_toString]
    split
    . next hneg =>
      simp only [Js.splitSign, Js.applySign, Nat.ofDigitChars_ten_toDigits, ↓reduceIte]
      omega
    . next hnonneg =>
      rw [Js.splitSign_of_isDigits (Js.isDigits_toDigits _)]
      simp only [Js.applySign, Nat.ofDigitChars_ten_toDigits, Bool.false_eq_true, ↓reduceIte]
      omega
  unfold readInteger
  dsimp only
  rw [hvalue, if_pos ⟨rfl, hlow, hhigh⟩]

end Redis
