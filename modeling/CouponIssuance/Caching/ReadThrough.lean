import CouponIssuance.Concurrency.Machine
import Mathlib.Logic.Function.Basic

/-!
This module contains stores whose entries expire, and a cache that such a store is in front of a
source that changes: how old the values are that it gives out.
-/

namespace Caching

structure Entry (V : Type v) where
  value : V
  expiresAt : Nat

/-- A store whose entries expire -/
structure Store (K : Type u) (V : Type v) where
  entries : K → Option (Entry V)

namespace Store

variable {K : Type u} {V : Type v} {s : Store K V} {key key' : K} {value : V}
variable {now expiresAt : Nat}

def empty : Store K V where
  entries _ := none

def get (s : Store K V) (now : Nat) (key : K) : Option V :=
  ((s.entries key).filter fun entry => now < entry.expiresAt).map (·.value)

theorem get_eq_some
    : s.get now key = some value
        ↔ ∃ expiresAt, s.entries key = some ⟨value, expiresAt⟩ ∧ now < expiresAt := by
  unfold get
  cases s.entries key with
  | none => simp
  | some entry =>
    obtain ⟨value', expiresAt⟩ := entry
    by_cases hnow : now < expiresAt <;> simp [Option.filter, hnow]

section Update

variable [DecidableEq K]

def set (s : Store K V) (key : K) (value : V) (expiresAt : Nat) : Store K V where
  entries := Function.update s.entries key (some ⟨value, expiresAt⟩)

def evict (s : Store K V) (key : K) : Store K V where
  entries := Function.update s.entries key none

theorem entries_set
    : (s.set key value expiresAt).entries key'
        = if key' = key then some ⟨value, expiresAt⟩ else s.entries key' :=
  Function.update_apply ..

theorem entries_evict
    : (s.evict key).entries key' = if key' = key then none else s.entries key' :=
  Function.update_apply ..

end Update

def All (p : K → Entry V → Prop) (s : Store K V) : Prop :=
  ∀ key entry, s.entries key = some entry → p key entry

section All

variable {p q : K → Entry V → Prop}

theorem All.empty : (empty : Store K V).All p := by
  intro key entry h
  contradiction

theorem All.mono (himp : ∀ key entry, p key entry → q key entry) (h : s.All p) : s.All q :=
  fun key entry hentry => himp key entry (h key entry hentry)

variable [DecidableEq K]

theorem All.set (h : s.All p) (hentry : p key ⟨value, expiresAt⟩)
    : (s.set key value expiresAt).All p := by
  intro key' entry hget
  rw [entries_set] at hget
  split at hget
  . next heq =>
    cases hget
    rw [heq]
    exact hentry
  . exact h key' entry hget

theorem All.evict (h : s.All p) : (s.evict key).All p := by
  intro key' entry hget
  rw [entries_evict] at hget
  split at hget
  . contradiction
  . exact h key' entry hget

end All

def Kept (s : Store K V) (key : K) (time : Nat) : Prop :=
  ∃ entry, s.entries key = some entry ∧ time ≤ entry.expiresAt

section Kept

variable {time : Nat}

theorem Kept.isSome_get (h : s.Kept key time) (hnow : now < time) : (s.get now key).isSome = true := by
  obtain ⟨entry, hentry, hle⟩ := h
  have hlive : now < entry.expiresAt := by omega
  have hget := get_eq_some.mpr ⟨entry.expiresAt, hentry, hlive⟩
  rw [hget]
  rfl

theorem Kept.mono {time' : Nat} (h : s.Kept key time) (hle : time' ≤ time) : s.Kept key time' := by
  obtain ⟨entry, hentry, htime⟩ := h
  exact ⟨entry, hentry, by omega⟩

variable [DecidableEq K]

theorem kept_set (hle : time ≤ expiresAt) : (s.set key value expiresAt).Kept key time :=
  ⟨_, by rw [entries_set, if_pos rfl], hle⟩

theorem Kept.set (h : s.Kept key time) (hle : time ≤ expiresAt)
    : (s.set key' value expiresAt).Kept key time := by
  by_cases heq : key = key'
  . rw [heq]
    exact kept_set hle
  . obtain ⟨entry, hentry, htime⟩ := h
    exact ⟨entry, by rw [entries_set, if_neg heq, hentry], htime⟩

theorem Kept.evict (h : s.Kept key time) (hne : key ≠ key') : (s.evict key').Kept key time := by
  obtain ⟨entry, hentry, htime⟩ := h
  exact ⟨entry, by rw [entries_evict, if_neg hne, hentry], htime⟩

end Kept

end Store

structure Snapshot (K : Type u) (V : Type v) where
  time : Nat
  source : K → Option V

def Held (past : List (Snapshot K V)) (time : Nat) (key : K) (value : V) : Prop :=
  ∃ snapshot ∈ past, snapshot.time = time ∧ snapshot.source key = some value

theorem Held.append {past : List (Snapshot K V)} {time : Nat} {key : K} {value : V}
    (h : Held past time key value) (more : List (Snapshot K V))
    : Held (past ++ more) time key value := by
  obtain ⟨snapshot, hmem, h⟩ := h
  exact ⟨snapshot, List.mem_append_left _ hmem, h⟩

/-- A store in front of a source, and what the source was at every time so far -/
structure Cache (K : Type u) (V : Type v) where
  now : Nat
  source : K → Option V
  store : Store K V
  past : List (Snapshot K V)

namespace Cache

inductive Act (K : Type u) (V : Type v) where
  | advance (ms : Nat)
  | change (source : K → Option V)
  | fill (key : K) (value : V)
  | evict (key : K)

variable {K : Type u} {V : Type v}

def init (now : Nat) (source : K → Option V) : Cache K V where
  now := now
  source := source
  store := .empty
  past := [⟨now, source⟩]

def observe (c : Cache K V) : Cache K V :=
  { c with past := c.past ++ [⟨c.now, c.source⟩] }

def Timely (lag : Nat) (c : Cache K V) : Act K V → Prop
  | .fill key value => ∃ time, Held c.past time key value ∧ c.now ≤ time + lag
  | _ => True

def Backed (ttl lag : Nat) (c : Cache K V) (key : K) (entry : Entry V) : Prop :=
  ∃ time, Held c.past time key entry.value ∧ entry.expiresAt ≤ time + lag + ttl

structure Sound (ttl lag : Nat) (c : Cache K V) : Prop where
  past : ∀ snapshot ∈ c.past, snapshot.time ≤ c.now
  store : c.store.All (c.Backed ttl lag)

variable {ttl lag : Nat} {c : Cache K V}

theorem sound_init (now : Nat) (source : K → Option V) : (init now source).Sound ttl lag := by
  constructor
  . intro snapshot hmem
    rw [List.mem_singleton.mp hmem]
    exact Nat.le_refl _
  . exact .empty

variable [DecidableEq K]

def next (ttl : Nat) (c : Cache K V) : Act K V → Cache K V
  | .advance ms => { c with now := c.now + ms }
  | .change source => { c with source := source }
  | .fill key value => { c with store := c.store.set key value (c.now + ttl) }
  | .evict key => { c with store := c.store.evict key }

def machine (ttl : Nat) : Concurrency.Machine (Cache K V) (Act K V) where
  step c act := some (c.next ttl act).observe

theorem Sound.next {act : Act K V} (h : c.Sound ttl lag) (hok : Timely lag c act)
    : (c.next ttl act).observe.Sound ttl lag := by
  have hpast : ∀ {now : Nat}, c.now ≤ now → ∀ source : K → Option V,
      ∀ snapshot ∈ c.past ++ [⟨now, source⟩], snapshot.time ≤ now := by
    intro now hle source snapshot hmem
    rcases List.mem_append.mp hmem with hmem | hmem
    . exact Nat.le_trans (h.past snapshot hmem) hle
    . obtain rfl := List.mem_singleton.mp hmem
      exact Nat.le_refl now
  have hbacked : ∀ {key entry} (more : List (Snapshot K V)), c.Backed ttl lag key entry
      → ∃ time, Held (c.past ++ more) time key entry.value
        ∧ entry.expiresAt ≤ time + lag + ttl := by
    intro key entry more ⟨time, hheld, hle⟩
    exact ⟨time, hheld.append more, hle⟩
  cases act with
  | advance ms => exact ⟨hpast (Nat.le_add_right ..) _, h.store.mono fun _ _ => hbacked _⟩
  | change source => exact ⟨hpast (Nat.le_refl _) _, h.store.mono fun _ _ => hbacked _⟩
  | fill key value =>
    obtain ⟨time, hheld, hle⟩ := hok
    refine ⟨hpast (Nat.le_refl _) _, Store.All.set (h.store.mono fun _ _ => hbacked _) ?_⟩
    exact ⟨time, hheld.append _, by dsimp only; omega⟩
  | evict key => exact ⟨hpast (Nat.le_refl _) _, Store.All.evict (h.store.mono fun _ _ => hbacked _)⟩

theorem fresh {now : Nat} {source : K → Option V} {key : K} {value : V}
    (hrun : (machine ttl).Run (Timely lag) (init now source) c)
    (hget : c.store.get c.now key = some value)
    : ∃ time, Held c.past time key value ∧ time ≤ c.now ∧ c.now < time + lag + ttl := by
  have hsound : c.Sound ttl lag := by
    apply hrun.invariant (sound_init now source)
    intro u act v hu hok hstep
    cases hstep
    exact hu.next hok
  obtain ⟨expiresAt, hentry, hnow⟩ := Store.get_eq_some.mp hget
  obtain ⟨time, hheld, hle⟩ := hsound.store key _ hentry
  obtain ⟨snapshot, hmem, htime, _⟩ := id hheld
  refine ⟨time, hheld, ?_, by dsimp only at hle; omega⟩
  rw [← htime]
  exact hsound.past snapshot hmem

end Cache

end Caching
