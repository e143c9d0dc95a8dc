import CouponIssuance.ServerB.Attempts

/-!
This module contains the values that the counter of an entry takes: what `HINCRBY` writes is what
the next visit reads, as long as the numbers are exact.
-/

namespace ServerB

open Js Redis.Server

/--
The counter reads `value k` after `k` increments, and it reaches the cap after `total` of them.
-/
structure Counter (m total : Nat) (value : Nat → JsNumber) : Prop where
  lt : ∀ k ≤ total, JsNumber.lt (value k) (.ofInt m) = decide (k < total)
  succ : ∀ k < total, ∀ n : Int, n.natAbs ≤ 2 ^ 53 → value k = .ofInt n
    → (n + 1).natAbs ≤ 2 ^ 53 ∧ value (k + 1) = .ofInt (n + 1)
  increasing : ∀ i j, i < j → j ≤ total → JsNumber.lt (value i) (value j) = true

theorem counter_const {m : Nat} {attempts : JsNumber}
    (h : JsNumber.lt attempts (.ofInt m) = false)
    : Counter m 0 fun _ => attempts where
  lt k hk := by simp [h, Nat.le_zero.mp hk]
  succ k hk := absurd hk (Nat.not_lt_zero k)
  increasing i j hij hj := by omega

theorem lt_ofInt {a b : Int} (ha : a.natAbs ≤ 2 ^ 53) (hb : b.natAbs ≤ 2 ^ 53)
    : JsNumber.lt (.ofInt a) (.ofInt b) = decide (a < b) := by
  rw [JsNumber.ofInt_of_natAbs_le ha, JsNumber.ofInt_of_natAbs_le hb]
  rfl

theorem eq_of_ofInt_eq {a b : Int} (ha : a.natAbs ≤ 2 ^ 53) (hb : b.natAbs ≤ 2 ^ 53)
    (h : JsNumber.ofInt a = .ofInt b)
    : a = b := by
  rw [JsNumber.ofInt_of_natAbs_le ha, JsNumber.ofInt_of_natAbs_le hb] at h
  exact JsNumber.int.inj h

theorem isLong_toString (n : Int) : isLong (toString n).toList = true := by
  rw [Redis.toList_toString, isLong]
  split
  . exact isDigits_toDigits _
  . rw [splitSign_of_isDigits (isDigits_toDigits _)]
    exact isDigits_toDigits _

theorem readAttempts_toString {n : Int} (hlow : -2 ^ 63 ≤ n) (hhigh : n < 2 ^ 63)
    : readAttempts (some (toString n)) = some (.ofInt n) := by
  have hread := Redis.readInteger_toString hlow hhigh
  simp only [Redis.readInteger] at hread
  split at hread
  . rw [Option.some.injEq] at hread
    simp only [readAttempts, parseLongStrict]
    rw [if_pos (isLong_toString n), JsNumber.ofText_of_isLong (isLong_toString n), hread]
  . contradiction

theorem counter_exact {m : Nat} {n : Int} (hm : m ≤ 2 ^ 53) (hn : n.natAbs ≤ 2 ^ 53) (hlt : n < m)
    : Counter m (m - n).toNat fun k => .ofInt (n + k) where
  lt k hk := by
    rw [lt_ofInt (by omega) (by omega)]
    apply decide_eq_decide.mpr
    omega
  succ k hk a ha heq := by
    have := eq_of_ofInt_eq (by omega) ha heq
    refine ⟨by omega, ?_⟩
    rw [← this, Nat.cast_succ, Int.add_assoc]
  increasing i j hij hj := by
    rw [lt_ofInt (by omega) (by omega), decide_eq_true_eq]
    omega

theorem rounds_of_not_lt {m : Nat} {attempts : JsNumber}
    (h : JsNumber.lt attempts (.ofInt m) = false)
    : rounds m attempts = 0 := by
  unfold rounds
  cases attempts with
  | int n hn => simp [h]
  | _ => rfl

theorem rounds_ofInt {m : Nat} {n : Int} (hm : m ≤ 2 ^ 53) (hn : n.natAbs ≤ 2 ^ 53) (hlt : n < m)
    : rounds m (.ofInt n) = (m - n).toNat := by
  have hlt' : JsNumber.lt (.ofInt n) (.ofInt m) = true := by
    rw [lt_ofInt hn (by omega), decide_eq_true_eq]
    exact hlt
  rw [JsNumber.ofInt_of_natAbs_le hn] at hlt' ⊢
  simp [rounds, hlt']

theorem exists_counter {m : Nat} {attempts : JsNumber} {redis : Redis} {p : Pair}
    (h : CountsExactly m attempts redis p)
    : ∃ value, Counter m (rounds m attempts) value ∧ value 0 = attempts
        ∧ (0 < rounds m attempts → CountedExactly redis p attempts) := by
  by_cases hlt : JsNumber.lt attempts (.ofInt m) = true
  . obtain ⟨hm, hexact⟩ := h.resolve_left (by rw [hlt]; decide)
    obtain ⟨n, hn, rfl, _⟩ := id hexact
    rw [lt_ofInt hn (by omega), decide_eq_true_eq] at hlt
    rw [rounds_ofInt hm hn hlt]
    exact ⟨_, counter_exact hm hn hlt, by simp, fun _ => hexact⟩
  . rw [Bool.not_eq_true] at hlt
    rw [rounds_of_not_lt hlt]
    exact ⟨_, counter_const hlt, rfl, fun h => absurd h (Nat.not_lt_zero 0)⟩

end ServerB
