import CouponIssuance.Concurrency.Calls

/-!
This module contains exclusive locks: a statement that takes a lock waits for the call that holds
it, so no two calls ever hold one lock.
-/

namespace Concurrency

def Apart (holds : φ → List κ) (f g : φ) : Prop :=
  ∀ l ∈ holds f, l ∉ holds g

variable {holds : φ → List κ}

theorem Apart.symm {f g : φ} (h : Apart holds f g) : Apart holds g f := by
  intro l hg hf
  exact h l hf hg

theorem Apart.of_nil {f g : φ} (h : holds f = []) : Apart holds f g := by
  intro l hl
  rw [h] at hl
  contradiction

theorem Apart.step {f f' g : φ} {w : List κ} (h : Apart holds f g)
    (hgrow : ∀ l ∈ holds f', l ∈ holds f ∨ l ∈ w) (hwait : ∀ l ∈ w, l ∉ holds g)
    : Apart holds f' g := by
  intro l hl
  cases hgrow l hl with
  | inl hheld => exact h l hheld
  | inr htaken => exact hwait l htaken

end Concurrency
