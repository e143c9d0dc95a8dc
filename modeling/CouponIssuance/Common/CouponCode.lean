import Mathlib.Data.List.OfFn

/-!
This module contains the coupon code value object of `coupon-code.ts`.
-/

/-- The length and the alphabet that `CouponCode.of` checks are part of the value. -/
structure CouponCode where
  value : String
  length_eq : value.toList.length = 12
  alphabet : ∀ c ∈ value.toList, c ∈ "ABCDEFGHJKMNPQRSTVWXYZ0123456789".toList
deriving DecidableEq

namespace CouponCode

/--
One character for each of the twelve numbers that `randomInt` draws.
-/
def generate (draws : Fin 12 → Fin 32) : CouponCode where
  value := String.ofList (List.ofFn fun i => "ABCDEFGHJKMNPQRSTVWXYZ0123456789".toList.get (draws i))
  length_eq := by simp
  alphabet := by
    intro c hc
    simp only [String.toList_ofList, List.mem_ofFn] at hc
    obtain ⟨i, rfl⟩ := hc
    exact List.get_mem _ _

end CouponCode
