import CouponIssuance.Js.Number
import CouponIssuance.Js.Split

/-!
This module contains the key conventions of server-b (`redis-keys.ts`) and how a member of the
pending set is read back.
-/

namespace ServerB

open Js

abbrev Pair := JsNumber × JsNumber

namespace RedisKeys

def pendingHash (userId couponTypeId : JsNumber) : String :=
  "issue:pending:" ++ toString userId ++ ":" ++ toString couponTypeId

def pendingZsetMember (userId couponTypeId : JsNumber) : String :=
  toString userId ++ ":" ++ toString couponTypeId

end RedisKeys

/--
Only the text of a signed integer is a number here.
-/
def parseLongStrict (value : List Char) : Option JsNumber :=
  if isLong value then some (JsNumber.ofText value) else none

/--
The pair of a member, `none` when `findPendingOlderThan` skips it.
-/
def parseMember (member : String) : Option Pair :=
  match split ':' member.toList with
  | [userId, couponTypeId] =>
    match parseLongStrict userId, parseLongStrict couponTypeId with
    | some userId, some couponTypeId => some (userId, couponTypeId)
    | _, _ => none
  | _ => none

def isDecimalPair (p : Pair) : Bool :=
  p.1.isDecimal && p.2.isDecimal

namespace RedisKeys

variable {u t u' t' : JsNumber}

theorem toList_pendingZsetMember (u t : JsNumber)
    : (pendingZsetMember u t).toList = u.render ++ ':' :: t.render := by
  simp [pendingZsetMember, JsNumber.toList_toString]

theorem split_pendingZsetMember (u t : JsNumber)
    : split ':' (pendingZsetMember u t).toList = [u.render, t.render] := by
  rw [toList_pendingZsetMember, split_pair u.colon_notMem_render t.colon_notMem_render]

theorem pendingZsetMember_injective (h : pendingZsetMember u t = pendingZsetMember u' t')
    : u = u' ∧ t = t' := by
  have hsplit := congrArg (fun s => split ':' s.toList) h
  simp only [split_pendingZsetMember, List.cons.injEq, and_true] at hsplit
  exact ⟨JsNumber.render_injective hsplit.1, JsNumber.render_injective hsplit.2⟩

theorem append_append_append (a b c d : String) : a ++ b ++ c ++ d = a ++ (b ++ c ++ d) := by
  simp only [String.append_assoc]

theorem pendingHash_eq (u t : JsNumber)
    : pendingHash u t = "issue:pending:" ++ pendingZsetMember u t :=
  append_append_append _ _ _ _

theorem pendingHash_injective (h : pendingHash u t = pendingHash u' t') : u = u' ∧ t = t' := by
  rw [pendingHash_eq, pendingHash_eq] at h
  apply pendingZsetMember_injective
  have hlist := congrArg String.toList h
  rw [String.toList_append, String.toList_append] at hlist
  exact String.toList_injective (List.append_cancel_left hlist)

-- what matters about a key is that it is injective, not how it is spelled
attribute [irreducible] pendingHash pendingZsetMember

end RedisKeys

theorem parseMember_pendingZsetMember (u t : JsNumber)
    : parseMember (RedisKeys.pendingZsetMember u t)
        = if isDecimalPair (u, t) then some (u, t) else none := by
  unfold parseMember parseLongStrict isDecimalPair
  rw [RedisKeys.split_pendingZsetMember]
  dsimp only
  rw [JsNumber.isLong_render, JsNumber.isLong_render, JsNumber.ofText_render,
    JsNumber.ofText_render]
  cases u.isDecimal <;> cases t.isDecimal <;> rfl

end ServerB
