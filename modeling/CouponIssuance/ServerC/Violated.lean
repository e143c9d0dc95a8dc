import CouponIssuance.Common.UserId
import CouponIssuance.Js.Regex
import CouponIssuance.ServerC.Calls

/-!
This module contains how the insert of the repository tells which key was violated
(`typeorm-user-coupon.repository.ts`), from the message of MySQL.
-/

namespace ServerC

open Js

def ER_DUP_ENTRY : Nat := 1062

def UK_USER_COUPON_USER_TYPE : String := "uk_user_coupon_user_type"

structure DriverError where
  errno : Option Nat
  sqlMessage : Option String
deriving DecidableEq

inductive Thrown where
  | queryFailed (driverError : Option DriverError)
  /-- anything but a `QueryFailedError` -/
  | other
deriving DecidableEq

/-- `/(?:.*\.)?(.+?)'/` -/
def keyName : Regex :=
  .seq (.optional (.seq (.star Regex.dot) (.set (· == '.'))))
    (.seq (.group 1 (.lazyPlus Regex.dot)) (.set (· == '\'')))

/-- `/for key '(?:.*\.)?(.+?)'/` -/
def forKey : Regex :=
  .seq (Regex.literal "for key '".toList) keyName

def violatedConstraint : Thrown → Option String
  | .other => none
  | .queryFailed driver =>
    if driver.bind (·.errno) = some ER_DUP_ENTRY then
      let text := (driver.bind (·.sqlMessage)).getD ""
      (forKey.exec text.toList).bind fun found => (found.lookup 1).map String.ofList
    else
      none

inductive InsertThrown where
  | duplicateUserCoupon (message : String)
  | original (e : Thrown)
deriving DecidableEq

namespace TypeOrmUserCouponRepository

def catchInsert (coupon : UserCoupon) (e : Thrown) : InsertThrown :=
  if violatedConstraint e = some UK_USER_COUPON_USER_TYPE then
    .duplicateUserCoupon ("user_coupon already exists: userId=" ++ toString coupon.userId
      ++ ", couponTypeId=" ++ toString coupon.couponTypeId)
  else
    .original e

def insert (coupon : UserCoupon) (inserted : Except Thrown Unit) : Except InsertThrown Unit :=
  match inserted with
  | .ok _ => .ok ()
  | .error e => .error (catchInsert coupon e)

end TypeOrmUserCouponRepository

inductive Key where
  | primary
  | code
  | userType
deriving DecidableEq

def Key.name : Key → String
  | primary => "PRIMARY"
  | code => "uk_user_coupon_code"
  | userType => "uk_user_coupon_user_type"

/-- The message of MySQL, which has named the table in front of the key since 8.0.19. -/
def duplicateEntry (value : String) (key : Key) (qualified : Bool) : String :=
  "Duplicate entry '" ++ value ++ "' for key '"
    ++ (if qualified then "user_coupon." else "") ++ key.name ++ "'"

def duplicateThrown (value : String) (key : Key) (qualified : Bool) : Thrown :=
  .queryFailed (some {
    errno := some ER_DUP_ENTRY
    sqlMessage := some (duplicateEntry value key qualified)
  })

/-- The values that an insert into `user_coupon` can have in a key -/
inductive Produces : Key → String → Prop where
  | id (n : Nat) : Produces .primary (String.ofList (UserId.write n))
  | generated (code : CouponCode) : Produces .code code.value
  | placeholder (requestId : String) : Produces .code (placeholderCode requestId)
  | pair (userId couponTypeId : Int)
    : Produces .userType
        (String.ofList (UserId.write userId ++ '-' :: UserId.write couponTypeId))

section Infixes

variable {w a b : List Char} {q : Char}

theorem prefix_of_prefix_append (hw : q ∉ w) (h : w <+: a ++ q :: b) : w <+: a := by
  induction a generalizing w with
  | nil =>
    match w with
    | [] => exact List.nil_prefix
    | c :: w =>
      rw [List.nil_append, List.cons_prefix_cons] at h
      exact absurd (h.1 ▸ List.mem_cons_self) hw
  | cons d a ih =>
    match w with
    | [] => exact List.nil_prefix
    | c :: w =>
      rw [List.cons_append, List.cons_prefix_cons] at h
      rw [List.cons_prefix_cons]
      exact ⟨h.1, ih (fun hmem => hw (List.mem_cons_of_mem _ hmem)) h.2⟩

theorem infix_append (hw : q ∉ w) (h : w <:+: a ++ q :: b) : w <:+: a ∨ w <:+: b := by
  induction a with
  | nil =>
    rcases List.infix_cons_iff.mp h with hfront | hbehind
    . exact .inl (prefix_of_prefix_append (a := []) hw hfront).isInfix
    . exact .inr hbehind
  | cons d a ih =>
    rcases List.infix_cons_iff.mp h with hfront | hbehind
    . exact .inl (prefix_of_prefix_append (a := d :: a) hw hfront).isInfix
    . exact (ih hbehind).imp_left fun h => h.trans (List.suffix_cons _ _).isInfix

end Infixes

theorem toList_duplicateEntry (value : String) (key : Key) (qualified : Bool)
    : (duplicateEntry value key qualified).toList
        = "Duplicate entry ".toList ++ '\'' :: (value.toList ++ '\'' :: (" for key ".toList
            ++ '\'' :: ((if qualified then "user_coupon." else "").toList ++ key.name.toList
              ++ '\'' :: []))) := by
  have hfirst : "Duplicate entry '".toList = "Duplicate entry ".toList ++ ['\''] := by decide
  have hsecond : "' for key '".toList = '\'' :: (" for key ".toList ++ ['\'']) := by decide
  have hlast : "'".toList = ['\''] := by decide
  unfold duplicateEntry
  rw [String.toList_append, String.toList_append, String.toList_append, String.toList_append,
    String.toList_append, hfirst, hsecond, hlast]
  simp only [List.append_assoc, List.cons_append, List.nil_append]

theorem not_infix_duplicateEntry {value : String} {key : Key} (qualified : Bool)
    (hkey : key ≠ .userType) (hvalue : ¬UK_USER_COUPON_USER_TYPE.toList <:+: value.toList)
    : ¬UK_USER_COUPON_USER_TYPE.toList <:+: (duplicateEntry value key qualified).toList := by
  have hquote : '\'' ∉ UK_USER_COUPON_USER_TYPE.toList := by decide
  rw [toList_duplicateEntry]
  intro h
  rcases infix_append hquote h with h | h
  . exact absurd h (by decide)
  . rcases infix_append hquote h with h | h
    . exact hvalue h
    . rcases infix_append hquote h with h | h
      . exact absurd h (by decide)
      . rcases infix_append hquote h with h | h
        . cases key with
          | primary => cases qualified <;> exact absurd h (by decide)
          | code => cases qualified <;> exact absurd h (by decide)
          | userType => contradiction
        . exact absurd h (by decide)

theorem mem_write {c : Char} {n : Int} (h : c ∈ UserId.write n) : c = '-' ∨ c.isDigit = true := by
  unfold UserId.write at h
  split at h
  . rcases List.mem_cons.mp h with rfl | hdigit
    . exact .inl rfl
    . exact .inr (Nat.isDigit_of_mem_toDigits (by decide) (by decide) hdigit)
  . exact .inr (Nat.isDigit_of_mem_toDigits (by decide) (by decide) h)

theorem length_placeholderCode_le (requestId : String)
    : (placeholderCode requestId).toList.length ≤ 12 := by
  rw [placeholderCode, String.toList_ofList, List.length_cons, List.length_take]
  omega

theorem not_infix_of_produces {key : Key} {value : String} (h : Produces key value)
    (hkey : key ≠ .userType)
    : ¬UK_USER_COUPON_USER_TYPE.toList <:+: value.toList := by
  intro hwithin
  have hlength := hwithin.length_le
  rw [show UK_USER_COUPON_USER_TYPE.toList.length = 24 by decide] at hlength
  cases h with
  | id n =>
    rw [String.toList_ofList] at hwithin
    rcases mem_write (hwithin.subset (show 'u' ∈ _ by decide)) with h | h <;> contradiction
  | generated code =>
    have := code.length_eq
    omega
  | placeholder requestId =>
    have := length_placeholderCode_le requestId
    omega
  | pair userId couponTypeId => contradiction

theorem exec_duplicateEntry_userType (userId couponTypeId : Int) (qualified : Bool)
    : (forKey.exec (duplicateEntry (String.ofList (UserId.write userId ++ '-' ::
          UserId.write couponTypeId)) .userType qualified).toList).bind (·.lookup 1)
        = some UK_USER_COUPON_USER_TYPE.toList := by
  have hwrite : ∀ n, 'f' ∉ UserId.write n := by
    intro n hn
    rcases mem_write hn with h | h
    . exact absurd h (by decide)
    . exact absurd h (by decide)
  have hfirst : 'f' ∉ "Duplicate entry ".toList := by decide
  have hsplit : " for key ".toList = ' ' :: "for key ".toList := by decide
  have hbefore : 'f' ∉ "Duplicate entry ".toList ++ '\'' :: (UserId.write userId ++ '-' ::
      UserId.write couponTypeId) ++ ['\'', ' '] := by
    simp only [List.mem_append, List.mem_cons, not_or]
    refine ⟨⟨hfirst, by decide, hwrite _, by decide, hwrite _⟩, by decide, by decide, ?_⟩
    exact List.not_mem_nil
  have hform : forKey = .seq (Regex.literal ('f' :: "or key '".toList)) keyName := by
    rw [forKey, show "for key '".toList = 'f' :: "or key '".toList by decide]
  have hskip := fun text => Regex.exec_append (l := "or key '".toList) (r := keyName) text hbefore
  rw [← hform] at hskip
  have hmessage : ∀ w b : List Char,
      "Duplicate entry ".toList ++ '\'' :: (w ++ '\'' :: (' ' :: "for key ".toList ++ b))
        = "Duplicate entry ".toList ++ '\'' :: w ++ ['\'', ' '] ++ ("for key ".toList ++ b) := by
    intro w b
    simp only [List.append_assoc, List.cons_append, List.nil_append]
  rw [toList_duplicateEntry, hsplit, hmessage, String.toList_ofList (l := _ ++ _), hskip]
  cases qualified with
  | true => decide +kernel
  | false => decide +kernel

theorem mem_of_lookup_eq_some {captures : Regex.Captures} {index : Nat} {text : List Char}
    (h : captures.lookup index = some text)
    : (index, text) ∈ captures := by
  obtain ⟨before, after, rfl, -⟩ := List.lookup_eq_some_iff.mp h
  exact List.mem_append_right _ List.mem_cons_self

theorem violatedConstraint_eq_some_iff {key : Key} {value : String} (qualified : Bool)
    (h : Produces key value)
    : violatedConstraint (duplicateThrown value key qualified) = some UK_USER_COUPON_USER_TYPE
        ↔ key = .userType := by
  have hsearch : violatedConstraint (duplicateThrown value key qualified)
      = (forKey.exec (duplicateEntry value key qualified).toList).bind fun found =>
        (found.lookup 1).map String.ofList := by
    simp [violatedConstraint, duplicateThrown]
  rw [hsearch]
  constructor
  . intro hfound
    obtain ⟨captures, hexec, hfound⟩ := Option.bind_eq_some_iff.mp hfound
    obtain ⟨name, hlookup, hname⟩ := Option.map_eq_some_iff.mp hfound
    by_contra hkey
    apply not_infix_duplicateEntry qualified hkey (not_infix_of_produces h hkey)
    rw [← hname, String.toList_ofList]
    exact Regex.within_of_exec hexec _ (mem_of_lookup_eq_some hlookup)
  . rintro rfl
    cases h with
    | pair userId couponTypeId =>
      have hfound := exec_duplicateEntry_userType userId couponTypeId qualified
      obtain ⟨captures, hexec, hlookup⟩ := Option.bind_eq_some_iff.mp hfound
      rw [hexec, Option.bind_some, hlookup, Option.map_some, String.ofList_toList]

/--
The catch of `insert` turns the violation of the pair's key into a `DuplicateUserCouponError`, and
throws the original error for every other key.
-/
theorem insert_duplicateThrown (coupon : UserCoupon) {key : Key} {value : String}
    (qualified : Bool) (h : Produces key value)
    : TypeOrmUserCouponRepository.insert coupon (.error (duplicateThrown value key qualified))
        = .error (if key = .userType then
            .duplicateUserCoupon ("user_coupon already exists: userId=" ++ toString coupon.userId
              ++ ", couponTypeId=" ++ toString coupon.couponTypeId)
          else
            .original (duplicateThrown value key qualified)) := by
  have hiff := violatedConstraint_eq_some_iff qualified h
  unfold TypeOrmUserCouponRepository.insert TypeOrmUserCouponRepository.catchInsert
  dsimp only
  split
  . next hfound => rw [if_pos (hiff.mp hfound)]
  . next hother => rw [if_neg (fun hkey => hother (hiff.mpr hkey))]

def misleading : UserCoupon :=
  UserCoupon.issue (placeholderCode "for key 'uk") (.ofInt 1) (.ofInt 10) (.ofInt 20) .failed 5

theorem insert_duplicateThrown_forKey
    : TypeOrmUserCouponRepository.insert misleading
        (.error (duplicateThrown misleading.code .code false))
        = .error (if Key.code = .userType then
            .duplicateUserCoupon ("user_coupon already exists: userId="
              ++ toString misleading.userId ++ ", couponTypeId=" ++ toString misleading.couponTypeId)
          else
            .original (duplicateThrown misleading.code .code false)) :=
  insert_duplicateThrown misleading false (.placeholder _)

def storedId : JsNumber → Int
  | .int n _ => applySign (n < 0) (JsNumber.shortest n.natAbs)
  | _ => 0

def Db.InsertError.thrown (c : UserCoupon) (qualified : Bool) : Db.InsertError → Thrown
  | .outOfRange => .queryFailed (some { errno := some 1264, sqlMessage := none })
  | .duplicateCode => duplicateThrown c.code .code qualified
  | .duplicateUserCoupon =>
    duplicateThrown (String.ofList (UserId.write (storedId c.userId)
      ++ '-' :: UserId.write (storedId c.couponTypeId))) .userType qualified
  | .foreignKey => .queryFailed (some { errno := some 1452, sqlMessage := none })

theorem Process.produces_code (p : Process) (now : Int) (status : CouponIssueResultStatus)
    {code : Option String} (h : ∀ c ∈ code, ∃ generated : CouponCode, c = generated.value)
    : Produces .code (p.coupon now status code).code := by
  cases code with
  | none => exact .placeholder _
  | some c =>
    obtain ⟨generated, rfl⟩ := h c rfl
    exact .generated generated

theorem Process.violatedConstraint_thrown_iff (p : Process) (now : Int)
    (status : CouponIssueResultStatus) {code : Option String} (qualified : Bool)
    (e : Db.InsertError) (h : ∀ c ∈ code, ∃ generated : CouponCode, c = generated.value)
    : violatedConstraint (e.thrown (p.coupon now status code) qualified)
          = some UK_USER_COUPON_USER_TYPE
        ↔ e = .duplicateUserCoupon := by
  cases e with
  | duplicateCode =>
    refine (violatedConstraint_eq_some_iff qualified (p.produces_code now status h)).trans ?_
    exact ⟨nofun, nofun⟩
  | duplicateUserCoupon =>
    refine (violatedConstraint_eq_some_iff qualified (.pair _ _)).trans ?_
    exact ⟨fun _ => rfl, fun _ => rfl⟩
  | outOfRange => simp [Db.InsertError.thrown, violatedConstraint, ER_DUP_ENTRY]
  | foreignKey => simp [Db.InsertError.thrown, violatedConstraint, ER_DUP_ENTRY]

end ServerC
