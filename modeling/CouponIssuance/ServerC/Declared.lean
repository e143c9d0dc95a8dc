import CouponIssuance.Kafka.Parse
import CouponIssuance.ServerC.Lemmas.Untyped
import CouponIssuance.ServerC.Settled

/-!
This module contains the promises of `process` for messages whose ids are what the payload type
declares, and what comes of a message whose ids are not.
-/

open Js Concurrency

namespace ServerC.Untyped

section Sample

def issueRequest (requestId : String) (userId : Json) : Json :=
  .obj [
    ("requestId", .str requestId),
    ("userId", userId),
    ("eventId", .num (.ofInt 10)),
    ("couponTypeId", .num (.ofInt 20)),
    ("requestedAt", .str "1970-01-01T00:00:00.000Z")
  ]

def first : Request :=
  ⟨issueRequest "a" (.num (.ofInt 1)), rfl⟩

def second : Request :=
  ⟨issueRequest "b" (.num (.ofInt 2)), rfl⟩

/-- User 1.4, for whom the column holds 1 -/
def fractional : Request :=
  ⟨issueRequest "a" (.fraction false 14 1 (by decide +kernel)), rfl⟩

def newProcess (request : Request) : Call :=
  .process ⟨request, .empty, .existsByUserIdAndCouponTypeId⟩

def race (first second : Request) : List Act :=
  [.start (newProcess first), .start (newProcess second)]
    ++ [0, 1, 0, 1, 0, 0, 0, 0, 0, 1, 1, 1, 1].map (.step · (okAt 5))

def startsDeclared (_ : State) : Act → Bool
  | .start (.process p) => decide p.request.IsDeclared
  | _ => true

theorem declaredRequests_of_startsDeclared (s : State) (a : Act) (h : startsDeclared s a = true)
    : DeclaredRequests s a := by
  unfold startsDeclared at h
  split at h
  . next p =>
    change p.request.IsDeclared
    exact of_decide_eq_true h
  . next hne =>
    cases a with
    | start c =>
      cases c with
      | process p => exact absurd rfl (hne p)
      | redeem r => trivial
      | poll pc => trivial
    | step i x => trivial
    | env e => trivial

def issueFractional : List Act :=
  .start (newProcess fractional) :: List.replicate 9 (.step 0 (okAt 5))

theorem parse_fractional
    : CouponIssueRequestConsumer.parse (some (Json.stringifyValue fractional.js))
        = some fractional.js := by
  unfold CouponIssueRequestConsumer.parse
  rw [parseRecord_eq_some (Json.parse_stringifyValue _)]
  exact ⟨rfl, rfl⟩

end Sample

section Outbox

variable {batchSize : Nat} {db : Db} {s : State}

/--
From empty tables every committed coupon has its outbox row, and only what the outbox announces is
sent.
-/
theorem outbox_transactional (hwf : db.Wf) (hcoupons : db.coupons = []) (houtbox : db.outbox = [])
    (hrun : (calls batchSize).machine.Run DeclaredRequests (init db) s)
    : List.Forall₂ (fun c o => c.issued.AnnouncedBy o.record) s.shared.db.coupons s.shared.db.outbox
        ∧ (∀ o ∈ s.shared.db.outbox,
            o.status = .pending ∨ (o.aggregateId, o.payload) ∈ s.shared.topic)
        ∧ (∀ m ∈ s.shared.topic, ∃ o ∈ s.shared.db.outbox, m = (o.aggregateId, o.payload)) := by
  have hdeclared : (ServerC.calls batchSize).machine.Run (fun _ _ => True) (ServerC.init db)
      (s.map Call.declared) :=
    ((embeds batchSize).run (fun c hc => by contradiction) (fun _ _ h => h)
      (fun _ _ _ _ => trivial) hrun).1
  have h := transactional hwf hcoupons houtbox hdeclared
  refine ⟨?_, h.sent, ?_⟩
  . have hannounced := h.announced
    rw [List.forall₂_map_left_iff, List.forall₂_map_right_iff] at hannounced
    exact hannounced
  . intro m hm
    obtain ⟨o, ho, heq⟩ := h.committed m hm
    exact ⟨o, ho, heq.symm⟩

/--
A crash between two publishes and a redeem: the first row has been sent, but is still pending.
-/
theorem outbox_transactional_race
    : ∃ s, (calls 2).machine.Run DeclaredRequests (init lastCoupon) s
        ∧ s.shared.db.coupons.map (·.status) = [.used, .soldOut]
        ∧ s.shared.db.outbox.map (·.status) = [.pending, .pending]
        ∧ s.shared.topic.length = 1
        ∧ List.Forall₂ (fun c o => c.issued.AnnouncedBy o.record) s.shared.db.coupons
            s.shared.db.outbox
        ∧ (∀ o ∈ s.shared.db.outbox,
            o.status = .pending ∨ (o.aggregateId, o.payload) ∈ s.shared.topic)
        ∧ (∀ m ∈ s.shared.topic, ∃ o ∈ s.shared.db.outbox, m = (o.aggregateId, o.payload)) := by
  obtain ⟨s, hrun, hs⟩ := Machine.exists_run_of_exec (calls 2).machine startsDeclared
    DeclaredRequests declaredRequests_of_startsDeclared
    (race first second ++ [.start (.redeem ⟨"AAAAAAAAAAAA", .ofInt 1, .empty, .findByCode⟩),
      .start (.poll .findPending), .step 2 (okAt 6), .step 3 (okAt 6), .step 2 (okAt 6),
      .step 3 (okAt 7), .step 2 (okAt 7), .step 3 .crash])
    (init lastCoupon)
    (fun s => s.shared.db.coupons.map (·.status) == [.used, .soldOut]
      && s.shared.db.outbox.map (·.status) == [.pending, .pending] && s.shared.topic.length == 1)
    (by decide +kernel)
  simp only [Bool.and_eq_true, beq_iff_eq] at hs
  exact ⟨s, hrun, hs.1.1, hs.1.2, hs.2, outbox_transactional lastCoupon_wf rfl rfl hrun⟩

def userIdOf (payload : String) : Option Json :=
  (Json.parse payload).bind (·.get? "userId")

theorem userIdOf_announced {i : Issued} {r : OutboxRecord} (h : i.AnnouncedBy r)
    : userIdOf r.payload = some (Json.num i.userId).wire := by
  obtain ⟨processedAt, hpayload⟩ := h
  rw [hpayload, userIdOf, Json.parse_stringify_eq_wire]
  rfl

theorem userIdOf_toResultPayload (r : Request) (status : CouponIssueResultStatus)
    (code : Option String) (now : Int)
    : userIdOf (Json.stringifyValue (toResultPayload r status code now)) = some r.userId.wire := by
  rw [userIdOf, Json.parse_stringifyValue]
  rfl

/--
The row is that of user 1, and the result that of user 1.4: no outbox row carries the user of the
coupon.
-/
theorem outbox_mistyped
    : CouponIssueRequestConsumer.parse (some (Json.stringifyValue fractional.js))
          = some fractional.js
        ∧ ∃ s, (calls 1).machine.Run (fun _ _ => True) (init lastCoupon) s
            ∧ s.shared.db.coupons.map (·.pair) = [(.ofInt 1, .ofInt 20)]
            ∧ s.shared.db.outbox.map (userIdOf ·.payload) = [some fractional.userId]
            ∧ ¬∃ outbox, outbox.Perm s.shared.db.outbox
              ∧ List.Forall₂ (fun c o => c.issued.AnnouncedBy o.record) s.shared.db.coupons
                  outbox := by
  refine ⟨parse_fractional, ?_⟩
  obtain ⟨s, hrun, hs⟩ := Machine.exists_run_of_exec (calls 1).machine (fun _ _ => true)
    (fun _ _ => True) (fun _ _ _ => trivial) issueFractional (init lastCoupon)
    (fun s => s.shared.db.coupons.map (·.pair) == [(.ofInt 1, .ofInt 20)]
      && s.shared.db.outbox.map (·.payload) == [Json.stringifyValue
        (toResultPayload fractional .success (some "AAAAAAAAAAAA") 5)])
    (by decide +kernel)
  simp only [Bool.and_eq_true, beq_iff_eq] at hs
  obtain ⟨o, ho, hpayload⟩ := List.map_eq_singleton_iff.mp hs.2
  obtain ⟨c, hc, hpair⟩ := List.map_eq_singleton_iff.mp hs.1
  have huser := userIdOf_toResultPayload fractional .success (some "AAAAAAAAAAAA") 5
  rw [← hpayload] at huser
  refine ⟨s, hrun, hs.1, by rw [ho, List.map_singleton, huser]; rfl, ?_⟩
  rintro ⟨outbox, hperm, hannounced⟩
  rw [ho, List.perm_singleton] at hperm
  rw [hperm, hc] at hannounced
  have hcoupon := userIdOf_announced (List.forall₂_cons.mp hannounced).1
  rw [OutboxEvent.record, huser] at hcoupon
  have hone : c.userId = .ofInt 1 := congrArg Prod.fst hpair
  simp only [UserCoupon.issued, hone] at hcoupon
  exact absurd (congrArg (Option.any isIntegral) hcoupon) (by decide +kernel)

end Outbox

section AllOrNothing

variable {batchSize : Nat} {db : Db} {t : State} {i : Nat} {p : Process}
variable {l : List (Tables × Tables)}

/-- No commit of `process` is reported as failed after it has taken effect. -/
def FaithfulCommits (s : State) : Act → Prop
  | .step i (.fail true _) =>
    ∀ p check, s.calls[i]? = some (.process p) → p.pc ≠ .commit check
  | _ => True

/-- There is a coupon of the pair of the request, and an outbox row that announces it. -/
def Settles (db : Db) (request : Request) : Prop :=
  ∃ c ∈ db.coupons, .num c.userId = request.userId ∧ .num c.couponTypeId = request.couponTypeId
    ∧ ∃ o ∈ db.outbox, c.issued.AnnouncedBy o.record

structure Request.IsPayload (r : Request) (payload : CouponIssueRequestPayload) : Prop where
  requestId : r.requestId = payload.requestId
  userId : r.userId = .num payload.userId
  eventId : r.eventId = .num payload.eventId
  couponTypeId : r.couponTypeId = .num payload.couponTypeId

theorem Request.isPayload_declared {r : Request} (h : r.IsDeclared) : r.IsPayload r.declared :=
  ⟨rfl, eq_num_stored h.userId, eq_num_stored h.eventId, eq_num_stored h.couponTypeId⟩

theorem settles_of_declared {r : Request} (h : r.IsDeclared) (hsettles : db.Settles r.declared)
    : Settles db r := by
  obtain ⟨c, hc, hpair, hannounced⟩ := hsettles
  have huser : c.userId = r.declared.userId := congrArg Prod.fst hpair
  have htype : c.couponTypeId = r.declared.couponTypeId := congrArg Prod.snd hpair
  refine ⟨c, hc, ?_, ?_, hannounced⟩
  . rw [huser, (Request.isPayload_declared h).userId]
  . rw [htype, (Request.isPayload_declared h).couponTypeId]

theorem faithfulCommits_declared {a : Act} (h : FaithfulCommits t a)
    : ServerC.FaithfulCommits (t.map Call.declared) (a.map Call.declared) := by
  unfold FaithfulCommits at h
  split at h
  . next i now =>
    intro p check hp
    simp only [Calls.State.map, List.getElem?_map, Option.map_eq_some_iff] at hp
    obtain ⟨c, hc, hdeclared⟩ := hp
    cases c with
    | process q =>
      injection hdeclared with hdeclared
      subst hdeclared
      exact h q check hc
    | redeem r => contradiction
    | poll pc => contradiction
  . next hne =>
    cases a with
    | step i x =>
      cases x with
      | fail executed now =>
        cases executed with
        | true => exact absurd rfl (hne i now)
        | false => trivial
      | _ => trivial
    | _ => trivial

/--
A call that throws has changed nothing, a call that returns has settled its pair and has changed
nothing but that, and no failure after the commit makes the call throw.
-/
theorem process_all_or_nothing (hwf : db.Wf) (hannounced : db.Announced)
    (h : Calls.Changes (calls batchSize) (fun s a => FaithfulCommits s a ∧ DeclaredRequests s a)
      (·.db.tables) i (init db) t l)
    (hi : t.calls[i]? = some (.process p))
    : (∀ e, p.pc = .thrown e → l = [])
        ∧ (p.pc = .returned
          → Settles t.shared.db p.request
            ∧ ∃ payload, p.request.IsPayload payload ∧ (l = [] ∨ IsIssue payload l))
        ∧ (p.pc.isOpen = false
          → ∀ x σ' p', p.step t.shared x = some (σ', p') → ∀ e, p'.pc ≠ .thrown e) := by
  obtain ⟨hchanges, hdeclared⟩ : Calls.Changes (ServerC.calls batchSize) ServerC.FaithfulCommits
        (·.db.tables) i (ServerC.init db) (t.map Call.declared) l
      ∧ ∀ c ∈ t.calls, c.IsDeclared :=
    (embeds batchSize).changes (fun c hc => by contradiction) (fun _ _ h => h.2)
      (fun _ _ _ h => faithfulCommits_declared h.1) h
  have hp : p.request.IsDeclared := hdeclared _ (List.mem_of_getElem? hi)
  have hi' : (t.map Call.declared).calls[i]? = some (.process p.declared) := by
    simp only [Calls.State.map, List.getElem?_map, hi]
    rfl
  obtain ⟨hthrown, hreturned, hafter⟩ := all_or_nothing hwf hannounced hchanges hi'
  refine ⟨hthrown, ?_, ?_⟩
  . intro hpc
    obtain ⟨hsettles, hissue⟩ := hreturned hpc
    exact ⟨settles_of_declared hp hsettles, p.request.declared, Request.isPayload_declared hp, hissue⟩
  . intro hpc x σ' p' hstep e
    have hstep' := Process.step_declared (σ := t.shared) hp x
    rw [hstep] at hstep'
    exact hafter hpc x σ' p'.declared hstep'.symm e

def isFaithful (_ : State) : Act → Bool
  | .step _ (.fail true _) => false
  | _ => true

theorem faithfulCommits_of_isFaithful (s : State) (a : Act) (h : isFaithful s a = true)
    : FaithfulCommits s a := by
  unfold isFaithful at h
  split at h
  . contradiction
  . next hne =>
    unfold FaithfulCommits
    split
    . next i now => exact absurd rfl (hne i now)
    . trivial

def isAllowed (s : State) (a : Act) : Bool :=
  isFaithful s a && startsDeclared s a

theorem allowed_of_isAllowed (s : State) (a : Act) (h : isAllowed s a = true)
    : FaithfulCommits s a ∧ DeclaredRequests s a := by
  unfold isAllowed at h
  rw [Bool.and_eq_true] at h
  exact ⟨faithfulCommits_of_isFaithful s a h.1, declaredRequests_of_startsDeclared s a h.2⟩

def Call.hasReturned : Call → Bool
  | process ⟨_, _, .returned⟩ => true
  | _ => false

/--
Two users race for the last coupon, and the cache write of the first one fails: it returns.
-/
theorem process_all_or_nothing_race
    : ∃ t l p, Calls.Changes (calls 1) (fun s a => FaithfulCommits s a ∧ DeclaredRequests s a)
          (·.db.tables) 0 (init lastCoupon) t l
        ∧ t.calls[0]? = some (.process p)
        ∧ Settles t.shared.db p.request
        ∧ ∃ payload, p.request.IsPayload payload ∧ (l = [] ∨ IsIssue payload l) := by
  obtain ⟨t, hrun, ht⟩ := Machine.exists_run_of_exec (calls 1).machine isAllowed
    (fun s a => FaithfulCommits s a ∧ DeclaredRequests s a) allowed_of_isAllowed
    (race first second ++ [.step 0 (okAt 6), .step 0 (.fail false 6)])
    (init lastCoupon) (fun t => t.calls[0]?.any Call.hasReturned) (by decide +kernel)
  obtain ⟨l, hl⟩ : ∃ l, Calls.Changes (calls 1)
      (fun s a => FaithfulCommits s a ∧ DeclaredRequests s a) (·.db.tables) 0 (init lastCoupon) t l :=
    Calls.exists_changes hrun
  obtain ⟨c, hc, hreturned⟩ := (Option.any_eq_true ..).mp ht
  unfold Call.hasReturned at hreturned
  split at hreturned
  . exact ⟨t, l, _, hl, hc, (process_all_or_nothing lastCoupon_wf .nil hl hc).2.1 rfl⟩
  . contradiction

theorem Request.eq_of_stringifyValue {r q : Request} (hr : r.js.isFinite = true)
    (hq : q.js.isFinite = true) (h : Json.stringifyValue r.js = Json.stringifyValue q.js)
    : r = q := by
  have hparse := congrArg Json.parse h
  rw [Json.parse_stringifyValue, Json.parse_stringifyValue, (Json.wire_eq_self_iff _).mpr hr,
    (Json.wire_eq_self_iff _).mpr hq, Option.some.injEq] at hparse
  cases r
  cases q
  cases hparse
  rfl

def Call.hasReturnedFor (request : Request) : Call → Bool
  | process ⟨r, _, .returned⟩ =>
    r.js.isFinite && Json.stringifyValue r.js == Json.stringifyValue request.js
  | _ => false

/--
The call for user 1.4 has returned, and there is no coupon of that user.
-/
theorem process_mistyped
    : CouponIssueRequestConsumer.parse (some (Json.stringifyValue fractional.js))
          = some fractional.js
        ∧ ∃ t l p, Calls.Changes (calls 1) FaithfulCommits (·.db.tables) 0 (init lastCoupon) t l
            ∧ t.calls[0]? = some (.process p)
            ∧ p.request = fractional
            ∧ p.pc = .returned
            ∧ t.shared.db.coupons.map (·.pair) = [(.ofInt 1, .ofInt 20)]
            ∧ ¬Settles t.shared.db p.request := by
  refine ⟨parse_fractional, ?_⟩
  obtain ⟨t, hrun, ht⟩ := Machine.exists_run_of_exec (calls 1).machine isFaithful
    FaithfulCommits faithfulCommits_of_isFaithful issueFractional (init lastCoupon)
    (fun t => t.calls[0]?.any (Call.hasReturnedFor fractional)
      && t.shared.db.coupons.map (·.pair) == [(.ofInt 1, .ofInt 20)])
    (by decide +kernel)
  rw [Bool.and_eq_true, beq_iff_eq] at ht
  obtain ⟨l, hl⟩ : ∃ l, Calls.Changes (calls 1) FaithfulCommits (·.db.tables) 0 (init lastCoupon) t l :=
    Calls.exists_changes hrun
  obtain ⟨c, hc, hreturned⟩ := (Option.any_eq_true ..).mp ht.1
  unfold Call.hasReturnedFor at hreturned
  split at hreturned
  . next r tx =>
    rw [Bool.and_eq_true, beq_iff_eq] at hreturned
    have hrequest := Request.eq_of_stringifyValue hreturned.1 (q := fractional) rfl hreturned.2
    refine ⟨t, l, _, hl, hc, hrequest, rfl, ht.2, ?_⟩
    rintro ⟨coupon, hcoupon, huser, _⟩
    have hpair := List.mem_map_of_mem (f := (·.pair)) hcoupon
    rw [ht.2, List.mem_singleton] at hpair
    have hone : coupon.userId = .ofInt 1 := congrArg Prod.fst hpair
    rw [hone, hrequest] at huser
    have hkind : isIntegral (.num (.ofInt 1)) = isIntegral fractional.userId :=
      congrArg isIntegral huser
    exact absurd hkind (by decide +kernel)
  . contradiction

end AllOrNothing

end ServerC.Untyped
