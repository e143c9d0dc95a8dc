import CouponIssuance.ServerB.Accepted
import CouponIssuance.ServerB.Lemmas.Sweep
import CouponIssuance.System.Services

/-!
This module contains what the hashes of server-b say about coupons: what they record as issued or as
sold out has been committed by server-c.
-/

namespace System.Services

open Concurrency ServerB Redis.Server

def HasRow (db : ServerC.Db) (p : Pair) (q : ServerC.Issued → Prop) : Prop :=
  ∃ i ∈ db.coupons.map (·.issued), (i.userId, i.couponTypeId) = p ∧ q i

def Witnessed (db : ServerC.Db) (p : Pair) (result : UserCouponLookupResult) : Prop :=
  HasRow db p fun i =>
    Deliver.mapStatus i.status = Sweep.mapStatus result.status ∧ i.code = result.code

structure Justified (db : ServerC.Db) (m : Mark) : Prop where
  status : HasRow db m.pair fun i => Deliver.mapStatus i.status = m.status
  code : ∀ code, m.code = some code ∨ m.pc = .hsetCode code
    → HasRow db m.pair fun i => i.code = code

structure GivesUp (m : Mark) : Prop where
  status : m.status = .failed
  code : ∀ code, ¬(m.code = some code ∨ m.pc = .hsetCode code)

def givesUp : Call → Bool
  | .sweep s =>
    match s.pc with
    | .markResult _ gaveUp _ => gaveUp
    | _ => false
  | _ => false

/-- The flow writes nothing but the truth, except that the scheduler gives up. -/
def Honest (db : ServerC.Db) : Call → Prop
  | .accept _ => True
  | .sweep s =>
    ∀ m gaveUp stale, s.pc = .markResult m gaveUp stale
      → if gaveUp then GivesUp m else Justified db m
  | .deliver d =>
    (∀ payload, Deliver.parse d.value = some payload → Justified db (Deliver.mark payload))
      ∧ ∀ payload n m, d.pc = .markResult payload n m
        → Deliver.parse d.value = some payload ∧ m.pair = (Deliver.mark payload).pair
          ∧ m.status = (Deliver.mark payload).status ∧ Justified db m

/-- What the hash of the pair says has been committed. -/
structure Truthful (db : ServerC.Db) (redis : Redis) (p : Pair) : Prop where
  status : ∀ status : IssuePendingStatus, redis.get p.hashKey .status = some status.text
    → status = .pending ∨ status = .failed
      ∨ HasRow db p fun i => Deliver.mapStatus i.status = status
  code : ∀ code, redis.get p.hashKey .code = some code → HasRow db p fun i => i.code = code

section Rows

variable {db db' : ServerC.Db} {p : Pair} {q q' : ServerC.Issued → Prop}

theorem HasRow.imp (h : HasRow db p q) (himp : ∀ i, q i → q' i) : HasRow db p q' := by
  obtain ⟨i, hi, hp, hq⟩ := h
  exact ⟨i, hi, hp, himp i hq⟩

theorem HasRow.mono (hextends : db.coupons.map (·.issued) <+: db'.coupons.map (·.issued))
    (h : HasRow db p q)
    : HasRow db' p q := by
  obtain ⟨i, hi, hq⟩ := h
  exact ⟨i, hextends.subset hi, hq⟩

theorem hasRow_iff
    : HasRow db p q ↔ ∃ row ∈ db.coupons, row.pair = p ∧ q row.issued := by
  unfold HasRow
  constructor
  . rintro ⟨i, hi, hp, hq⟩
    obtain ⟨row, hrow, rfl⟩ := List.mem_map.mp hi
    exact ⟨row, hrow, hp, hq⟩
  . rintro ⟨row, hrow, hp, hq⟩
    exact ⟨row.issued, List.mem_map_of_mem hrow, hp, hq⟩

theorem Justified.mono (hextends : db.coupons.map (·.issued) <+: db'.coupons.map (·.issued))
    {m : Mark} (h : Justified db m)
    : Justified db' m := by
  refine ⟨h.status.mono hextends, ?_⟩
  intro code hcode
  exact (h.code code hcode).mono hextends

theorem Honest.mono (hextends : db.coupons.map (·.issued) <+: db'.coupons.map (·.issued))
    {c : Call} (h : Honest db c)
    : Honest db' c := by
  cases c with
  | accept a => trivial
  | sweep s =>
    intro m gaveUp stale hpc
    have hm := h m gaveUp stale hpc
    split at hm
    . next hgaveUp => rw [if_pos hgaveUp]; exact hm
    . next hgaveUp => rw [if_neg hgaveUp]; exact hm.mono hextends
  | deliver d =>
    refine ⟨fun payload hparse => (h.1 payload hparse).mono hextends, ?_⟩
    intro payload n m hpc
    obtain ⟨hparse, hpair, hstatus, hm⟩ := h.2 payload n m hpc
    exact ⟨hparse, hpair, hstatus, hm.mono hextends⟩

theorem Truthful.mono (hextends : db.coupons.map (·.issued) <+: db'.coupons.map (·.issued))
    {redis : Redis} (h : Truthful db redis p)
    : Truthful db' redis p := by
  constructor
  . intro status hstatus
    exact (h.status status hstatus).imp_right fun h => h.imp_right fun hrow => hrow.mono hextends
  . intro code hcode
    exact (h.code code hcode).mono hextends

end Rows

section Sources

variable {db : ServerC.Db} {config : Config}

theorem witnessed_of_findOne {userId couponTypeId : JsNumber}
    {result : UserCouponLookupResult}
    (h : UserCouponClient.findOne db userId couponTypeId = some (some result))
    : Witnessed db (userId, couponTypeId) result := by
  unfold UserCouponClient.findOne ServerC.findOne at h
  rw [ServerC.parseLong_render, ServerC.parseLong_render] at h
  split at h
  . split at h
    . simp only [Option.bind_eq_bind, Option.bind_some, Option.pure_def, Option.map_some,
        Option.some.injEq, Option.map_map, Option.map_eq_some_iff] at h
      obtain ⟨row, hfind, rfl⟩ := h
      unfold ServerC.Db.findByUserIdAndCouponTypeId at hfind
      have hpair := List.find?_some hfind
      refine hasRow_iff.mpr ⟨row, List.mem_of_find?_eq_some hfind, beq_iff_eq.mp hpair, ?_, rfl⟩
      change Deliver.mapStatus row.status.issued = Sweep.mapStatus row.status.text
      rw [mapStatus_text, mapStatus_issued]
    . simp at h
  . simp at h

theorem Justified.next {m m' : Mark} (h : Justified db m) (hnext : m.next = some m')
    : Justified db m' := by
  obtain ⟨hpair, hstatus, _⟩ := Mark.next_spec hnext
  constructor
  . rw [hpair, hstatus]
    exact h.status
  . intro code hcode
    rw [hpair]
    exact h.code code (Or.inl (Mark.code_of_next hnext hcode))

theorem GivesUp.next {m m' : Mark} (h : GivesUp m) (hnext : m.next = some m') : GivesUp m' := by
  constructor
  . rw [(Mark.next_spec hnext).2.1]
    exact h.status
  . intro code hcode
    exact h.code code (Or.inl (Mark.code_of_next hnext hcode))

theorem Justified.of_witnessed {p : Pair} {result : UserCouponLookupResult}
    (h : Witnessed db p result)
    : Justified db (markResult p.1 p.2 (Sweep.mapStatus result.status) (some result.code)) := by
  refine ⟨h.imp fun i hi => hi.1, ?_⟩
  intro code hcode
  rcases hcode with hcode | hcode
  . exact h.imp fun i hi => hi.2.trans (Option.some.inj hcode)
  . contradiction

theorem Justified.of_announces {v : ServerC.View} {m : String × String}
    {payload : CouponIssueResultPayload} (hwf : v.db.Wf) (hannounces : v.Announces m)
    (hparse : Deliver.parse m.2 = some payload)
    : Justified v.db (Deliver.mark payload) := by
  obtain ⟨i, hi, r, ⟨processedAt, hpayload⟩, rfl⟩ := hannounces
  obtain ⟨row, hrow, rfl⟩ := List.mem_map.mp hi
  obtain ⟨huser, hevent, htype⟩ := hwf.bigint row hrow
  change Deliver.parse r.payload = some payload at hparse
  rw [hpayload, Deliver.parse_stringify (row.issued.payload r.aggregateId processedAt)
    (JsNumber.isDecimal_of_isBigint huser).1 (JsNumber.isDecimal_of_isBigint hevent).1
    (JsNumber.isDecimal_of_isBigint htype).1 couponCode_of_success, Option.some.injEq] at hparse
  subst hparse
  refine ⟨⟨row.issued, hi, rfl, rfl⟩, ?_⟩
  intro code hcode
  refine ⟨row.issued, hi, rfl, ?_⟩
  rcases hcode with hcode | hcode
  . change row.issued.couponCode = some code at hcode
    unfold ServerC.Issued.couponCode at hcode
    split at hcode
    . exact Option.some.inj hcode
    . contradiction
  . contradiction

theorem Honest.start {value : String}
    (h : ∀ payload, Deliver.parse value = some payload → Justified db (Deliver.mark payload))
    : Honest db (.deliver ⟨value, Deliver.start config value⟩) := by
  refine ⟨h, ?_⟩
  intro payload n m hpc
  unfold Deliver.start at hpc
  split at hpc
  . contradiction
  . next payload' hparse =>
    rcases Deliver.attempt_cases config payload' 1 with heq | heq
    . rw [heq] at hpc
      cases hpc
      exact ⟨hparse, rfl, rfl, h _ hparse⟩
    . rw [heq] at hpc
      contradiction

theorem Honest.moves_sweep {σ σ' : ServerB.Shared} {s : Sweep} {x : Input} {pc : SweepPc}
    (h : Honest db (.sweep s))
    (hanswer : ∀ pending stale r, s.pc = .lookup pending stale → x = .answer (some r)
      → Witnessed db pending.pair r)
    (hmoves : s.Moves config σ σ' x pc)
    : Honest db (.sweep (s.goto pc)) := by
  have hnone : (Call.sweep (s.goto pc)).mark? = none → Honest db (.sweep (s.goto pc)) := by
    intro hnone m gaveUp stale hpc
    change pc = .markResult m gaveUp stale at hpc
    simp [Call.mark?, Sweep.goto, hpc] at hnone
  cases hmoves with
  | listed hpc hredis => exact hnone (SweepPc.mark_scan s _ _)
  | orphan userId couponTypeId member members result hpc hredis hhash => exact hnone rfl
  | skipped userId couponTypeId member members result hash hpc hredis hhash hread =>
    exact hnone (SweepPc.mark_scan s _ _)
  | read userId couponTypeId member members result hash pending hpc hredis hhash hread =>
    exact hnone (SweepPc.mark_scan s _ _)
  | removed member members result hpc hredis => exact hnone (SweepPc.mark_scan s _ _)
  | synced pending stale result hpc hredis =>
    intro m gaveUp stale' hm
    cases hm
    exact .of_witnessed (hanswer pending stale result hpc rfl)
  | republishes pending stale hpc hredis hlt => exact hnone rfl
  | givesUp pending stale hpc hredis hlt =>
    intro m gaveUp stale' hm
    cases hm
    exact ⟨rfl, fun code hcode => by rcases hcode with hcode | hcode <;> contradiction⟩
  | marked mark gaveUp stale reply hpc hexec =>
    have hmark := h mark gaveUp stale hpc
    unfold Sweep.afterMark at hnone ⊢
    split
    . next mark' hnext =>
      intro m gaveUp' stale' hm
      cases hm
      split at hmark
      . next hgaveUp => rw [if_pos hgaveUp]; exact hmark.next hnext
      . next hgaveUp => rw [if_neg hgaveUp]; exact hmark.next hnext
    . next hnext =>
      rw [hnext] at hnone
      exact hnone (SweepPc.mark_visit s stale)
  | bumped pending republish stale reply hpc hexec =>
    apply hnone
    unfold Sweep.afterRepublish
    split
    . rfl
    . split
      . exact SweepPc.mark_visit s stale
      . rfl
  | published x payload stale hpc hredis => exact hnone (SweepPc.mark_visit s stale)
  | abandoned executed hpc hredis => exact hnone rfl
  | given x stale hpc hx hanswer hredis => exact hnone (SweepPc.mark_visit s stale)
  | crashed hredis hpc => exact hnone rfl

theorem Honest.moves_deliver {σ σ' : ServerB.Shared} {d : Deliver} {x : Input} {pc : DeliverPc}
    (h : Honest db (.deliver d)) (hmoves : d.Moves config σ σ' x pc)
    : Honest db (.deliver { d with pc := pc }) := by
  refine ⟨h.1, ?_⟩
  intro payload n m hpc
  cases hmoves with
  | marked payload' n' m' reply hpc' hexec =>
    obtain ⟨hparse, hpair, hstatus, hm⟩ := h.2 payload' n' m' hpc'
    change Deliver.afterMark payload' n' m' = _ at hpc
    unfold Deliver.afterMark at hpc
    split at hpc
    . next hnext =>
      cases hpc
      obtain ⟨hpair', hstatus', _⟩ := Mark.next_spec hnext
      exact ⟨hparse, hpair'.trans hpair, hstatus'.trans hstatus, hm.next hnext⟩
    . contradiction
  | again executed payload' n' m' hpc' =>
    obtain ⟨hparse, _⟩ := h.2 payload' n' m' hpc'
    change Deliver.attempt config payload' (n' + 1) = _ at hpc
    rcases Deliver.attempt_cases config payload' (n' + 1) with heq | heq
    . rw [heq] at hpc
      cases hpc
      exact ⟨hparse, rfl, rfl, h.1 _ hparse⟩
    . rw [heq] at hpc
      contradiction
  | crashed => contradiction

theorem Honest.step {σ σ' : ServerB.Shared} {c c' : Call} {x : Input} (h : Honest db c)
    (hanswer : ∀ p r, c.awaits config = .lookup p.1 p.2 → x = .answer (some r) → Witnessed db p r)
    (hstep : c.step config σ x = some (σ', c'))
    : Honest db c' := by
  cases c with
  | accept a => cases Call.step_spec hstep <;> trivial
  | sweep s =>
    obtain ⟨pc, rfl, hmoves⟩ := Sweep.moves_of_step hstep
    apply h.moves_sweep ?_ hmoves
    intro pending stale r hpc hx
    exact hanswer pending.pair r (by simp [Call.awaits, hpc, PendingIssue.pair]) hx
  | deliver d =>
    obtain ⟨pc, rfl, hmoves⟩ := Deliver.moves_of_step hstep
    exact h.moves_deliver hmoves

theorem Honest.mark {c : Call} {m : Mark} (h : Honest db c) (hm : c.mark? = some m)
    : GivesUp m ∧ givesUp c = true ∨ Justified db m := by
  cases c with
  | accept a => contradiction
  | sweep s =>
    simp only [Call.mark?] at hm
    split at hm
    . next mark gaveUp stale hpc =>
      cases hm
      have hmark := h m gaveUp stale hpc
      split at hmark
      . next hgaveUp => exact Or.inl ⟨hmark, by simp [givesUp, hpc, hgaveUp]⟩
      . exact Or.inr hmark
    . contradiction
  | deliver d =>
    simp only [Call.mark?] at hm
    split at hm
    . next payload n mark hpc =>
      cases hm
      exact Or.inr (h.2 payload n m hpc).2.2.2
    . contradiction

theorem Truthful.exec {c : Call} {command : Command} {redis redis' : Redis} {reply : Reply}
    {p : Pair} (h : Truthful db redis p) (hhonest : Honest db c)
    (hruns : c.Runs config command) (hexec : redis.exec command = some (redis', reply))
    : Truthful db redis' p := by
  constructor
  . intro status hstatus
    rcases hruns.status hexec p with heq | ⟨_, _, _, _, hpending⟩ | ⟨m, hm, hp, _, hmarked⟩
    . rw [heq] at hstatus
      exact h.status status hstatus
    . rw [hpending, Option.some.injEq] at hstatus
      exact Or.inl (IssuePendingStatus.text_injective hstatus).symm
    . rw [hmarked, Option.some.injEq] at hstatus
      have hstatus := IssuePendingStatus.text_injective hstatus
      rw [← hstatus, ← hp]
      right
      rcases hhonest.mark hm with ⟨hgivesUp, _⟩ | hjustified
      . exact Or.inl hgivesUp.status
      . exact Or.inr hjustified.status
  . intro code hcode
    rcases hruns.code hexec p with heq | ⟨m, code', hm, hp, hpc, hmarked⟩
    . rw [heq] at hcode
      exact h.code code hcode
    . rw [hmarked, Option.some.injEq] at hcode
      rw [← hp, ← hcode]
      rcases hhonest.mark hm with ⟨hgivesUp, _⟩ | hjustified
      . exact absurd (Or.inr hpc) (hgivesUp.code code')
      . exact hjustified.code code' (Or.inr hpc)

theorem Truthful.evict {redis redis' : Redis} {key : String} {p : Pair} (h : Truthful db redis p)
    (hevict : redis.evict key = some redis')
    : Truthful db redis' p := by
  obtain ⟨_, hget, _⟩ := evict_spec _ hevict
  constructor
  . intro status hstatus
    rw [hget] at hstatus
    split at hstatus
    . contradiction
    . exact h.status status hstatus
  . intro code hcode
    rw [hget] at hcode
    split at hcode
    . contradiction
    . exact h.code code hcode

end Sources

section Run

variable {config : Config} {batchSize clock : Nat} {ok : State → Act → Prop} {db : ServerC.Db}
variable {s t : State}

def Answered (σ : Shared) : Prop :=
  ∀ lookup r, σ.lookup = some lookup → lookup.answer = some (some r)
    → Witnessed σ.c.shared.db (lookup.userId, lookup.couponTypeId) r

theorem rows_extend (hwf : db.Wf) (hs : (services config batchSize).machine.Run ok (init db clock) s)
    (ht : (services config batchSize).machine.Run ok s t)
    : s.shared.c.shared.db.coupons.map (·.issued) <+: t.shared.c.shared.db.coupons.map (·.issued) :=
  ServerC.issued_extends hwf (serverC_run hs) (serverC_run ht)

theorem lookup_of_ask {lookup : Option Lookup} {await : Await} {l : Lookup}
    (h : Shared.ask lookup await = some l)
    : l.answer = none ∨ lookup = some l := by
  unfold Shared.ask at h
  split at h
  . cases h
    exact Or.inl rfl
  . exact Or.inr h

theorem answered (hwf : db.Wf) (hrun : (services config batchSize).machine.Run ok (init db clock) s)
    : Answered s.shared := by
  refine hrun.invariant_of (K := fun u => (services config batchSize).machine.Run ok (init db clock) u)
    (I := fun u => Answered u.shared) (fun _ hu => hu) ?_ ?_
  . intro lookup r hlookup
    contradiction
  . intro u a v hu _ h hok hnext lookup r hlookup hanswer
    have hextends := rows_extend hwf hu (.single hok hnext)
    cases a with
    | start c =>
      obtain ⟨_, rfl⟩ := Calls.next_start hnext
      exact h lookup r hlookup hanswer
    | step i x =>
      obtain ⟨c, shared, c', _, _, hstep, rfl⟩ := Calls.next_step hnext
      obtain ⟨_, _, hc, hask⟩ := step_spec hstep
      dsimp only at hlookup ⊢
      rw [hask] at hlookup
      rcases lookup_of_ask hlookup with hnone | hlookup
      . rw [hnone] at hanswer
        contradiction
      . rw [hc]
        exact h lookup r hlookup hanswer
    | env e =>
      obtain ⟨shared, henv, rfl⟩ := Calls.next_env (C := services config batchSize) hnext
      cases e with
      | serverB e =>
        obtain ⟨_, _, rfl⟩ := Option.map_eq_some_iff.mp henv
        exact h lookup r hlookup hanswer
      | serverC a =>
        obtain ⟨_, _, rfl⟩ := Option.map_eq_some_iff.mp henv
        exact (h lookup r hlookup hanswer).mono hextends
      | findOne =>
        obtain ⟨_, hc, asked, result, _, hfind, hasked⟩ := findOne_spec henv
        dsimp only at hlookup ⊢
        rw [hasked, Option.some.injEq] at hlookup
        subst hlookup
        rw [hc]
        rw [Option.some.inj hanswer] at hfind
        exact witnessed_of_findOne hfind

theorem honest (hwf : db.Wf) (hannounced : db.Announced)
    (hrun : (services config batchSize).machine.Run ok (init db clock) s)
    : ∀ c ∈ s.calls, Honest s.shared.c.shared.db c := by
  refine Calls.forall_calls (J := fun σ c => Honest σ.c.shared.db c) hrun
    (K := fun u => (services config batchSize).machine.Run ok (init db clock) u) (fun _ hu => hu)
    (by simp [init]) ?_ ?_ ?_
  . intro u c hu _ hstart
    obtain ⟨hstart, hsent⟩ := Bool.and_eq_true_iff.mp hstart
    unfold Call.start at hstart
    split at hstart
    . trivial
    . intro _ _ _ hpc
      contradiction
    . next value pc _ _ =>
      rw [beq_iff_eq] at hstart
      subst hstart
      obtain ⟨m, hm, hvalue⟩ := List.any_eq_true.mp hsent
      rw [beq_iff_eq] at hvalue
      change m.2 = value at hvalue
      subst hvalue
      have hrun' := serverC_run hu
      refine .start fun payload hparse => ?_
      exact .of_announces (ServerC.outline hwf hrun').shared
        (ServerC.topic_announced hwf hannounced hrun' m hm) hparse
    . contradiction
  . intro u i x c σ' c' hu _ _ h hstep
    obtain ⟨hstep, hanswers, hc, _⟩ := step_spec hstep
    rw [hc]
    refine h.step ?_ hstep
    intro p r hawaits hx
    rw [hawaits, hx] at hanswers
    exact answered hwf hu _ r (lookup_of_answers hanswers) rfl
  . intro u a v c hu hok hnext h
    exact h.mono (rows_extend hwf hu (.single hok hnext))

theorem truthful (hwf : db.Wf) (hannounced : db.Announced)
    (hrun : (services config batchSize).machine.Run ok (init db clock) s) (p : Pair)
    : Truthful s.shared.c.shared.db s.shared.b.redis p := by
  refine hrun.invariant_of (K := fun u => (services config batchSize).machine.Run ok (init db clock) u)
    (I := fun u => Truthful u.shared.c.shared.db u.shared.b.redis p) (fun _ hu => hu) ?_ ?_
  . constructor <;> (intro _ h; contradiction)
  . intro u a v hu _ h hok hnext
    have hextends := rows_extend hwf hu (.single hok hnext)
    cases a with
    | start c =>
      obtain ⟨_, rfl⟩ := Calls.next_start hnext
      exact h
    | step i x =>
      obtain ⟨c, shared, c', hi, _, hstep, rfl⟩ := Calls.next_step hnext
      obtain ⟨hstep, _, hc, _⟩ := step_spec hstep
      dsimp only
      rw [hc]
      rcases (Call.step_spec hstep).redis with hredis | ⟨command, reply, hruns, hexec⟩
      . rw [hredis]
        exact h
      . exact h.exec (honest hwf hannounced hu c (List.mem_of_getElem? hi)) hruns hexec
    | env e =>
      obtain ⟨shared, henv, rfl⟩ := Calls.next_env (C := services config batchSize) hnext
      cases e with
      | serverB e =>
        obtain ⟨b, hb, rfl⟩ := Option.map_eq_some_iff.mp henv
        cases e with
        | tick ms =>
          obtain rfl := ServerB.env_tick hb
          exact h
        | expire userId couponTypeId =>
          obtain ⟨redis, hevict, rfl⟩ := ServerB.env_expire hb
          exact h.evict hevict
      | serverC a =>
        obtain ⟨_, _, rfl⟩ := Option.map_eq_some_iff.mp henv
        exact h.mono hextends
      | findOne =>
        obtain ⟨hb, hc, _⟩ := findOne_spec henv
        dsimp only
        rw [hb, hc]
        exact h

def Backed (db : ServerC.Db) (redis : Redis) (p : Pair) (statuses : List ServerC.UserCouponStatus)
    : Prop :=
  ∃ row ∈ db.coupons, row.pair = p ∧ row.status ∈ statuses
    ∧ ∀ code, redis.get p.hashKey .code = some code → code = row.code

theorem Truthful.backed {redis : Redis} {p : Pair} {status : IssuePendingStatus}
    {statuses : List ServerC.UserCouponStatus} (h : Truthful db redis p) (hwf : db.Wf)
    (hstatus : redis.get p.hashKey .status = some status.text)
    (hdecided : status ≠ .pending ∧ status ≠ .failed)
    (hstatuses : ∀ s : ServerC.UserCouponStatus, recoveredStatus s = status → s ∈ statuses)
    : Backed db redis p statuses := by
  have hrow := ((h.status status hstatus).resolve_left hdecided.1).resolve_left hdecided.2
  obtain ⟨row, hmem, hpair, hissued⟩ := hasRow_iff.mp hrow
  refine ⟨row, hmem, hpair, hstatuses _ ((mapStatus_issued _).symm.trans hissued), ?_⟩
  intro code hcode
  obtain ⟨row', hmem', hpair', hcode'⟩ := hasRow_iff.mp (h.code code hcode)
  rw [ServerC.Db.eq_of_map_nodup hwf.pairs hmem hmem' (hpair.trans hpair'.symm)]
  exact hcode'.symm

/--
What Redis says was issued was issued, and what it says was sold out was sold out. A code in the hash
is the code of the coupon of the pair.
-/
theorem recorded_issued (hwf : db.Wf) (hannounced : db.Announced)
    (hrun : (services config batchSize).machine.Run (fun _ _ => True) (init db clock) s) (p : Pair)
    : (s.shared.b.redis.get p.hashKey .status = some IssuePendingStatus.success.text
        → Backed s.shared.c.shared.db s.shared.b.redis p [.success, .used])
      ∧ (s.shared.b.redis.get p.hashKey .status = some IssuePendingStatus.soldOut.text
        → Backed s.shared.c.shared.db s.shared.b.redis p [.soldOut])
      ∧ (∀ code, s.shared.b.redis.get p.hashKey .code = some code
        → ∃ row ∈ s.shared.c.shared.db.coupons, row.pair = p ∧ row.code = code) := by
  have h := truthful hwf hannounced hrun p
  have hwf' := (ServerC.outline hwf (serverC_run hrun)).shared
  refine ⟨?_, ?_, ?_⟩
  . intro hstatus
    apply h.backed hwf' hstatus (by decide)
    intro status hstatus
    cases status <;> simp [recoveredStatus] at hstatus ⊢
  . intro hstatus
    apply h.backed hwf' hstatus (by decide)
    intro status hstatus
    cases status <;> simp [recoveredStatus] at hstatus ⊢
  . intro code hcode
    exact hasRow_iff.mp (h.code code hcode)

def steps (i n : Nat) : List Act :=
  List.replicate n (.step i .ok)

def applications : List Act :=
  .start (newAccept (application "a" 0)) :: .start (newAccept loser) :: (steps 0 5 ++ steps 1 5)

def decisions : List ServerC.Act :=
  ServerC.race
    ++ [.start (.poll .findPending), .step 2 (ServerC.okAt 6), .step 2 (ServerC.okAt 6)]

def announcement : String :=
  Js.Json.stringify (ServerC.toResultPayload (ServerC.issueRequest "a" 1) .success
    (some "AAAAAAAAAAAA") 5).fields

def announced : CouponIssueResultPayload :=
  ServerC.toResultPayload (ServerC.issueRequest "a" 1) .success (some "AAAAAAAAAAAA") 5

theorem start_announcement (config : ServerB.Config) (hconfig : 1 ≤ config.maxDeliveryAttempts)
    : Deliver.start config announcement = .markResult announced 1 (Deliver.mark announced) :=
  Deliver.start_of_parse
    (Deliver.parse_stringify announced rfl rfl rfl fun _ => Option.some_ne_none _) hconfig

def delivery : List Act :=
  .start (.deliver ⟨announcement, Deliver.start defaults announcement⟩) :: steps 2 4

def recovery : List Act :=
  [.env (.serverB (.tick 10000)), .start (newSweep 0), .step 3 .ok, .step 3 .ok, .env .findOne,
    .step 3 (.answer (some ⟨"Xb", "SOLD_OUT"⟩)), .step 3 .ok, .step 3 .ok]

def recordedBoth : List Act :=
  applications ++ decisions.map (.env <| .serverC ·) ++ delivery ++ recovery

theorem recorded_issued_race
    : ∃ s, (services defaults 2).machine.Run (fun _ _ => True) (init ServerC.lastCoupon 0) s
        ∧ Backed s.shared.c.shared.db s.shared.b.redis (application "a" 0).pair [.success, .used]
        ∧ Backed s.shared.c.shared.db s.shared.b.redis loser.pair [.soldOut]
        ∧ s.shared.b.redis.get (Pair.hashKey loser.pair) .code = some "Xb" := by
  obtain ⟨s, hrun, hs⟩ := Machine.exists_run_of_exec (services defaults 2).machine (fun _ _ => true)
    (fun _ _ => True) (fun _ _ _ => trivial) recordedBoth (init ServerC.lastCoupon 0)
    (fun s => s.shared.b.redis.get (Pair.hashKey (application "a" 0).pair) .status
          == some IssuePendingStatus.success.text
      && s.shared.b.redis.get (Pair.hashKey loser.pair) .status
          == some IssuePendingStatus.soldOut.text
      && s.shared.b.redis.get (Pair.hashKey loser.pair) .code == some "Xb")
    (by
      have hstart := start_announcement defaults (by decide)
      simp only [recordedBoth, delivery, hstart, List.append_assoc, Machine.exec_append,
        exec_start hstart]
      decide +kernel)
  simp only [Bool.and_eq_true, beq_iff_eq] at hs
  obtain ⟨⟨hsuccess, hsoldOut⟩, hcode⟩ := hs
  have hissued := recorded_issued ServerC.lastCoupon_wf .nil hrun
  exact ⟨s, hrun, (hissued (application "a" 0).pair).1 hsuccess, (hissued loser.pair).2.1 hsoldOut,
    hcode⟩

end Run

end System.Services
