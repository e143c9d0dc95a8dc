import CouponIssuance.ServerC.Lemmas.Moves
import CouponIssuance.ServerC.Lemmas.Untyped

/-!
This module contains what the outbox rows say in terms of the requests, whatever the types of their
ids: each of them is the result of one outcome of `process`, for ids that the database has taken.
-/

open Js Concurrency

namespace ServerC.Untyped

/--
`payload` is what one outcome of `process` writes into the outbox.
-/
structure IsResult (request : Request) (status : CouponIssueResultStatus) (code : Option String)
    (now : Int) (payload : String) : Prop where
  code_isSome : status = .success ↔ code.isSome = true
  userId : fits request.userId = true
  eventId : fits request.eventId = true
  couponTypeId : fits request.couponTypeId = true
  payload : payload = Json.stringifyValue (toResultPayload request status code now)

def HaveResults (db : Db) (requests : List (Option Request)) : Prop :=
  ∀ o ∈ db.outbox, ∃ request, some request ∈ requests
    ∧ ∃ status code now, IsResult request status code now o.payload

def WritesResults (request : Request) (tx : Tx) : Prop :=
  ∀ o, .insertOutbox o ∈ tx.writes → ∃ status code now, IsResult request status code now o.payload

def Knows (request : Request) : ProcessPc → Prop
  | .insert _ status code => status = .success ↔ code.isSome = true
  | .append _ status code =>
    (status = .success ↔ code.isSome = true) ∧ fits request.userId = true
      ∧ fits request.eventId = true ∧ fits request.couponTypeId = true
  | _ => True

structure Process.Local (p : Process) : Prop where
  writes : WritesResults p.request p.tx
  knows : Knows p.request p.pc

def Call.request? : Call → Option Request
  | process p => some p.request
  | _ => none

def Call.Local : Call → Prop
  | process p => p.Local
  | redeem r => ∀ o, .insertOutbox o ∉ r.tx.writes
  | poll _ => True

section Step

variable {db : Db} {σ σ' : Shared} {x : Input} {request : Request} {tx : Tx}

theorem WritesResults.empty (request : Request) : WritesResults request .empty := by
  intro o ho
  contradiction

theorem WritesResults.write (h : WritesResults request tx) {w : Write}
    (hw : ∀ o, w = .insertOutbox o → ∃ status code now, IsResult request status code now o.payload)
    : WritesResults request (tx.write w) := by
  intro o ho
  rcases List.mem_append.mp ho with ho | ho
  . exact h o ho
  . exact hw o (List.mem_singleton.mp ho).symm

theorem mem_outbox_commit {writes : List Write} {o : OutboxEvent}
    (ho : o ∈ (db.commit writes).outbox)
    : o ∈ db.outbox ∨ .insertOutbox o ∈ writes := by
  induction writes generalizing db with
  | nil => exact Or.inl ho
  | cons w writes ih =>
    rcases ih ho with ho | ho
    . cases w with
      | insertOutbox row =>
        rcases List.mem_append.mp ho with ho | ho
        . exact Or.inl ho
        . rw [List.mem_singleton.mp ho]
          exact Or.inr (List.mem_cons_self ..)
      | _ => exact Or.inl ho
    . exact Or.inr (List.mem_cons_of_mem _ ho)

namespace Process

variable {p p' : Process}

theorem Local.goto (h : p.Local) {pc : ProcessPc} (hpc : Knows p.request pc)
    : (p.goto pc).Local :=
  ⟨h.writes, hpc⟩

theorem local_abort {pc : ProcessPc} (hpc : Knows p.request pc) : (p.abort pc).Local :=
  ⟨.empty _, hpc⟩

structure Keeps (σ σ' : Shared) (p p' : Process) : Prop where
  request : p'.request = p.request
  known : p'.Local
  outbox : ∀ o ∈ σ'.db.outbox, o ∈ σ.db.outbox ∨ .insertOutbox o ∈ p.tx.writes

theorem Keeps.goto (h : p.Local) {pc : ProcessPc} (hpc : Knows p.request pc)
    (hσ : σ'.db.outbox = σ.db.outbox)
    : Keeps σ σ' p (p.goto pc) :=
  ⟨rfl, h.goto hpc, fun _ ho => Or.inl (hσ ▸ ho)⟩

theorem Keeps.abort {pc : ProcessPc} (hpc : Knows p.request pc)
    (hσ : σ'.db.outbox = σ.db.outbox)
    : Keeps σ σ' p (p.abort pc) :=
  ⟨rfl, local_abort hpc, fun _ ho => Or.inl (hσ ▸ ho)⟩

theorem Keeps.commit {pc : ProcessPc} (hpc : Knows p.request pc)
    : Keeps σ { σ with db := σ.db.commit p.tx.writes } p (p.abort pc) :=
  ⟨rfl, local_abort hpc, fun _ ho => mem_outbox_commit ho⟩

theorem keeps_insert {now now' : Int} {draws : Fin 12 → Fin 32} {status : CouponIssueResultStatus}
    {code : Option String} (h : p.Local) (hpc : p.pc = .insert now' status code)
    (hstep : p.step σ (.ok now draws) = some (σ', p'))
    : Keeps σ σ' p p' := by
  have hknows := h.knows
  unfold step at hstep
  rw [hpc] at hstep hknows
  dsimp only at hstep
  split at hstep
  . cases hstep
    exact .abort trivial rfl
  . next hfits =>
    simp only [Bool.not_eq_true', Bool.not_eq_false, Bool.and_eq_true] at hfits
    split at hstep
    . cases hstep
      exact .abort trivial rfl
    . cases hstep
      exact .abort trivial rfl
    . cases hstep
      exact .abort trivial rfl
    . cases hstep
      refine ⟨rfl, ⟨?_, hknows, hfits.1.1, hfits.1.2, hfits.2⟩, fun _ ho => Or.inl ho⟩
      exact WritesResults.write h.writes fun o ho => by contradiction

theorem keeps_append {now now' : Int} {draws : Fin 12 → Fin 32} {status : CouponIssueResultStatus}
    {code : Option String} (h : p.Local) (hpc : p.pc = .append now' status code)
    (hstep : p.step σ (.ok now draws) = some (σ', p'))
    : Keeps σ σ' p p' := by
  have hknows := h.knows
  unfold step at hstep
  rw [hpc] at hstep hknows
  dsimp only at hstep
  split at hstep
  . cases hstep
    exact .abort trivial rfl
  . cases hstep
    refine ⟨rfl, ⟨?_, trivial⟩, fun _ ho => Or.inl ho⟩
    refine WritesResults.write h.writes ?_
    intro o ho
    injection ho with ho
    subst ho
    exact ⟨status, code, now', hknows.1, hknows.2.1, hknows.2.2.1, hknows.2.2.2, rfl⟩

theorem keeps_of_ok {now : Int} {draws : Fin 12 → Fin 32} (h : p.Local)
    (hstep : p.step σ (.ok now draws) = some (σ', p'))
    : Keeps σ σ' p p' := by
  cases hpc : p.pc with
  | insert now' status code => exact keeps_insert h hpc hstep
  | append now' status code => exact keeps_append h hpc hstep
  | existsByUserIdAndCouponTypeId =>
    unfold step at hstep
    rw [hpc] at hstep
    dsimp only at hstep
    split at hstep <;> (cases hstep; exact .goto h trivial rfl)
  | findEvent =>
    unfold step at hstep
    rw [hpc] at hstep
    dsimp only at hstep
    split at hstep
    . cases hstep
      exact .abort trivial rfl
    . split at hstep
      . cases hstep
        exact .goto h trivial rfl
      . cases hstep
        exact .goto h (by simp [Knows]) rfl
  | findForUpdate now' =>
    unfold step at hstep
    rw [hpc] at hstep
    dsimp only at hstep
    split at hstep
    . cases hstep
      exact .abort trivial rfl
    . split at hstep
      . cases hstep
        exact ⟨rfl, ⟨h.writes, by simp [Knows, goto]⟩, fun _ ho => Or.inl ho⟩
      . cases hstep
        exact ⟨rfl, ⟨h.writes, trivial⟩, fun _ ho => Or.inl ho⟩
  | updateAvailableCount now' inventory =>
    unfold step at hstep
    rw [hpc] at hstep
    cases hstep
    refine ⟨rfl, ⟨?_, by simp [Knows, goto]⟩, fun _ ho => Or.inl ho⟩
    exact WritesResults.write h.writes fun o ho => by contradiction
  | commit check =>
    unfold step at hstep
    rw [hpc] at hstep
    cases hstep
    refine .commit ?_
    cases check <;> trivial
  | freshRead =>
    unfold step at hstep
    rw [hpc] at hstep
    dsimp only at hstep
    split at hstep <;> (cases hstep; exact .goto h trivial rfl)
  | markSoldOut =>
    unfold step at hstep
    rw [hpc] at hstep
    cases hstep
    exact .goto h trivial rfl
  | _ =>
    unfold step at hstep
    rw [hpc] at hstep
    contradiction

theorem keeps_of_fail {executed : Bool} {now : Int} (h : p.Local)
    (hstep : p.step σ (.fail executed now) = some (σ', p'))
    : Keeps σ σ' p p' := by
  unfold step at hstep
  dsimp only at hstep
  split at hstep
  . split at hstep
    . cases hstep
      exact .commit trivial
    . cases hstep
      exact .abort trivial rfl
  . cases hstep
    exact .goto h trivial rfl
  . cases hstep
    exact .goto h trivial rfl
  . contradiction
  . contradiction
  . contradiction
  . cases hstep
    exact .abort trivial rfl

theorem keeps (h : p.Local) (hstep : p.step σ x = some (σ', p')) : Keeps σ σ' p p' := by
  cases x with
  | ok now draws => exact keeps_of_ok h hstep
  | fail executed now => exact keeps_of_fail h hstep
  | crash =>
    unfold step at hstep
    dsimp only at hstep
    split at hstep
    . contradiction
    . contradiction
    . contradiction
    . cases hstep
      exact .abort trivial rfl

end Process

theorem redeem_writes {r r' : Redeem} (h : ∀ o, .insertOutbox o ∉ r.tx.writes)
    (hmoves : r.Moves σ σ' x r')
    : (∀ o, .insertOutbox o ∉ r'.tx.writes) ∧ ∀ o ∈ σ'.db.outbox, o ∈ σ.db.outbox := by
  have hempty : ∀ o, Write.insertOutbox o ∉ Tx.empty.writes := fun o ho => by contradiction
  have hcommit : ∀ o ∈ (σ.db.commit r.tx.writes).outbox, o ∈ σ.db.outbox := by
    intro o ho
    rcases mem_outbox_commit ho with ho | ho
    . exact ho
    . exact absurd ho (h o)
  cases hmoves with
  | aborted x pc hpc hσ hend => exact ⟨hempty, fun o ho => hσ ▸ ho⟩
  | replayed now draws coupon usedAt hpc hσ _ _ => exact ⟨h, fun o ho => hσ ▸ ho⟩
  | read now draws coupon hpc hσ _ _ => exact ⟨h, fun o ho => hσ ▸ ho⟩
  | hit now now' draws coupon hpc hσ _ =>
    refine ⟨fun o ho => ?_, fun o ho => hσ ▸ ho⟩
    rcases List.mem_append.mp ho with ho | ho
    . exact h o ho
    . exact absurd (List.mem_singleton.mp ho) (by simp)
  | committed now draws result hpc hσ =>
    subst hσ
    exact ⟨hempty, hcommit⟩
  | lost now result hpc hσ =>
    subst hσ
    exact ⟨hempty, hcommit⟩

theorem poll_outbox {batchSize : Nat} {pc pc' : PollPc}
    (hstep : pc.step batchSize σ x = some (σ', pc'))
    : σ'.db = σ.db ∨ ∃ ids publishedAt, σ'.db = σ.db.markPublished ids publishedAt := by
  cases x with
  | ok now draws =>
    cases pc with
    | markPublished ids publishedAt =>
      cases hstep
      exact Or.inr ⟨ids, publishedAt, rfl⟩
    | publish events published =>
      left
      cases events <;> cases hstep <;> rfl
    | _ => left; cases hstep <;> rfl
  | fail executed now =>
    cases pc with
    | markPublished ids publishedAt =>
      cases hstep
      cases executed
      . exact Or.inl rfl
      . exact Or.inr ⟨ids, publishedAt, rfl⟩
    | publish events published =>
      left
      cases events <;> cases hstep <;> rfl
    | _ => left; cases hstep <;> rfl
  | crash => left; cases pc <;> cases hstep <;> rfl

variable {c c' : Call} {requests : List (Option Request)}

theorem Call.step_results {batchSize : Nat} (h : c.Local) (hresults : HaveResults σ.db requests)
    (hrequest : c.request? ∈ requests) (hstep : c.step batchSize σ x = some (σ', c'))
    : c'.request? = c.request? ∧ c'.Local ∧ HaveResults σ'.db requests := by
  cases c with
  | process p =>
    obtain ⟨⟨σ'', p'⟩, hstep', heq⟩ := Option.map_eq_some_iff.mp hstep
    cases heq
    have hkeeps := Process.keeps h hstep'
    refine ⟨congrArg some hkeeps.request, hkeeps.known, ?_⟩
    intro o ho
    rcases hkeeps.outbox o ho with ho | ho
    . exact hresults o ho
    . exact ⟨p.request, hrequest, h.writes o ho⟩
  | redeem r =>
    obtain ⟨⟨σ'', r'⟩, hstep', heq⟩ := Option.map_eq_some_iff.mp hstep
    cases heq
    obtain ⟨hlocal, houtbox⟩ := redeem_writes h (Redeem.moves_of_step hstep')
    exact ⟨rfl, hlocal, fun o ho => hresults o (houtbox o ho)⟩
  | poll pc =>
    obtain ⟨⟨σ'', pc'⟩, hstep', heq⟩ := Option.map_eq_some_iff.mp hstep
    cases heq
    refine ⟨rfl, trivial, ?_⟩
    rcases poll_outbox hstep' with hdb | ⟨ids, publishedAt, hdb⟩
    . rw [hdb]
      exact hresults
    . rw [hdb]
      intro o ho
      obtain ⟨old, hold, rfl⟩ := List.mem_map.mp ho
      have hpayload := hresults old hold
      split <;> exact hpayload

end Step

theorem local_of_start {calls : List Call} {c : Call} (h : Call.start calls c = true) : c.Local := by
  unfold Call.start at h
  split at h
  . exact ⟨.empty _, trivial⟩
  . exact fun o ho => by contradiction
  . trivial
  . contradiction

/--
Every outbox row of a run that begins with an empty outbox is the result of a request.
-/
theorem haveResults {batchSize : Nat} {ok : State → Act → Prop} {db : Db} {s : State}
    (houtbox : db.outbox = []) (hrun : (calls batchSize).machine.Run ok (init db) s)
    : HaveResults s.shared.db (s.calls.map Call.request?) := by
  have hinv : (∀ c ∈ s.calls, c.Local) ∧ HaveResults s.shared.db (s.calls.map Call.request?) := by
    refine hrun.invariant (I := fun s => (∀ c ∈ s.calls, c.Local)
      ∧ HaveResults s.shared.db (s.calls.map Call.request?)) ?_ ?_
    . refine ⟨fun c hc => by contradiction, ?_⟩
      intro o ho
      simp only [init, houtbox] at ho
      contradiction
    . intro u a v ⟨hlocal, h⟩ _ hnext
      cases a with
      | start c =>
        obtain ⟨hstart, rfl⟩ := Calls.next_start hnext
        constructor
        . intro d hd
          rcases List.mem_append.mp hd with hd | hd
          . exact hlocal d hd
          . rw [List.mem_singleton.mp hd]
            exact local_of_start hstart
        . intro o ho
          obtain ⟨request, hrequest, hresult⟩ := h o ho
          exact ⟨request, by rw [List.map_append]; exact List.mem_append_left _ hrequest, hresult⟩
      | step i x =>
        obtain ⟨c, shared, c', hc, _, hstep, rfl⟩ := Calls.next_step hnext
        have hmem := List.mem_of_getElem? hc
        obtain ⟨hrequest, hlocal', hresults⟩ := Call.step_results (hlocal c hmem) h
          (List.mem_map_of_mem hmem) hstep
        constructor
        . intro d hd
          rcases List.mem_or_eq_of_mem_set hd with hd | rfl
          . exact hlocal d hd
          . exact hlocal'
        . -- a call keeps its request, so that its results stay its results
          have hsame : (u.calls.set i c').map Call.request? = u.calls.map Call.request? := by
            have hget : (u.calls.map Call.request?)[i]? = some c.request? := by
              rw [List.getElem?_map, hc]
              rfl
            obtain ⟨_, heq⟩ := List.getElem?_eq_some_iff.mp hget
            rw [List.map_set, hrequest, ← heq, List.set_getElem_self]
          rw [hsame]
          exact hresults
      | env e =>
        obtain ⟨shared, henv, rfl⟩ := Calls.next_env (C := calls batchSize) hnext
        cases henv
        exact ⟨hlocal, h⟩
  exact hinv.2

end ServerC.Untyped
