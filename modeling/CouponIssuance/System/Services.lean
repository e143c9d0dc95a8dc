import CouponIssuance.System.Recovery

/-!
This module contains server-b and server-c side by side: server-b consumes the messages that the
poller of server-c has sent, in any order and any number of times, and the scheduler of server-b asks
server-c for the coupons of the users over HTTP.
-/

namespace System.Services

open Concurrency

/-- The request of the scheduler that is on its way, and the answer to it once server-c has read it -/
structure Lookup where
  userId : JsNumber
  couponTypeId : JsNumber
  answer : Option (Option ServerB.UserCouponLookupResult)
deriving DecidableEq

structure Shared where
  b : ServerB.Shared
  c : ServerC.State
  /-- There is one at most, since one sweep runs at a time. -/
  lookup : Option Lookup

inductive Env where
  | serverB (e : ServerB.Env)
  | serverC (a : ServerC.Act)
  /-- Server-c handles the request of the scheduler. -/
  | findOne

def Shared.ask (lookup : Option Lookup) : ServerB.Await → Option Lookup
  | .lookup userId couponTypeId => some ⟨userId, couponTypeId, none⟩
  | _ => lookup

def Shared.answers (σ : Shared) : ServerB.Await → ServerB.Input → Bool
  | .lookup userId couponTypeId, .answer result =>
    σ.lookup == some ⟨userId, couponTypeId, some result⟩
  | _, _ => true

def Shared.findOne (σ : Shared) : Option Shared :=
  match σ.lookup with
  | none => none
  | some lookup =>
    match ServerB.UserCouponClient.findOne σ.c.shared.db lookup.userId lookup.couponTypeId with
    | none => none
    | some result => some { σ with lookup := some { lookup with answer := some result } }

def isSent (σ : Shared) : ServerB.Call → Bool
  | .deliver d => σ.c.shared.topic.any fun m => m.2 == d.value
  | _ => true

def step (config : ServerB.Config) (σ : Shared) (c : ServerB.Call) (x : ServerB.Input)
    : Option (Shared × ServerB.Call) :=
  if σ.answers (c.awaits config) x then
    (c.step config σ.b x).map fun r =>
      ({ σ with b := r.1, lookup := Shared.ask σ.lookup (r.2.awaits config) }, r.2)
  else
    none

def env (batchSize : Nat) (σ : Shared) : Env → Option Shared
  | .serverB e => (ServerB.env σ.b e).map fun b => { σ with b := b }
  | .serverC a => ((ServerC.calls batchSize).next σ.c a).map fun c => { σ with c := c }
  | .findOne => σ.findOne

/-- The flows of server-b. What server-c does in between is their environment. -/
def services (config : ServerB.Config) (batchSize : Nat)
    : Calls Shared ServerB.Call ServerB.Input Env where
  start σ calls c := ServerB.Call.start config σ.b calls c && isSent σ c
  waits _ _ _ := false
  step := step config
  env := env batchSize

abbrev State := Calls.State Shared ServerB.Call

abbrev Act := Calls.Act ServerB.Call ServerB.Input Env

def init (db : ServerC.Db) (clock : Nat) : State where
  shared := { b := (ServerB.init clock).shared, c := ServerC.init db, lookup := none }
  calls := []

section Step

variable {config : ServerB.Config} {batchSize : Nat} {σ σ' : Shared} {c c' : ServerB.Call}
variable {x : ServerB.Input}

/--
A statement of a flow leaves server-c alone.
-/
theorem step_spec (h : step config σ c x = some (σ', c'))
    : c.step config σ.b x = some (σ'.b, c')
        ∧ σ.answers (c.awaits config) x = true
        ∧ σ'.c = σ.c
        ∧ σ'.lookup = Shared.ask σ.lookup (c'.awaits config) := by
  unfold step at h
  split at h
  . next hanswers =>
    obtain ⟨r, hstep, heq⟩ := Option.map_eq_some_iff.mp h
    cases heq
    exact ⟨hstep, hanswers, rfl, rfl⟩
  . contradiction

theorem findOne_spec (h : σ.findOne = some σ')
    : σ'.b = σ.b ∧ σ'.c = σ.c
        ∧ ∃ lookup result, σ.lookup = some lookup
          ∧ ServerB.UserCouponClient.findOne σ.c.shared.db lookup.userId lookup.couponTypeId
              = some result
          ∧ σ'.lookup = some { lookup with answer := some result } := by
  unfold Shared.findOne at h
  split at h
  . contradiction
  . next lookup hlookup =>
    split at h
    . contradiction
    . next result hresult =>
      cases h
      exact ⟨rfl, rfl, lookup, result, hlookup, hresult, rfl⟩

theorem lookup_of_answers {userId couponTypeId : JsNumber}
    {result : Option ServerB.UserCouponLookupResult}
    (h : σ.answers (.lookup userId couponTypeId) (.answer result) = true)
    : σ.lookup = some ⟨userId, couponTypeId, some result⟩ :=
  beq_iff_eq.mp h

end Step

theorem exec_start {config : ServerB.Config} {batchSize : Nat} {allowed : State → Act → Bool}
    {value : String} {pc : ServerB.DeliverPc} (hpc : ServerB.Deliver.start config value = pc)
    (s : State) (as : List Act)
    : (services config batchSize).machine.exec allowed s (.start (.deliver ⟨value, pc⟩) :: as)
        = if allowed s (.start (.deliver ⟨value, pc⟩))
              && isSent s.shared (.deliver ⟨value, pc⟩) then
            (services config batchSize).machine.exec allowed
              ⟨s.shared, s.calls ++ [.deliver ⟨value, pc⟩]⟩ as
          else
            none := by
  simp only [Machine.exec, Calls.machine, Calls.next, services, ServerB.Call.start, hpc,
    beq_self_eq_true, Bool.true_and]
  cases allowed s (.start (.deliver ⟨value, pc⟩)) with
  | true =>
    simp only [if_true, Bool.true_and]
    split <;> rfl
  | false => rfl

section Run

variable {config : ServerB.Config} {batchSize : Nat} {ok : State → Act → Prop} {s t : State}

theorem serverC_run (h : (services config batchSize).machine.Run ok s t)
    : (ServerC.calls batchSize).machine.Run (fun _ _ => True) s.shared.c t.shared.c := by
  apply h.simulate (fun s : State => s.shared.c)
  intro u a v _ hnext
  cases a with
  | start c =>
    obtain ⟨_, rfl⟩ := Calls.next_start hnext
    exact .refl
  | step i x =>
    obtain ⟨c, shared, c', _, _, hstep, rfl⟩ := Calls.next_step hnext
    dsimp only
    rw [(step_spec hstep).2.2.1]
    exact .refl
  | env e =>
    obtain ⟨shared, henv, rfl⟩ := Calls.next_env (C := services config batchSize) hnext
    cases e with
    | serverB e =>
      obtain ⟨_, _, rfl⟩ := Option.map_eq_some_iff.mp henv
      exact .refl
    | serverC a =>
      obtain ⟨c, hc, rfl⟩ := Option.map_eq_some_iff.mp henv
      exact .single trivial hc
    | findOne =>
      dsimp only
      rw [(findOne_spec henv).2.1]
      exact .refl

end Run

end System.Services
