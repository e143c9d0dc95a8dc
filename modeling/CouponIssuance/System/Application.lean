import CouponIssuance.Common.UserId
import CouponIssuance.ServerA.Client
import CouponIssuance.ServerB.Unclaimed

/-!
This module contains server-a and server-b side by side: every `accept` of server-b handles one
request of a client of server-a, and the client may give its request up at any time while server-b
goes on with it.
-/

namespace System.Application

open Concurrency ServerA ServerB

structure Request where
  /-- The call of `IssueRequestService.issue` that waits for the response -/
  issue : Nat
  retries : Nat
  request : HttpRequest
  /-- The call of `accept` that handles the request, once it has arrived -/
  accept : Option Nat
deriving DecidableEq

structure State where
  b : ServerB.State
  issues : List Issuing
  requests : List Request

inductive Act where
  /-- A user applies. -/
  | issue (command : IssueCommand)
  | serverA (i : Nat) (x : IssuingInput)
  | arrive (k : Nat) (requestId : String)
  | serverB (a : ServerB.Act)

/-- `CouponIssueController.issue`, up to the call of `accept` -/
def toSave? (r : HttpRequest) (requestId : String) (now : Nat) : Option ServerB.Save :=
  match UserId.decode (.text r.userId) with
  | .ok userId => some ⟨requestId, userId, r.eventId, r.couponTypeId, now⟩
  | .error _ => none

/-- `toIssueResponse`: what is `null` has no field. -/
def toIssueResponse (result : IssueAcceptanceResult) : IssueResponsePayload where
  requestId := result.requestId
  status := some result.status
  message := result.message

theorem result_toIssueResponse (result : IssueAcceptanceResult)
    : HttpCouponIssuingClient.result (some (toIssueResponse result)) = result :=
  rfl

namespace State

def accept? (s : State) (r : Request) : Option ServerB.Accept :=
  match r.accept with
  | none => none
  | some j =>
    match s.b.calls[j]? with
    | some (.accept a) => some a
    | _ => none

def responds (s : State) (r : Request) (body : Option IssueResponsePayload) : Bool :=
  match s.accept? r with
  | none => false
  | some a =>
    match a.pc with
    | .returned result => body == some (toIssueResponse result)
    | _ => false

def answers (s : State) (i : Nat) (g : Issuing) : IssuingInput → Bool
  | .client (.response body) =>
    match g.client with
    | .post retries =>
      s.requests.any fun r => r.issue == i && r.retries == retries && s.responds r body
    | _ => false
  | _ => true

def issue (s : State) (command : IssueCommand) : State :=
  { s with issues := s.issues ++ [Issuing.start command] }

end State

def sent (i : Nat) (g : Issuing) : IssuingInput → List Request
  | .client .admitted | .client .elapsed =>
    match g.client with
    | .post retries => [⟨i, retries, HttpCouponIssuingClient.request g.issue.command, none⟩]
    | _ => []
  | _ => []

def isAccept : ServerB.Act → Bool
  | .start (.accept _) => true
  | _ => false

def next (config : ServerB.Config) (s : State) : Act → Option State
  | .issue command => some (s.issue command)
  | .serverA i x =>
    match s.issues[i]? with
    | none => none
    | some g =>
      if s.answers i g x then
        (g.step x).map fun g' =>
          { s with issues := s.issues.set i g', requests := s.requests ++ sent i g' x }
      else
        none
  | .arrive k requestId =>
    match s.requests[k]? with
    | some ⟨i, retries, request, none⟩ =>
      match toSave? request requestId s.b.shared.clock with
      | none => none
      | some save =>
        ((ServerB.calls config).next s.b (.start (ServerB.newAccept save))).map fun b =>
          { s with
            b := b
            requests := s.requests.set k ⟨i, retries, request, some s.b.calls.length⟩ }
    | _ => none
  | .serverB a =>
    if isAccept a then
      none
    else
      ((ServerB.calls config).next s.b a).map fun b => { s with b := b }

def application (config : ServerB.Config) : Machine State Act where
  step := next config

def init (clock : Nat) : State where
  b := ServerB.init clock
  issues := []
  requests := []

def pair (command : IssueCommand) : Pair :=
  (command.userId, command.couponTypeId)

def pair? (r : HttpRequest) : Option Pair :=
  match UserId.decode (.text r.userId) with
  | .ok userId => some (userId, r.couponTypeId)
  | .error _ => none

theorem pair_of_request {command : IssueCommand} {p : Pair}
    (h : pair? (HttpCouponIssuingClient.request command) = some p)
    : pair command = p := by
  unfold pair? at h
  split at h
  . next userId hdecode =>
    have hread : JsNumber.ofString (toString command.userId) = userId := by
      simp only [UserId.decode, UserId.value, HttpCouponIssuingClient.request] at hdecode
      split at hdecode
      . contradiction
      . split at hdecode
        . contradiction
        . exact Except.ok.inj hdecode
    rw [JsNumber.ofString_toString] at hread
    rw [← Option.some.inj h, ← hread]
    rfl
  . contradiction

structure Formed (s : State) : Prop where
  issue : ∀ r ∈ s.requests, r.issue < s.issues.length
  accept : ∀ r ∈ s.requests, ∀ j, r.accept = some j
    → ∃ a, s.b.calls[j]? = some (.accept a) ∧ pair? r.request = some a.pair
  distinct : ∀ (k l : Nat) r r' j, s.requests[k]? = some r → s.requests[l]? = some r'
    → r.accept = some j → r'.accept = some j → k = l

section Step

variable {config : ServerB.Config} {s t : State} {i j : Nat} {p : Pair}

theorem next_serverA {x : IssuingInput} (h : next config s (.serverA i x) = some t)
    : ∃ g g', s.issues[i]? = some g ∧ s.answers i g x = true ∧ g.step x = some g'
        ∧ t = { s with issues := s.issues.set i g', requests := s.requests ++ sent i g' x } := by
  simp only [next] at h
  split at h
  . contradiction
  . next g hg =>
    split at h
    . next hanswers =>
      obtain ⟨g', hstep, heq⟩ := Option.map_eq_some_iff.mp h
      exact ⟨g, g', hg, hanswers, hstep, heq.symm⟩
    . contradiction

theorem next_arrive {k : Nat} {requestId : String} (h : next config s (.arrive k requestId) = some t)
    : ∃ r save, s.requests[k]? = some r ∧ r.accept = none
        ∧ toSave? r.request requestId s.b.shared.clock = some save
        ∧ (ServerB.calls config).next s.b (.start (newAccept save)) = some t.b
        ∧ t = { s with
            b := ⟨s.b.shared, s.b.calls ++ [newAccept save]⟩
            requests := s.requests.set k { r with accept := some s.b.calls.length } } := by
  simp only [next] at h
  split at h
  . next issue retries request hr =>
    split at h
    . contradiction
    . next save hsave =>
      obtain ⟨b, hb, heq⟩ := Option.map_eq_some_iff.mp h
      subst heq
      refine ⟨_, save, hr, rfl, hsave, hb, ?_⟩
      obtain ⟨_, rfl⟩ := Calls.next_start hb
      rfl
  . contradiction

theorem next_serverB {a : ServerB.Act} (h : next config s (.serverB a) = some t)
    : isAccept a = false ∧ ∃ b, (ServerB.calls config).next s.b a = some b ∧ t = { s with b := b } := by
  simp only [next] at h
  split at h
  . contradiction
  . next hstart =>
    obtain ⟨b, hb, heq⟩ := Option.map_eq_some_iff.mp h
    exact ⟨by simpa using hstart, b, hb, heq.symm⟩

theorem pair_of_toSave? {r : HttpRequest} {requestId : String} {now : Nat} {save : ServerB.Save}
    (h : toSave? r requestId now = some save)
    : pair? r = some save.pair := by
  unfold toSave? at h
  split at h
  . next userId hdecode =>
    cases h
    simp [pair?, hdecode, ServerB.Save.pair]
  . contradiction

theorem sent_spec {g : Issuing} {x : IssuingInput} {r : Request} (h : r ∈ sent i g x)
    : g.client = .post r.retries ∧ (x = .client .admitted ∨ x = .client .elapsed)
        ∧ r = ⟨i, r.retries, HttpCouponIssuingClient.request g.issue.command, none⟩ := by
  unfold sent at h
  split at h
  . split at h
    . next hclient =>
      rw [List.mem_singleton.mp h]
      exact ⟨hclient, Or.inl rfl, rfl⟩
    . contradiction
  . split at h
    . next hclient =>
      rw [List.mem_singleton.mp h]
      exact ⟨hclient, Or.inr rfl, rfl⟩
    . contradiction
  . contradiction

theorem accept_of_next {a : ServerB.Act} {b : ServerB.State}
    (hnext : (ServerB.calls config).next s.b a = some b) {c : Accept}
    (hc : s.b.calls[j]? = some (.accept c))
    : b.calls[j]? = some (.accept c)
        ∨ ∃ x c', a = .step j x ∧ b.calls[j]? = some (.accept c')
          ∧ (Call.accept c).Steps config s.b.shared b.shared x (.accept c') := by
  rcases Calls.getElem?_of_next hnext hc with hsame | ⟨x, f', ha, hf', hstep⟩
  . exact Or.inl hsame
  . have hsteps := Call.step_spec hstep
    obtain ⟨c', rfl⟩ := Accept.steps_accept hsteps
    exact Or.inr ⟨x, c', ha, hf', hsteps⟩

theorem Formed.step {act : Act} (h : Formed s) (hnext : next config s act = some t) : Formed t := by
  cases act with
  | issue command =>
    cases hnext
    refine ⟨?_, h.accept, h.distinct⟩
    intro r hr
    have := h.issue r hr
    simp only [State.issue, List.length_append]
    omega
  | serverA i x =>
    obtain ⟨g, g', hg, _, _, rfl⟩ := next_serverA hnext
    have hlt := (List.getElem?_eq_some_iff.mp hg).1
    refine ⟨?_, ?_, ?_⟩
    . intro r hr
      dsimp only
      rw [List.length_set]
      rcases List.mem_append.mp hr with hr | hr
      . exact h.issue r hr
      . rw [(sent_spec hr).2.2]
        exact hlt
    . intro r hr j hj
      rcases List.mem_append.mp hr with hr | hr
      . exact h.accept r hr j hj
      . rw [(sent_spec hr).2.2] at hj
        contradiction
    . intro k l r r' j hk hl hj hj'
      have hold : ∀ {k : Nat} {r : Request}, (s.requests ++ sent i g' x)[k]? = some r → r.accept = some j
          → s.requests[k]? = some r := by
        intro k r hk hj
        rw [List.getElem?_append] at hk
        split at hk
        . exact hk
        . rw [(sent_spec (List.mem_of_getElem? hk)).2.2] at hj
          contradiction
      exact h.distinct k l r r' j (hold hk hj) (hold hl hj') hj hj'
  | arrive k requestId =>
    obtain ⟨r, save, hr, hnone, hsave, _, rfl⟩ := next_arrive hnext
    have hkeep : ∀ (j : Nat) a, s.b.calls[j]? = some (Call.accept a)
        → (s.b.calls ++ [newAccept save])[j]? = some (Call.accept a) := by
      intro j a hj
      rw [List.getElem?_append_left (List.getElem?_eq_some_iff.mp hj).1, hj]
    refine ⟨?_, ?_, ?_⟩
    . intro r' hr'
      rcases List.mem_or_eq_of_mem_set hr' with hr' | rfl
      . exact h.issue r' hr'
      . exact h.issue r (List.mem_of_getElem? hr)
    . intro r' hr' j hj
      rcases List.mem_or_eq_of_mem_set hr' with hr' | rfl
      . obtain ⟨a, ha, hpair⟩ := h.accept r' hr' j hj
        exact ⟨a, hkeep j a ha, hpair⟩
      . cases hj
        refine ⟨⟨save, none, .save .hsetnx⟩, by simp [newAccept], ?_⟩
        exact pair_of_toSave? hsave
    . have hnew : ∀ l r' j, (s.requests.set k { r with accept := some s.b.calls.length })[l]?
          = some r' → r'.accept = some j
          → (l = k ∧ j = s.b.calls.length) ∨ (s.requests[l]? = some r' ∧ j < s.b.calls.length) := by
        intro l r' j hl hj
        rcases Calls.getElem?_set_cases hl with ⟨rfl, rfl⟩ | ⟨_, hl⟩
        . exact Or.inl ⟨rfl, (Option.some.inj hj).symm⟩
        . obtain ⟨a, ha, _⟩ := h.accept r' (List.mem_of_getElem? hl) j hj
          exact Or.inr ⟨hl, (List.getElem?_eq_some_iff.mp ha).1⟩
      intro l m r1 r2 j hl hm hj hj'
      rcases hnew l r1 j hl hj with ⟨hlk, hlen⟩ | ⟨hl, hlt⟩
      . rcases hnew m r2 j hm hj' with ⟨hmk, _⟩ | ⟨_, hlt⟩
        . omega
        . omega
      . rcases hnew m r2 j hm hj' with ⟨_, hlen⟩ | ⟨hm, _⟩
        . omega
        . exact h.distinct l m r1 r2 j hl hm hj hj'
  | serverB a =>
    obtain ⟨_, b, hb, rfl⟩ := next_serverB hnext
    refine ⟨h.issue, ?_, h.distinct⟩
    intro r hr j hj
    obtain ⟨c, hc, hpair⟩ := h.accept r hr j hj
    rcases accept_of_next hb hc with hsame | ⟨x, c', _, hc', hsteps⟩
    . exact ⟨c, hsame, hpair⟩
    . exact ⟨c', hc', by rw [hpair, (Accept.generation_steps hsteps).1]⟩

theorem formed {clock : Nat} {ok : State → Act → Prop}
    (hrun : (application config).Run ok (init clock) s)
    : Formed s := by
  apply hrun.invariant
  . refine ⟨?_, ?_, ?_⟩ <;> simp [init]
  . intro u a v hu _ hnext
    exact hu.step hnext

theorem accept?_eq_some {r : Request} {a : Accept}
    : s.accept? r = some a ↔ ∃ j, r.accept = some j ∧ s.b.calls[j]? = some (.accept a) := by
  unfold State.accept?
  cases hj : r.accept with
  | none => simp
  | some j =>
    dsimp only
    constructor
    . intro h
      split at h
      . next c hc =>
        cases h
        exact ⟨j, rfl, hc⟩
      . contradiction
    . rintro ⟨l, hl, ha⟩
      cases hl
      rw [ha]

end Step

end System.Application
