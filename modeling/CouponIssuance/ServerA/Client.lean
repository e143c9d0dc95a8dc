import CouponIssuance.ServerA.Issue

/-!
This module contains `HttpCouponIssuingClient.issue` of server-a: a POST to server-b behind a
circuit breaker, which is repeated once when it is rejected.
-/

namespace ServerA

/-- The POST to server-b, with its header `X-User-Id` -/
structure HttpRequest where
  userId : String
  eventId : JsNumber
  couponTypeId : JsNumber
deriving DecidableEq

structure IssueResponsePayload where
  requestId : Option String
  status : Option IssueAcceptanceStatus
  message : Option String
deriving DecidableEq

inductive ClientError where
  | brokenCircuit
  /-- The error of axios has a response, with this status. -/
  | response (status : Nat)
  /-- Any other error, with the name of its constructor -/
  | other (name : String)
deriving DecidableEq

inductive ClientPc where
  | circuitBreaker
  | post (retries : Nat)
  | backoff (retries : Nat)
  | returned (result : IssueAcceptanceResult)
deriving DecidableEq

inductive ClientInput where
  /-- The circuit breaker is closed. -/
  | admitted
  | brokenCircuit
  | response (body : Option IssueResponsePayload)
  /-- The POST times out, its connection fails or its status is an error. -/
  | rejected (error : ClientError)
  | elapsed

namespace HttpCouponIssuingClient

/-- The retries of the policy -/
def maxAttempts : Nat := 1

def request (command : IssueCommand) : HttpRequest where
  userId := toString command.userId
  eventId := command.eventId
  couponTypeId := command.couponTypeId

/-- What `call` makes of the response -/
def result (body : Option IssueResponsePayload) : IssueAcceptanceResult :=
  match body with
  | some ⟨requestId, some status, message⟩ => ⟨requestId, status, message⟩
  | _ => IssueAcceptance.internalError "empty-response"

def fallback : ClientError → IssueAcceptanceResult
  | .brokenCircuit => IssueAcceptance.internalError "circuit-open"
  | .response status => IssueAcceptance.internalError ("server-b-status:" ++ toString status)
  | .other name => IssueAcceptance.internalError ("downstream-error:" ++ name)

theorem status_fallback (error : ClientError) : (fallback error).status = .internalError := by
  cases error <;> rfl

def step : ClientPc → ClientInput → Option ClientPc
  | .circuitBreaker, .admitted => some (.post 0)
  | .circuitBreaker, .brokenCircuit => some (.returned (fallback .brokenCircuit))
  | .post _, .response body => some (.returned (result body))
  | .post retries, .rejected error =>
    if retries < maxAttempts then
      some (.backoff retries)
    else
      some (.returned (fallback error))
  | .backoff retries, .elapsed => some (.post (retries + 1))
  | _, _ => none

end HttpCouponIssuingClient

structure Issuing where
  issue : Issue
  client : ClientPc

inductive IssuingInput where
  /-- `available` are the keys of the sold-out cache. -/
  | issue (available : List String) (x : Input)
  | client (x : ClientInput)

namespace Issuing

def start (command : IssueCommand) : Issuing where
  issue := ⟨command, .isSoldOut⟩
  client := .circuitBreaker

def resolves (g : Issuing) : Input → Bool
  | .answered _ _ result => g.client == .returned result
  | _ => true

def step (g : Issuing) : IssuingInput → Option Issuing
  | .issue available x =>
    if g.resolves x then
      (g.issue.step available x).map fun issue => { g with issue := issue }
    else
      none
  | .client x =>
    match g.issue.pc with
    | .client =>
      (HttpCouponIssuingClient.step g.client x).map fun client => { g with client := client }
    | _ => none

end Issuing

def IssuePc.isDuplicate : IssuePc → Bool
  | saveSoldOut request => request.status == .duplicate
  | save request result => request.status == .duplicate || result.status == .duplicate
  | returned outcome =>
    outcome.issueRequest.status == .duplicate || outcome.downstreamStatus == .duplicate
  | _ => false

def IssuePc.isOver : IssuePc → Bool
  | returned _ | thrown | crashed => true
  | _ => false

def ClientPc.hasSent (k : Nat) : ClientPc → Bool
  | circuitBreaker => false
  | post n | backoff n => k ≤ n
  | returned _ => true

namespace Issuing

/-- The retries after which the request is sent whose response decides -/
def awaits (g : Issuing) : Option Nat :=
  match g.issue.pc, g.client with
  | .isSoldOut, .circuitBreaker | .client, .circuitBreaker => some 0
  | .client, .post n => some n
  | .client, .backoff n => some (n + 1)
  | _, _ => none

structure Original (g : Issuing) : Prop where
  begins : g.issue.pc = .isSoldOut → g.client = .circuitBreaker
  outcome : g.issue.pc.isDuplicate = false
  result : ∀ result, g.client = .returned result → result.status ≠ .duplicate

theorem original_start (command : IssueCommand) : (start command).Original where
  begins _ := rfl
  outcome := rfl
  result _ h := by contradiction

theorem mapStatus_ne {status : IssueAcceptanceStatus} (h : status ≠ .duplicate)
    : mapStatus status ≠ .duplicate := by
  cases status with
  | duplicate => exact absurd rfl h
  | _ => decide

theorem step_of_isOver {g : Issuing} (h : g.issue.pc.isOver = true) (x : IssuingInput)
    : g.step x = none := by
  unfold IssuePc.isOver at h
  cases x with
  | issue available x =>
    unfold step
    dsimp only
    split
    . split at h
      . next hpc => cases x <;> simp [Issue.step, hpc]
      . next hpc => cases x <;> simp [Issue.step, hpc]
      . next hpc => cases x <;> simp [Issue.step, hpc]
      . contradiction
    . rfl
  | client x =>
    unfold step
    dsimp only
    split
    . next hpc => simp [hpc] at h
    . rfl

theorem issue_spec {g g' : Issuing} {available : List String} {x : Input}
    (h : g.step (.issue available x) = some g')
    : g.resolves x = true ∧ g.issue.Steps available x g'.issue.pc
        ∧ g'.issue.command = g.issue.command ∧ g'.client = g.client := by
  unfold step at h
  dsimp only at h
  split at h
  . next hresolves =>
    obtain ⟨issue, hissue, rfl⟩ := Option.map_eq_some_iff.mp h
    obtain ⟨hsteps, hcommand⟩ := Issue.step_spec hissue
    exact ⟨hresolves, hsteps, hcommand, rfl⟩
  . contradiction

theorem client_spec {g g' : Issuing} {x : ClientInput} (h : g.step (.client x) = some g')
    : g.issue.pc = .client ∧ g'.issue = g.issue
        ∧ HttpCouponIssuingClient.step g.client x = some g'.client := by
  unfold step at h
  dsimp only at h
  split at h
  . next hpc =>
    obtain ⟨client, hclient, rfl⟩ := Option.map_eq_some_iff.mp h
    exact ⟨hpc, rfl, hclient⟩
  . contradiction

theorem command_step {g g' : Issuing} {x : IssuingInput} (h : g.step x = some g')
    : g'.issue.command = g.issue.command := by
  cases x with
  | issue available x => exact (issue_spec h).2.2.1
  | client x => rw [(client_spec h).2.1]

theorem awaits_issue {g g' : Issuing} {available : List String} {x : Input} {n : Nat}
    (h : g.step (.issue available x) = some g')
    (hbegins : g.issue.pc = .isSoldOut → g.client = .circuitBreaker)
    (hawaits : g'.awaits = some n)
    : g.awaits = some n := by
  obtain ⟨_, hsteps, _, hclient⟩ := issue_spec h
  generalize hpc' : g'.issue.pc = pc' at hsteps
  cases hsteps with
  | passed x hpc =>
    rw [awaits, hpc', hclient, hbegins hpc] at hawaits
    rw [awaits, hpc, hbegins hpc]
    exact hawaits
  | _ => simp [awaits, hpc'] at hawaits

theorem Original.issue {g g' : Issuing} {available : List String} {x : Input} (h : g.Original)
    (hstep : g.step (.issue available x) = some g')
    : g'.Original := by
  obtain ⟨hresolves, hsteps, _, hclient⟩ := issue_spec hstep
  refine ⟨?_, ?_, ?_⟩
  . intro hpc'
    rw [hpc'] at hsteps
    cases hsteps
  . have houtcome := h.outcome
    generalize g'.issue.pc = pc' at hsteps
    cases hsteps with
    | answered requestId now result hpc =>
      have hne := h.result result (beq_iff_eq.mp hresolves)
      have hmap := mapStatus_ne hne
      simp [IssuePc.isDuplicate, IssueRequest.of, hne, hmap]
    | savedSoldOut requestId now id request hpc =>
      simpa [IssuePc.isDuplicate, hpc] using houtcome
    | saved requestId now id request result hpc =>
      simpa [IssuePc.isDuplicate, hpc] using houtcome
    | _ => rfl
  . rw [hclient]
    exact h.result

end Issuing

end ServerA
