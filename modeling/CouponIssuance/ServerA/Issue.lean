import CouponIssuance.Common.Payloads

/-!
This module contains `IssueRequestService.issue` of server-a, cut at every `await`.
-/

namespace ServerA

namespace RedisKeys

def couponAvailable (eventId couponTypeId : JsNumber) : String :=
  "coupon:available:" ++ toString eventId ++ ":" ++ toString couponTypeId

end RedisKeys

inductive IssueRequestStatus where
  | accepted
  | duplicate
  | soldOut
  | rejected
deriving DecidableEq

structure IssueCommand where
  userId : JsNumber
  eventId : JsNumber
  couponTypeId : JsNumber
deriving DecidableEq

/-- A row of the audit log. It has an id once it is saved. -/
structure IssueRequest where
  id : Option Nat
  requestId : String
  userId : JsNumber
  eventId : JsNumber
  couponTypeId : JsNumber
  status : IssueRequestStatus
  createdAt : Int
deriving DecidableEq

def IssueRequest.of (requestId : String) (command : IssueCommand) (status : IssueRequestStatus)
    (now : Int) : IssueRequest where
  id := none
  requestId := requestId
  userId := command.userId
  eventId := command.eventId
  couponTypeId := command.couponTypeId
  status := status
  createdAt := now

structure IssueOutcome where
  issueRequest : IssueRequest
  downstreamStatus : IssueAcceptanceStatus
  message : Option String
deriving DecidableEq

def mapStatus : IssueAcceptanceStatus → IssueRequestStatus
  | .accepted => .accepted
  | .duplicate => .duplicate
  | .soldOut => .soldOut
  | .internalError => .rejected

inductive IssuePc where
  | isSoldOut
  | client
  /-- `save` in the branch of the short circuit -/
  | saveSoldOut (request : IssueRequest)
  | save (request : IssueRequest) (result : IssueAcceptanceResult)
  | returned (outcome : IssueOutcome)
  | thrown
  | crashed

structure Issue where
  command : IssueCommand
  pc : IssuePc

/--
How the awaited promise ends. `requestId` and `now` are what `IssueRequest.of` draws next.
-/
inductive Input where
  /-- The command or the insert succeeds, an inserted row gets this id. -/
  | ok (requestId : String) (now : Int) (id : Nat)
  /-- `CouponIssuingClient.issue` resolves. -/
  | answered (requestId : String) (now : Int) (result : IssueAcceptanceResult)
  /-- The command or the insert fails. -/
  | fail
  | crash

namespace Issue

def goto (i : Issue) (pc : IssuePc) : Issue :=
  { i with pc := pc }

/-- `EXISTS` of one key -/
def existsReply (available : List String) (i : Issue) : Nat :=
  if available.contains (RedisKeys.couponAvailable i.command.eventId i.command.couponTypeId) then
    1
  else
    0

def step (available : List String) (i : Issue) : Input → Option Issue
  | .ok requestId now id =>
    match i.pc with
    | .isSoldOut =>
      if existsReply available i == 1 then
        some (i.goto (.saveSoldOut (IssueRequest.of requestId i.command .soldOut now)))
      else
        some (i.goto .client)
    | .saveSoldOut request =>
      some (i.goto (.returned ⟨{ request with id := some id }, .soldOut, some "coupon sold out"⟩))
    | .save request result =>
      some (i.goto (.returned ⟨{ request with id := some id }, result.status, result.message⟩))
    | _ => none
  | .answered requestId now result =>
    match i.pc with
    | .client =>
      some (i.goto (.save (IssueRequest.of requestId i.command (mapStatus result.status) now)
        result))
    | _ => none
  | .fail =>
    match i.pc with
    -- the error is caught: a cache that cannot be read does not short-circuit
    | .isSoldOut => some (i.goto .client)
    | .saveSoldOut _ | .save _ _ => some (i.goto .thrown)
    | _ => none
  | .crash =>
    match i.pc with
    | .returned _ | .thrown | .crashed => none
    | _ => some (i.goto .crashed)

inductive Steps (available : List String) (i : Issue) : Input → IssuePc → Prop where
  | soldOut (requestId : String) (now : Int) (id : Nat) (hpc : i.pc = .isSoldOut)
      (hexists : existsReply available i = 1)
      : Steps available i (.ok requestId now id)
          (.saveSoldOut (IssueRequest.of requestId i.command .soldOut now))
  | passed (x : Input) (hpc : i.pc = .isSoldOut) : Steps available i x .client
  | answered (requestId : String) (now : Int) (result : IssueAcceptanceResult)
      (hpc : i.pc = .client)
      : Steps available i (.answered requestId now result)
          (.save (IssueRequest.of requestId i.command (mapStatus result.status) now) result)
  | savedSoldOut (requestId : String) (now : Int) (id : Nat) (request : IssueRequest)
      (hpc : i.pc = .saveSoldOut request)
      : Steps available i (.ok requestId now id)
          (.returned ⟨{ request with id := some id }, .soldOut, some "coupon sold out"⟩)
  | saved (requestId : String) (now : Int) (id : Nat) (request : IssueRequest)
      (result : IssueAcceptanceResult) (hpc : i.pc = .save request result)
      : Steps available i (.ok requestId now id)
          (.returned ⟨{ request with id := some id }, result.status, result.message⟩)
  | thrown (hpc : i.pc ≠ .isSoldOut) : Steps available i .fail .thrown
  | crashed : Steps available i .crash .crashed

theorem step_spec {available : List String} {i i' : Issue} {x : Input}
    (h : i.step available x = some i')
    : Steps available i x i'.pc ∧ i'.command = i.command := by
  unfold step at h
  cases x with
  | ok requestId now id =>
    dsimp only at h
    split at h
    . next hpc =>
      split at h
      . next hexists =>
        cases h
        exact ⟨.soldOut requestId now id hpc (eq_of_beq hexists), rfl⟩
      . cases h
        exact ⟨.passed _ hpc, rfl⟩
    . next request hpc =>
      cases h
      exact ⟨.savedSoldOut requestId now id request hpc, rfl⟩
    . next request result hpc =>
      cases h
      exact ⟨.saved requestId now id request result hpc, rfl⟩
    . contradiction
  | answered requestId now result =>
    dsimp only at h
    split at h
    . next hpc =>
      cases h
      exact ⟨.answered requestId now result hpc, rfl⟩
    . contradiction
  | fail =>
    dsimp only at h
    split at h
    . next hpc =>
      cases h
      exact ⟨.passed _ hpc, rfl⟩
    . next hpc =>
      cases h
      exact ⟨.thrown (by rw [hpc]; exact IssuePc.noConfusion), rfl⟩
    . next hpc =>
      cases h
      exact ⟨.thrown (by rw [hpc]; exact IssuePc.noConfusion), rfl⟩
    . contradiction
  | crash =>
    dsimp only at h
    split at h
    . contradiction
    . contradiction
    . contradiction
    . cases h
      exact ⟨.crashed, rfl⟩

theorem contains_of_step {available : List String} {i i' : Issue} {x : Input}
    {request : IssueRequest} (hstep : i.step available x = some i')
    (hpc' : i'.pc = .saveSoldOut request)
    : i'.command = i.command
        ∧ RedisKeys.couponAvailable i.command.eventId i.command.couponTypeId ∈ available := by
  obtain ⟨hsteps, hcommand⟩ := step_spec hstep
  refine ⟨hcommand, ?_⟩
  rw [hpc'] at hsteps
  cases hsteps with
  | soldOut requestId now id hpc hexists =>
    unfold existsReply at hexists
    split at hexists
    . next hcontains => exact List.contains_iff_mem.mp hcontains
    . contradiction

end Issue

end ServerA
