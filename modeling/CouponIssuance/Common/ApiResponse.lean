import CouponIssuance.Common.UserId

/-!
This module contains the response envelope (`api-response.ts`) and what the exception filters of all
servers share (`common-error-mapping.ts`, `base-exception.filter.ts`).
-/

structure FieldError where
  field : String
  message : String
deriving DecidableEq

structure ErrorResponse where
  code : String
  message : String
  fieldErrors : Option (List FieldError)
deriving DecidableEq

structure ApiResponse (α : Type) where
  status : Nat
  body : Except ErrorResponse α
deriving DecidableEq

namespace ErrorResponses

def of (code message : String) : ErrorResponse where
  code := code
  message := message
  fieldErrors := none

def withFields (code message : String) (fieldErrors : List FieldError) : ErrorResponse where
  code := code
  message := message
  fieldErrors := some fieldErrors

end ErrorResponses

/-- The exceptions of `errors.ts`, those of the framework, and those of one server (`ε`) -/
inductive Exception (ε : Type) where
  | validationFailed (fieldErrors : List FieldError)
  | malformedBody
  | typeMismatch (argumentName : String)
  | invalidArgument (message : String)
  | missingHeader (headerName : String)
  | invalidState (message : String)
  /-- `name` is what the framework calls the status. -/
  | http (status : Nat) (name : Option String) (message : String)
  | domain (e : ε)
  | other

structure MappedError where
  status : Nat
  error : ErrorResponse
deriving DecidableEq

variable {ε : Type}

def mapCommonError : Exception ε → Option MappedError
  | .validationFailed fieldErrors =>
    some ⟨400, ErrorResponses.withFields "VALIDATION_FAILED" "request body validation failed"
      fieldErrors⟩
  | .malformedBody => some ⟨400, ErrorResponses.of "MALFORMED_BODY" "request body is malformed"⟩
  | .typeMismatch argumentName =>
    some ⟨400, ErrorResponses.of "TYPE_MISMATCH" ("argument type mismatch: " ++ argumentName)⟩
  | .invalidArgument message => some ⟨400, ErrorResponses.of "INVALID_ARGUMENT" message⟩
  | _ => none

def mapMissingHeader : Exception ε → Option MappedError
  | .missingHeader headerName =>
    some ⟨400, ErrorResponses.of "MISSING_HEADER" ("required header missing: " ++ headerName)⟩
  | _ => none

def mapHttpException (status : Nat) (name : Option String) (message : String) : MappedError where
  status := status
  error := ErrorResponses.of (name.getD "INTERNAL_ERROR") message

def internalError : MappedError where
  status := 500
  error := ErrorResponses.of "INTERNAL_ERROR" "internal server error"

def BaseExceptionFilter.catch (mapDomain : Exception ε → Option MappedError) (exception : Exception ε)
    : MappedError :=
  match mapDomain exception with
  | some mapped => mapped
  | none =>
    match exception with
    | .http status name message => mapHttpException status name message
    | _ => internalError
