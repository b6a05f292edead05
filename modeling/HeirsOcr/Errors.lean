import Mathlib.Tactic

/-!
# Errors of the service

The typed error of the OCR API with the status of each code, and the plain error the
two consoles answer with.
-/
namespace HeirsOcr

inductive OcrErrorCode where
  | UNAUTHORIZED
  | FORBIDDEN
  | NOT_FOUND
  | UNSUPPORTED_MEDIA_TYPE
  | FILE_TOO_LARGE
  | PAGE_LIMIT_EXCEEDED
  | INVALID_ARGS
  | NO_TEXT_DETECTED
  | EXTRACTION_FAILED
  | PROVIDER_UNAVAILABLE
  | INTERPRETATION_FAILED
  | SCHEMA_VALIDATION_FAILED
  | RATE_LIMITED
  | PAYMENT_REQUIRED
  | QUOTA_EXCEEDED
  | INTERNAL
  deriving DecidableEq, Repr

def STATUS_BY_CODE : OcrErrorCode → ℕ
  | .UNAUTHORIZED => 401
  | .FORBIDDEN => 403
  | .NOT_FOUND => 404
  | .UNSUPPORTED_MEDIA_TYPE => 415
  | .FILE_TOO_LARGE => 413
  | .PAGE_LIMIT_EXCEEDED => 422
  | .INVALID_ARGS => 400
  | .NO_TEXT_DETECTED => 422
  | .EXTRACTION_FAILED => 502
  | .PROVIDER_UNAVAILABLE => 503
  | .INTERPRETATION_FAILED => 502
  | .SCHEMA_VALIDATION_FAILED => 422
  | .RATE_LIMITED => 429
  | .PAYMENT_REQUIRED => 402
  | .QUOTA_EXCEEDED => 429
  | .INTERNAL => 500

/-- `OcrError`; `retryable` is false unless its thrower says otherwise. -/
structure OcrError where
  code : OcrErrorCode
  message : String
  retryable : Bool
  deriving DecidableEq, Repr

def OcrError.of (code : OcrErrorCode) (message : String) : OcrError := ⟨code, message, false⟩

def OcrError.status (e : OcrError) : ℕ := STATUS_BY_CODE e.code

/-- What `sendError` answers with. -/
structure HttpError where
  status : ℕ
  code : String
  message : String
  deriving DecidableEq, Repr

end HeirsOcr
