import OrderLedger.Error
import OrderLedger.Json.Basic

/-!
Errors as they are told to a caller that sees JSON only: a code for the kind of error, its
message, and what the caller may do about it.
-/

namespace OrderLedger

def ValidationError.code : ValidationError → String
  | .required _ => "Required"
  | .tooLong _ _ => "TooLong"
  | .outOfRange _ _ _ => "OutOfRange"
  | .notPositive _ => "MustBePositive"
  | .badFormat _ _ => "InvalidFormat"
  | .exactlyOne _ _ => "ExactlyOne"

def RuleError.code : RuleError → String
  | .unknownProduct _ => "ProductNotFound"
  | .badSelection _ _ => "InvalidSelection"
  | .badMove _ _ => "InvalidTransition"
  | .invalid _ => "Validation"

def StorageError.code : StorageError → String
  | .notFound _ _ => "NotFound"
  | .duplicate _ _ => "UniqueViolation"
  | .foreignKey _ => "ForeignKeyViolation"
  | .connection _ => "ConnectionFailed"
  | .migration _ => "MigrationFailed"
  | .query _ => "QueryFailed"
  | .transaction _ => "TransactionFailed"
  | .exhausted => "PoolExhausted"
  | .serialization _ => "Serialization"
  | .internal _ => "Internal"

def ShopError.code : ShopError → String
  | .invalid _ => "Validation"
  | .badSelection _ _ => "InvalidSelection"
  | .notFound _ _ => "NotFound"
  | .badMove _ _ => "InvalidTransition"
  | .insufficientStock _ _ _ => "InsufficientStock"
  | .notPaid _ _ => "NotRedeemable"
  | .conflict _ => "Conflict"
  | .storage _ => "StorageFailure"
  | .settings _ => "Config"

/-- A validation error inside another error is told as a variant of it. -/
def ValidationError.variant (e : ValidationError) : String × Json := ("variant", .str e.code)

def ValidationError.report (e : ValidationError) : Json :=
  .obj [("error", .str "Validation"), ("message", .str e.message), e.variant]

def RuleError.report (e : RuleError) : Json :=
  .obj (("error", .str e.code) :: ("message", .str e.message) ::
    match e with
    | .invalid cause => [cause.variant]
    | _ => [])

def StorageError.report (e : StorageError) : Json :=
  .obj [
    ("error", .str e.code), ("message", .str e.message), ("transient", .bool e.isTransient),
    ("not_found", .bool e.isNotFound), ("unique", .bool e.isDuplicate)]

def ShopError.report (e : ShopError) : Json :=
  .obj (("error", .str e.code) :: ("message", .str e.message) ::
    ("retryable", .bool e.isRetryable) :: ("client", .bool e.isClientError) ::
    match e with
    | .invalid cause => [cause.variant]
    | _ => [])

end OrderLedger
