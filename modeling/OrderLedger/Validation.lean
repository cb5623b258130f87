import OrderLedger.Payment
import OrderLedger.Text.Blank
import OrderLedger.Text.Uuid

/-!
The rules for input, which are checked before anything is written.
-/

namespace OrderLedger

/-- What is wrong with a field of the input. -/
inductive ValidationError where
  | required (field : String)
  | tooLong (field : String) (max : Nat)
  | outOfRange (field : String) (min max : Int)
  | notPositive (field : String)
  | badFormat (field reason : String)
  /-- Of two fields that exclude each other, both or neither were given. -/
  | exactlyOne (first second : String)
  deriving DecidableEq, Repr

def ValidationError.message : ValidationError → String
  | .required field => field ++ " is required"
  | .tooLong field max => field ++ " must be at most " ++ Text.Decimal.text max ++ " characters"
  | .outOfRange field min max =>
      field ++ " must be between " ++ Text.Decimal.text min ++ " and " ++ Text.Decimal.text max
  | .notPositive field => field ++ " must be positive"
  | .badFormat field reason => field ++ " has invalid format: " ++ reason
  | .exactlyOne first second => "exactly one of " ++ first ++ " or " ++ second ++ " must be given"

namespace Validation

open OrderLedger.Text

def maxCartLines : Nat := 100

/-- The limit catches a 1000 typed in place of a 10. -/
def maxLineQuantity : Int := 999

def maxKeyLength : Nat := 128

def maxEmailBytes : Nat := 254

def quantity (n : Int) : Except ValidationError Unit :=
  if n ≤ 0 then .error (.notPositive "quantity")
  else if n > maxLineQuantity then .error (.outOfRange "quantity" 1 maxLineQuantity)
  else .ok ()

/-- Gratis methods may be zero; every other tender is positive. -/
def tender (t : Tender) : Except ValidationError Unit :=
  if t.method.isGratis then
    if t.amount.cents < 0 then .error (.outOfRange "payment amount" 0 Word.greatest) else .ok ()
  else if t.amount.cents ≤ 0 then .error (.notPositive "payment amount")
  else .ok ()

def cartSize (lines : Nat) : Except ValidationError Unit :=
  if lines = 0 then .error (.required "cart")
  else if lines > maxCartLines then .error (.outOfRange "cart lines" 1 maxCartLines)
  else .ok ()

/-- One `@` with something before it, and after it a domain with a dot inside. -/
def looksLikeEmail (cs : List Char) : Bool :=
  let name := cs.takeWhile fun c => c != '@'
  match cs.dropWhile fun c => c != '@' with
  | [] => false
  | _ :: domain =>
      !name.isEmpty && !domain.contains '@' && domain.contains '.' &&
        domain.head? != some '.' && domain.getLast? != some '.' && !cs.any isWhiteSpace

def email (s : String) : Except ValidationError Unit :=
  if s.utf8ByteSize > maxEmailBytes then .error (.tooLong "contact_email" maxEmailBytes)
  else if looksLikeEmail s.toList then .ok ()
  else .error (.badFormat "contact_email" "must look like name@domain.tld")

/-- Exactly one of customer and email; blank text counts as absent. -/
def contact (customerId contactEmail : Option String) : Except ValidationError Unit :=
  match trimmed? customerId, trimmed? contactEmail with
  | some _, none => .ok ()
  | none, some address => email address
  | _, _ => .error (.exactlyOne "customer_id" "contact_email")

def key (s : String) : Except ValidationError Unit :=
  if isBlank s then .error (.required "idempotency key")
  else if s.length > maxKeyLength then .error (.tooLong "idempotency key" maxKeyLength)
  else .ok ()

def uuid (field s : String) : Except ValidationError Unit :=
  if isBlank s then .error (.required field)
  else if Uuid.isUuid s then .ok ()
  else .error (.badFormat field "must be a valid UUID")

end Validation

end OrderLedger
