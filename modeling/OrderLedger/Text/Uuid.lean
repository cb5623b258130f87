import OrderLedger.Text.Hex

/-!
The written forms of a universally unique identifier: 32 hexadecimal digits, or
the digits in groups of 8, 4, 4, 4 and 12 joined by hyphens. The grouped form
may also stand in braces or after `urn:uuid:`.
-/

namespace OrderLedger.Text.Uuid

def isPlain (cs : List Char) : Bool := cs.length = 32 && cs.all Hex.isDigit

/-- Whether `cs` is groups of hexadecimal digits of the given sizes, joined by hyphens. -/
def isGroups : List Nat → List Char → Bool
  | [], _ => false
  | [n], cs => cs.length = n && cs.all Hex.isDigit
  | n :: sizes, cs =>
      (cs.take n).length = n && (cs.take n).all Hex.isDigit &&
        match cs.drop n with
        | '-' :: rest => isGroups sizes rest
        | _ => false

def isGrouped (cs : List Char) : Bool := isGroups [8, 4, 4, 4, 12] cs

/-- The text inside braces, if it stands in braces. -/
def unbraced? : List Char → Option (List Char)
  | '{' :: rest => if rest.getLast? = some '}' then some rest.dropLast else none
  | _ => none

/-- The text after `urn:uuid:`, in any letter case. -/
def afterUrn? (cs : List Char) : Option (List Char) :=
  if (cs.take 9).map Char.toLower = "urn:uuid:".toList then some (cs.drop 9) else none

def isUuid (s : String) : Bool :=
  let cs := s.toList
  isPlain cs || isGrouped cs || (unbraced? cs).any isGrouped || (afterUrn? cs).any isGrouped

end OrderLedger.Text.Uuid
