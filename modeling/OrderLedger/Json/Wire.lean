import OrderLedger.Json.Basic
import OrderLedger.Named
import OrderLedger.Time.Rfc3339
import OrderLedger.Word

/-!
Values on the wire: how a type is written as JSON and read back.

A structure is written as an object. It is read from an object, in any order of
the members and whatever other members there are, or from an array that lists
the members in their order. A member that may be absent is absent when it is
missing or null.
-/

namespace OrderLedger

class Wire (α : Type) where
  encode : α → Json
  decode? : Json → Option α

namespace Wire

def decodeInt? (least greatest : Int) : Json → Option Int
  | .int n => if least ≤ n ∧ n ≤ greatest then some n else none
  | _ => none

instance : Wire Int := ⟨.int, decodeInt? Word.least Word.greatest⟩

instance : Wire String where
  encode := .str
  decode? := fun
    | .str s => some s
    | _ => none

instance : Wire Bool where
  encode := .bool
  decode? := fun
    | .bool b => some b
    | _ => none

def encodeOption [Wire α] : Option α → Json
  | none => .null
  | some a => encode a

def decodeOption? [Wire α] : Json → Option (Option α)
  | .null => some none
  | j => (decode? j).map some

instance [Wire α] : Wire (Option α) := ⟨encodeOption, decodeOption?⟩

def decodeList? [Wire α] : Json → Option (List α)
  | .arr items => items.mapM decode?
  | _ => none

instance [Wire α] : Wire (List α) := ⟨fun items => .arr (items.map encode), decodeList?⟩

/-- A named value is written as its name. It may also be read from an object with
the name as its only key and nothing in it. -/
def decodeName? [Named α] : Json → Option α
  | .str s => Named.ofName? s
  | .obj [(key, .null)] => Named.ofName? key
  | _ => none

instance [Named α] : Wire α := ⟨fun a => .str (Named.name a), decodeName?⟩

instance : Wire Time.Instant where
  encode t := .str (Time.Rfc3339.wireText t)
  decode? := fun
    | .str s => Time.Rfc3339.read? s
    | _ => none

end Wire

/-- The members of a structure as they were found on the wire. -/
abbrev Members := List (String × Json)

namespace Members

/-- Whether some name in `names` occurs twice as a key. -/
def repeats (names : List String) : Members → Bool
  | [] => false
  | (key, _) :: rest =>
      (names.contains key && rest.any (·.1 == key)) || repeats names rest

/-- The members of a structure with the given names. An array must give at least
the first `least` of them. -/
def ofJson? (names : List String) (least : Nat) : Json → Option Members
  | .obj members => if repeats names members then none else some members
  | .arr items =>
      if least ≤ items.length ∧ items.length ≤ names.length then some (names.zip items) else none
  | _ => none

/-- A member that must be present. -/
def required? [Wire α] (members : Members) (name : String) : Option α :=
  (members.lookup name).bind Wire.decode?

/-- A member that may be missing or null. -/
def optional? [Wire α] (members : Members) (name : String) : Option (Option α) :=
  match members.lookup name with
  | none => some none
  | some j => Wire.decode? j

/-- A member that has a value of its own when it is missing. -/
def defaulted? [Wire α] (members : Members) (name : String) (default : α) : Option α :=
  match members.lookup name with
  | none => some default
  | some j => Wire.decode? j

end Members

end OrderLedger
