/-!
Types with finitely many values, each of which has one name that is written and
read. Names are compared exactly.
-/

namespace OrderLedger

class Named (α : Type) where
  /-- The values in the order in which a message lists them. -/
  all : List α
  name : α → String

namespace Named

variable {α : Type} [Named α]

def ofName? (s : String) : Option α := (all (α := α)).find? fun a => name a == s

def quotedNames (α : Type) [Named α] : List String :=
  (all (α := α)).map fun a => "`" ++ name a ++ "`"

/-- The complaint about a name that no value has. -/
def unknownMessage (α : Type) [Named α] (s : String) : String :=
  "unknown variant `" ++ s ++ "`, expected " ++
    match quotedNames α with
    | [one] => one
    | [one, two] => one ++ " or " ++ two
    | names => "one of " ++ String.intercalate ", " names

end Named

end OrderLedger
