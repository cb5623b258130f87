/-!
JSON values. A number that is written as a plain integer is held exactly; any
other number is kept as its text, since nothing here computes with it. Objects
keep their members in order, repeated keys included.
-/

namespace OrderLedger

inductive Json where
  | null
  | bool (b : Bool)
  | int (n : Int)
  /-- A number with a fraction or an exponent, or minus zero. -/
  | real (text : String)
  | str (s : String)
  | arr (items : List Json)
  | obj (members : List (String × Json))
  /-- A string that stands for no text, since half of a surrogate pair is missing in it, or
  an object with such a key. Nothing is read from it. -/
  | garbled
  deriving Inhabited

namespace Json

mutual

/-- The value in which, of members with one key, the last one counts. -/
def lastWins : Json → Json
  | .arr items => .arr (lastWinsItems items)
  | .obj members => .obj (lastWinsMembers members)
  | j => j

def lastWinsItems : List Json → List Json
  | [] => []
  | j :: items => lastWins j :: lastWinsItems items

def lastWinsMembers : List (String × Json) → List (String × Json)
  | [] => []
  | (key, j) :: members =>
      let rest := lastWinsMembers members
      if rest.any (·.1 == key) then rest else (key, lastWins j) :: rest

end

/-- The member with the given key, if the value is an object that has it. -/
def get? (j : Json) (key : String) : Option Json :=
  match j with
  | .obj members => members.lookup key
  | _ => none

/-- An object with one more member, at its end. -/
def withMember (j : Json) (key : String) (value : Json) : Json :=
  match j with
  | .obj members => .obj (members ++ [(key, value)])
  | j => j

/-- An object without the members of the given keys. -/
def without (keys : List String) : Json → Json
  | .obj members => .obj (members.filter fun m => !keys.contains m.1)
  | j => j

/-- An object with those of the given members that it does not have. -/
def withDefaults (defaults : List (String × Json)) : Json → Json
  | .obj members =>
      .obj (members ++ defaults.filter fun d => !members.any fun m => m.1 == d.1)
  | j => j

mutual

/-- The value with each of its strings, keys apart, replaced. -/
def mapStrings (f : String → String) : Json → Json
  | .str s => .str (f s)
  | .arr items => .arr (mapStringsItems f items)
  | .obj members => .obj (mapStringsMembers f members)
  | j => j

def mapStringsItems (f : String → String) : List Json → List Json
  | [] => []
  | j :: items => mapStrings f j :: mapStringsItems f items

def mapStringsMembers (f : String → String) : List (String × Json) → List (String × Json)
  | [] => []
  | (key, j) :: members => (key, mapStrings f j) :: mapStringsMembers f members

end

end Json

end OrderLedger
