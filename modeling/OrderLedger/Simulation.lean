import OrderLedger.Location
import OrderLedger.Shop.Basic
import OrderLedger.Text.Decimal

/-!
A simulated outside world. Its clock moves on by a millionth of a second with every tick,
and its ids are numbered, so that a run of the shop can be repeated exactly.
-/

namespace OrderLedger.Simulation

/-- The moment of a tick. -/
def moment (tick : Nat) : Time.Instant :=
  Time.Instant.ofSeconds (1767225600 + Int.ofNat (tick / 1000000)) (tick % 1000000 * 1000)

/-- The middle of every simulated id. -/
def middle : List Char := "-5d1e-4b7a-9c3f-".toList

/-- The id with number `n` of a tick, in the grouped form of an identifier. -/
def id (tick n : Nat) : String :=
  String.ofList (Text.Decimal.padded 8 tick ++ middle ++ Text.Decimal.padded 12 n)

def idLength : Nat := 36

/-- Whether a text begins with a simulated id. -/
def startsWithId (cs : List Char) : Bool :=
  middle.isPrefixOf (cs.drop 8)

/-- The characters after `skipped` more characters of the id before, with its name in the
place of every simulated id. An id without a name is told as a new one. -/
def namedChars (names : List (String × String)) (skipped : Nat) : List Char → List Char
  | [] => []
  | c :: rest =>
      match skipped with
      | skipped + 1 => namedChars names skipped rest
      | 0 =>
          if startsWithId (c :: rest) then
            let id := String.ofList ((c :: rest).take idLength)
            let name := ((names.find? fun n => n.2 == id).map (·.1)).getD "$new"
            name.toList ++ namedChars names (idLength - 1) rest
          else c :: namedChars names 0 rest

/-- The text with names, which are listed with their ids, in the place of simulated ids. -/
def named (names : List (String × String)) (s : String) : String :=
  String.ofList (namedChars names 0 s.toList)

/-- A call that takes three ticks. -/
def call (tick : Nat) : Call :=
  { lookedUpAt := moment tick
    pricedAt := moment (tick + 1)
    now := moment (tick + 2)
    ids := id tick }

/-- The directory in which simulated commands run. -/
def directory : Path := ["tmp", "run"].map Text.Utf8.bytes

end OrderLedger.Simulation
