import OrderLedger.Text.Decimal
import OrderLedger.Text.Hex

/-!
Writing TOML. A text is written between the quotes that need no escapes, if there are
such: double quotes, single quotes, three double quotes or three single quotes, in this
order. Otherwise it is written with escapes, in three double quotes if it has line ends.
-/

namespace OrderLedger.Toml

open OrderLedger.Text

/-- The quotes around a text. -/
inductive Quotes where
  | double
  | single
  | tripleDouble
  | tripleSingle
  deriving DecidableEq, Repr

namespace Quotes

def mark : Quotes → List Char
  | .double => ['"']
  | .single => ['\x27']
  | .tripleDouble => ['"', '"', '"']
  | .tripleSingle => ['\x27', '\x27', '\x27']

/-- Between triple quotes a text may go over several lines. -/
def isTriple : Quotes → Bool
  | .double | .single => false
  | .tripleDouble | .tripleSingle => true

/-- Between single quotes every character stands for itself. -/
def hasEscapes : Quotes → Bool
  | .double | .tripleDouble => true
  | .single | .tripleSingle => false

end Quotes

/-- A control character, which only an escape can write. -/
def isControl (c : Char) : Bool :=
  (c.toNat < 32 && c != '\t' && c != '\n') || c.toNat == 127

/-- The length of the longest run of a character, after a run of `run` before the text. -/
def longestRun (q : Char) (run : Nat) : List Char → Nat
  | [] => run
  | c :: cs => if c = q then longestRun q (run + 1) cs else max run (longestRun q 0 cs)

/-- The quotes in which a text is written. -/
def quotesFor (cs : List Char) : Quotes :=
  let plain := !cs.any isControl
  let oneLine := !cs.contains '\n'
  let noBackslash := !cs.contains '\\'
  if plain && noBackslash && longestRun '"' 0 cs = 0 && oneLine then .double
  else if plain && longestRun '\x27' 0 cs = 0 && oneLine then .single
  else if plain && noBackslash && longestRun '"' 0 cs ≤ 2 then .tripleDouble
  else if plain && longestRun '\x27' 0 cs ≤ 2 then .tripleSingle
  else if oneLine then .double
  else .tripleDouble

/-- A character other than the double quote between double quotes. -/
def escaped (triple : Bool) (c : Char) : List Char :=
  if c = '\x08' then ['\\', 'b']
  else if c = '\t' then ['\\', 't']
  else if c = '\n' then if triple then ['\n'] else ['\\', 'n']
  else if c = '\x0c' then ['\\', 'f']
  else if c = '\r' then ['\\', 'r']
  else if c = '\\' then ['\\', '\\']
  else if c.toNat < 32 ∨ c.toNat = 127 then
    ['\\', 'u', '0', '0', Hex.upperDigit (c.toNat / 16), Hex.upperDigit (c.toNat % 16)]
  else [c]

/-- How many double quotes may stand in a row. -/
def quoteRoom (triple : Bool) : Nat := if triple then 2 else 0

/-- A text between double quotes. `room` more quotes may stand here without an escape. -/
def escapedText (triple : Bool) (room : Nat) : List Char → List Char
  | [] => []
  | c :: cs =>
      if c = '"' then
        match room with
        | 0 => '\\' :: '"' :: escapedText triple (quoteRoom triple) cs
        | room + 1 => '"' :: escapedText triple room cs
      else escaped triple c ++ escapedText triple (quoteRoom triple) cs

/-- A text in the given quotes. A line end right after triple quotes does not count, so
a text of several lines starts on a line of its own. -/
def quotedIn (quotes : Quotes) (cs : List Char) : List Char :=
  quotes.mark ++ (if quotes.isTriple && cs.contains '\n' then ['\n'] else []) ++
    (if quotes.hasEscapes then escapedText quotes.isTriple (quoteRoom quotes.isTriple) cs
     else cs) ++
    quotes.mark

def quoted (s : String) : List Char := quotedIn (quotesFor s.toList) s.toList

/-- A value that a table can hold here. -/
inductive Scalar where
  | text (s : String)
  | number (n : Int)
  deriving DecidableEq, Repr

def Scalar.chars : Scalar → List Char
  | .text s => quoted s
  | .number n => Decimal.signed n

/-- A line that sets a bare key. -/
def memberLine (key : String) (value : Scalar) : List Char :=
  key.toList ++ " = ".toList ++ value.chars ++ ['\n']

/-- A table under its header. -/
def tableChars (name : String) (members : List (String × Scalar)) : List Char :=
  '[' :: name.toList ++ ']' :: '\n' :: members.flatMap fun m => memberLine m.1 m.2

/-- Tables with an empty line between two of them. -/
def documentChars : List (String × List (String × Scalar)) → List Char
  | [] => []
  | [(name, members)] => tableChars name members
  | (name, members) :: rest => tableChars name members ++ '\n' :: documentChars rest

end OrderLedger.Toml
