import OrderLedger.Json.Basic
import OrderLedger.Text.Decimal
import OrderLedger.Text.Hex

/-!
The text of a JSON value, without white space. Inside a string only the quote,
the backslash and the control characters are escaped. No written value is garbled; one
that is would be written as null.
-/

namespace OrderLedger.Json

open OrderLedger.Text

/-- A character as it stands inside a string. -/
def escaped (c : Char) : List Char :=
  if c = '"' then ['\\', '"']
  else if c = '\\' then ['\\', '\\']
  else if c = '\n' then ['\\', 'n']
  else if c = '\r' then ['\\', 'r']
  else if c = '\t' then ['\\', 't']
  else if c = '\x08' then ['\\', 'b']
  else if c = '\x0c' then ['\\', 'f']
  else if c.toNat < 32 then
    ['\\', 'u', '0', '0', Hex.lowerDigit (c.toNat / 16), Hex.lowerDigit (c.toNat % 16)]
  else [c]

def quoted (s : String) : List Char := '"' :: s.toList.flatMap escaped ++ ['"']

mutual

def chars : Json → List Char
  | .null => ['n', 'u', 'l', 'l']
  | .bool true => ['t', 'r', 'u', 'e']
  | .bool false => ['f', 'a', 'l', 's', 'e']
  | .int n => Decimal.signed n
  | .real text => text.toList
  | .str s => quoted s
  | .arr [] => ['[', ']']
  | .arr (j :: items) => '[' :: chars j ++ tailItems items
  | .obj [] => ['{', '}']
  | .obj ((key, j) :: members) => '{' :: quoted key ++ ':' :: chars j ++ tailMembers members
  | .garbled => ['n', 'u', 'l', 'l']

/-- The items after the first one, and the closing bracket. -/
def tailItems : List Json → List Char
  | [] => [']']
  | j :: items => ',' :: chars j ++ tailItems items

/-- The members after the first one, and the closing brace. -/
def tailMembers : List (String × Json) → List Char
  | [] => ['}']
  | (key, j) :: members => ',' :: quoted key ++ ':' :: chars j ++ tailMembers members

end

def text (j : Json) : String := String.ofList (chars j)

end OrderLedger.Json
