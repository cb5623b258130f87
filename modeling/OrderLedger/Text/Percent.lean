import OrderLedger.Text.Hex
import OrderLedger.Text.Utf8

/-!
Text with percent escapes, each of which stands for one byte of UTF-8.
-/

namespace OrderLedger.Text

/-- The bytes of a text. A percent sign that no two hexadecimal digits follow stands for
itself. -/
def percentBytes : List Char → List UInt8
  | '%' :: a :: b :: rest =>
      match Hex.value? a, Hex.value? b with
      | some high, some low => UInt8.ofNat (16 * high + low) :: percentBytes rest
      | _, _ => 37 :: percentBytes (a :: b :: rest)
  | c :: rest => Utf8.bytes (String.ofList [c]) ++ percentBytes rest
  | [] => []

/-- The text without its escapes, if the bytes are text. -/
def unescapePercent? (s : String) : Option String :=
  Utf8.text? (percentBytes s.toList)

end OrderLedger.Text
