/-!
White space in text: the characters with the Unicode property `White_Space`,
trimming, and text that counts as blank.
-/

namespace OrderLedger.Text

/-- The ranges of code points with the property `White_Space`. -/
def whiteSpaceRanges : List (Nat × Nat) :=
  [(0x09, 0x0D), (0x20, 0x20), (0x85, 0x85), (0xA0, 0xA0), (0x1680, 0x1680), (0x2000, 0x200A),
   (0x2028, 0x2029), (0x202F, 0x202F), (0x205F, 0x205F), (0x3000, 0x3000)]

def isWhiteSpace (c : Char) : Bool :=
  whiteSpaceRanges.any fun range => range.1 ≤ c.toNat && c.toNat ≤ range.2

/-- The characters without white space at either end. -/
def trimChars (cs : List Char) : List Char :=
  ((cs.dropWhile isWhiteSpace).reverse.dropWhile isWhiteSpace).reverse

def trim (s : String) : String := String.ofList (trimChars s.toList)

/-- Text that is empty or only white space. -/
def isBlank (s : String) : Bool := s.toList.all isWhiteSpace

/-- The trimmed text, if anything is left of it. -/
def trimmed? (s : Option String) : Option String :=
  (s.map trim).filter fun t => !t.isEmpty

end OrderLedger.Text
