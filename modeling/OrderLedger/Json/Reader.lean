import OrderLedger.Json.Basic
import OrderLedger.Text.Decimal
import OrderLedger.Text.Hex
import OrderLedger.Text.Magnitude
import OrderLedger.Text.Utf8

/-!
Reading JSON text. The grammar is the strict one: no trailing commas, no leading zeros and
no raw control characters in strings.

A value that is kept as a whole is nested 127 deep at most, pairs every surrogate escape
and holds no number that rounds to infinity. A value from which a type is to be read need
not: what the type passes over has only to be well formed.
-/

namespace OrderLedger.Json

open OrderLedger.Text

def isBlankChar (c : Char) : Bool := c = ' ' || c = '\n' || c = '\r' || c = '\t'

def skip (cs : List Char) : List Char := cs.dropWhile isBlankChar

def hexQuad? (a b c d : Char) : Option Nat := do
  some (4096 * (← Hex.value? a) + 256 * (← Hex.value? b) + 16 * (← Hex.value? c) + (← Hex.value? d))

/-- The character of an escape with one letter. -/
def unescape? (c : Char) : Option Char :=
  if c = '"' ∨ c = '\\' ∨ c = '/' then some c
  else if c = 'b' then some '\x08'
  else if c = 'f' then some '\x0c'
  else if c = 'n' then some '\n'
  else if c = 'r' then some '\r'
  else if c = 't' then some '\t'
  else none

def isLeadSurrogate (n : Nat) : Bool := 0xD800 ≤ n && n ≤ 0xDBFF

def isTrailSurrogate (n : Nat) : Bool := 0xDC00 ≤ n && n ≤ 0xDFFF

/-- The character of a code point that is no surrogate. -/
def scalar? (n : Nat) : Option Char :=
  if isLeadSurrogate n || isTrailSurrogate n then none else some (Char.ofNat n)

/-- The character of two surrogates. -/
def pair? (lead trail : Nat) : Option Char :=
  if isLeadSurrogate lead && isTrailSurrogate trail then
    some (Char.ofNat (0x10000 + (lead - 0xD800) * 0x400 + (trail - 0xDC00)))
  else none

/-- Reads the code points of a string after its opening quote. Escapes may name surrogates,
each of which counts as a code point here. -/
def codePoints? : List Char → Option (List Nat × List Char)
  | '"' :: rest => some ([], rest)
  | '\\' :: 'u' :: a :: b :: c :: d :: rest => do
      let n ← hexQuad? a b c d
      let (ns, rest) ← codePoints? rest
      some (n :: ns, rest)
  | '\\' :: e :: rest => do
      let ch ← unescape? e
      let (ns, rest) ← codePoints? rest
      some (ch.toNat :: ns, rest)
  | c :: rest =>
      if c.toNat < 32 ∨ c = '\\' then none
      else do
        let (ns, rest) ← codePoints? rest
        some (c.toNat :: ns, rest)
  | [] => none
termination_by structural cs => cs

/-- The characters of code points in which every surrogate belongs to a pair. -/
def ofCodePoints? : List Nat → Option (List Char)
  | [] => some []
  | [n] => (scalar? n).map fun c => [c]
  | a :: b :: rest =>
      match pair? a b with
      | some c => (ofCodePoints? rest).map (c :: ·)
      | none => do some ((← scalar? a) :: (← ofCodePoints? (b :: rest)))

theorem isLeadSurrogate_toNat (c : Char) : isLeadSurrogate c.toNat = false := by
  have hvalid : c.toNat < 0xD800 ∨ 0xDFFF < c.toNat ∧ c.toNat < 0x110000 := c.valid
  simp only [isLeadSurrogate, Bool.and_eq_false_iff, decide_eq_false_iff_not]
  omega

theorem isTrailSurrogate_toNat (c : Char) : isTrailSurrogate c.toNat = false := by
  have hvalid : c.toNat < 0xD800 ∨ 0xDFFF < c.toNat ∧ c.toNat < 0x110000 := c.valid
  simp only [isTrailSurrogate, Bool.and_eq_false_iff, decide_eq_false_iff_not]
  omega

theorem scalar?_toNat (c : Char) : scalar? c.toNat = some c := by
  simp [scalar?, isLeadSurrogate_toNat, isTrailSurrogate_toNat, Char.ofNat_toNat]

/-- Characters that are written as their own code points are read back. -/
theorem ofCodePoints?_toNat (cs : List Char) : ofCodePoints? (cs.map Char.toNat) = some cs := by
  induction cs with
  | nil => rfl
  | cons a rest ih =>
      cases rest with
      | nil => simp [ofCodePoints?, scalar?_toNat]
      | cons b rest =>
          simp only [List.map_cons] at ih ⊢
          simp [ofCodePoints?, pair?, isLeadSurrogate_toNat, scalar?_toNat, ih]

/-- Reads a string. One that is well formed may still stand for no text. -/
def string? : List Char → Option (Option String × List Char)
  | '"' :: rest => do
      let (ns, rest) ← codePoints? rest
      some ((ofCodePoints? ns).map String.ofList, rest)
  | _ => none

def ofString : Option String → Json
  | some s => .str s
  | none => .garbled

/-- The object of members whose keys are texts. -/
def ofMembers (members : List (Option String × Json)) : Json :=
  match members.mapM fun m => m.1.map fun key => (key, m.2) with
  | some members => .obj members
  | none => .garbled

/-- Splits off the digits at the start. -/
def spanDigits (cs : List Char) : List Char × List Char :=
  (cs.takeWhile Decimal.isDigit, cs.dropWhile Decimal.isDigit)

/-- The digits of a fraction, if there is one. -/
def fraction? : List Char → Option (List Char × List Char)
  | '.' :: rest =>
      let (ds, rest) := spanDigits rest
      if ds.isEmpty then none else some ('.' :: ds, rest)
  | cs => some ([], cs)

def exponentDigits? (mark : List Char) (cs : List Char) : Option (List Char × List Char) :=
  let (ds, rest) := spanDigits cs
  if ds.isEmpty then none else some (mark ++ ds, rest)

def exponent? : List Char → Option (List Char × List Char)
  | e :: rest =>
      if e = 'e' ∨ e = 'E' then
        match rest with
        | '+' :: rest => exponentDigits? [e, '+'] rest
        | '-' :: rest => exponentDigits? [e, '-'] rest
        | rest => exponentDigits? [e] rest
      else some ([], e :: rest)
  | [] => some ([], [])

/-- Whether digits form a whole number: at least one, and no zero in front. -/
def isWhole : List Char → Bool
  | [] => false
  | ['0'] => true
  | c :: _ => c ≠ '0'

/-- The value of a number with the given sign, whole digits and remainder. -/
def ofNumber (negative : Bool) (whole remainder : List Char) : Json :=
  let n := Decimal.value whole
  if remainder.isEmpty && !(negative && n = 0) then
    .int (if negative then -(Int.ofNat n) else Int.ofNat n)
  else .real (String.ofList ((if negative then ['-'] else []) ++ whole ++ remainder))

def unsignedNumber? (negative : Bool) (cs : List Char) : Option (Json × List Char) := do
  let (whole, cs) := spanDigits cs
  if isWhole whole then
    let (fraction, cs) ← fraction? cs
    let (exponent, cs) ← exponent? cs
    some (ofNumber negative whole (fraction ++ exponent), cs)
  else none

def number? : List Char → Option (Json × List Char)
  | '-' :: rest => unsignedNumber? true rest
  | cs => unsignedNumber? false cs

/-- Reads the rest of an array after one of its items. -/
def moreItems? (item : List Char → Option (Json × List Char)) :
    Nat → List Char → Option (List Json × List Char)
  | 0, _ => none
  | fuel + 1, cs =>
      match skip cs with
      | ']' :: rest => some ([], rest)
      | ',' :: rest => do
          let (j, rest) ← item rest
          let (items, rest) ← moreItems? item fuel rest
          some (j :: items, rest)
      | _ => none

/-- Reads a key, a colon and a value. -/
def member? (item : List Char → Option (Json × List Char)) (cs : List Char) :
    Option ((Option String × Json) × List Char) := do
  let (key, cs) ← string? (skip cs)
  match skip cs with
  | ':' :: rest =>
      let (j, rest) ← item rest
      some ((key, j), rest)
  | _ => none

/-- Reads the rest of an object after one of its members. -/
def moreMembers? (item : List Char → Option (Json × List Char)) :
    Nat → List Char → Option (List (Option String × Json) × List Char)
  | 0, _ => none
  | fuel + 1, cs =>
      match skip cs with
      | '}' :: rest => some ([], rest)
      | ',' :: rest => do
          let (m, rest) ← member? item rest
          let (members, rest) ← moreMembers? item fuel rest
          some (m :: members, rest)
      | _ => none

/-- Reads a value at the start of the text, `depth - 1` containers deep at most. -/
def value? : Nat → List Char → Option (Json × List Char)
  | 0, _ => none
  | depth + 1, cs =>
      match skip cs with
      | 'n' :: 'u' :: 'l' :: 'l' :: rest => some (.null, rest)
      | 't' :: 'r' :: 'u' :: 'e' :: rest => some (.bool true, rest)
      | 'f' :: 'a' :: 'l' :: 's' :: 'e' :: rest => some (.bool false, rest)
      | '"' :: rest => (string? ('"' :: rest)).map fun r => (ofString r.1, r.2)
      | '[' :: rest =>
          if depth = 0 then none
          else
            match skip rest with
            | ']' :: rest => some (.arr [], rest)
            | rest => do
                let (j, rest) ← value? depth rest
                let (items, rest) ← moreItems? (value? depth) (rest.length + 1) rest
                some (.arr (j :: items), rest)
      | '{' :: rest =>
          if depth = 0 then none
          else
            match skip rest with
            | '}' :: rest => some (.obj [], rest)
            | rest => do
                let (m, rest) ← member? (value? depth) rest
                let (members, rest) ← moreMembers? (value? depth) (rest.length + 1) rest
                some (ofMembers (m :: members), rest)
      | cs => number? cs

/-- The containers that may be open at one time, and one level for what they hold. -/
def nestingLimit : Nat := 128

/-- Reads a text that is one value with white space around it, `depth - 1` containers deep
at most. -/
def ofChars? (depth : Nat) (cs : List Char) : Option Json := do
  let (j, rest) ← value? depth cs
  if (skip rest).isEmpty then some j else none

mutual

/-- Whether all strings in a value are texts and no number in it rounds to infinity. -/
def isSound : Json → Bool
  | .null | .bool _ | .str _ => true
  | .int n => n.natAbs < Magnitude.limit
  | .real text => !Magnitude.overflows (text.toList.dropWhile (· = '-'))
  | .arr items => areSound items
  | .obj members => haveSound members
  | .garbled => false

def areSound : List Json → Bool
  | [] => true
  | j :: items => isSound j && areSound items

def haveSound : List (String × Json) → Bool
  | [] => true
  | (_, j) :: members => isSound j && haveSound members

end

/-- The value of a text that is kept as a whole. -/
def ofText? (s : String) : Option Json := (ofChars? nestingLimit s.toList).filter isSound

/-- The value of characters from which a type is to be read. -/
def outline? (cs : List Char) : Option Json := ofChars? (cs.length + 1) cs

/-- What stands for a byte that is no text: half of a surrogate pair, so that nothing is
read from the string around it. Outside of strings and behind a backslash it is refused. -/
def strayByte : List Char := ['x', '\\', 'u', 'd', '8', '0', '0', ' ']

/-- The value of bytes from which a type is to be read. -/
def outlineOfBytes? (bytes : List UInt8) : Option Json :=
  match Utf8.text? bytes with
  | some s => outline? s.toList
  | none => outline? (Utf8.charsWith strayByte 0 bytes)

end OrderLedger.Json
