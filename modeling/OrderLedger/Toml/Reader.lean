import OrderLedger.Text.Decimal
import OrderLedger.Text.Hex
import OrderLedger.Text.Magnitude
import OrderLedger.Time.Calendar
import OrderLedger.Toml.Tables
import OrderLedger.Word

/-!
Reading TOML. A document is a list of statements, one on a line: a key with its value,
or the header of a table. Reading them from first to last gives one value; a date or a
time becomes an object, for no setting is a time.
-/

namespace OrderLedger.Toml

open OrderLedger.Text

/-- What one line of a document says. A path is a key and the keys behind its dots. -/
inductive Statement where
  | set (key : String) (path : List String) (value : Json)
  | table (parents : List String) (key : String)
  /-- A further table of an array of tables. -/
  | element (parents : List String) (key : String)

def isBlankChar (c : Char) : Bool := c = ' ' || c = '\t'

def skip (cs : List Char) : List Char := cs.dropWhile isBlankChar

/-- A character that may stand in a comment and between quotes. -/
def isPlainChar (c : Char) : Bool := c = '\t' || (32 ≤ c.toNat && c.toNat != 127)

def skipComment : List Char → List Char
  | '#' :: rest => rest.dropWhile isPlainChar
  | cs => cs

/-- Skips white space, line ends and comments. -/
def skipLines (inComment : Bool) : List Char → List Char
  | '\n' :: rest => skipLines false rest
  | '\r' :: '\n' :: rest => skipLines false rest
  | c :: rest =>
      if inComment then if isPlainChar c then skipLines true rest else c :: rest
      else if isBlankChar c then skipLines false rest
      else if c = '#' then skipLines true rest
      else c :: rest
  | [] => []

/-- Whether only white space stands before the end of the line. -/
def endsLine (cs : List Char) : Bool :=
  match skip cs with
  | '\n' :: _ => true
  | '\r' :: '\n' :: _ => true
  | _ => false

/-- The rest after three quotes that close a text. Up to two quotes right before them
belong to the text. -/
def closing? (q : Char) : List Char → Option (List Char × List Char)
  | a :: b :: c :: rest =>
      if a = q ∧ b = q ∧ c = q then
        match rest with
        | d :: e :: more =>
            if d = q ∧ e = q then some ([q, q], more)
            else if d = q then some ([q], e :: more)
            else some ([], d :: e :: more)
        | [d] => if d = q then some ([q], []) else some ([], [d])
        | [] => some ([], [])
      else none
  | _ => none

/-- The character of a code point written in hexadecimal digits. -/
def scalar? (ds : List Char) : Option Char := do
  let values ← ds.mapM Hex.value?
  let n := values.foldl (fun n d => 16 * n + d) 0
  if n < 0xD800 ∨ (0xDFFF < n ∧ n < 0x110000) then some (Char.ofNat n) else none

def unescape? (c : Char) : Option Char :=
  if c = '"' ∨ c = '\\' then some c
  else if c = 'b' then some '\x08'
  else if c = 't' then some '\t'
  else if c = 'n' then some '\n'
  else if c = 'f' then some '\x0c'
  else if c = 'r' then some '\r'
  else none

/-- Where a reader of text between triple quotes stands. -/
inductive Within where
  | text
  /-- After a backslash at the end of a line, where space and line ends do not count. -/
  | fold
  deriving DecidableEq, Repr

/-- Reads a text with escapes up to its closing quotes. -/
def escapedTail? (triple : Bool) : Within → List Char → Option (List Char × List Char)
  | _, [] => none
  | _, '\\' :: 'u' :: a :: b :: c :: d :: rest => do
      let ch ← scalar? [a, b, c, d]
      let (s, rest) ← escapedTail? triple .text rest
      some (ch :: s, rest)
  | _, '\\' :: 'U' :: a :: b :: c :: d :: e :: f :: g :: h :: rest => do
      let ch ← scalar? [a, b, c, d, e, f, g, h]
      let (s, rest) ← escapedTail? triple .text rest
      some (ch :: s, rest)
  | _, '\\' :: c :: rest =>
      if triple && endsLine (c :: rest) then escapedTail? triple .fold (c :: rest)
      else do
        let ch ← unescape? c
        let (s, rest) ← escapedTail? triple .text rest
        some (ch :: s, rest)
  | w, '\r' :: '\n' :: rest =>
      if triple then
        if w = .fold then escapedTail? triple .fold rest
        else (escapedTail? triple .text rest).map fun r => ('\n' :: r.1, r.2)
      else none
  | w, c :: rest =>
      if w = .fold && (isBlankChar c || c = '\n') then escapedTail? triple .fold rest
      else if triple && c = '\n' then
        (escapedTail? triple .text rest).map fun r => ('\n' :: r.1, r.2)
      else if c = '"' then
        if triple then
          match closing? '"' (c :: rest) with
          | some r => some r
          | none => (escapedTail? triple .text rest).map fun r => ('"' :: r.1, r.2)
        else some ([], rest)
      else if isPlainChar c && c != '\\' then
        (escapedTail? triple .text rest).map fun r => (c :: r.1, r.2)
      else none
termination_by structural _ cs => cs

/-- Reads a text without escapes up to its closing quotes. -/
def literalTail? (triple : Bool) : List Char → Option (List Char × List Char)
  | [] => none
  | '\r' :: '\n' :: rest =>
      if triple then (literalTail? triple rest).map fun r => ('\n' :: r.1, r.2) else none
  | c :: rest =>
      if c = '\x27' then
        if triple then
          match closing? '\x27' (c :: rest) with
          | some r => some r
          | none => (literalTail? triple rest).map fun r => (c :: r.1, r.2)
        else some ([], rest)
      else if isPlainChar c || (triple && c = '\n') then
        (literalTail? triple rest).map fun r => (c :: r.1, r.2)
      else none
termination_by structural cs => cs

def skipLineEnd : List Char → List Char
  | '\n' :: rest => rest
  | '\r' :: '\n' :: rest => rest
  | cs => cs

/-- Reads a text in quotes that stay on one line. -/
def lineText? : List Char → Option (List Char × List Char)
  | '"' :: rest => escapedTail? false .text rest
  | '\x27' :: rest => literalTail? false rest
  | _ => none

/-- Reads a text in quotes of any kind. -/
def text? : List Char → Option (List Char × List Char)
  | '"' :: '"' :: '"' :: rest => escapedTail? true .text (skipLineEnd rest)
  | '\x27' :: '\x27' :: '\x27' :: rest => literalTail? true (skipLineEnd rest)
  | cs => lineText? cs

def isBareChar (c : Char) : Bool := c.isAlphanum || c = '_' || c = '-'

/-- Reads a key that is bare or in quotes. -/
def simpleKey? (cs : List Char) : Option (String × List Char) :=
  let bare := cs.takeWhile isBareChar
  if bare.isEmpty then (lineText? cs).map fun r => (String.ofList r.1, r.2)
  else some (String.ofList bare, cs.dropWhile isBareChar)

/-- Reads the keys behind the dots of a key. -/
def pathTail? : Nat → List Char → Option (List String × List Char)
  | 0, cs => some ([], cs)
  | fuel + 1, cs =>
      match skip cs with
      | '.' :: rest => do
          let (key, rest) ← simpleKey? (skip rest)
          let (path, rest) ← pathTail? fuel rest
          some (key :: path, rest)
      | _ => some ([], cs)

/-- The tables and arrays that may lie around a value in one statement, and the value. -/
def nestingLimit : Nat := 80

/-- Reads a key and the keys behind its dots. -/
def path? (cs : List Char) : Option ((String × List String) × List Char) := do
  let (key, cs) ← simpleKey? (skip cs)
  let (path, cs) ← pathTail? cs.length cs
  if path.length + 1 < nestingLimit then some ((key, path), cs) else none

/-- The digits of a number in which single underscores may stand between digits. -/
def withoutUnderscores? (isDigit : Char → Bool) : List Char → Option (List Char)
  | [] => none
  | [c] => if isDigit c then some [c] else none
  | c :: '_' :: rest =>
      if isDigit c then (withoutUnderscores? isDigit rest).map (c :: ·) else none
  | c :: rest => if isDigit c then (withoutUnderscores? isDigit rest).map (c :: ·) else none

def isBinary (c : Char) : Bool := c = '0' || c = '1'

def isOctal (c : Char) : Bool := '0' ≤ c && c ≤ '7'

/-- A number written in digits of a base. -/
def inBase? (base : Nat) (isDigit : Char → Bool) (cs : List Char) : Option Int := do
  let ds ← withoutUnderscores? isDigit cs
  let values ← ds.mapM Hex.value?
  Word.narrow? (values.foldl (fun n d => base * n + d) 0 : Nat)

/-- Whole digits without a zero in front. -/
def whole? (cs : List Char) : Option (List Char) := do
  let ds ← withoutUnderscores? Decimal.isDigit cs
  if ds.length = 1 ∨ ds.head? ≠ some '0' then some ds else none

/-- Splits off a sign. The answer tells whether it is a minus. -/
def splitSign : List Char → Bool × List Char
  | '+' :: rest => (false, rest)
  | '-' :: rest => (true, rest)
  | cs => (false, cs)

def integer? : List Char → Option Int
  | '0' :: 'x' :: rest => inBase? 16 Hex.isDigit rest
  | '0' :: 'o' :: rest => inBase? 8 isOctal rest
  | '0' :: 'b' :: rest => inBase? 2 isBinary rest
  | cs => do
      let (negative, cs) := splitSign cs
      let n := Decimal.value (← whole? cs)
      Word.narrow? (if negative then -(Int.ofNat n) else Int.ofNat n)

def isExponentMark (c : Char) : Bool := c = 'e' || c = 'E'

/-- Whether the text is empty or an exponent. -/
def isExponent : List Char → Bool
  | [] => true
  | e :: rest =>
      isExponentMark e && (withoutUnderscores? Decimal.isDigit (splitSign rest).2).isSome

/-- Whether the text is a fraction, an exponent or both. -/
def isRemainder : List Char → Bool
  | '.' :: rest =>
      (withoutUnderscores? Decimal.isDigit
        (rest.takeWhile fun c => Decimal.isDigit c || c = '_')).isSome &&
        isExponent (rest.dropWhile fun c => Decimal.isDigit c || c = '_')
  | cs => !cs.isEmpty && isExponent cs

/-- Whether the text is a number with a fraction or an exponent, or the name of one that is
not finite. Digits must not round to positive infinity. -/
def isReal (cs : List Char) : Bool :=
  let (negative, magnitude) := splitSign cs
  magnitude = "inf".toList || magnitude = "nan".toList ||
    ((whole? (magnitude.takeWhile fun c => Decimal.isDigit c || c = '_')).isSome &&
      isRemainder (magnitude.dropWhile fun c => Decimal.isDigit c || c = '_') &&
      (negative || !Magnitude.overflows (magnitude.filter (· != '_'))))

def isDigits (n : Nat) (cs : List Char) : Bool := cs.length = n && cs.all Decimal.isDigit

def isDate : List Char → Bool
  | a :: b :: c :: d :: '-' :: e :: f :: '-' :: g :: h :: [] =>
      isDigits 8 [a, b, c, d, e, f, g, h] &&
        decide (Time.Date.IsValid
          ⟨Decimal.value [a, b, c, d], Decimal.value [e, f], Decimal.value [g, h]⟩)
  | _ => false

/-- Two digits that are at most `most`. -/
def isField (most : Nat) (a b : Char) : Bool :=
  isDigits 2 [a, b] && Decimal.value [a, b] ≤ most

def isOffset : List Char → Bool
  | [] => true
  | ['Z'] => true
  | ['z'] => true
  | sign :: a :: b :: ':' :: c :: d :: [] =>
      (sign = '+' || sign = '-') && isField 23 a b && isField 59 c d
  | _ => false

/-- Whether the text is what may follow the seconds of a time. -/
def isTimeTail (offset : Bool) (cs : List Char) : Bool :=
  let zone := fun rest : List Char => if offset then isOffset rest else rest.isEmpty
  match cs with
  | '.' :: rest =>
      !(rest.takeWhile Decimal.isDigit).isEmpty && zone (rest.dropWhile Decimal.isDigit)
  | rest => zone rest

/-- Whether the text is a time, with an offset if one may stand there. -/
def isTime (offset : Bool) : List Char → Bool
  | a :: b :: ':' :: c :: d :: ':' :: e :: f :: rest =>
      isField 23 a b && isField 59 c d && isField 60 e f && isTimeTail offset rest
  | _ => false

def isDateTime (cs : List Char) : Bool :=
  isDate cs || isTime false cs ||
    (isDate (cs.take 10) &&
      match cs.drop 10 with
      | c :: rest => (c = 'T' || c = 't' || c = ' ') && isTime true rest
      | [] => false)

/-- The value of a word that stands without quotes. -/
def word? (cs : List Char) : Option Json :=
  if cs = "true".toList then some (.bool true)
  else if cs = "false".toList then some (.bool false)
  else if isDateTime cs then some (.obj [("date", .str (String.ofList cs))])
  else
    match integer? cs with
    | some n => some (.int n)
    | none => if isReal cs then some (.real (String.ofList cs)) else none

def isWordChar (c : Char) : Bool :=
  c.isAlphanum || c = '_' || c = '+' || c = '-' || c = '.' || c = ':'

/-- Splits off a word. A date and a time may be joined by a blank. -/
def spanWord (cs : List Char) : List Char × List Char :=
  let first := cs.takeWhile isWordChar
  match cs.dropWhile isWordChar with
  | ' ' :: rest =>
      let joined := first ++ ' ' :: rest.takeWhile isWordChar
      if isDate first && isDateTime joined then (joined, rest.dropWhile isWordChar)
      else (first, ' ' :: rest)
  | rest => (first, rest)

/-- Reads the rest of an array after one of its items. A comma may stand last. -/
def moreItems? (item : List Char → Option (Json × List Char)) :
    Nat → List Char → Option (List Json × List Char)
  | 0, _ => none
  | fuel + 1, cs =>
      match skipLines false cs with
      | ']' :: rest => some ([], rest)
      | ',' :: rest =>
          match skipLines false rest with
          | ']' :: rest => some ([], rest)
          | rest => do
              let (j, rest) ← item rest
              let (items, rest) ← moreItems? item fuel rest
              some (j :: items, rest)
      | _ => none

/-- Reads a key, an equals sign and a value. -/
def member? (item : List Char → Option (Json × List Char)) (cs : List Char) :
    Option (((String × List String) × Json) × List Char) := do
  let (path, cs) ← path? cs
  match skip cs with
  | '=' :: rest =>
      let (j, rest) ← item (skip rest)
      some ((path, j), rest)
  | _ => none

/-- Reads the rest of an inline table after one of its members. -/
def moreMembers? (item : List Char → Option (Json × List Char)) :
    Nat → List Char → Option (List ((String × List String) × Json) × List Char)
  | 0, _ => none
  | fuel + 1, cs =>
      match skip cs with
      | '}' :: rest => some ([], rest)
      | ',' :: rest => do
          let (m, rest) ← member? item rest
          let (members, rest) ← moreMembers? item fuel rest
          some (m :: members, rest)
      | _ => none

def tableOf? (members : List ((String × List String) × Json)) : Option Json :=
  (members.foldlM (fun entries m => Entries.set? true entries m.1.1 m.1.2 m.2) []).map
    Entries.toJson

/-- Reads a value, `depth - 1` containers deep at most. -/
def value? : Nat → List Char → Option (Json × List Char)
  | 0, _ => none
  | depth + 1, cs =>
      match cs with
      | '[' :: rest =>
          if depth = 0 then none
          else
            match skipLines false rest with
            | ']' :: rest => some (.arr [], rest)
            | rest => do
                let (j, rest) ← value? depth rest
                let (items, rest) ← moreItems? (value? depth) (rest.length + 1) rest
                some (.arr (j :: items), rest)
      | '{' :: rest =>
          if depth = 0 then none
          else
            match skip rest with
            | '}' :: rest => some (.obj [], rest)
            | rest => do
                let (m, rest) ← member? (value? depth) rest
                let (members, rest) ← moreMembers? (value? depth) (rest.length + 1) rest
                some (← tableOf? (m :: members), rest)
      | cs =>
          if cs.head? = some '"' ∨ cs.head? = some '\x27' then
            (text? cs).map fun r => (.str (String.ofList r.1), r.2)
          else
            let (word, rest) := spanWord cs
            (word? word).map fun j => (j, rest)

/-- The path of a header as the tables above it and its own key. -/
def splitLast (key : String) : List String → List String × String
  | [] => ([], key)
  | next :: rest =>
      let (parents, last) := splitLast next rest
      (key :: parents, last)

/-- Reads one statement. -/
def statement? : List Char → Option (Statement × List Char)
  | '[' :: '[' :: rest => do
      let ((key, path), rest) ← path? rest
      match skip rest with
      | ']' :: ']' :: rest =>
          let (parents, last) := splitLast key path
          some (.element parents last, rest)
      | _ => none
  | '[' :: rest => do
      let ((key, path), rest) ← path? rest
      match skip rest with
      | ']' :: rest =>
          let (parents, last) := splitLast key path
          some (.table parents last, rest)
      | _ => none
  | cs => do
      let (((key, path), j), rest) ← member? (value? nestingLimit) cs
      some (.set key path j, rest)

/-- Goes on behind a line end or at the end of the document. -/
def afterLine? (cs : List Char) : Option (List Char) :=
  match skipComment (skip cs) with
  | [] => some []
  | '\n' :: rest => some rest
  | '\r' :: '\n' :: rest => some rest
  | _ => none

/-- Reads statements, each on a line of its own, to the end of the document. -/
def statements? : Nat → List Char → Option (List Statement)
  | 0, _ => none
  | fuel + 1, cs =>
      match skipLines false cs with
      | [] => some []
      | cs => do
          let (s, rest) ← statement? cs
          let rest ← afterLine? rest
          let more ← statements? fuel rest
          some (s :: more)

/-- What a document says so far, and the path of the table that is open. -/
structure Progress where
  root : Entries
  opened : List String

def Progress.step? (p : Progress) : Statement → Option Progress
  | .set key path j =>
      (p.root.within? p.opened fun entries => entries.set? true key path j).map fun root =>
        { p with root }
  | .table parents key =>
      (p.root.within? parents (Entries.openTable? key)).map fun root => ⟨root, parents ++ [key]⟩
  | .element parents key =>
      (p.root.within? parents (Entries.openElement? key)).map fun root => ⟨root, parents ++ [key]⟩

/-- The table that statements build up. -/
def ofStatements? (statements : List Statement) : Option Json :=
  (statements.foldlM Progress.step? ⟨[], []⟩).map fun p => p.root.toJson

/-- Reads a document. A byte order mark at its start does not count. -/
def ofChars? (cs : List Char) : Option Json := do
  let cs := if cs.head? = some '\ufeff' then cs.drop 1 else cs
  let statements ← statements? (cs.length + 1) cs
  ofStatements? statements

def ofText? (s : String) : Option Json := ofChars? s.toList

end OrderLedger.Toml
