import OrderLedger.Text.Blank
import OrderLedger.Text.Decimal
import OrderLedger.Time.Instant

/-!
Timestamps as text, in the date format of RFC 3339. Written, a timestamp has no
fraction when it is a whole second, else the shortest of 3, 6 or 9 digits that is
exact, and a year outside 0000 to 9999 carries a sign. Reading is lenient: fields
may be short and surrounded by white space, and the offset may be written in
several ways.
-/

namespace OrderLedger.Time.Rfc3339

open OrderLedger.Text

/-- The year in four digits, or with a sign where four digits cannot hold it. -/
def yearText (year : Int) : List Char :=
  if year < 0 then '-' :: Decimal.padded 4 year.natAbs
  else if year ≤ 9999 then Decimal.padded 4 year.toNat
  else '+' :: Decimal.padded 4 year.toNat

def dateText (d : Date) : List Char :=
  yearText d.year ++ '-' :: Decimal.padded 2 d.month ++ '-' :: Decimal.padded 2 d.day

/-- A leap second is second 60. -/
def timeText (second nano : Nat) : List Char :=
  Decimal.padded 2 (second / 3600) ++ ':' :: Decimal.padded 2 (second / 60 % 60) ++
    ':' :: Decimal.padded 2 (second % 60 + nano / 1000000000)

/-- Nanoseconds in the fewest groups of three digits that are exact. -/
def fractionText (nano : Nat) : List Char :=
  if nano = 0 then []
  else if nano % 1000000 = 0 then '.' :: Decimal.padded 3 (nano / 1000000)
  else if nano % 1000 = 0 then '.' :: Decimal.padded 6 (nano / 1000)
  else '.' :: Decimal.padded 9 nano

/-- The timestamp without its offset. -/
def localText (t : Instant) : List Char :=
  dateText (Date.ofDay t.day) ++ 'T' :: timeText t.second t.nano ++
    fractionText (t.nano % 1000000000)

/-- The text on the wire, which ends in `Z`. -/
def wireText (t : Instant) : String := String.ofList (localText t ++ ['Z'])

/-- The text in the tables, which ends in `+00:00`. -/
def storedText (t : Instant) : String := String.ofList (localText t ++ "+00:00".toList)

/-- Skips white space. -/
def skip (cs : List Char) : List Char := cs.dropWhile isWhiteSpace

/-- Reads the digits at the start, at most `width` of them and at least one. -/
def number? (width : Nat) (cs : List Char) : Option (Nat × List Char) :=
  let taken := (cs.take width).takeWhile Decimal.isDigit
  if taken.isEmpty then none else some (Decimal.value taken, cs.drop taken.length)

/-- Reads a number after white space and checks its bounds. -/
def field? (least greatest : Nat) (cs : List Char) : Option (Nat × List Char) := do
  let (n, rest) ← number? 2 (skip cs)
  if least ≤ n ∧ n ≤ greatest then some (n, rest) else none

/-- Four digits at most, or any number of digits after a sign. -/
def year? (cs : List Char) : Option (Int × List Char) :=
  match skip cs with
  | '-' :: rest => (number? rest.length rest).map fun r => (-(Int.ofNat r.1), r.2)
  | '+' :: rest => (number? rest.length rest).map fun r => (Int.ofNat r.1, r.2)
  | cs => (number? 4 cs).map fun r => (Int.ofNat r.1, r.2)

def literal? (c : Char) (cs : List Char) : Option (List Char) :=
  match skip cs with
  | d :: rest => if d = c then some rest else none
  | [] => none

/-- The fraction in nanoseconds; digits after the ninth are dropped. -/
def fraction? : List Char → Option (Nat × List Char)
  | '.' :: rest => do
      let (n, _) ← number? 9 rest
      let width := ((rest.take 9).takeWhile Decimal.isDigit).length
      some (n * Nat.pow 10 (9 - width), rest.dropWhile Decimal.isDigit)
  | cs => some (0, cs)

/-- Two digits, the first of them at most `tens`. -/
def twoDigits? (tens : Nat) : List Char → Option (Nat × List Char)
  | a :: b :: rest =>
      if Decimal.isDigit a ∧ Decimal.isDigit b ∧ Decimal.digitValue a ≤ tens then
        some (Decimal.value [a, b], rest)
      else none
  | _ => none

/-- The seconds east of universal time: `Z`, `UTC` in any letter case, or signed hours
and minutes. -/
def offset? (cs : List Char) : Option (Int × List Char) :=
  if (cs.take 3).map Char.toLower = "utc".toList then some (0, cs.drop 3)
  else
    match cs with
    | 'Z' :: rest | 'z' :: rest => some (0, rest)
    | sign :: rest => do
        let direction : Int ←
          if sign = '+' then some 1 else if sign = '-' ∨ sign = '\u2212' then some (-1) else none
        let (hours, rest) ← twoDigits? 9 rest
        let rest := rest.dropWhile fun c => c = ':' || isWhiteSpace c
        let (minutes, rest) ← twoDigits? 5 rest
        if hours < 24 then some (direction * (Int.ofNat hours * 3600 + Int.ofNat minutes * 60), rest)
        else none
    | [] => none

/-- The moment of a local date and time `offset` seconds east of universal time. -/
def assemble? (date : Date) (hour minute second nano : Nat) (offset : Int) : Option Instant := do
  let leap := second / 60
  let clock := hour * 3600 + minute * 60 + (second - leap)
  if date.IsValid ∧ -262143 ≤ date.year ∧ date.year ≤ 262142 then
    let shown := date.toDay * Instant.secondsPerDay + clock
    Instant.inCalendar? (Instant.ofSeconds (shown - offset) (nano + leap * 1000000000))
  else none

def readChars? (cs : List Char) : Option Instant := do
  let (year, cs) ← year? cs
  let cs ← literal? '-' cs
  let (month, cs) ← field? 1 12 cs
  let cs ← literal? '-' cs
  let (day, cs) ← field? 1 31 cs
  let cs ← match cs with
    | 'T' :: rest | 't' :: rest | ' ' :: rest => some rest
    | _ => none
  let (hour, cs) ← field? 0 23 cs
  let cs ← literal? ':' cs
  let (minute, cs) ← field? 0 59 cs
  let cs ← literal? ':' cs
  let (second, cs) ← field? 0 60 cs
  let (nano, cs) ← fraction? cs
  let (offset, cs) ← offset? (skip cs)
  if (skip cs).isEmpty then assemble? ⟨year, month, day⟩ hour minute second nano offset
  else none

/-- Reads a timestamp. -/
def read? (s : String) : Option Instant := readChars? s.toList

end OrderLedger.Time.Rfc3339
