import OrderLedger.Json.Wire
import OrderLedger.Text.Decimal
import OrderLedger.Word

/-!
Amounts of money in whole cents. Refunds and corrections are negative amounts.
Written, an amount has two decimals and no currency.
-/

namespace OrderLedger

structure Money where
  cents : Int
  deriving DecidableEq, Repr, Inhabited

namespace Money

open OrderLedger.Text

def zero : Money := ⟨0⟩

def isZero (m : Money) : Bool := m.cents = 0

/-- The whole units, toward zero. -/
def units (m : Money) : Int := m.cents.tdiv 100

/-- The cents beside the whole units, from 0 to 99. -/
def remainder (m : Money) : Nat := (m.cents.tmod 100).natAbs

def chars (m : Money) : List Char :=
  (if m.cents < 0 then ['-'] else []) ++ Decimal.digits m.units.natAbs ++
    '.' :: Decimal.padded 2 m.remainder

def text (m : Money) : String := String.ofList m.chars

def add (a b : Money) : Except Overflow Money := (Word.add a.cents b.cents).map Money.mk

def subtract (a b : Money) : Except Overflow Money := (Word.subtract a.cents b.cents).map Money.mk

def times (m : Money) (quantity : Int) : Except Overflow Money :=
  (Word.multiply m.cents quantity).map Money.mk

def add? (a b : Money) : Option Money := (Word.add? a.cents b.cents).map Money.mk

def times? (m : Money) (quantity : Int) : Option Money :=
  (Word.multiply? m.cents quantity).map Money.mk

/-- The sum on top of `start`, from left to right. -/
def sumFrom (start : Money) : List Money → Except Overflow Money
  | [] => .ok start
  | m :: ms => do sumFrom (← start.add m) ms

def sum (ms : List Money) : Except Overflow Money := sumFrom zero ms

/-- An amount is a bare number of cents on the wire. -/
instance : Wire Money := ⟨fun m => .int m.cents, fun j => (Wire.decode? j).map Money.mk⟩

end Money

end OrderLedger
