import OrderLedger.Order.Basic
import OrderLedger.Tally

/-!
What a list of order lines adds up to: money over the priced lines, and stock
over the lines that move stock.
-/

namespace OrderLedger

namespace Line

/-- Unit price times quantity. -/
def subtotal (l : Line) : Except Overflow Money := l.unitPrice.times l.quantity

def priced (lines : List Line) : List Line := lines.filter fun l => l.type.isPriced

def moving (lines : List Line) : List Line := lines.filter fun l => l.type.movesStock

/-- The total of the priced lines. Every subtotal is formed before it is added. -/
def totalFrom (start : Money) : List Line → Except Overflow Money
  | [] => .ok start
  | l :: rest =>
      if l.type.isPriced then do
        let subtotal ← l.subtotal
        totalFrom (← start.add subtotal) rest
      else totalFrom start rest

def total (lines : List Line) : Except Overflow Money := totalFrom Money.zero lines

end Line

/-- The change of stock that one line brings about. -/
structure Movement where
  productId : String
  lineId : String
  delta : Int
  deriving DecidableEq, Repr

namespace Movement

/-- A sale takes the quantity of the line out of stock. -/
def ofLine (l : Line) : Except Overflow Movement :=
  (Word.negate l.quantity).map fun delta => ⟨l.productId, l.id, delta⟩

/-- One movement for each line that moves stock. -/
def ofLines (lines : List Line) : Except Overflow (List Movement) :=
  (Line.moving lines).mapM ofLine

/-- The quantity that the lines need of each product. -/
def requirements (lines : List Line) : Except Overflow Tally := do
  let movements ← ofLines lines
  let needed ← movements.mapM fun m => (Word.negate m.delta).map fun n => (m.productId, n)
  Word.require .add (Tally.of? needed)

end Movement

end OrderLedger
