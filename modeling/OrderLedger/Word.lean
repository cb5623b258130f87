/-!
Integers of 64 bits. Amounts, quantities and stock are integers that must stay
in the signed 64-bit range; an operation whose exact result leaves the range
fails with the cause instead of wrapping around.
-/

namespace OrderLedger

/-- Why a calculation has no result, or a number no use. -/
inductive Overflow where
  | add
  | subtract
  | multiply
  | negate
  /-- A lifetime longer than the clock can measure. -/
  | duration
  /-- A moment outside the years of the calendar. -/
  | instant
  /-- A buffer with more room than can be counted. -/
  | buffer
  /-- Connections of which there may be none. -/
  | connections
  deriving DecidableEq, Repr

def Overflow.message : Overflow → String
  | .add => "attempt to add with overflow"
  | .subtract => "attempt to subtract with overflow"
  | .multiply => "attempt to multiply with overflow"
  | .negate => "attempt to negate with overflow"
  | .duration => "TimeDelta::seconds out of bounds"
  | .instant => "`DateTime + TimeDelta` overflowed"
  | .buffer => "a semaphore may not have more than MAX_PERMITS permits (2305843009213693951)"
  | .connections => "capacity must be non-zero"

namespace Word

/-- The least and the greatest signed integer of 64 bits. -/
def least : Int := -9223372036854775808

def greatest : Int := 9223372036854775807

/-- The greatest unsigned integers of 64, 32 and 8 bits. -/
def unsigned64 : Int := 18446744073709551615

def unsigned32 : Int := 4294967295

def unsigned8 : Int := 255

/-- How many words of 64 bits there are. -/
def count64 : Nat := 18446744073709551616

/-- An integer that a signed 64-bit word holds. -/
def Fits (n : Int) : Prop := least ≤ n ∧ n ≤ greatest

instance (n : Int) : Decidable (Fits n) :=
  inferInstanceAs (Decidable (least ≤ n ∧ n ≤ greatest))

/-- The integer itself if it fits. -/
def narrow? (n : Int) : Option Int := if Fits n then some n else none

def add? (a b : Int) : Option Int := narrow? (a + b)

def multiply? (a b : Int) : Option Int := narrow? (a * b)

/-- Fails with `cause` where there is no value. -/
def require (cause : Overflow) : Option α → Except Overflow α
  | some a => .ok a
  | none => .error cause

def add (a b : Int) : Except Overflow Int := require .add (narrow? (a + b))

def subtract (a b : Int) : Except Overflow Int := require .subtract (narrow? (a - b))

def multiply (a b : Int) : Except Overflow Int := require .multiply (narrow? (a * b))

def negate (a : Int) : Except Overflow Int := require .negate (narrow? (-a))

/-- The sum of a list on top of `start`, from left to right. It fails as soon
as a running sum leaves the range, even if the total would fit. -/
def sumFrom? (start : Int) : List Int → Option Int
  | [] => some start
  | n :: ns => (add? start n).bind fun sum => sumFrom? sum ns

def sum? (ns : List Int) : Option Int := sumFrom? 0 ns

theorem narrow?_eq_some_iff {n m : Int} : narrow? n = some m ↔ Fits n ∧ m = n := by
  unfold narrow?
  split <;> simp_all [eq_comm]

theorem fits_zero : Fits 0 := by decide

theorem sumFrom?_append (start : Int) (ns ms : List Int) :
    sumFrom? start (ns ++ ms) = (sumFrom? start ns).bind fun sum => sumFrom? sum ms := by
  induction ns generalizing start with
  | nil => rfl
  | cons n ns ih =>
      simp only [List.cons_append, sumFrom?]
      cases add? start n with
      | none => rfl
      | some sum => exact ih sum

end Word

end OrderLedger
