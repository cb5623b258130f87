import OrderLedger.Time.Calendar

/-!
Moments in universal time with a resolution of one nanosecond. The nanoseconds
of a leap second run on from 1000000000, so it sorts after the second that it
prolongs and before the next one.
-/

namespace OrderLedger.Time

structure Instant where
  /-- Days since 1970-01-01. -/
  day : Int
  /-- Second of the day. -/
  second : Nat
  nano : Nat
  deriving DecidableEq, Repr

namespace Instant

/-- The first and the last day of the calendar, in the years -262143 and 262142. -/
def firstDay : Int := Date.toDay ⟨-262143, 1, 1⟩

def lastDay : Int := Date.toDay ⟨262142, 12, 31⟩

def secondsPerDay : Int := 86400

/-- Earlier in time. -/
def lt (a b : Instant) : Prop :=
  a.day < b.day ∨ a.day = b.day ∧ (a.second < b.second ∨ a.second = b.second ∧ a.nano < b.nano)

instance : LT Instant := ⟨Instant.lt⟩

instance : LE Instant := ⟨fun a b => ¬ b < a⟩

instance (a b : Instant) : Decidable (a < b) := inferInstanceAs (Decidable (_ ∨ _))

instance (a b : Instant) : Decidable (a ≤ b) := inferInstanceAs (Decidable (¬ _))

/-- 1970-01-01T00:00:00Z -/
def epoch : Instant := ⟨0, 0, 0⟩

/-- Whole seconds since 1970-01-01T00:00:00Z. -/
def seconds (t : Instant) : Int := t.day * secondsPerDay + t.second

def ofSeconds (seconds : Int) (nano : Nat) : Instant :=
  ⟨seconds / secondsPerDay, (seconds % secondsPerDay).toNat, nano⟩

def IsInCalendar (t : Instant) : Prop := firstDay ≤ t.day ∧ t.day ≤ lastDay

instance (t : Instant) : Decidable t.IsInCalendar := inferInstanceAs (Decidable (_ ∧ _))

def inCalendar? (t : Instant) : Option Instant := if t.IsInCalendar then some t else none

/-- The moment `delta` seconds later, unless it falls outside the calendar.
Leaving a leap second, the leap second counts as one more second. -/
def addSeconds? (t : Instant) (delta : Int) : Option Instant :=
  inCalendar? <|
    if t.nano < 1000000000 then ofSeconds (t.seconds + delta) t.nano
    else if delta > 0 then ofSeconds (t.seconds + delta) (t.nano - 1000000000)
    else if delta < 0 then ofSeconds (t.seconds + 1 + delta) (t.nano - 1000000000)
    else t

/-- Whole seconds from `start` to `stop` when both have the same nanoseconds. -/
def secondsBetween (start stop : Instant) : Int := stop.seconds - start.seconds

end Instant

end OrderLedger.Time
