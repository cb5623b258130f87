import OrderLedger.Store.Basic
import OrderLedger.Store.Timeline

/-!
Remembered answers in the store. A record is live while the text of its expiry sorts
after the text of the present time; whoever claims a key first keeps it until then.
-/

namespace OrderLedger.Remembered

/-- The longest time that the clock can measure, in seconds either way. -/
def longestLifetime : Int := 9223372036854775

/-- A lifetime in seconds, if the clock can measure it. -/
def lifetime (seconds : Int) : Except Overflow Int :=
  if -longestLifetime ≤ seconds ∧ seconds ≤ longestLifetime then .ok seconds
  else .error .duration

/-- When a record made now expires. -/
def expiry (now : Time.Instant) (seconds : Int) : Except Overflow Time.Instant :=
  Word.require .instant (now.addSeconds? seconds)

def isUnder (r : Remembered) (scope key : String) : Bool := r.scope == scope && r.key == key

def isLive (r : Remembered) (now : Time.Instant) : Bool := !Store.notAfter r.expiresAt now

end OrderLedger.Remembered

namespace OrderLedger.Store

/-- The record under a scope and a key, live or not. -/
def remembered? (s : Store) (scope key : String) : Option Remembered :=
  s.remembered.find? fun r => r.isUnder scope key

def live? (s : Store) (scope key : String) (now : Time.Instant) : Option Remembered :=
  s.remembered.find? fun r => r.isUnder scope key && r.isLive now

/-- The records with one written in the place of the one under its scope and key, or at
the end. -/
def withRemembered (s : Store) (r : Remembered) : Store :=
  if s.remembered.any fun other => other.isUnder r.scope r.key then
    { s with
      remembered := s.remembered.map fun other =>
        if other.isUnder r.scope r.key then r else other }
  else { s with remembered := s.remembered ++ [r] }

/-- Writes a record unless a live one holds its key. Returns the record that holds the
key now, and whether it is the new one. -/
def claim {ε : Type} (scope key : String) (payload : List UInt8) (now expiresAt : Time.Instant) :
    Work ε (Remembered × Bool) := do
  let s ← get
  match s.live? scope key now with
  | some holder => return (holder, false)
  | none =>
      let r : Remembered := { scope, key, payload, createdAt := now, expiresAt }
      set (s.withRemembered r)
      return (r, true)

/-- Replaces the payload of a record. -/
def fill (scope key : String) (payload : List UInt8) : Statement := fun s =>
  if s.remembered.any fun r => r.isUnder scope key then
    .ok { s with
      remembered := s.remembered.map fun r =>
        if r.isUnder scope key then { r with payload } else r }
  else .error (.notFound "Idempotency record" (scope ++ "/" ++ key))

/-- Deletes the records that are not live and counts them. -/
def purge (now : Time.Instant) (s : Store) : Nat × Store :=
  ((s.remembered.filter fun r => !r.isLive now).length,
   { s with remembered := s.remembered.filter fun r => r.isLive now })

/-- Deletes all records and counts them. -/
def forget (s : Store) : Nat × Store := (s.remembered.length, { s with remembered := [] })

end OrderLedger.Store
