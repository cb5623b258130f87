import OrderLedger.Json.Reader
import OrderLedger.Json.Wire
import OrderLedger.Json.Writer

/-!
Remembered answers. The answer to a request that carries a key is kept under the
request's scope and that key for a while, and a retry gets it again.
-/

namespace OrderLedger

/-- A kept answer. Its payload is bytes, which the memory does not look into. -/
structure Remembered where
  scope : String
  key : String
  payload : List UInt8
  createdAt : Time.Instant
  expiresAt : Time.Instant
  deriving DecidableEq, Repr

namespace Remembered

/-- The scope of keys that place orders, and the scope of keys that pay. -/
def placingScope : String := "order-create"

def payingScope : String := "pos-payment"

/-- How long an answer is kept unless the settings say otherwise, in seconds. -/
def defaultLifetime : Nat := 86400

def isExpired (r : Remembered) (now : Time.Instant) : Bool := r.expiresAt ≤ now

/-- A value as a payload: its JSON text in UTF-8. -/
def payloadOf [Wire α] (a : α) : List UInt8 := Text.Utf8.bytes (Json.text (Wire.encode a))

def valueOf? [Wire α] (payload : List UInt8) : Option α :=
  (Json.outlineOfBytes? payload).bind Wire.decode?

def decodeByte? (j : Json) : Option UInt8 :=
  (Wire.decodeInt? 0 Word.unsigned8 j).map fun n => UInt8.ofNat n.toNat

instance : Wire UInt8 := ⟨fun b => .int b.toNat, decodeByte?⟩

instance : Wire Remembered where
  encode r := .obj [
    ("scope", Wire.encode r.scope), ("key", Wire.encode r.key),
    ("response", Wire.encode r.payload), ("created_at", Wire.encode r.createdAt),
    ("expires_at", Wire.encode r.expiresAt)]
  decode? j := do
    let m ← Members.ofJson? ["scope", "key", "response", "created_at", "expires_at"] 5 j
    some {
      scope := ← m.required? "scope"
      key := ← m.required? "key"
      payload := ← m.required? "response"
      createdAt := ← m.required? "created_at"
      expiresAt := ← m.required? "expires_at" }

end Remembered

end OrderLedger
