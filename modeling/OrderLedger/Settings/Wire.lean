import OrderLedger.Settings.Basic
import OrderLedger.Json.Wire

/-!
Settings on the wire: an object with a section for each topic. A section or a member
that is missing has its standard value. A settings file has the same sections, and differs
in how it may write a section and a policy.
-/

namespace OrderLedger.Settings

/-- A number from 0 to `greatest`. -/
def decodeNat? (greatest : Int) (j : Json) : Option Nat :=
  (Wire.decodeInt? 0 greatest j).map Int.toNat

def numberOr? (greatest : Int) (members : Members) (name : String) (default : Nat) : Option Nat :=
  match members.lookup name with
  | none => some default
  | some j => decodeNat? greatest j

/-- How a format writes the parts of settings. -/
structure Format where
  /-- The members of a section with the given names. -/
  members? : List String → Json → Option Members
  policy? : Json → Option OversellPolicy

namespace Format

/-- On the wire, a section is a structure like any other. -/
def wire : Format := ⟨fun names => Members.ofJson? names 0, Wire.decode?⟩

/-- The members of a section, of which none are given if it is missing. -/
def section? (format : Format) (members : Members) (name : String) (names : List String) :
    Option Members :=
  match members.lookup name with
  | none => some []
  | some j => format.members? names j

/-- Reads settings that are written in the format. -/
def settings? (format : Format) (j : Json) : Option Settings := do
  let m ← format.members? ["database", "idempotency", "stock", "hub", "device"] j
  let database ← format.section? m "database" ["path", "max_connections", "busy_timeout_secs"]
  let idempotency ← format.section? m "idempotency" ["ttl_secs"]
  let stock ← format.section? m "stock" ["policy"]
  let hub ← format.section? m "hub" ["buffer"]
  let device ← format.section? m "device" ["id"]
  let policy ← match stock.lookup "policy" with
    | none => some standard.policy
    | some j => format.policy? j
  some {
    path := ← database.defaulted? "path" standard.path
    maxConnections :=
      ← numberOr? Word.unsigned32 database "max_connections" standard.maxConnections
    busySeconds := ← numberOr? Word.unsigned64 database "busy_timeout_secs" standard.busySeconds
    lifetimeSeconds :=
      ← numberOr? Word.unsigned64 idempotency "ttl_secs" standard.lifetimeSeconds
    policy
    buffer := ← numberOr? Word.unsigned64 hub "buffer" standard.buffer
    deviceId := ← device.optional? "id" }

end Format

instance : Wire Settings where
  encode s := .obj [
    ("database", .obj [
      ("path", Wire.encode s.path), ("max_connections", .int s.maxConnections),
      ("busy_timeout_secs", .int s.busySeconds)]),
    ("idempotency", .obj [("ttl_secs", .int s.lifetimeSeconds)]),
    ("stock", .obj [("policy", Wire.encode s.policy)]),
    ("hub", .obj [("buffer", .int s.buffer)]),
    ("device", .obj [("id", Wire.encode s.deviceId)])]
  decode? := Format.wire.settings?

end OrderLedger.Settings
