import OrderLedger.Settings.Wire
import OrderLedger.Toml.Reader
import OrderLedger.Toml.Writer

/-!
Settings from a file and from the environment. The file may leave out what it does not
change, a variable of the environment goes before the file, and the result must be
valid. Saved settings are a file that lists everything.
-/

namespace OrderLedger.Settings

/-- The variables of the environment that override a setting. -/
inductive Variable where
  | path
  | maxConnections
  | lifetime
  | policy
  | buffer
  | device
  deriving DecidableEq, Repr

instance : Named Variable where
  all := [.path, .maxConnections, .lifetime, .policy, .buffer, .device]
  name
    | .path => "BISTRO_DB_PATH"
    | .maxConnections => "BISTRO_DB_MAX_CONNECTIONS"
    | .lifetime => "BISTRO_IDEMPOTENCY_TTL_SECS"
    | .policy => "BISTRO_STOCK_POLICY"
    | .buffer => "BISTRO_HUB_BUFFER"
    | .device => "BISTRO_DEVICE_ID"

abbrev Environment := Variable → Option String

def number? (greatest : Int) (s : String) : Option Nat :=
  (Text.Decimal.unsigned? s).filter fun n => decide ((n : Int) ≤ greatest)

/-- The settings under an environment. A variable that cannot be understood is ignored. -/
def override (env : Environment) (s : Settings) : Settings :=
  { s with
    path := (env .path).getD s.path
    maxConnections :=
      ((env .maxConnections).bind (number? Word.unsigned32)).getD s.maxConnections
    lifetimeSeconds := ((env .lifetime).bind (number? Word.unsigned64)).getD s.lifetimeSeconds
    policy := ((env .policy).bind fun text => (OversellPolicy.ofText text).toOption).getD s.policy
    buffer := ((env .buffer).bind (number? Word.unsigned64)).getD s.buffer
    deviceId := (env .device).or s.deviceId }

/-- What stands where a settings file is looked for. -/
inductive Source where
  | missing
  /-- Something that is no text file. -/
  | unreadable
  | file (text : String)
  deriving DecidableEq, Repr

/-- In a file, a section may also be an array that starts with its values; what stands
behind them does not count. A policy may also be the only key of a table, with nothing
under it. -/
def Format.file : Format where
  members? names
    | .obj members => some members
    | .arr items => some (names.zip items)
    | _ => none
  policy?
    | .str s => Named.ofName? s
    | .obj [(key, .obj [])] => Named.ofName? key
    | .obj [(key, .arr [])] => Named.ofName? key
    | _ => none

def ofFile? (text : String) : Option Settings := (Toml.ofText? text).bind Format.file.settings?

def ofSource : Source → Except SettingsError Settings
  | .missing => .ok standard
  | .unreadable => .error .unreadable
  | .file text =>
      match ofFile? text with
      | some s => .ok s
      | none => .error .unreadable

def load (source : Source) (env : Environment) : Except SettingsError Settings := do
  let s := override env (← ofSource source)
  s.validate
  return s

/-- The standard settings stand in for settings that cannot be loaded. -/
def loadOrStandard (source : Source) (env : Environment) : Settings :=
  match load source env with
  | .ok s => s
  | .error _ => standard

def tables (s : Settings) : List (String × List (String × Toml.Scalar)) :=
  [("database",
     [("path", .text s.path), ("max_connections", .number s.maxConnections),
      ("busy_timeout_secs", .number s.busySeconds)]),
   ("idempotency", [("ttl_secs", .number s.lifetimeSeconds)]),
   ("stock", [("policy", .text (Named.name s.policy))]),
   ("hub", [("buffer", .number s.buffer)]),
   ("device", (s.deviceId.map fun id => ("id", Toml.Scalar.text id)).toList)]

/-- A file holds signed numbers of 64 bits. -/
def isWritable (s : Settings) : Bool :=
  [s.maxConnections, s.busySeconds, s.lifetimeSeconds, s.buffer].all fun n =>
    decide ((n : Int) ≤ Word.greatest)

def save (s : Settings) : Except SettingsError String :=
  if s.isWritable then .ok (String.ofList (Toml.documentChars s.tables)) else .error .unwritable

end OrderLedger.Settings
