import OrderLedger.Feed
import OrderLedger.Store.Remembered
import OrderLedger.Text.LowerCase

/-!
The settings of a shop, what they must satisfy, and how the store is opened with them.
-/

namespace OrderLedger

/-- What is wrong with settings. -/
inductive SettingsError where
  | emptyPath
  | noConnections
  | noLifetime
  | noBuffer
  | blankDevice
  | unknownPolicy (text : String)
  /-- A file that cannot be read, or is not what a settings file should be. -/
  | unreadable
  /-- A number that a settings file cannot hold. -/
  | unwritable
  deriving DecidableEq, Repr

def SettingsError.message : SettingsError → String
  | .emptyPath => "database.path must not be empty"
  | .noConnections => "database.max_connections must be greater than 0"
  | .noLifetime => "idempotency.ttl_secs must be greater than 0"
  | .noBuffer => "hub.buffer must be greater than 0"
  | .blankDevice => "device.id must not be blank"
  | .unknownPolicy text =>
      "Unknown stock policy: '" ++ text ++ "'. Valid options: allow_oversell, reject_insufficient"
  | .unreadable => "the settings file cannot be read"
  | .unwritable => "the settings cannot be written"

namespace OversellPolicy

/-- The policy that a person may have meant: in any letter case, with hyphens or
underscores, and by one of its short names. -/
def ofText (s : String) : Except SettingsError OversellPolicy :=
  let text := (Text.lowerCase s).map fun c => if c = '-' then '_' else c
  if ["allow_oversell", "oversell", "allow"].contains text then .ok .allow
  else if ["reject_insufficient", "reject", "strict"].contains text then .ok .refuse
  else .error (.unknownPolicy text)

end OversellPolicy

/-- How the store is opened. -/
structure OpeningOptions where
  path : String
  maxConnections : Nat
  minConnections : Nat
  connectMillis : Nat
  busyMillis : Nat
  idleMillis : Nat
  /-- Whether the tables are made when the store is opened. -/
  makesTables : Bool
  deriving DecidableEq, Repr

namespace OpeningOptions

/-- The path of a store that lives in memory only. -/
def memoryPath : String := ":memory:"

def isInMemory (o : OpeningOptions) : Bool := o.path == memoryPath

def atPath (path : String) : OpeningOptions := ⟨path, 5, 1, 30000, 5000, 600000, true⟩

/-- A store in memory has one connection, for a second one would see a store of its own. -/
def inMemory : OpeningOptions := ⟨memoryPath, 1, 1, 5000, 5000, 60000, true⟩

end OpeningOptions

structure Settings where
  path : String
  maxConnections : Nat
  /-- How long a statement waits while the store is locked, in seconds. -/
  busySeconds : Nat
  /-- How long an answer is remembered, in seconds. -/
  lifetimeSeconds : Nat
  policy : OversellPolicy
  /-- How many events wait for a subscriber. -/
  buffer : Nat
  /-- The till or kiosk, with which payments and stock entries are stamped. -/
  deviceId : Option String
  deriving DecidableEq, Repr

namespace Settings

def standard : Settings :=
  { path := "./bistro_ledger.db"
    maxConnections := 5
    busySeconds := 5
    lifetimeSeconds := Remembered.defaultLifetime
    policy := .allow
    buffer := Feed.defaultBuffer
    deviceId := none }

def inMemory : Settings :=
  { standard with path := OpeningOptions.memoryPath, maxConnections := 1 }

def validate (s : Settings) : Except SettingsError Unit :=
  if s.path.isEmpty then .error .emptyPath
  else if s.maxConnections = 0 then .error .noConnections
  else if s.lifetimeSeconds = 0 then .error .noLifetime
  else if s.buffer = 0 then .error .noBuffer
  else if s.deviceId.any Text.isBlank then .error .blankDevice
  else .ok ()

/-- The lifetime of remembered answers, if the clock can measure it. -/
def lifetime (s : Settings) : Except Overflow Int := Remembered.lifetime s.lifetimeSeconds

/-- How a shop with these settings opens its store. Milliseconds wrap around at 64 bits. -/
def opening (s : Settings) : OpeningOptions :=
  let options :=
    if s.path == OpeningOptions.memoryPath then OpeningOptions.inMemory
    else { OpeningOptions.atPath s.path with maxConnections := s.maxConnections }
  { options with busyMillis := 1000 * s.busySeconds % Word.count64 }

end Settings

end OrderLedger
