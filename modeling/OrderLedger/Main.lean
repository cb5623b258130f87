import OrderLedger.Seed
import OrderLedger.Store.Snapshot
import Std.Time.DateTime.Timestamp

/-!
The command that seeds a store. The store is kept in a file as JSON text.
-/

namespace OrderLedger.Seed

/-- The present time. -/
def clock : IO Time.Instant := do
  let t := (← Std.Time.Timestamp.now).toDurationSinceUnixEpoch
  return Time.Instant.ofSeconds t.second.val t.nano.val.toNat

/-- A fresh id in the grouped form of an identifier. -/
def freshId : IO String := do
  let digits ← (List.range 32).mapM fun _ => return Text.Hex.lowerDigit (← IO.rand 0 15)
  let group (start count : Nat) := String.ofList ((digits.drop start).take count)
  return String.intercalate "-" [group 0 8, group 8 4, group 12 4, group 16 4, group 20 12]

/-- The directory in which the command runs. -/
def workingDirectory : IO Path := do
  return (Path.follow? [] (Text.Utf8.bytes (toString (← IO.currentDir)))).getD []

def pathText? (path : Path) : Option String :=
  (path.mapM Text.Utf8.text?).map fun names => "/" ++ String.intercalate "/" names

/-- A path as a text, for which there must be one. -/
def pathText (path : Path) : IO String :=
  match pathText? path with
  | some text => return text
  | none => throw (IO.userError "the name of the file is no text")

/-- The store in the file at a path, if there is such a file. -/
def readStore (path : Path) : IO (List (Path × Store)) := do
  match ← (IO.FS.readFile (← pathText path)).toBaseIO with
  | .ok text =>
      match (Json.ofText? text).bind Wire.decode? with
      | some store => return [(path, store)]
      | none => throw (IO.userError "the file holds no store")
  | .error (.noFileOrDirectory ..) => return []
  | .error e => throw e

/-- As much of the disk as a run needs: the file at its place. Whether the directory of the
file is there shows when the file is written. -/
def readDisk (here : Path) (args : List String) : IO Disk := do
  match place? here args with
  | some (.file path _) => return ⟨here, [path.dropLast], ← readStore path⟩
  | _ => return .empty here

def writeDisk (disk : Disk) : IO Unit :=
  disk.files.forM fun (path, store) => do
    IO.FS.writeFile (← pathText path) (Json.text (Wire.encode store))

/-- Runs the command on the file that its arguments name. -/
def execute (args : List String) : IO UInt32 := do
  let disk ← readDisk (← workingDirectory) args
  let ids ← simpleProducts.mapM fun _ => freshId
  let (result, disk) := run args (← clock) (fun n => ids.getD n "") disk
  writeDisk disk
  match result with
  | .ok text => do
      IO.print text
      return 0
  | .error reason => do
      IO.eprintln reason
      return 1

end OrderLedger.Seed

def main (args : List String) : IO UInt32 := OrderLedger.Seed.execute args
