import OrderLedger.Location
import OrderLedger.Store.Catalog
import OrderLedger.Store.Stock

/-!
A small food-service catalog to start with: five products, a menu with two slots, and an
opening count for every product. A store that has products already is left alone.
-/

namespace OrderLedger.Seed

/-- What the command is asked to do. -/
structure Plan where
  /-- The file of the store. -/
  path : String
  /-- The opening count of every product. -/
  openingStock : Int
  deriving DecidableEq, Repr

inductive Request where
  | help
  | seed (plan : Plan)
  deriving DecidableEq, Repr

def standardPlan : Plan := ⟨"./bistro_dev.db", 50⟩

/-- A count on the command line; what is no number counts as the standard one. -/
def countOf (s : String) : Int :=
  ((Text.Decimal.signed? s).filter fun n => decide (Word.Fits n)).getD standardPlan.openingStock

/-- Reads the arguments from left to right. An option that lacks its value is ignored, and
so is whatever is no option. -/
def requestFrom (plan : Plan) : List String → Request
  | [] => .seed plan
  | [arg] => if arg == "--help" || arg == "-h" then .help else .seed plan
  | arg :: value :: rest =>
      if arg == "--db" || arg == "-d" then requestFrom { plan with path := value } rest
      else if arg == "--stock" || arg == "-s" then
        requestFrom { plan with openingStock := countOf value } rest
      else if arg == "--help" || arg == "-h" then .help
      else requestFrom plan (value :: rest)

def request (args : List String) : Request := requestFrom standardPlan args

def helpLines : List String :=
  ["Bistro Ledger Seed Data Generator",
   "",
   "Usage: seed [OPTIONS]",
   "",
   "Options:",
   "  -d, --db <PATH>    Database file path (default: ./bistro_dev.db)",
   "  -s, --stock <N>    Opening stock per product (default: 50)",
   "  -h, --help         Show this help message"]

def helpText : String := helpLines.foldr (fun line text => line ++ "\n" ++ text) ""

/-- The ids, names and prices of the simple products. -/
def simpleProducts : List (String × String × Int) :=
  [("pommes", "Pommes", 550),
   ("burger-classic", "Classic Burger", 1250),
   ("burger-veggie", "Veggie Burger", 1250),
   ("cola", "Cola 0.5l", 450),
   ("water", "Mineral Water 0.5l", 350)]

def menuId : String := "menu-burger"

def products (now : Time.Instant) : List Product :=
  (simpleProducts.map fun (id, name, cents) =>
    ⟨id, name, .simple, ⟨cents⟩, true, now, now⟩) ++
  [⟨menuId, "Burger Menu", .menu, ⟨1500⟩, true, now, now⟩]

def slots : List MenuSlot :=
  [⟨"slot-burger", menuId, "Burger", 1, ["burger-classic", "burger-veggie"]⟩,
   ⟨"slot-drink", menuId, "Drink", 2, ["cola", "water"]⟩]

def openingEntries (count : Int) (now : Time.Instant) (ids : Nat → String) : List StockEntry :=
  simpleProducts.zipIdx.map fun ((id, _, _), n) =>
    ⟨ids n, id, count, .openingBalance, Provenance.ofActor "seed", now⟩

def work (count : Int) (now : Time.Instant) (ids : Nat → String) : Work StorageError Unit := do
  (products now).forM fun p => Work.execute (Store.insertProduct p)
  slots.forM Store.insertSlotWork
  Store.appendEntries (openingEntries count now ids)

/-- Seeds a store unless it has products. -/
def fill (count : Int) (now : Time.Instant) (ids : Nat → String) (s : Store) :
    Except (Fault StorageError) Unit × Store :=
  if s.productCount > 0 then (.ok (), s) else (work count now ids).runOn s

/-- The files that hold stores, and the directories that are there. -/
structure Disk where
  /-- The directory at hand. -/
  here : Path
  directories : List Path
  files : List (Path × Store)

namespace Disk

/-- A disk with no files, and no directories but those on the way to the one at hand. -/
def empty (here : Path) : Disk :=
  ⟨here, (List.range (here.length + 1)).map fun n => here.take n, []⟩

/-- The store in a file of the directory at hand. -/
def store? (disk : Disk) (name : String) : Option Store :=
  disk.files.lookup (disk.here ++ [Text.Utf8.bytes name])

/-- The most bytes of a file name to which a longer one can be made for the store's journal. -/
def longestName : Nat := 247

/-- Opens the file at a path. A file that was not there holds an empty store. -/
def open? (disk : Disk) (path : Path) (mayBeMade : Bool) : Option Store :=
  if disk.directories.contains path || !disk.directories.contains path.dropLast ||
      path.any (fun name => longestName < name.length) then none
  else
    match disk.files.lookup path with
    | some s => some s
    | none => if mayBeMade then some Store.empty else none

def put (disk : Disk) (path : Path) (s : Store) : Disk :=
  { disk with files := (path, s) :: disk.files.filter fun file => file.1 != path }

end Disk

/-- The place that the arguments name, if they ask for a store. -/
def place? (here : Path) (args : List String) : Option Place :=
  match request args with
  | .help => none
  | .seed plan => Place.ofText? here plan.path

def report : Fault StorageError → String
  | .error e => e.message
  | .overflow cause => cause.message

def cannotOpen : String := "the store cannot be opened"

/-- Runs the command: the text that it prints, or why it fails, and the files after it. A
store in memory is filled and forgotten. A run that fails changes no file. -/
def run (args : List String) (now : Time.Instant) (ids : Nat → String) (disk : Disk) :
    Except String String × Disk :=
  match request args with
  | .help => (.ok helpText, disk)
  | .seed plan =>
      match Place.ofText? disk.here plan.path with
      | none => (.error cannotOpen, disk)
      | some .memory => (.ok "", disk)
      | some (.file path mayBeMade) =>
          match disk.open? path mayBeMade with
          | none => (.error cannotOpen, disk)
          | some store =>
              match fill plan.openingStock now ids store with
              | (.ok (), s) => (.ok "", disk.put path s)
              | (.error e, _) => (.error (report e), disk)

end OrderLedger.Seed
