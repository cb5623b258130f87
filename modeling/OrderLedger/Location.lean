import OrderLedger.Text.Percent

/-!
Where a store is kept, as a text tells it. The text is the name of a file, with percent
escapes, or it names a store in memory. The name of the file may itself be an address: the
word `file:`, a path with escapes of its own, and options behind a question mark.

A path is followed name by name from the directory at hand. Two dots lead one directory
up, whether or not the directory before them is there.
-/

namespace OrderLedger

/-- The pieces of a list between the places where `mark` stands. There is at least one. -/
def pieces [DecidableEq α] (mark : α) : List α → List (List α)
  | [] => [[]]
  | a :: rest =>
      if a = mark then [] :: pieces mark rest
      else
        match pieces mark rest with
        | [] => [[a]]
        | first :: more => (a :: first) :: more

/-- Splits a list at the first place where `mark` stands. -/
def splitAtFirst [DecidableEq α] (mark : α) (items : List α) : List α × List α :=
  (items.takeWhile (· ≠ mark), (items.dropWhile (· ≠ mark)).drop 1)

/-- The name of a file or a directory: bytes, which need not be a text. -/
abbrev FileName := List UInt8

/-- The names on the way from the root to a file or a directory. -/
abbrev Path := List FileName

namespace Path

/-- The byte that stands between two names. -/
def slash : UInt8 := 47

/-- The name of a directory itself, and the name of the one above it. -/
def self : FileName := [46]

def parent : FileName := [46, 46]

/-- The most bytes that a name can have. -/
def longestName : Nat := 255

/-- Goes on by one name. An empty name leads nowhere else. -/
def step? (path : Path) (name : FileName) : Option Path :=
  if name.isEmpty || name = self then some path
  else if name = parent then some path.dropLast
  else if name.length ≤ longestName then some (path ++ [name])
  else none

/-- Follows a path from a directory, or from the root if it starts with a slash. -/
def follow? (start : Path) (bytes : List UInt8) : Option Path :=
  (pieces slash bytes).foldlM step? (if bytes.head? = some slash then [] else start)

end Path

/-- What may be done with a store. -/
inductive OpeningMode where
  | read
  | change
  /-- The file is made if it is missing. -/
  | create
  /-- The store is kept in memory, whatever its path. -/
  | memory
  deriving DecidableEq, Repr

namespace OpeningMode

def ofName? : String → Option OpeningMode
  | "ro" => some .read
  | "rw" => some .change
  | "rwc" => some .create
  | "memory" => some .memory
  | _ => none

/-- How much a mode asks for. -/
def need : OpeningMode → Nat
  | .memory => 0
  | .read => 1
  | .change => 2
  | .create => 3

/-- How much a mode that comes after this one may ask for. -/
def allowance : OpeningMode → Nat
  | .memory => 3
  | mode => mode.need

end OpeningMode

/-- A store by its path and its options. -/
structure Address where
  path : List UInt8
  mode : OpeningMode
  /-- Whether all connections see one store if it is in memory. -/
  isShared : Bool
  /-- Whether nobody changes the file, so that it must be complete. The first word on it
  counts. -/
  isFixed : Option Bool
  /-- By which means files are reached. -/
  means : Option String
  deriving DecidableEq, Repr

namespace Address

/-- A file that is made if it is missing. -/
def ofPath (path : List UInt8) : Address := ⟨path, .create, false, none, some "unix"⟩

/-- Takes an option into account. Options of other names are ignored. -/
def withOption? (a : Address) (name value : Option String) : Option Address :=
  match name with
  | some "mode" => do
      let mode ← OpeningMode.ofName? (← value)
      if mode.need ≤ a.mode.allowance then some { a with mode } else none
  | some "cache" =>
      match value with
      | some "shared" => some { a with isShared := true }
      | some "private" => some { a with isShared := false }
      | _ => none
  | some "immutable" =>
      let isFixed := [some "1", some "on", some "yes", some "true"].contains value
      some { a with isFixed := a.isFixed.or (some isFixed) }
  | some "vfs" => some { a with means := value }
  | _ => some a

/-- The bytes of a part of an address, up to an escape for the byte zero. -/
def unescape (cs : List Char) : List UInt8 := (Text.percentBytes cs).takeWhile (· ≠ 0)

/-- Reads an option. One without a name is ignored. -/
def readOption? (a : Address) (cs : List Char) : Option Address :=
  let (name, value) := splitAtFirst '=' cs
  if (unescape name).isEmpty then some a
  else a.withOption? (Text.Utf8.text? (unescape name)) (Text.Utf8.text? (unescape value))

/-- Skips the name of the machine, which must be the one at hand. -/
def skipMachine? : List Char → Option (List Char)
  | '/' :: '/' :: rest =>
      let machine := rest.takeWhile (· ≠ '/')
      if machine.isEmpty || machine = "localhost".toList then some (rest.dropWhile (· ≠ '/'))
      else none
  | cs => some cs

/-- Reads an address behind the word `file:`. A hash sign ends it. -/
def read? (cs : List Char) : Option Address := do
  let cs ← skipMachine? cs
  let (path, options) := splitAtFirst '?' (cs.takeWhile (· ≠ '#'))
  (pieces '&' options).foldlM readOption? (ofPath (unescape path))

/-- The address that a file name stands for, unless it is an address itself. -/
def ofName? : List Char → Option Address
  | 'f' :: 'i' :: 'l' :: 'e' :: ':' :: rest => read? rest
  | cs => some (ofPath (Text.Utf8.bytes (String.ofList cs)))

end Address

/-- Where a store is kept. -/
inductive Place where
  /-- In memory, as long as somebody uses it. -/
  | memory
  /-- In a file, which must be there already unless it may be made. -/
  | file (path : Path) (mayBeMade : Bool)
  deriving DecidableEq, Repr

namespace Place

def memoryName : String := ":memory:"

/-- The place in memory of a store that all connections see. A store of which every
connection has its own is of no use. -/
def inMemory? (isShared : Bool) : Option Place := if isShared then some .memory else none

/-- The means by which files are reached, which differ in how they lock them. -/
def fileMeans : List String := ["unix", "unix-none", "unix-dotfile", "unix-excl"]

/-- The means by which a store is kept in memory and found by its path from the root. -/
def memoryMeans : String := "memdb"

/-- The place that an address gives to a store, followed from the directory at hand. -/
def ofAddress? (here : Path) (a : Address) : Option Place := do
  let means ← a.means
  if a.path.isEmpty || !(memoryMeans :: fileMeans).contains means then none
  else if a.mode = .memory || a.path = Text.Utf8.bytes memoryName then inMemory? a.isShared
  else if means = memoryMeans then inMemory? (a.path.head? = some Path.slash)
  else return .file (← here.follow? a.path) (a.mode = .create && a.isFixed != some true)

/-- Removes a mark from the front of a text as often as it stands there. -/
def dropRepeated (mark : List Char) : Nat → List Char → List Char
  | 0, cs => cs
  | fuel + 1, cs =>
      if mark.isPrefixOf cs then dropRepeated mark fuel (cs.drop mark.length) else cs

/-- The text without words in front that name the kind of the store. -/
def withoutKind (cs : List Char) : List Char :=
  dropRepeated "sqlite:".toList cs.length (dropRepeated "sqlite://".toList cs.length cs)

/-- The place that a text names. A question mark would start options of another kind, of
which none can be given, and no file name holds the character zero. -/
def ofText? (here : Path) (s : String) : Option Place :=
  let cs := withoutKind s.toList
  if cs.contains '?' then none
  else if cs = memoryName.toList then some .memory
  else do
    let name ← Text.unescapePercent? (String.ofList cs)
    if name.contains '\x00' then none else ofAddress? here (← Address.ofName? name.toList)

end Place

end OrderLedger
