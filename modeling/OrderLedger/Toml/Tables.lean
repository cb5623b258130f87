import OrderLedger.Json.Basic

/-!
Tables that grow while a TOML document is read. A key is defined once. A table that a
header names may still be opened by its header when so far only headers of tables below
it were seen; a table that dotted keys made grows by further dotted keys; a value that
was written out as a whole never grows.
-/

namespace OrderLedger.Toml

/-- How a table came to be. -/
inductive Origin where
  /-- By its own header. -/
  | header
  /-- By the header of a table below it. -/
  | implied
  /-- By a dotted key. -/
  | dotted
  deriving DecidableEq, Repr

inductive Node where
  | value (j : Json)
  | table (origin : Origin) (entries : List (String × Node))
  /-- An array of tables, of which the last one may grow. -/
  | tables (earlier : List (List (String × Node))) (last : List (String × Node))

abbrev Entries := List (String × Node)

namespace Entries

/-- Puts a node under a key, in the place of the one there. -/
def put (entries : Entries) (key : String) (node : Node) : Entries :=
  if entries.any (·.1 == key) then
    entries.map fun entry => if entry.1 == key then (key, node) else entry
  else entries ++ [(key, node)]

/-- Changes the table under a path of headers, and makes the tables on the way that are
missing. -/
def within? (entries : Entries) (path : List String) (change : Entries → Option Entries) :
    Option Entries :=
  match path with
  | [] => change entries
  | key :: rest =>
      match entries.lookup key with
      | none => (within? [] rest change).map fun below => entries.put key (.table .implied below)
      | some (.table origin below) =>
          (within? below rest change).map fun below => entries.put key (.table origin below)
      | some (.tables earlier last) =>
          (within? last rest change).map fun last => entries.put key (.tables earlier last)
      | some (.value _) => none

/-- Sets a dotted key. `isOpen` tells whether the table at hand may get a key of its own. -/
def set? (isOpen : Bool) (entries : Entries) (key : String) (path : List String) (j : Json) :
    Option Entries :=
  match path with
  | [] => if isOpen && !entries.any (·.1 == key) then some (entries ++ [(key, .value j)]) else none
  | next :: rest =>
      match entries.lookup key with
      | none => (set? true [] next rest j).map fun below => entries.put key (.table .dotted below)
      | some (.table .header _) => none
      | some (.table origin below) =>
          (set? (origin = .dotted) below next rest j).map fun below =>
            entries.put key (.table origin below)
      | some (.tables earlier last) =>
          (set? false last next rest j).map fun last => entries.put key (.tables earlier last)
      | some (.value _) => none

def openTable? (key : String) (entries : Entries) : Option Entries :=
  match entries.lookup key with
  | none => some (entries.put key (.table .header []))
  | some (.table .implied below) => some (entries.put key (.table .header below))
  | some _ => none

/-- Opens a further table of the array under a key. -/
def openElement? (key : String) (entries : Entries) : Option Entries :=
  match entries.lookup key with
  | none => some (entries.put key (.tables [] []))
  | some (.tables earlier last) => some (entries.put key (.tables (earlier ++ [last]) []))
  | some _ => none

end Entries

mutual

def Node.toJson : Node → Json
  | .value j => j
  | .table _ entries => .obj (Node.membersOf entries)
  | .tables earlier last => .arr (Node.objectsOf earlier ++ [.obj (Node.membersOf last)])

def Node.membersOf : List (String × Node) → List (String × Json)
  | [] => []
  | (key, node) :: rest => (key, node.toJson) :: Node.membersOf rest

def Node.objectsOf : List (List (String × Node)) → List Json
  | [] => []
  | entries :: rest => .obj (Node.membersOf entries) :: Node.objectsOf rest

end

/-- The value of a whole table. -/
def Entries.toJson (entries : Entries) : Json := .obj (Node.membersOf entries)

end OrderLedger.Toml
