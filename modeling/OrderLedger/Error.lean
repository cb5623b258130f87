import OrderLedger.Order.Draft

/-!
Errors of the store and of the shop, their texts, and how the shop passes on an
error of the rules or of the store.
-/

namespace OrderLedger

/-- Whether `part` stands somewhere in a text. -/
def Text.occursIn (part : List Char) : List Char → Bool
  | [] => part.isEmpty
  | c :: cs => part.isPrefixOf (c :: cs) || occursIn part cs

/-- Why the store cannot do what it was asked. -/
inductive StorageError where
  | notFound (entity id : String)
  | duplicate (field value : String)
  | foreignKey (message : String)
  | connection (message : String)
  | migration (message : String)
  | query (message : String)
  | transaction (message : String)
  /-- All connections stayed in use. -/
  | exhausted
  | serialization (message : String)
  | internal (message : String)
  deriving DecidableEq, Repr

namespace StorageError

def message : StorageError → String
  | .notFound entity id => entity ++ " not found: " ++ id
  | .duplicate field value => "Duplicate " ++ field ++ ": '" ++ value ++ "' already exists"
  | .foreignKey m => "Foreign key violation: " ++ m
  | .connection m => "Connection failed: " ++ m
  | .migration m => "Migration failed: " ++ m
  | .query m => "Query failed: " ++ m
  | .transaction m => "Transaction failed: " ++ m
  | .exhausted => "Connection pool exhausted"
  | .serialization m => "Serialization failed: " ++ m
  | .internal m => "Internal database error: " ++ m

def isNotFound : StorageError → Bool
  | .notFound _ _ => true
  | _ => false

def isDuplicate : StorageError → Bool
  | .duplicate _ _ => true
  | _ => false

/-- A lock or connection trouble that a second try may not meet. -/
def isTransient : StorageError → Bool
  | .exhausted | .connection _ => true
  | .query m | .transaction m =>
      Text.occursIn "database is locked".toList m.toList ||
        Text.occursIn "database is busy".toList m.toList
  | _ => false

/-- A row with the same values in unique columns is stored already. -/
def duplicateRow (columns : String) : StorageError := .duplicate columns "unknown"

/-- A row refers to another row that is not there. -/
def danglingReference : StorageError := .foreignKey "FOREIGN KEY constraint failed"

/-- A row breaks a rule of its table. -/
def checkFailed (rule : String) : StorageError := .query ("CHECK constraint failed: " ++ rule)

/-- A sum leaves the 64-bit range on its way. -/
def sumOverflow : StorageError := .query "integer overflow"

def missingTable (table : String) : StorageError := .query ("no such table: " ++ table)

/-- The connections of the store were closed. -/
def closed : StorageError := .connection "Pool is closed"

end StorageError

/-- What the database itself reports when something fails in it. -/
inductive DatabaseReport where
  | noRow
  | timedOut
  | closed
  | crashed
  | badMessage (message : String)
  /-- A value in a column that cannot be read. -/
  | badColumn (column message : String)
  deriving DecidableEq, Repr

def StorageError.ofReport : DatabaseReport → StorageError
  | .noRow => .notFound "Record" "unknown"
  | .timedOut => .exhausted
  | .closed => .closed
  | .crashed => .internal "attempted to communicate with a crashed background worker"
  | .badMessage m => .internal ("encountered unexpected or invalid data: " ++ m)
  | .badColumn column m => .serialization ("column " ++ column ++ ": " ++ m)

/-- Why the shop refuses or fails. -/
inductive ShopError where
  | invalid (cause : ValidationError)
  | badSelection (productId reason : String)
  | notFound (entity id : String)
  | badMove (source target : Status)
  | insufficientStock (productId : String) (requested available : Int)
  /-- Lines are handed over only when their order is paid. -/
  | notPaid (orderId : String) (status : Status)
  | conflict (message : String)
  | storage (message : String)
  | settings (message : String)
  deriving DecidableEq, Repr

namespace ShopError

def message : ShopError → String
  | .invalid cause => "Validation failed: " ++ cause.message
  | .badSelection productId reason => "Invalid selection for product " ++ productId ++ ": " ++ reason
  | .notFound entity id => entity ++ " not found: " ++ id
  | .badMove source target => "Order cannot move from " ++ source.text ++ " to " ++ target.text
  | .insufficientStock productId requested available =>
      "Insufficient stock for " ++ productId ++ ": requested " ++ Text.Decimal.text requested ++
        ", available " ++ Text.Decimal.text available
  | .notPaid orderId status =>
      "Order " ++ orderId ++ " is " ++ status.text ++ " and cannot be redeemed"
  | .conflict m => "Conflict: " ++ m
  | .storage m => "Storage failure: " ++ m
  | .settings m => "Configuration error: " ++ m

/-- The caller may send the same request again. -/
def isRetryable : ShopError → Bool
  | .storage _ => true
  | _ => false

/-- The request itself is at fault. -/
def isClientError : ShopError → Bool
  | .storage _ | .settings _ => false
  | _ => true

/-- A remembered answer cannot be read. -/
def unreadableAnswer : ShopError := .storage "stored response unreadable"

def ofRule : RuleError → ShopError
  | .unknownProduct id => .notFound "Product" id
  | .badSelection productId reason => .badSelection productId reason
  | .badMove source target => .badMove source target
  | .invalid cause => .invalid cause

def ofStorage : StorageError → ShopError
  | .notFound entity id => .notFound entity id
  | .duplicate field value => .conflict (field ++ " '" ++ value ++ "' already exists")
  | e => .storage e.message

end ShopError

/-- What stops a calculation: an error of its layer, or a number out of range. -/
inductive Fault (ε : Type) where
  | error (e : ε)
  | overflow (cause : Overflow)
  deriving DecidableEq, Repr

def Fault.map (f : ε → ε') : Fault ε → Fault ε'
  | .error e => .error (f e)
  | .overflow cause => .overflow cause

end OrderLedger
