import OrderLedger.Service.Basic

/-!
Changes to the store of a service that are no operation of the shop: they make its tables
and keep the catalog, the ledger and the remembered answers. They publish nothing.
-/

namespace OrderLedger.Service

/-- The result of a change and the service after it. -/
abbrev Changed (α : Type) := Except (Fault StorageError) α × Service

variable (s : Service)

/-- Makes the tables unless they are there. -/
def makeTables : Changed Unit :=
  if s.isOpen then (.ok (), { s with hasTables := true })
  else (.error (.error noTables), s)
where
  noTables : StorageError :=
    .migration "while executing migrations: attempted to acquire a connection on a closed pool"

def addProduct (p : Product) : Changed Unit :=
  s.write ⟨.statement, some .products⟩ (Store.addProduct p)

def addSlot (slot : MenuSlot) : Changed Unit :=
  s.write ⟨.statement, some .menuSlots⟩ (Store.addSlot slot)

def setActive (call : Call) (id : String) (isActive : Bool) : Changed Unit :=
  s.write ⟨.statement, some .products⟩ (Store.setActive id isActive call.now)

/-- Appends entries to the ledger, all or none. -/
def enterAll (entries : List StockEntry) : Changed Unit :=
  s.write ⟨.statement, if entries.isEmpty then none else some .stockLedger⟩
    (transactAll (Store.appendEntries entries))

/-- Makes changes one after another until one fails. -/
def inTurn : List (Service → Changed Unit) → Service → Changed Unit
  | [], s => (.ok (), s)
  | change :: rest, s =>
      match change s with
      | (.ok (), s) => inTurn rest s
      | (.error e, s) => (.error e, s)

def openingEntries (call : Call) (actor : String) (counts : List (String × Int)) :
    List StockEntry :=
  counts.zipIdx.map fun ((productId, count), n) =>
    ⟨call.ids n, productId, count, .openingBalance, Provenance.ofActor actor, call.now⟩

/-- Adds products, then slots, then opening counts, and stops at the first that fails. The
counts are entered all or none. -/
def furnish (call : Call) (actor : String) (products : List Product) (slots : List MenuSlot)
    (counts : List (String × Int)) : Changed Unit :=
  let entries := openingEntries call actor counts
  inTurn
    (products.map (fun p s => s.addProduct p) ++ slots.map (fun slot s => s.addSlot slot) ++
      if entries.isEmpty then [] else [fun s => s.enterAll entries])
    s

/-- Keeps an answer for a number of seconds unless a live one holds its key. Returns the
record that holds the key now, and whether it is the new one. The expiry is calculated
when the store is reached and before its tables are used. -/
def remember (call : Call) (scope key : String) (payload : List UInt8) (seconds : Int) :
    Changed (Remembered × Bool) :=
  match Remembered.lifetime seconds, s.refusalAt? .statement with
  | .error cause, _ => (.error (.overflow cause), s)
  | .ok _, some e => (.error (.error e), s)
  | .ok lifetime, none =>
      match Remembered.expiry call.now lifetime with
      | .error cause => (.error (.overflow cause), s)
      | .ok expiresAt =>
          s.write ⟨.statement, some .rememberedAnswers⟩
            (transactAll (Store.claim scope key payload call.now expiresAt))

/-- Deletes all remembered answers and counts them. -/
def forget : Changed Nat :=
  s.write ⟨.statement, some .rememberedAnswers⟩ fun store =>
    let (n, store) := store.forget
    (.ok n, store)

end OrderLedger.Service
