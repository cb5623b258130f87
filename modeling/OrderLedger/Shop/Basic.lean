import OrderLedger.Feed
import OrderLedger.Settings.Basic
import OrderLedger.Store.Catalog
import OrderLedger.Store.HandOvers
import OrderLedger.Store.Payments
import OrderLedger.Store.Stock

/-!
The shop: its settings, its store and its feed. Every operation does its writing in one
transaction, and publishes the stock events of the transaction once it is committed.
-/

namespace OrderLedger

structure Shop where
  settings : Settings
  store : Store
  feed : Feed
  deriving DecidableEq, Repr

/-- What a call takes from outside: readings of the clock and fresh ids. -/
structure Call where
  /-- When the call looks for an earlier answer. -/
  lookedUpAt : Time.Instant
  /-- When the call prices its order. -/
  pricedAt : Time.Instant
  /-- When the call writes. This one reading stands for all that the call takes of the clock once
  it has begun to write: at the claim of its attempt, the changes of status, the entries of the
  ledger, the hand-overs and the events. -/
  now : Time.Instant
  ids : Nat → String

/-- A receipt, and whether it is the answer to an earlier call. -/
structure Outcome (α : Type) where
  receipt : α
  replayed : Bool
  deriving DecidableEq, Repr

/-- The result of an operation and the shop after it. -/
abbrev Shop.Result (α : Type) := Except (Fault ShopError) α × Shop

namespace Shop

/-- A shop with these settings and an empty store. -/
def opened (settings : Settings) : Shop :=
  ⟨settings, Store.empty, Feed.withBuffer settings.buffer⟩

/-- Store work as a part of an operation. -/
def stored {α : Type} (work : Work StorageError α) : Work ShopError α :=
  Work.recast ShopError.ofStorage work

/-- Runs work as one transaction on the store and publishes its events if it is
committed. -/
def commit {α : Type} (shop : Shop) (work : Work ShopError (Closing (α × List StockEvent))) :
    Result α :=
  match transact work shop.store with
  | (.ok (a, events), store) =>
      (.ok a, { shop with store, feed := shop.feed.publishAll events })
  | (.error e, store) => (.error e, { shop with store })

/-- Work that publishes nothing. -/
def silently {α : Type} (work : Work ShopError (Closing α)) :
    Work ShopError (Closing (α × List StockEvent)) := do
  match ← work with
  | .commit a => return .commit (a, [])
  | .rollback a => return .rollback (a, [])

/-- The order with the given id, which must be stored. -/
def findOrder (id : String) : Work ShopError Order := do
  match (← get).order? id with
  | some o => return o
  | none => Work.fail (.notFound "Order" id)

/-- Refuses a move that the order may not make. -/
def checkMove (source target : Status) : Work ShopError Unit :=
  match source.moveTo target with
  | .ok _ => return ()
  | .error e => Work.fail (.ofRule e)

/-- The answer that a record holds. -/
def replay {α : Type} [Wire α] (r : Remembered) : Except ShopError (Outcome α) :=
  match Remembered.valueOf? r.payload with
  | some receipt => .ok ⟨receipt, true⟩
  | none => .error .unreadableAnswer

/-- The answer to an earlier call with the same key, if it is still remembered. -/
def earlier? {α : Type} [Wire α] (store : Store) (scope : String) (key : Option String)
    (now : Time.Instant) : Except ShopError (Option (Outcome α)) :=
  match key with
  | none => .ok none
  | some key =>
      match store.live? scope key now with
      | none => .ok none
      | some r => (replay r).map some

/-- Claims the key of a call for an answer. If another call holds the key, its answer is
returned. -/
def claim {α : Type} [Wire α] (settings : Settings) (scope : String) (key : Option String)
    (payload : List UInt8) (now : Time.Instant) : Work ShopError (Option (Outcome α)) := do
  match key with
  | none => return none
  | some key =>
      let lifetime ← Work.calculate settings.lifetime
      let expiresAt ← Work.calculate (Remembered.expiry now lifetime)
      let (r, isNew) ← Store.claim scope key payload now expiresAt
      if isNew then return none
      else
        match replay r with
        | .ok earlier => return some earlier
        | .error e => Work.fail e

def checkKey (key : Option String) : Except ShopError Unit :=
  (key.forM Validation.key).mapError .invalid

/-- One entry for each movement of an order. `delta` tells what a movement does to the
stock. -/
def entriesFor (settings : Settings) (now : Time.Instant) (ids : Nat → String)
    (orderId : String) (reason : Reason) (delta : Movement → Except Overflow Int)
    (movements : List Movement) : Except Overflow (List StockEntry) :=
  movements.zipIdx.mapM fun (m, n) => do
    return {
      id := ids n
      productId := m.productId
      delta := ← delta m
      reason
      provenance := (Provenance.ofLine orderId m.lineId).onDevice settings.deviceId
      createdAt := now }

/-- Appends entries and tells what they change. -/
def appendWork (entries : List StockEntry) (now : Time.Instant) :
    Work ShopError (List StockEvent) := do
  stored (Store.appendEntries entries)
  stored (Store.events entries now)

end Shop

end OrderLedger
