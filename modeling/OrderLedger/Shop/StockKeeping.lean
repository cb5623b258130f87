import OrderLedger.Shop.Basic

/-!
Keeping stock: entries that no order causes.
-/

namespace OrderLedger.Shop

def append (call : Call) (entries : List StockEntry) (shop : Shop) :
    Result (List StockEvent) :=
  if entries.isEmpty then (.ok [], shop)
  else
    shop.commit (do
      let events ← appendWork entries call.now
      return .commit (events, events))

/-- What a person may enter by hand: a change that is not zero, unless it is an opening
count, which is not negative; and a name. -/
def checkManual (delta : Int) (reason : Reason) (actor : String) : Except ShopError Unit :=
  if reason = .openingBalance ∧ delta < 0 then
    .error (.invalid (.outOfRange "quantity" 0 Word.greatest))
  else if reason ≠ .openingBalance ∧ delta = 0 then .error (.invalid (.notPositive "delta"))
  else if Text.isBlank actor then .error (.invalid (.required "actor"))
  else .ok ()

def manualEntry (settings : Settings) (call : Call) (productId : String) (delta : Int)
    (reason : Reason) (actor : String) : StockEntry :=
  { id := call.ids 0
    productId
    delta
    reason
    provenance := (Provenance.ofActor actor).onDevice settings.deviceId
    createdAt := call.now }

/-- Appends an entry that a person makes for a product of the catalog. -/
def enter (call : Call) (productId : String) (delta : Int) (reason : Reason) (actor : String)
    (shop : Shop) : Result StockEvent :=
  match checkManual delta reason actor with
  | .error e => (.error (.error e), shop)
  | .ok () =>
      if (shop.store.product? productId).isNone then
        (.error (.error (.notFound "Product" productId)), shop)
      else
        match shop.append call [manualEntry shop.settings call productId delta reason actor] with
        | (.ok (event :: _), shop) => (.ok event, shop)
        | (.ok [], shop) => (.error (.error (.storage "no stock event for append")), shop)
        | (.error e, shop) => (.error e, shop)

/-- Deletes the remembered answers that are not live any more and counts them. -/
def purge (call : Call) (shop : Shop) : Result Nat :=
  let (count, store) := shop.store.purge call.now
  (.ok count, { shop with store })

end OrderLedger.Shop
