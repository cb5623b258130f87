import OrderLedger.Order.Draft
import OrderLedger.Shop.Basic

/-!
Placing an order. A call looks for the answer to an earlier call of the same attempt;
if there is none, it prices the cart, and then one transaction claims the attempt,
checks the stock where the policy asks for it, and writes the order, its lines and a
sale for every line that moves stock.
-/

namespace OrderLedger.Shop

/-- The answer to an earlier call of the same attempt. -/
def earlierPlacing (store : Store) (call : Call) (r : OrderRequest) :
    Except ShopError (Option (Outcome OrderReceipt)) := do
  checkKey r.attemptId
  earlier? store Remembered.placingScope r.attemptId call.lookedUpAt

/-- Prices the cart against the products that it names. -/
def priceDraft (store : Store) (call : Call) (r : OrderRequest) : Except ShopError Draft :=
  (Draft.build (store.catalogOf r.productIds) call.pricedAt call.ids r).mapError .ofRule

/-- The first product of which less is in stock than needed. -/
def shortage? (stock : Tally) : Tally → Option ShopError
  | [] => none
  | (productId, needed) :: rest =>
      if stock.get productId < needed then
        some (.insufficientStock productId needed (stock.get productId))
      else shortage? stock rest

/-- Refuses an order that needs more than is in stock. -/
def checkStock (d : Draft) : Work ShopError Unit := do
  let needed ← Work.calculate (Movement.requirements d.lines)
  let stock ← stored (Work.ask fun s => s.stockOfMany needed.keys)
  match shortage? stock needed with
  | some e => Work.fail e
  | none => return ()

/-- The sales of an order. The ids behind those of the order and its lines are used. -/
def sales (settings : Settings) (call : Call) (d : Draft) : Except Overflow (List StockEntry) := do
  entriesFor settings call.now (fun n => call.ids (d.lines.length + 1 + n)) d.order.id .sale
    (fun m => .ok m.delta) (← Movement.ofLines d.lines)

/-- Writes an order with its lines and sales. -/
def writeOrder (settings : Settings) (call : Call) (d : Draft) :
    Work ShopError (List StockEvent) := do
  stored (Work.execute (Store.insertOrder d.order))
  stored (Store.insertLines d.lines)
  appendWork (← Work.calculate (sales settings call d)) call.now

/-- The transaction of a call. If another call has won the attempt, nothing is written
and its answer is given. -/
def placeWork (settings : Settings) (call : Call) (d : Draft) :
    Work ShopError (Closing (Outcome OrderReceipt × List StockEvent)) := do
  match ← claim settings Remembered.placingScope d.order.attemptId
      (Remembered.payloadOf d.receipt) call.now with
  | some earlier => return .rollback (earlier, [])
  | none =>
      if settings.policy = .refuse then checkStock d
      let events ← writeOrder settings call d
      return .commit (⟨d.receipt, false⟩, events)

def place (call : Call) (r : OrderRequest) (shop : Shop) : Result (Outcome OrderReceipt) :=
  match earlierPlacing shop.store call r with
  | .error e => (.error (.error e), shop)
  | .ok (some earlier) => (.ok earlier, shop)
  | .ok none =>
      match priceDraft shop.store call r with
      | .error e => (.error (.error e), shop)
      | .ok d => shop.commit (placeWork shop.settings call d)

end OrderLedger.Shop
