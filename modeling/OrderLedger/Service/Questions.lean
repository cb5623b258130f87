import OrderLedger.Service.Basic

/-!
Questions to the store of a service. A question about nothing at all needs no store and
is answered even when there is none.
-/

namespace OrderLedger.Service

variable (s : Service)

def product? (id : String) : Except StorageError (Option Product) :=
  s.ask (some .products) fun store => .ok (store.product? id)

/-- The products with the given ids; unknown ids are passed over. -/
def productsWith (ids : List String) : Except StorageError (List Product) :=
  if ids.isEmpty then .ok [] else s.ask (some .products) fun store => .ok (store.productsWith ids)

def productCount : Except StorageError Nat :=
  s.ask (some .products) fun store => .ok store.productCount

def menuSlots (menuId : String) : Except StorageError (List MenuSlot) :=
  s.ask (some .menuSlots) fun store => .ok (store.menuSlots menuId)

/-- The catalog of some products, with the slots of the menus among them. -/
def catalogOf (ids : List String) : Except StorageError Catalog :=
  if ids.isEmpty then .ok Catalog.empty
  else s.ask (some .products) fun store => .ok (store.catalogOf ids)

/-- The orders of a checkout attempt, oldest first. -/
def ordersOfAttempt (attemptId : String) : Except StorageError (List Order) :=
  s.ask (some .orders) fun store => .ok (store.ordersOfAttempt attemptId)

def ordersIn (status : Status) (limit : Nat) : Except StorageError (List Order) :=
  s.ask (some .orders) fun store => .ok (store.ordersIn status limit)

/-- The payments of an order, oldest first. -/
def paymentsOf (orderId : String) : Except StorageError (List Payment) :=
  s.ask (some .orderPayments) fun store => .ok (store.paymentsOf orderId)

def totalPaid (orderId : String) : Except StorageError Int :=
  s.ask (some .orderPayments) fun store => store.totalPaid orderId

/-- The lines of an order that were handed over, in the order of the lines. -/
def handedOverLines (orderId : String) : Except StorageError (List String) :=
  s.ask (some .lineHandOvers) fun store => .ok (store.handedOverLines orderId)

def handOver? (lineId : String) : Except StorageError (Option HandOver) :=
  s.ask (some .lineHandOvers) fun store => .ok (store.handOver? lineId)

def stockOf (productId : String) : Except StorageError Int :=
  s.ask (some .stockLedger) fun store => store.stockOf productId

def stockOfMany (productIds : List String) : Except StorageError Tally :=
  s.ask (if productIds.isEmpty then none else some .stockLedger) fun store =>
    store.stockOfMany productIds

/-- How many entries a history lists unless it is asked for another number. -/
def historyLimit : Nat := 100

/-- The newest entries of a product. -/
def history (productId : String) (limit : Nat) : Except StorageError (List StockEntry) :=
  s.ask (some .stockLedger) fun store => .ok (store.history productId limit)

/-- The entries that refer to an order, oldest first. -/
def entriesOfOrder (orderId : String) : Except StorageError (List StockEntry) :=
  s.ask (some .stockLedger) fun store => .ok (store.entriesOfOrder orderId)

def live? (call : Call) (scope key : String) : Except StorageError (Option Remembered) :=
  s.ask (some .rememberedAnswers) fun store => .ok (store.live? scope key call.now)

/-- All about one order. -/
def details (orderId : String) : Except (Fault ShopError) OrderDetails :=
  match s.refusal? ⟨.statement, some .orders⟩ with
  | some e => .error (.error (.ofStorage e))
  | none => Shop.details s.shop.store orderId

end OrderLedger.Service
