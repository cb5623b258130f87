import OrderLedger.Shop.Basic

/-!
Paying an order with one or more tenders. Whether they add up to the total is for the
caller to decide; the status says that an order is paid.
-/

namespace OrderLedger.Shop

/-- There is a tender, and every tender may be taken. -/
def checkTenders (tenders : List Tender) : Except ShopError Unit :=
  if tenders.isEmpty then .error (.invalid (.required "payments"))
  else (tenders.forM Validation.tender).mapError .invalid

/-- Checks a payment and looks for the answer to an earlier call with its key. -/
def earlierPaying (store : Store) (call : Call) (tenders : List Tender) (key : Option String) :
    Except ShopError (Option (Outcome PaymentReceipt)) := do
  checkTenders tenders
  checkKey key
  earlier? store Remembered.payingScope key call.lookedUpAt

def paymentsBy (settings : Settings) (call : Call) (orderId : String) (tenders : List Tender) :
    List Payment :=
  tenders.zipIdx.map fun (t, n) =>
    { id := call.ids n
      orderId
      method := t.method
      amount := t.amount
      deviceId := settings.deviceId
      paidAt := call.now }

/-- Keeps an answer under the key of a call that has claimed it. -/
def keep (scope : String) (key : Option String) (payload : List UInt8) : Work ShopError Unit :=
  key.forM fun key => stored (Work.execute (Store.fill scope key payload))

/-- Records payments of a pending order and moves it to paid. -/
def settle (orderId : String) (payments : List Payment) (now : Time.Instant) :
    Work ShopError PaymentReceipt := do
  let order ← findOrder orderId
  checkMove order.status .paid
  stored (Store.insertPayments payments)
  if ← Store.transition orderId .pending .paid now then
    return ⟨← findOrder orderId, payments⟩
  else Work.fail (.badMove order.status .paid)

/-- The transaction of a call. The key is claimed before the order is read and gets its
answer last. -/
def payWork (settings : Settings) (call : Call) (orderId : String) (tenders : List Tender)
    (key : Option String) : Work ShopError (Closing (Outcome PaymentReceipt)) := do
  match ← claim settings Remembered.payingScope key [] call.now with
  | some earlier => return .rollback earlier
  | none =>
      let receipt ← settle orderId (paymentsBy settings call orderId tenders) call.now
      keep Remembered.payingScope key (Remembered.payloadOf receipt)
      return .commit ⟨receipt, false⟩

/-- The amount that payments come to. -/
def totalOf (payments : List Payment) : Except Overflow Money :=
  Money.sum (payments.map (·.amount))

/-- The report on a payment adds up what a new receipt lists. -/
def report (o : Outcome PaymentReceipt) : Except (Fault ShopError) (Outcome PaymentReceipt) :=
  if o.replayed then .ok o
  else
    match totalOf o.receipt.payments with
    | .ok _ => .ok o
    | .error cause => .error (.overflow cause)

def pay (call : Call) (orderId : String) (tenders : List Tender) (key : Option String)
    (shop : Shop) : Result (Outcome PaymentReceipt) :=
  match earlierPaying shop.store call tenders key with
  | .error e => (.error (.error e), shop)
  | .ok (some earlier) => (.ok earlier, shop)
  | .ok none =>
      match shop.commit (silently (payWork shop.settings call orderId tenders key)) with
      | (.ok outcome, shop) => (report outcome, shop)
      | (.error e, shop) => (.error e, shop)

end OrderLedger.Shop
