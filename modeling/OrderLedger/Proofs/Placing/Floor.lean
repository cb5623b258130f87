import OrderLedger.Proofs.Run.Values

/-!
Calls that place orders at the same time. Each of them goes on by atomic steps: it looks
for an earlier answer, prices its cart, runs its transaction and publishes. A move on the
floor is one step of one call, or any other action as a whole; the moves come in any order.
-/

namespace OrderLedger

open Work Calculation Remembered

/-- How far a call that places an order has come. -/
inductive Stage where
  | arrived
  /-- No answer to an earlier call of the attempt was found. -/
  | searched
  | priced (d : Draft)
  /-- The transaction is over, and its events are not published yet. -/
  | closed (o : Outcome OrderReceipt) (events : List StockEvent)
  | answered (answer : Except (Fault ShopError) (Outcome OrderReceipt))

/-- The outcome of a call, from the step in which it is found or written. -/
def Stage.outcome? : Stage → Option (Outcome OrderReceipt)
  | .closed o _ | .answered (.ok o) => some o
  | _ => none

structure Client where
  call : Call
  request : OrderRequest
  stage : Stage

namespace Client

/-- The stage after the search for an answer to an earlier call. -/
def search (c : Client) (s : Store) : Stage :=
  match Shop.earlierPlacing s c.call c.request with
  | .error e => .answered (.error (.error e))
  | .ok (some earlier) => .answered (.ok earlier)
  | .ok none => .searched

/-- The stage after the cart is priced against the products of the moment. -/
def price (c : Client) (s : Store) : Stage :=
  match Shop.priceDraft s c.call c.request with
  | .error e => .answered (.error (.error e))
  | .ok d => .priced d

/-- The next atomic step of a call. -/
def step (c : Client) (shop : Shop) : Client × Shop :=
  match c.stage with
  | .arrived => ({ c with stage := c.search shop.store }, shop)
  | .searched => ({ c with stage := c.price shop.store }, shop)
  | .priced d =>
      match transact (Shop.placeWork shop.settings c.call d) shop.store with
      | (.ok (o, events), store) => ({ c with stage := .closed o events }, { shop with store })
      | (.error f, store) => ({ c with stage := .answered (.error f) }, { shop with store })
  | .closed o events =>
      ({ c with stage := .answered (.ok o) }, { shop with feed := shop.feed.publishAll events })
  | .answered _ => (c, shop)

/-- The readings of the clock in the next step. -/
def readings (c : Client) : List Time.Instant :=
  match c.stage with
  | .arrived => [c.call.lookedUpAt]
  | .searched => [c.call.pricedAt]
  | .priced _ => [c.call.now]
  | .closed _ _ | .answered _ => []

/-- A call that is left alone places its order as a whole. -/
theorem four_steps (call : Call) (r : OrderRequest) (shop : Shop) :
    (fun state : Client × Shop => state.1.step state.2)^[4] (⟨call, r, .arrived⟩, shop) =
      (⟨call, r, .answered (shop.place call r).1⟩, (shop.place call r).2) := by
  rcases hsearch : Shop.earlierPlacing shop.store call r with e | (_ | earlier)
  · simp [step, search, Shop.place, hsearch]
  · rcases hprice : Shop.priceDraft shop.store call r with e | d
    · simp [step, search, price, Shop.place, hsearch, hprice]
    · rcases htransact : transact (Shop.placeWork shop.settings call d) shop.store with
        ⟨f | ⟨o, events⟩, store⟩
      all_goals
        simp [step, search, price, Shop.place, Shop.commit, hsearch, hprice, htransact]
  · simp [step, search, Shop.place, hsearch]

end Client

structure Floor where
  shop : Shop
  clients : List Client

inductive Move where
  | step (n : Nat)
  | act (call : Call) (action : Action)

def Floor.move (floor : Floor) : Move → Floor
  | .step n =>
      match floor.clients[n]? with
      | none => floor
      | some c => ⟨(c.step floor.shop).2, floor.clients.set n (c.step floor.shop).1⟩
  | .act call action => ⟨(floor.shop.act call action).2, floor.clients⟩

/-- A move and the floor before it. -/
structure Moment where
  before : Floor
  move : Move

namespace Moment

def after (m : Moment) : Floor := m.before.move m.move

/-- The readings of the clock in the move. -/
def readings (m : Moment) : List Time.Instant :=
  match m.move with
  | .step n => m.before.clients[n]?.elim [] Client.readings
  | .act call _ => [call.lookedUpAt, call.pricedAt, call.now]

end Moment

namespace Floor

def after (floor : Floor) (moves : List Move) : Floor := moves.foldl Floor.move floor

def trace (floor : Floor) : List Move → List Moment
  | [] => []
  | m :: moves => ⟨floor, m⟩ :: (floor.move m).trace moves

end Floor

end OrderLedger
