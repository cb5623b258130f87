import OrderLedger.Proofs.Order.Goods
import OrderLedger.Proofs.Run.Actions
import OrderLedger.Proofs.Store.HandOvers

/-!
What an operation does, told from the store alone. A deed leaves out the ids and the times that
a call draws, and it is the same however the rest of the store changes: it reads the catalog and
the orders that its operation names. Operations on the answers of earlier calls, and on the
orders of an attempt, are not told of.
-/

namespace OrderLedger

/-- A payment apart from its id and its time. -/
structure Terms where
  orderId : String
  method : PaymentMethod
  amount : Money
  deviceId : Option String
  deriving DecidableEq, Repr

def Payment.terms (p : Payment) : Terms := ⟨p.orderId, p.method, p.amount, p.deviceId⟩

structure Deed where
  /-- The error that is answered, or the number that the answer tells, if it tells one. -/
  verdict : Except (Fault ShopError) (Option Nat) := .ok none
  /-- Whether an order is placed under an id of the call. -/
  places : Bool := false
  /-- The order that moves, and its status afterwards if it is still stored. -/
  move : Option (String × Option Status) := none
  paid : List Terms := []
  /-- The lines that are marked as handed over. -/
  handedOver : List String := []
  changes : List (String × Int) := []

namespace Deed

def refused (e : ShopError) : Deed := { verdict := .error (.error e) }

def ofPlacing (s : Store) (r : OrderRequest) : Deed :=
  match Draft.sold (s.catalogOf r.productIds) r with
  | .ok changes => { places := true, changes }
  | .error e => refused (.ofRule e)

/-- The deed of moving an order, with what else is done when the order may move. -/
def ofMove (s : Store) (orderId : String) (target : Status) (deed : Deed) : Deed :=
  match s.statusOf orderId with
  | none => refused (.notFound "Order" orderId)
  | some source =>
      if source.canMoveTo target then { deed with move := some (orderId, some target) }
      else refused (.badMove source target)

def ofPaying (settings : Settings) (s : Store) (orderId : String) (tenders : List Tender) : Deed :=
  match Shop.checkTenders tenders with
  | .error e => refused e
  | .ok () =>
      ofMove s orderId .paid {
        verdict := (Money.sum (tenders.map (·.amount))).mapError .overflow |>.map fun _ => none
        paid := tenders.map fun t => ⟨orderId, t.method, t.amount, settings.deviceId⟩ }

def ofReversing (s : Store) (orderId : String) (target : Status) : Deed :=
  ofMove s orderId target { changes := Line.changes 1 (s.linesOf orderId) }

def ofDiscarding (s : Store) (orderId : String) : Deed :=
  if s.statusOf orderId = some .pending ∧
      ∀ l ∈ s.linesOf orderId, s.isHandedOver l.id = false then
    { verdict := .ok (some 1)
      move := some (orderId, none)
      changes := Line.changes 1 (s.linesOf orderId) }
  else { verdict := .ok (some 0) }

def ofHandingOver (s : Store) (lineIds : List String) : Deed :=
  match (distinctSorted lineIds).find? fun id => !s.hasLine id with
  | some missing => refused (.notFound "Order line" missing)
  | none =>
      { verdict := .ok (some (s.waiting lineIds).length), handedOver := s.waiting lineIds }

def ofHandingOverOrder (s : Store) (orderId : String) : Deed :=
  match s.statusOf orderId with
  | none => refused (.notFound "Order" orderId)
  | some status =>
      if status = .paid then ofHandingOver s ((s.linesOf orderId).map (·.id))
      else refused (.notPaid orderId status)

def ofEntering (s : Store) (productId : String) (delta : Int) (reason : Reason)
    (actor : String) : Deed :=
  match Shop.checkManual delta reason actor with
  | .error e => refused e
  | .ok () =>
      if (s.product? productId).isNone then refused (.notFound "Product" productId)
      else { changes := [(productId, delta)] }

end Deed

namespace Operation

def deed (settings : Settings) (s : Store) : Operation → Deed
  | .place r => .ofPlacing s r
  | .pay orderId tenders _ => .ofPaying settings s orderId tenders
  | .cancel orderId => .ofReversing s orderId .cancelled
  | .refund orderId => .ofReversing s orderId .refunded
  | .discard orderId => .ofDiscarding s orderId
  | .handOverLines lineIds => .ofHandingOver s lineIds
  | .handOverOrder orderId => .ofHandingOverOrder s orderId
  | .append entries => { changes := StockEntry.changes entries }
  | .enter productId delta reason actor => .ofEntering s productId delta reason actor
  | .reap _ _ | .purge => {}

/-- Operations that remember no answer, do not look for one and do not ask for the stock of a
product. -/
def isPlain (settings : Settings) : Operation → Bool
  | .place r => r.attemptId.isNone && settings.policy = .allow
  | .pay _ _ key => key.isNone
  | .reap _ _ | .purge => false
  | .cancel _ | .refund _ | .discard _ | .handOverLines _ | .handOverOrder _ | .append _
  | .enter _ _ _ _ => true

/-- The orders that an operation touches: the one that it names, or those of the lines that it
names. -/
def orders (s : Store) : Operation → List String
  | .pay orderId _ _ | .cancel orderId | .refund orderId | .discard orderId
  | .handOverOrder orderId => [orderId]
  | .handOverLines lineIds => (s.lines.filter fun l => lineIds.contains l.id).map (·.orderId)
  | .place _ | .append _ | .enter _ _ _ _ | .reap _ _ | .purge => []

/-- The ids of the entries that a caller appends. -/
def entryIds : Operation → List String
  | .append entries => entries.map (·.id)
  | _ => []

/-- The ids of orders, lines and entries that come in with an operation. -/
def names : Operation → List String
  | .pay orderId _ _ | .cancel orderId | .refund orderId | .discard orderId
  | .handOverOrder orderId => [orderId]
  | .handOverLines lineIds => lineIds
  | .append entries => entries.map (·.id)
  | .place _ | .enter _ _ _ _ | .reap _ _ | .purge => []

theorem entryIds_subset (operation : Operation) : operation.entryIds ⊆ operation.names := by
  cases operation with
  | append entries => exact List.Subset.refl _
  | _ => exact List.nil_subset _

end Operation

/-- The number that a reply tells. Everything else in a reply is read off the store. -/
def Reply.number? : Reply → Option Nat
  | .flag b => some b.toNat
  | .count n => some n
  | .placed _ | .paid _ | .order _ | .events _ | .event _ => none

namespace Store

/-- The ids of the rows that only operations make. -/
def ids (s : Store) : List String :=
  s.orders.map (·.id) ++ s.lines.map (·.id) ++ s.payments.map (·.id) ++ s.handOvers.map (·.id)

def entryIds (s : Store) : List String := s.entries.map (·.id)

/-- What was paid, in the order of insertion. -/
def terms (s : Store) : List Terms := s.payments.map (·.terms)

/-- The lines that are handed over, in the order of insertion. -/
def handedOver (s : Store) : List String := s.handOvers.map (·.lineId)

def changes (s : Store) : List (String × Int) := StockEntry.changes s.entries

theorem isHandedOver_iff {s : Store} {lineId : String} :
    s.isHandedOver lineId = true ↔ lineId ∈ s.handedOver := by
  simp [isHandedOver, handedOver]

end Store

/-- The deed tells what was answered and how the store after it differs from the one before. -/
structure Deed.Tells (deed : Deed) (call : Call) (entryIds : List String) (s : Store)
    (answer : Answer) (t : Store) : Prop where
  verdict : answer.map Reply.number? = deed.verdict
  placed : deed.places = true → t.statusOf (call.ids 0) = some .pending
  moved : ∀ id target, deed.move = some (id, target) → t.statusOf id = target
  kept : ∀ id, (∀ target, deed.move ≠ some (id, target)) →
    (deed.places = true → id ≠ call.ids 0) →
    t.statusOf id = s.statusOf id ∧ t.linesOf id = s.linesOf id
  lines : ∀ l ∈ t.lines, l ∈ s.lines ∨ ∃ n, l.id = call.ids n
  terms : t.terms = s.terms ++ deed.paid
  handedOver : t.handedOver = s.handedOver ++ deed.handedOver
  changes : t.changes = s.changes ++ deed.changes
  catalog : t.products = s.products ∧ t.slots = s.slots ∧ t.options = s.options
  ids : ∀ id ∈ t.ids, id ∈ s.ids ∨ ∃ n, id = call.ids n
  entryIds : ∀ id ∈ t.entryIds, id ∈ s.entryIds ∨ id ∈ entryIds ∨ ∃ n, id = call.ids n

/-- The ids of a call are distinct, and no row has one of them. -/
structure Call.IsNew (call : Call) (s : Store) : Prop where
  distinct : Function.Injective call.ids
  unused : ∀ n, call.ids n ∉ s.ids
  unusedEntry : ∀ n, call.ids n ∉ s.entryIds

namespace Store

variable {s t : Store} {drawn : String → Prop}

/-- Rows that are new have ids that were drawn. -/
theorem ids_append {α : Type} {f : α → String} {rows more : List α}
    (h : ∀ r ∈ more, drawn (f r)) : ∀ id ∈ (rows ++ more).map f, id ∈ rows.map f ∨ drawn id := by
  intro id hid
  rw [List.map_append, List.mem_append] at hid
  refine hid.imp_right fun hmore => ?_
  obtain ⟨r, hr, rfl⟩ := List.mem_map.mp hmore
  exact h r hr

/-- Rows that are left had their ids before. -/
theorem ids_filter {α : Type} {f : α → String} {rows : List α} {keep : α → Bool} :
    ∀ id ∈ (rows.filter keep).map f, id ∈ rows.map f ∨ drawn id :=
  fun _ hid => Or.inl ((List.filter_sublist.map f).subset hid)

theorem ids_same {ids : List String} : ∀ id ∈ ids, id ∈ ids ∨ drawn id := fun _ => Or.inl

/-- The ids of a store come from the store before table by table. -/
theorem ids_of_tables
    (horders : ∀ id ∈ t.orders.map (·.id), id ∈ s.orders.map (·.id) ∨ drawn id)
    (hlines : ∀ id ∈ t.lines.map (·.id), id ∈ s.lines.map (·.id) ∨ drawn id)
    (hpayments : ∀ id ∈ t.payments.map (·.id), id ∈ s.payments.map (·.id) ∨ drawn id)
    (hhandOvers : ∀ id ∈ t.handOvers.map (·.id), id ∈ s.handOvers.map (·.id) ∨ drawn id) :
    ∀ id ∈ t.ids, id ∈ s.ids ∨ drawn id := by
  intro id hid
  simp only [ids, List.mem_append] at hid ⊢
  rcases hid with ((h | h) | h) | h
  · exact (horders id h).imp_left fun h => Or.inl (Or.inl (Or.inl h))
  · exact (hlines id h).imp_left fun h => Or.inl (Or.inl (Or.inr h))
  · exact (hpayments id h).imp_left fun h => Or.inl (Or.inr h)
  · exact (hhandOvers id h).imp_left Or.inr

end Store

namespace Call.IsNew

variable {call : Call} {s : Store}

theorem handOvers (h : call.IsNew s) (n : Nat) : ∀ m ∈ s.handOvers, m.id ≠ call.ids n := by
  intro m hm hid
  refine h.unused n ?_
  exact List.mem_append_right _ (hid ▸ List.mem_map_of_mem hm)

theorem isFresh (h : call.IsNew s) : call.IsFresh s := by
  have hunused (n : Nat) := h.unused n
  simp only [Store.ids, List.mem_append, not_or] at hunused
  refine ⟨h.distinct, fun n => ?_, fun n => ?_, fun n p hp hid => ?_, fun n e he hid => ?_⟩
  · refine Store.hasOrder_eq_false.mpr fun o ho hid => ?_
    exact (hunused n).1.1.1 (hid ▸ List.mem_map_of_mem ho)
  · exact Store.hasLine_eq_false.mpr (hunused n).1.1.2
  · exact (hunused n).1.2 (hid ▸ List.mem_map_of_mem hp)
  · exact h.unusedEntry n (hid ▸ List.mem_map_of_mem he)

end Call.IsNew

end OrderLedger
