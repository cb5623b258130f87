import OrderLedger.HandOver
import OrderLedger.Order.Draft
import OrderLedger.Payment
import OrderLedger.Proofs.Json.Formats
import OrderLedger.Remembered
import OrderLedger.Stock

/-!
The formats of the values that are written on the wire and kept as answers, and what holds of
each of them: a value is read back from its text, and from every other text that spells the
same members.
-/

namespace OrderLedger

open OrderLedger.Wire OrderLedger.Field

instance : Faithful Money := .whole (fun m => Word.Fits m.cents) fun _ h => survives_money h

theorem survives_byte (b : UInt8) : Survives b := by
  have hbyte : (0 : Int) ≤ b.toNat ∧ (b.toNat : Int) ≤ Word.unsigned8 := by
    have hlt := b.toNat_lt
    simp only [Word.unsigned8]
    omega
  refine ⟨rfl, ?_⟩
  change (decodeInt? 0 Word.unsigned8 (.int b.toNat)).map _ = some b
  rw [decodeInt?, if_pos hbyte, Option.map_some, Int.toNat_natCast, UInt8.ofNat_toNat]

instance : Faithful UInt8 := .whole (fun _ => True) fun b _ => survives_byte b

instance : Faithful ProductKind := .named fun kind => by cases kind <;> rfl

instance : Faithful Status := .named fun s => by cases s <;> rfl

instance : Faithful Origin := .named fun o => by cases o <;> rfl

instance : Faithful LineType := .named fun t => by cases t <;> rfl

instance : Faithful PaymentMethod := .named fun m => by cases m <;> rfl

instance : Faithful Reason := .named fun r => by cases r <;> rfl

def Product.format : Format Product where
  fields := [
    required "id" (·.id), required "name" (·.name), required "kind" (·.kind),
    required "price_cents" (·.price), required "is_active" (·.isActive),
    required "created_at" (·.createdAt), required "updated_at" (·.updatedAt)]
  least := 7
  read j p := by
    cases p
    simp [decode?, Option.bind_eq_some_iff, -Bool.exists_bool]

instance : Faithful Product := .ofFormat Product.format

def MenuSlot.format : Format MenuSlot where
  fields := [
    required "id" (·.id), required "menu_product_id" (·.menuId), required "name" (·.name),
    required "sequence" (·.sequence), required "option_product_ids" (·.options)]
  least := 5
  read j s := by
    cases s
    simp [decode?, Option.bind_eq_some_iff]

instance : Faithful MenuSlot := .ofFormat MenuSlot.format

def Order.format : Format Order where
  fields := [
    required "id" (·.id), optional "customer_id" (·.customerId),
    optional "contact_email" (·.contactEmail), required "total_cents" (·.total),
    required "status" (·.status), required "origin" (·.origin),
    optional "payment_attempt_id" (·.attemptId), required "created_at" (·.createdAt),
    required "updated_at" (·.updatedAt)]
  least := 9
  read j o := by
    cases o
    simp [decode?, Option.bind_eq_some_iff]

instance : Faithful Order := .ofFormat Order.format

def Line.format : Format Line where
  fields := [
    required "id" (·.id), required "order_id" (·.orderId), required "line_type" (·.type),
    required "product_id" (·.productId), required "title" (·.title),
    required "quantity" (·.quantity), required "unit_price_cents" (·.unitPrice),
    optional "parent_line_id" (·.parentId), optional "menu_slot_id" (·.slotId),
    optional "slot_name" (·.slotName), required "created_at" (·.createdAt)]
  least := 11
  read j l := by
    cases l
    simp [decode?, Option.bind_eq_some_iff]

instance : Faithful Line := .ofFormat Line.format

def Payment.format : Format Payment where
  fields := [
    required "id" (·.id), required "order_id" (·.orderId), required "method" (·.method),
    required "amount_cents" (·.amount), optional "device_id" (·.deviceId),
    required "paid_at" (·.paidAt)]
  least := 6
  read j p := by
    cases p
    simp [decode?, Option.bind_eq_some_iff]

instance : Faithful Payment := .ofFormat Payment.format

def HandOver.format : Format HandOver where
  fields := [
    required "id" (·.id), required "order_line_id" (·.lineId),
    required "redeemed_at" (·.handedOverAt)]
  least := 3
  read j h := by
    cases h
    simp [decode?, Option.bind_eq_some_iff]

instance : Faithful HandOver := .ofFormat HandOver.format

def Provenance.format : Format Provenance where
  fields := [
    optional "order_id" (·.orderId), optional "order_line_id" (·.lineId),
    optional "device_id" (·.deviceId), optional "actor" (·.actor)]
  least := 4
  read j p := by
    cases p
    simp [decode?, Option.bind_eq_some_iff]

instance : Faithful Provenance := .ofFormat Provenance.format

def StockEntry.format : Format StockEntry where
  fields := [
    required "id" (·.id), required "product_id" (·.productId), required "delta" (·.delta),
    required "reason" (·.reason), optional "order_id" (·.provenance.orderId),
    optional "order_line_id" (·.provenance.lineId), optional "device_id" (·.provenance.deviceId),
    optional "actor" (·.provenance.actor), required "created_at" (·.createdAt)]
  least := 9
  read j e := by
    obtain ⟨_, _, _, _, ⟨_, _, _, _⟩, _⟩ := e
    simp [decode?, Option.bind_eq_some_iff]

instance : Faithful StockEntry := .ofFormat StockEntry.format

def StockEvent.format : Format StockEvent where
  fields := [
    required "productId" (·.productId), required "newStock" (·.newStock),
    required "delta" (·.delta), required "timestamp" (·.timestamp)]
  least := 4
  read j e := by
    cases e
    simp [decode?, Option.bind_eq_some_iff]

instance : Faithful StockEvent := .ofFormat StockEvent.format

def Remembered.format : Format Remembered where
  fields := [
    required "scope" (·.scope), required "key" (·.key), required "response" (·.payload),
    required "created_at" (·.createdAt), required "expires_at" (·.expiresAt)]
  least := 5
  read j r := by
    cases r
    simp [decode?, Option.bind_eq_some_iff]

instance : Faithful Remembered := .ofFormat Remembered.format

def Selection.format : Format Selection where
  fields := [required "slot_id" (·.slotId), required "option_product_id" (·.optionId)]
  least := 2
  read j s := by
    cases s
    simp [decode?, Option.bind_eq_some_iff]

instance : Faithful Selection := .ofFormat Selection.format

def CartLine.format : Format CartLine where
  fields := [
    required "product_id" (·.productId), required "quantity" (·.quantity),
    defaulted "selections" (·.selections) [] (fun _ h => nomatch h)]
  least := 2
  read j l := by
    cases l
    simp [decode?, Option.bind_eq_some_iff]

instance : Faithful CartLine := .ofFormat CartLine.format

def OrderRequest.format : Format OrderRequest where
  fields := [
    optional "customer_id" (·.customerId), optional "contact_email" (·.contactEmail),
    required "origin" (·.origin), optional "payment_attempt_id" (·.attemptId),
    required "lines" (·.lines)]
  least := 5
  read j r := by
    cases r
    simp [decode?, Option.bind_eq_some_iff]

instance : Faithful OrderRequest := .ofFormat OrderRequest.format

def Draft.format : Format Draft where
  fields := [required "order" (·.order), required "lines" (·.lines)]
  least := 2
  read j d := by
    cases d
    simp [decode?, Option.bind_eq_some_iff]

instance : Faithful Draft := .ofFormat Draft.format

def OrderReceipt.format : Format OrderReceipt where
  fields := [required "order" (·.order), required "lines" (·.lines)]
  least := 2
  read j r := by
    cases r
    simp [decode?, Option.bind_eq_some_iff]

instance : Faithful OrderReceipt := .ofFormat OrderReceipt.format

def Tender.format : Format Tender where
  fields := [required "method" (·.method), required "amount_cents" (·.amount)]
  least := 2
  read j t := by
    cases t
    simp [decode?, Option.bind_eq_some_iff]

instance : Faithful Tender := .ofFormat Tender.format

def PaymentReceipt.format : Format PaymentReceipt where
  fields := [required "order" (·.order), required "payments" (·.payments)]
  least := 2
  read j r := by
    cases r
    simp [decode?, Option.bind_eq_some_iff]

instance : Faithful PaymentReceipt := .ofFormat PaymentReceipt.format

/-- The sound values of a type are read back from the texts that are written for them, and
from any text of another spelling of them. -/
structure RoundTrips (α : Type) [Wire α] [Faithful α] : Prop where
  written : ∀ a : α, Faithful.IsSound a → Remembered.valueOf? (Remembered.payloadOf a) = some a
  respelt : ∀ (a : α) (j : Json) (text : String), Faithful.IsSound a →
    Respelt (Faithful.shape α) (encode a) j → Json.outline? text.toList = some j →
    Remembered.valueOf? (Text.Utf8.bytes text) = some a

namespace Faithful

variable {α : Type} [Wire α] [Faithful α]

/-- A reader does not tell a value from any other spelling of it. -/
theorem decode?_respelt {j j' : Json} {a : α} (h : Respelt (shape α) j j')
    (hread : decode? j = some a) : decode? j' = some a := by
  induction h with
  | refl => exact hread
  | tail _ hedit ih => exact tolerates hedit ih

theorem roundTrips : RoundTrips α where
  written _ h := Remembered.valueOf?_payloadOf (survives h)
  respelt a j text hsound hrespelt htext := by
    rw [Remembered.valueOf?, Json.outlineOfBytes?, Text.Utf8.text?_bytes]
    change (Json.outline? text.toList).bind decode? = some a
    rw [htext, Option.bind_some]
    exact decode?_respelt hrespelt (survives hsound).read

end Faithful

/-- Every format of the wire round-trips, however its objects are spelled. -/
theorem formats_round_trip :
    RoundTrips Money ∧ RoundTrips Product ∧ RoundTrips MenuSlot ∧ RoundTrips Order ∧
    RoundTrips Line ∧ RoundTrips Payment ∧ RoundTrips HandOver ∧ RoundTrips StockEntry ∧
    RoundTrips Provenance ∧ RoundTrips Remembered ∧ RoundTrips StockEvent ∧
    RoundTrips Selection ∧ RoundTrips CartLine ∧ RoundTrips OrderRequest ∧ RoundTrips Draft ∧
    RoundTrips OrderReceipt ∧ RoundTrips Tender ∧ RoundTrips PaymentReceipt := by
  refine ⟨?_, ?_, ?_, ?_, ?_, ?_, ?_, ?_, ?_, ?_, ?_, ?_, ?_, ?_, ?_, ?_, ?_, ?_⟩
  all_goals exact Faithful.roundTrips

/-- A request from a till. -/
def tillRequest : OrderRequest := ⟨none, none, .pos, none, [⟨"soup", 2, []⟩]⟩

/-- Its cart line with a note, and without the selections that it does not have. -/
def terseLine : Json :=
  .obj [("note", .str "no salt"), ("quantity", .int 2), ("product_id", .str "soup")]

/-- The request without the members that have nothing to tell. -/
def terseRequest (line : Json) : Json := .obj [("lines", .arr [line]), ("origin", .str "pos")]

theorem terseLine_respelt :
    Respelt (Faithful.shape CartLine) (encode (CartLine.mk "soup" 2 [])) terseLine := by
  refine .head (.reorder (List.reverse_perm _).symm) ?_
  refine .head (.leaveOut (.tail _ (.tail _ (.head _)))) ?_
  refine .single (.add "note" _ ?_)
  simp [Format.slots, CartLine.format]

theorem terseRequest_respelt :
    Respelt (Faithful.shape OrderRequest) (encode tillRequest) (terseRequest terseLine) := by
  refine .head (.leaveOut (.head _)) (.head (.leaveOut (.tail _ (.head _))) ?_)
  refine .head (.reorder (@List.perm_append_comm _ [_] [_, _])) ?_
  refine .head (.leaveOut (.tail _ (.tail _ (.tail _ (.head _))))) ?_
  have hline : ∀ j j', Edit (Faithful.shape CartLine) j j' →
      Edit (Faithful.shape OrderRequest) (terseRequest j) (terseRequest j') := by
    intro j j' hedit
    exact .member (.tail _ (.tail _ (.tail _ (.tail _ (.head _))))) (@Edit.item _ _ _ [] [] hedit)
  exact Relation.ReflTransGen.lift terseRequest hline _ _ terseLine_respelt

/-- The till gets what it asks for. -/
theorem tillRequest_read :
    Remembered.valueOf? (Text.Utf8.bytes (Json.text (terseRequest terseLine))) =
      some tillRequest := by
  obtain ⟨-, -, -, -, -, -, -, -, -, -, -, -, -, hrequest, -⟩ := formats_round_trip
  refine hrequest.respelt _ (terseRequest terseLine) _ ?_ terseRequest_respelt ?_
  · have hquantity : Word.Fits 2 := by decide
    simpa [Faithful.IsSound, OrderRequest.format, CartLine.format, tillRequest] using hquantity
  · rw [Json.text, String.toList_ofList]
    exact Json.outline?_chars rfl

end OrderLedger
