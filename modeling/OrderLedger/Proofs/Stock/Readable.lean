import OrderLedger.Proofs.Stock.Announcements
import OrderLedger.Service.Questions

/-!
Stock can always be read. A sum over the ledger fails as soon as one of its running sums leaves
the 64-bit range, so one batch of entries could spoil a product for good; but every transaction
that appends entries sums up all the products that they touch before it is committed.
-/

namespace OrderLedger

variable {s t : Store} {es : List StockEntry}

/-- A tally is told by its keys and the sums under them. -/
theorem Tally.eq_map_keys {tally : Tally} (h : tally.Ascending) :
    tally = tally.keys.map fun key => (key, tally.get key) := by
  rw [keys, List.map_map]
  conv_lhs => rw [← List.map_id tally]
  apply List.map_congr_left
  rintro ⟨key, n⟩ hentry
  rw [Function.comp_apply, get_of_mem h hentry]
  rfl

namespace Store

/-- The stock of every product can be told. -/
def Readable (s : Store) : Prop := ∀ productId, ∃ n, s.stockOf productId = .ok n

/-- Entries leave the ledger readable if the products that they touch can be read. -/
theorem Readable.append (h : s.Readable) (hentries : t.entries = s.entries ++ es)
    (htouched : ∀ e ∈ es, ∃ n, t.stockOf e.productId = .ok n) : t.Readable := by
  intro productId
  by_cases hproduct : productId ∈ es.map (·.productId)
  · obtain ⟨e, he, rfl⟩ := List.mem_map.mp hproduct
    exact htouched e he
  · have hdeltas := StockEntry.deltasOf_append s.entries es productId
    rw [← hentries, StockEntry.deltasOf_eq_nil hproduct, List.append_nil] at hdeltas
    rw [stockOf_congr hdeltas]
    exact h productId

theorem Readable.stockOf_eq (h : s.Readable) (productId : String) :
    s.stockOf productId = .ok (StockEntry.deltasOf s.entries productId).sum := by
  obtain ⟨n, hn⟩ := h productId
  rw [hn, eq_sum_of_stockOf hn]

/-- Where every product can be read, any products can be read together, and each of them is told
once, in order. -/
theorem Readable.stockOfMany_eq (h : s.Readable) (productIds : List String) :
    s.stockOfMany productIds = .ok ((distinctSorted productIds).map fun productId =>
      (productId, (StockEntry.deltasOf s.entries productId).sum)) := by
  obtain ⟨stock, hstock, htold⟩ := exists_stockOfMany productIds fun id _ => h id
  obtain ⟨hascending, hkeys⟩ := keys_stockOfMany hstock
  rw [hstock, Tally.eq_map_keys hascending, hkeys]
  congr 1
  apply List.map_congr_left
  intro id hid
  rw [eq_sum_of_stockOf (htold id (mem_distinctSorted.mp hid))]

end Store

namespace Run

variable {settings : Settings} {turns : List Turn} {shop : Shop}

theorem readable (hrun : Run settings turns shop) : shop.store.Readable := by
  induction hrun with
  | opened => exact fun _ => ⟨0, rfl⟩
  | @act turns shop call action hrun ih =>
      obtain ⟨hentries, htouched, -⟩ := Turn.tells_told ⟨call, action, shop⟩
      exact ih.append hentries htouched

/-- After any run, the stock of each product and of any list of products can be read, and it is
the exact sum of the entries, whichever amounts the entries have. -/
theorem stock_is_always_readable (hrun : Run settings turns shop) {service : Service}
    (hshop : service.shop = shop) (hopen : service.isOpen = true)
    (htables : service.hasTables = true) :
    (∀ productId, service.stockOf productId =
      .ok (StockEntry.deltasOf shop.store.entries productId).sum) ∧
    ∀ productIds, service.stockOfMany productIds =
      .ok ((distinctSorted productIds).map fun productId =>
        (productId, (StockEntry.deltasOf shop.store.entries productId).sum)) := by
  have hanswered {α : Type} (table : Option Table) (query : Store → Except StorageError α) :
      service.ask table query = query shop.store := by
    simp [Service.ask, Service.refusal?, Service.refusalAt?, hopen, htables, hshop]
  constructor
  · intro productId
    rw [Service.stockOf, hanswered]
    exact hrun.readable.stockOf_eq productId
  · intro productIds
    rw [Service.stockOfMany, hanswered]
    exact hrun.readable.stockOfMany_eq productIds

/-- As much soup is counted as can be counted. A batch whose amounts come to nothing is refused,
as its running sum leaves the range. -/
def fullPantry : List (Call × Action) :=
  [(Call.on 20000 'a', .operate (.append
      [⟨"x", "soup", Word.greatest, .openingBalance, .unknown, ⟨20000, 0, 0⟩⟩,
       ⟨"y", "bread", -5, .correction, .unknown, ⟨20000, 0, 0⟩⟩])),
   (Call.on 20000 'b', .operate (.append
      [⟨"z", "bread", 3, .correction, .unknown, ⟨20000, 0, 0⟩⟩,
       ⟨"v", "soup", 1, .manualAdjust, .unknown, ⟨20000, 0, 0⟩⟩,
       ⟨"w", "soup", -1, .manualAdjust, .unknown, ⟨20000, 0, 0⟩⟩]))]

theorem stock_of_fullPantry :
    let service : Service :=
      { Service.opened Settings.standard true with shop := (play Settings.standard fullPantry).2 }
    service.stockOf "soup" = .ok Word.greatest ∧
      service.stockOfMany ["soup", "cola", "bread", "soup"] =
        .ok [("bread", -5), ("cola", 0), ("soup", Word.greatest)] := by
  intro service
  have hread := @stock_is_always_readable _ _ _ (run_play Settings.standard fullPantry)
    service rfl rfl rfl
  have hsums : ["soup", "cola", "bread"].map (fun productId => (StockEntry.deltasOf
      (play Settings.standard fullPantry).2.store.entries productId).sum) =
        [Word.greatest, 0, -5] := by
    decide +kernel
  simp only [List.map_cons, List.map_nil, List.cons.injEq, and_true] at hsums
  obtain ⟨hsoup, hcola, hbread⟩ := hsums
  have hlisted : distinctSorted ["soup", "cola", "bread", "soup"] = ["bread", "cola", "soup"] := by
    decide
  rw [hread.1, hread.2, hlisted]
  simp only [List.map_cons, List.map_nil, hsoup, hcola, hbread, and_self]

end Run

end OrderLedger
