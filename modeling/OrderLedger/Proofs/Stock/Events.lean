import Mathlib.Data.List.Chain
import OrderLedger.Proofs.Stock.Sums
import OrderLedger.Proofs.Text.Bytes

/-!
What is told of a batch of entries, and what the events of one product say when batch
follows batch: each goes on from the stock that the one before it told.
-/

namespace OrderLedger

open Work Calculation

variable {s t : Store} {es : List StockEntry} {events : List StockEvent} {now : Time.Instant}
  {productId : String}

/-- For each product of the entries, in order, what they come to and the stock they lead to. -/
def StockEvent.telling (s : Store) (es : List StockEntry) (now : Time.Instant) :
    List StockEvent :=
  (distinctSorted (es.map (·.productId))).map fun productId =>
    { productId
      newStock := (StockEntry.deltasOf s.entries productId).sum
      delta := (StockEntry.deltasOf es productId).sum
      timestamp := now }

/-- The events tell of every product of the entries once, with the sum of its entries and
its stock in the store. -/
structure Announces (s : Store) (es : List StockEntry) (events : List StockEvent) : Prop where
  ascending : (events.map fun event => Text.Utf8.bytes event.productId).Pairwise (· < ·)
  products : ∀ productId,
    productId ∈ events.map (·.productId) ↔ productId ∈ es.map (·.productId)
  deltas : ∀ event ∈ events, event.delta = (StockEntry.deltasOf es event.productId).sum
  stock : ∀ event ∈ events, s.stockOf event.productId = .ok event.newStock

namespace Store

theorem eq_sum_of_stockOf {n : Int} (h : s.stockOf productId = .ok n) :
    n = (StockEntry.deltasOf s.entries productId).sum := by
  rw [Word.sumFrom?_eq_sum (stockOf_eq_ok.mp h), zero_add]

/-- The stock of a product is that of its own entries. -/
theorem stockOf_congr (h : StockEntry.deltasOf t.entries productId =
    StockEntry.deltasOf s.entries productId) : t.stockOf productId = s.stockOf productId := by
  rw [stockOf, stockOf, h]

/-- Events that are told of entries are exact, and no running sum of the ledger left the
64-bit range. -/
theorem yields_events_eq (h : (Store.events es now).Yields s events t) :
    events = StockEvent.telling s es now ∧ ∀ e ∈ es, ∃ n, s.stockOf e.productId = .ok n := by
  simp only [Store.events, yields_bind, yields_calculate, yields_ask, yields_pure] at h
  obtain ⟨deltas, _, ⟨hdeltas, rfl⟩, stock, _, ⟨hstock, rfl⟩, rfl, rfl⟩ := h
  rw [require_eq_ok] at hdeltas
  have hempty : Tally.Ascending [] := .nil
  obtain ⟨hascending, -, hsums⟩ := Tally.addAll?_eq_some hempty hdeltas
  have hkeys : deltas.keys = distinctSorted (es.map (·.productId)) := by
    rw [Tally.keys_of? hdeltas, StockEntry.changes, List.map_map]
    rfl
  have hcurrent := stockOfMany_eq_ok hstock
  constructor
  · rw [StockEvent.telling, ← hkeys, Tally.keys, List.map_map]
    apply List.map_congr_left
    rintro ⟨productId, delta⟩ hmem
    have hdelta := Word.sumFrom?_eq_sum (hsums productId)
    rw [Tally.get_of_mem hascending hmem, StockEntry.amountsOf_changes] at hdelta
    have hnow := eq_sum_of_stockOf (hcurrent productId (List.mem_map.mpr ⟨_, hmem, rfl⟩))
    simp only [Function.comp_apply, ← hnow, StockEvent.mk.injEq, true_and, and_true]
    rw [hdelta]
    exact zero_add _
  · intro e he
    refine ⟨_, hcurrent e.productId ?_⟩
    rw [hkeys, mem_distinctSorted]
    exact List.mem_map.mpr ⟨e, he, rfl⟩

end Store

namespace StockEvent

theorem products_telling (s : Store) (es : List StockEntry) (now : Time.Instant) :
    (telling s es now).map (·.productId) = distinctSorted (es.map (·.productId)) := by
  rw [telling, List.map_map]
  exact List.map_id _

theorem announces_telling (hstock : ∀ e ∈ es, ∃ n, s.stockOf e.productId = .ok n) :
    Announces s es (telling s es now) where
  ascending := by
    have hproducts := distinctSorted_pairwise (es.map (·.productId))
    rw [← products_telling s es now, List.pairwise_map] at hproducts
    exact List.pairwise_map.mpr (hproducts.imp Text.Utf8.bytes_lt)
  products productId := by rw [products_telling, mem_distinctSorted]
  deltas event hevent := by
    obtain ⟨productId, -, rfl⟩ := List.mem_map.mp hevent
    rfl
  stock event hevent := by
    obtain ⟨productId, hproduct, rfl⟩ := List.mem_map.mp hevent
    obtain ⟨e, he, rfl⟩ := List.mem_map.mp (mem_distinctSorted.mp hproduct)
    obtain ⟨n, hn⟩ := hstock e he
    rw [hn, Store.eq_sum_of_stockOf hn]

/-- A batch that touches a product tells one event of it, any other batch none. -/
theorem filter_telling (productId : String) :
    (telling s es now).filter (fun event => event.productId == productId) =
      if productId ∈ es.map (·.productId) then
        [⟨productId, (StockEntry.deltasOf s.entries productId).sum,
          (StockEntry.deltasOf es productId).sum, now⟩]
      else [] := by
  have hnodup : (distinctSorted (es.map (·.productId))).Nodup := by
    apply (distinctSorted_pairwise _).imp
    rintro first _ hlt rfl
    exact String.lt_irrefl first hlt
  rw [telling, List.filter_map]
  change List.map _ (List.filter (· == productId) _) = _
  rw [List.filter_beq]
  split
  · next htouched =>
      rw [List.count_eq_one_of_mem hnodup (mem_distinctSorted.mpr htouched)]
      rfl
  · next huntouched =>
      rw [List.count_eq_zero_of_not_mem (mt mem_distinctSorted.mp huntouched)]
      rfl

end StockEvent

/-- The events of a product lead, change by change, to its stock in the store. -/
structure LeadTo (s : Store) (productId : String) (events : List StockEvent) : Prop where
  linked : events.IsChain fun first second => second.newStock = first.newStock + second.delta
  current : ∀ last ∈ events.getLast?, s.stockOf productId = .ok last.newStock

theorem LeadTo.extend (h : LeadTo s productId events) (hentries : t.entries = s.entries ++ es)
    (hstock : ∀ e ∈ es, ∃ n, t.stockOf e.productId = .ok n) :
    LeadTo t productId (events ++
      (StockEvent.telling t es now).filter fun event => event.productId == productId) := by
  have hdeltas := congrArg (StockEntry.deltasOf · productId) hentries
  simp only [StockEntry.deltasOf_append] at hdeltas
  rw [StockEvent.filter_telling]
  split
  · next htouched =>
      obtain ⟨e, he, rfl⟩ := List.mem_map.mp htouched
      obtain ⟨n, hn⟩ := hstock e he
      constructor
      · rw [List.isChain_append]
        refine ⟨h.linked, List.isChain_singleton _, ?_⟩
        intro last hlast next hnext
        cases hnext
        rw [Store.eq_sum_of_stockOf (h.current last hlast), ← List.sum_append, ← hdeltas]
      · intro last hlast
        rw [List.getLast?_concat] at hlast
        cases hlast
        rw [hn, Store.eq_sum_of_stockOf hn]
  · next huntouched =>
      rw [StockEntry.deltasOf_eq_nil huntouched, List.append_nil] at hdeltas
      rw [List.append_nil]
      refine ⟨h.linked, ?_⟩
      intro last hlast
      rw [Store.stockOf_congr hdeltas]
      exact h.current last hlast

end OrderLedger
