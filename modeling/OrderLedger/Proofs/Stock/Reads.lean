import OrderLedger.Proofs.Stock.Events

/-!
Stock read for one product and for many. One pass over the ledger fails exactly where one of the
listed products cannot be read alone, and else tells each of them once, as it is read alone. What
is read is what the product's whole history adds up to.
-/

namespace OrderLedger.Store

variable {s : Store} {productId : String} {ids : List String} {limit : Nat}

theorem stockOf_eq_error {e : StorageError} (h : s.stockOf productId = .error e) :
    e = .sumOverflow := by
  unfold stockOf at h
  split at h <;> cases h
  rfl

/-- One pass succeeds exactly where each of the listed products can be read alone. -/
theorem exists_stockOfMany_iff :
    (∃ stock, s.stockOfMany ids = .ok stock) ↔ ∀ id ∈ ids, ∃ n, s.stockOf id = .ok n := by
  constructor
  · rintro ⟨stock, hstock⟩ id hid
    exact ⟨_, stockOfMany_eq_ok hstock id hid⟩
  · intro hread
    obtain ⟨stock, hstock, -⟩ := exists_stockOfMany ids hread
    exact ⟨stock, hstock⟩

theorem stockOf_of_no_entries (h : ∀ e ∈ s.entries, e.productId ≠ productId) :
    s.stockOf productId = .ok 0 := by
  rw [stockOf_eq_ok, StockEntry.deltasOf_eq_nil]
  · rfl
  · intro hmem
    obtain ⟨e, he, hproduct⟩ := List.mem_map.mp hmem
    exact h e he hproduct

/-- A history that no limit cuts off has every entry of its product. -/
theorem history_perm
    (hlimit : (s.entries.filter fun e => e.productId == productId).length ≤ limit) :
    (s.history productId limit).Perm (s.entries.filter fun e => e.productId == productId) := by
  have hwhole := (List.reverse_perm _).trans (chronological_perm (·.createdAt)
    (s.entries.filter fun e => e.productId == productId))
  rw [history, newestFirst, List.take_of_length_le (hwhole.length_eq.trans_le hlimit)]
  exact hwhole

theorem sum_history
    (hlimit : (s.entries.filter fun e => e.productId == productId).length ≤ limit) :
    ((s.history productId limit).map (·.delta)).sum =
      (StockEntry.deltasOf s.entries productId).sum :=
  ((history_perm hlimit).map _).sum_eq

/-- Reads of many products agree with reads of one. One pass succeeds where every listed product
can be read, and fails as the product fails that cannot. It tells the listed products, each once
and as it is read alone: nothing of a product without entries, and what a whole history adds up
to. -/
theorem stock_reads_agree (s : Store) (ids : List String) :
    ((∃ stock, s.stockOfMany ids = .ok stock) ↔ ∀ id ∈ ids, ∃ n, s.stockOf id = .ok n) ∧
    (∀ e, s.stockOfMany ids = .error e →
      e = .sumOverflow ∧ ∃ id ∈ ids, s.stockOf id = .error .sumOverflow) ∧
    ∀ stock, s.stockOfMany ids = .ok stock →
      stock.keys.Nodup ∧ (∀ id, id ∈ stock.keys ↔ id ∈ ids) ∧
      ∀ id ∈ ids, s.stockOf id = .ok (stock.get id) ∧
        ((∀ e ∈ s.entries, e.productId ≠ id) → stock.get id = 0) ∧
        ∀ limit, (s.entries.filter fun e => e.productId == id).length ≤ limit →
          ((s.history id limit).map (·.delta)).sum = stock.get id := by
  refine ⟨exists_stockOfMany_iff, fun e herror => ?_, fun stock hstock => ⟨?_, ?_, ?_⟩⟩
  · obtain ⟨rfl, id, hid, hunread⟩ := stockOfMany_eq_error herror
    refine ⟨rfl, id, hid, ?_⟩
    cases hread : s.stockOf id with
    | ok n => exact absurd ⟨n, hread⟩ hunread
    | error e => rw [stockOf_eq_error hread]
  · rw [(keys_stockOfMany hstock).2]
    exact distinctSorted_nodup ids
  · intro id
    rw [(keys_stockOfMany hstock).2, mem_distinctSorted]
  · intro id hid
    have hread := stockOfMany_eq_ok hstock id hid
    refine ⟨hread, fun hnone => ?_, fun limit hlimit => ?_⟩
    · rw [stockOf_of_no_entries hnone, Except.ok.injEq] at hread
      exact hread.symm
    · rw [sum_history hlimit, eq_sum_of_stockOf hread]

/-- Too much soup was entered to be added up; what is left of the bread was entered in two
parts. -/
def spoiltPantry : Store :=
  { Store.empty with
    entries := [
      ⟨"a", "soup", Word.greatest, .openingBalance, .unknown, ⟨20000, 0, 0⟩⟩,
      ⟨"b", "bread", 5, .openingBalance, .unknown, ⟨20000, 0, 0⟩⟩,
      ⟨"c", "soup", 1, .manualAdjust, .unknown, ⟨20000, 0, 0⟩⟩,
      ⟨"d", "bread", -7, .correction, .unknown, ⟨20000, 0, 0⟩⟩] }

theorem reads_of_spoiltPantry :
    (∃ stock, spoiltPantry.stockOfMany ["bread", "cola", "bread"] = .ok stock ∧
      stock.get "bread" = -2 ∧ stock.get "cola" = 0 ∧
      ((spoiltPantry.history "bread" 2).map (·.delta)).sum = -2) ∧
    ¬ (∃ stock, spoiltPantry.stockOfMany ["bread", "soup"] = .ok stock) ∧
    spoiltPantry.stockOf "soup" = .error .sumOverflow := by
  have hbread : spoiltPantry.stockOf "bread" = .ok (-2) := by decide
  have hcola : spoiltPantry.stockOf "cola" = .ok 0 := by decide
  have hsoup : spoiltPantry.stockOf "soup" = .error .sumOverflow := by decide
  obtain ⟨htold, -, hvalues⟩ := stock_reads_agree spoiltPantry ["bread", "cola", "bread"]
  obtain ⟨stock, hstock⟩ := htold.mpr (by
    intro id hid
    simp only [List.mem_cons, List.not_mem_nil, or_false] at hid
    rcases hid with rfl | rfl | rfl
    · exact ⟨_, hbread⟩
    · exact ⟨_, hcola⟩
    · exact ⟨_, hbread⟩)
  obtain ⟨-, -, hreads⟩ := hvalues stock hstock
  obtain ⟨hbread', -, hhistory⟩ := hreads "bread" (by decide)
  obtain ⟨-, hnone, -⟩ := hreads "cola" (by decide)
  rw [hbread, Except.ok.injEq] at hbread'
  refine ⟨⟨stock, hstock, hbread'.symm, hnone (by decide), ?_⟩, fun hspoilt => ?_, hsoup⟩
  · rw [hhistory 2 (by decide), hbread']
  · obtain ⟨n, hn⟩ :=
      (stock_reads_agree spoiltPantry ["bread", "soup"]).1.mp hspoilt "soup" (by decide)
    rw [hsoup] at hn
    cases hn

end OrderLedger.Store
