import OrderLedger.Proofs.Shop.LineEntries
import OrderLedger.Proofs.Store.Work
import OrderLedger.Proofs.Tally
import OrderLedger.Proofs.Word
import OrderLedger.Store.Stock

/-!
When sums of stock succeed. One pass over the ledger finds for every listed product what a sum
over the product alone finds, and the entries of an order's lines move each product by what the
lines take.
-/

namespace OrderLedger

open Work Calculation

namespace StockEntry

theorem amountsOf_changes (es : List StockEntry) (productId : String) :
    Tally.amountsOf (changes es) productId = deltasOf es productId := by
  simp [Tally.amountsOf, changes, deltasOf, List.filter_map, Function.comp_def]

theorem deltasOf_filter {keep : StockEntry → Bool} {productId : String}
    (hkeep : ∀ e, e.productId = productId → keep e = true) (es : List StockEntry) :
    deltasOf (es.filter keep) productId = deltasOf es productId := by
  rw [deltasOf, deltasOf, List.filter_filter]
  congr 1
  apply List.filter_congr
  intro e _
  by_cases hproduct : e.productId = productId
  · simp [hproduct, hkeep e hproduct]
  · simp [hproduct]

/-- Entries of other products do not change a product. -/
theorem deltasOf_eq_nil {es : List StockEntry} {productId : String}
    (h : productId ∉ es.map (·.productId)) : deltasOf es productId = [] := by
  rw [deltasOf, List.map_eq_nil_iff, List.filter_eq_nil_iff]
  intro e he hproduct
  exact h (List.mem_map.mpr ⟨e, he, beq_iff_eq.mp hproduct⟩)

end StockEntry

namespace Store

variable {s t : Store} {productId : String} {now : Time.Instant} {es : List StockEntry}

theorem stockOf_eq_ok {n : Int} :
    s.stockOf productId = .ok n ↔ Word.sum? (StockEntry.deltasOf s.entries productId) = some n := by
  unfold stockOf
  cases Word.sum? (StockEntry.deltasOf s.entries productId) <;> simp

/-- More entries go on from the stock that there was. -/
theorem stockOf_append {n m : Int} (hstock : s.stockOf productId = .ok n)
    (hentries : t.entries = s.entries ++ es)
    (hsum : Word.sumFrom? n (StockEntry.deltasOf es productId) = some m) :
    t.stockOf productId = .ok m := by
  rw [stockOf_eq_ok] at hstock ⊢
  rw [Word.sum?] at hstock ⊢
  rw [hentries, StockEntry.deltasOf_append, Word.sumFrom?_append, hstock, Option.bind_some, hsum]

/-- The tally from which one pass over the ledger starts. -/
private theorem get_start (ids : List String) (key : String) :
    Tally.get (ids.map fun id => (id, 0)) key = 0 := by
  induction ids with
  | nil => rfl
  | cons id rest ih =>
      rw [List.map_cons, Tally.get_cons, ih, ite_self]

private theorem keys_start (ids : List String) :
    Tally.keys ((distinctSorted ids).map fun id => (id, 0)) = distinctSorted ids := by
  rw [Tally.keys, List.map_map]
  exact List.map_id _

private theorem ascending_start (ids : List String) :
    Tally.Ascending ((distinctSorted ids).map fun id => (id, 0)) := by
  rw [Tally.Ascending, keys_start]
  exact distinctSorted_pairwise ids

/-- The entries of the listed products have all changes of each of them. -/
private theorem deltasOf_listed {ids : List String} (hid : productId ∈ ids) :
    StockEntry.deltasOf (s.entries.filter fun e => ids.contains e.productId) productId =
      StockEntry.deltasOf s.entries productId := by
  apply StockEntry.deltasOf_filter
  rintro e rfl
  simpa using hid

/-- One pass over the ledger has each listed product once, in order. -/
theorem keys_stockOfMany {ids : List String} {stock : Tally} (h : s.stockOfMany ids = .ok stock) :
    stock.Ascending ∧ stock.keys = distinctSorted ids := by
  simp only [stockOfMany] at h
  split at h
  · next found hfound =>
      cases h
      obtain ⟨hascending, hkeys, -⟩ := Tally.addAll?_eq_some (ascending_start ids) hfound
      refine ⟨hascending, List.Pairwise.eq_of_mem_iff hascending (distinctSorted_pairwise ids) ?_⟩
      intro id
      rw [hkeys, keys_start, StockEntry.changes, List.map_map, mem_distinctSorted]
      refine or_iff_left_of_imp fun hmem => ?_
      obtain ⟨e, he, rfl⟩ := List.mem_map.mp hmem
      exact List.contains_iff_mem.mp (List.mem_filter.mp he).2
  · cases h

/-- One pass over the ledger tells for each listed product the stock of the product. -/
theorem stockOfMany_eq_ok {ids : List String} {stock : Tally}
    (h : s.stockOfMany ids = .ok stock) :
    ∀ id ∈ ids, s.stockOf id = .ok (stock.get id) := by
  simp only [stockOfMany] at h
  split at h
  · next found hfound =>
      cases h
      intro id hid
      have hsum := (Tally.addAll?_eq_some (ascending_start ids) hfound).2.2 id
      rw [get_start, StockEntry.amountsOf_changes, deltasOf_listed hid] at hsum
      exact stockOf_eq_ok.mpr hsum
  · cases h

/-- Products whose stock can be told one by one can be told together. -/
theorem exists_stockOfMany (ids : List String) (h : ∀ id ∈ ids, ∃ n, s.stockOf id = .ok n) :
    ∃ stock, s.stockOfMany ids = .ok stock ∧
      ∀ id ∈ ids, s.stockOf id = .ok (stock.get id) := by
  obtain ⟨stock, hstock⟩ := Tally.exists_addAll? (ascending_start ids) (StockEntry.changes
      (s.entries.filter fun e => ids.contains e.productId)) (by
    intro id
    rw [get_start, StockEntry.amountsOf_changes]
    by_cases hid : id ∈ ids
    · obtain ⟨n, hn⟩ := h id hid
      rw [deltasOf_listed hid]
      exact ⟨n, stockOf_eq_ok.mp hn⟩
    · rw [StockEntry.deltasOf_eq_nil]
      · exact ⟨0, rfl⟩
      · intro hmem
        obtain ⟨e, he, rfl⟩ := List.mem_map.mp hmem
        exact hid (List.contains_iff_mem.mp (List.mem_filter.mp he).2))
  have hmany : s.stockOfMany ids = .ok stock := by simp only [stockOfMany, hstock]
  exact ⟨stock, hmany, stockOfMany_eq_ok hmany⟩

/-- The events of entries can be told where the entries of each product add up and its stock
can be told. -/
theorem exists_events (hsums : ∀ productId, ∃ total,
      Word.sum? (StockEntry.deltasOf es productId) = some total)
    (hstock : ∀ e ∈ es, ∃ n, s.stockOf e.productId = .ok n) :
    ∃ told, (Store.events es now).Yields s told s := by
  have hempty : Tally.Ascending [] := .nil
  obtain ⟨deltas, hdeltas⟩ := Tally.exists_addAll? hempty (StockEntry.changes es) (by
      intro productId
      rw [StockEntry.amountsOf_changes]
      exact hsums productId)
  have hkeys := (Tally.addAll?_eq_some hempty hdeltas).2.1
  obtain ⟨stock, hmany, -⟩ := exists_stockOfMany (s := s) deltas.keys (by
    intro id hid
    rcases (hkeys id).mp hid with hnone | hid
    · cases hnone
    · obtain ⟨change, hchange, rfl⟩ := List.mem_map.mp hid
      obtain ⟨e, he, rfl⟩ := List.mem_map.mp hchange
      exact hstock e he)
  simp only [Store.events, yields_bind, yields_calculate, yields_ask, yields_pure]
  refine ⟨_, deltas, s, ⟨?_, rfl⟩, stock, s, ⟨hmany, rfl⟩, rfl, rfl⟩
  rw [Tally.of?, hdeltas]
  rfl

/-- Products that cannot be told together are not all told one by one. -/
theorem stockOfMany_eq_error {ids : List String} {e : StorageError}
    (h : s.stockOfMany ids = .error e) :
    e = .sumOverflow ∧ ∃ id ∈ ids, ¬ ∃ n, s.stockOf id = .ok n := by
  constructor
  · simp only [stockOfMany] at h
    split at h <;> cases h
    rfl
  · by_contra hnone
    obtain ⟨stock, hstock, -⟩ := exists_stockOfMany ids fun id hid => by
      by_contra hfailed
      exact hnone ⟨id, hid, hfailed⟩
    cases hstock.symm.trans h

/-- The events of entries cannot be told where the entries of a product do not add up, or where
the stock of a product that they touch cannot be told. -/
theorem fails_events {f : Fault StorageError} (h : (Store.events es now).Fails s f) :
    (f = .overflow .add ∧
      ∃ productId, ¬ ∃ total, Word.sum? (StockEntry.deltasOf es productId) = some total) ∨
    f = .error .sumOverflow ∧ ∃ e ∈ es, ¬ ∃ n, s.stockOf e.productId = .ok n := by
  have hempty : Tally.Ascending [] := .nil
  simp only [Store.events, fails_bind, fails_calculate, yields_calculate, fails_ask, fails_pure,
    and_false, exists_false, or_false] at h
  rcases h with ⟨cause, hdeltas, rfl⟩ | ⟨deltas, _, ⟨hdeltas, rfl⟩, e, hstock, rfl⟩
  · unfold Tally.of? at hdeltas
    cases hadded : Tally.addAll? [] (StockEntry.changes es) with
    | some deltas =>
        rw [hadded] at hdeltas
        cases hdeltas
    | none =>
        rw [hadded] at hdeltas
        cases hdeltas
        refine Or.inl ⟨rfl, ?_⟩
        by_contra hnone
        obtain ⟨deltas, hfound⟩ := Tally.exists_addAll? hempty (StockEntry.changes es) (by
          intro productId
          rw [StockEntry.amountsOf_changes]
          by_contra hfailed
          exact hnone ⟨productId, hfailed⟩)
        cases hfound.symm.trans hadded
  · obtain ⟨rfl, id, hid, hfailed⟩ := stockOfMany_eq_error hstock
    refine Or.inr ⟨rfl, ?_⟩
    rw [require_eq_ok, Tally.of?] at hdeltas
    rcases ((Tally.addAll?_eq_some hempty hdeltas).2.1 id).mp hid with hnone | hid
    · cases hnone
    · obtain ⟨change, hchange, rfl⟩ := List.mem_map.mp hid
      obtain ⟨e, he, rfl⟩ := List.mem_map.mp hchange
      exact ⟨e, he, hfailed⟩

theorem fits_of_stockOf {n : Int} (h : s.stockOf productId = .ok n) : Word.Fits n :=
  Word.sumFrom?_fits Word.fits_zero (stockOf_eq_ok.mp h)

end Store

namespace Line

variable {lines : List Line} {productId : String}

/-- The products whose stock the lines move. -/
def moved (lines : List Line) : List String := (moving lines).map (·.productId)

theorem taken_nonneg (h : ∀ l ∈ lines, 0 < l.quantity ∧ l.quantity ≤ 999) (productId : String) :
    0 ≤ taken lines productId := by
  apply List.sum_nonneg
  intro n hn
  obtain ⟨l, hl, rfl⟩ := List.mem_map.mp hn
  exact (h l (List.mem_of_mem_filter (List.mem_of_mem_filter hl))).1.le

theorem taken_eq_zero (h : productId ∉ moved lines) : taken lines productId = 0 := by
  have hnone : (moving lines).filter (fun l => l.productId == productId) = [] := by
    rw [List.filter_eq_nil_iff]
    intro l hl hproduct
    rw [beq_iff_eq] at hproduct
    exact h (hproduct ▸ List.mem_map_of_mem hl)
  rw [taken, hnone]
  rfl

end Line

namespace Shop

variable {settings : Settings} {now : Time.Instant} {ids : Nat → String} {orderId : String}
  {reason : Reason} {sign : Int} {lines : List Line} {s t : Store} {productId : String}

/-- Whether stock is sold or given back, all entries of the lines have one sign. -/
theorem oneSigned_lineEntries (hsign : sign = 1 ∨ sign = -1)
    (hlines : ∀ l ∈ lines, 0 < l.quantity ∧ l.quantity ≤ 999) (productId : String) :
    let deltas := StockEntry.deltasOf (lineEntries settings now ids orderId reason sign lines)
      productId
    (∀ n ∈ deltas, 0 ≤ n) ∨ ∀ n ∈ deltas, n ≤ 0 := by
  have hdelta : ∀ n ∈ StockEntry.deltasOf
      (lineEntries settings now ids orderId reason sign lines) productId,
      ∃ q, 0 < q ∧ n = sign * q := by
    intro n hn
    obtain ⟨e, he, rfl⟩ := List.mem_map.mp hn
    obtain ⟨⟨l, place⟩, hl, rfl⟩ := List.mem_map.mp (List.mem_of_mem_filter he)
    have hmem := List.mem_of_mem_filter (List.fst_mem_of_mem_zipIdx hl)
    exact ⟨l.quantity, (hlines l hmem).1, rfl⟩
  rcases hsign with rfl | rfl
  · refine Or.inl fun n hn => ?_
    obtain ⟨q, hq, rfl⟩ := hdelta n hn
    omega
  · refine Or.inr fun n hn => ?_
    obtain ⟨q, hq, rfl⟩ := hdelta n hn
    omega

/-- After the entries of lines, the stock of a product has changed by what they take. -/
theorem stockOf_lineEntries (hsign : sign = 1 ∨ sign = -1)
    (hlines : ∀ l ∈ lines, 0 < l.quantity ∧ l.quantity ≤ 999)
    (hentries : t.entries =
      s.entries ++ lineEntries settings now ids orderId reason sign lines)
    {n : Int} (hstock : s.stockOf productId = .ok n)
    (hfits : Word.Fits (n + sign * Line.taken lines productId)) :
    t.stockOf productId = .ok (n + sign * Line.taken lines productId) := by
  apply Store.stockOf_append hstock hentries
  rw [← sum_deltas_lineEntries] at hfits ⊢
  exact Word.sumFrom?_of_oneSigned (oneSigned_lineEntries hsign hlines productId)
    (Store.fits_of_stockOf hstock) hfits

/-- The events of lines can be told where the sums of their products stay in range. -/
theorem exists_events_lineEntries (hsign : sign = 1 ∨ sign = -1)
    (hlines : ∀ l ∈ lines, 0 < l.quantity ∧ l.quantity ≤ 999)
    (hentries : t.entries =
      s.entries ++ lineEntries settings now ids orderId reason sign lines)
    (hsums : ∀ productId ∈ Line.moved lines, Word.Fits (sign * Line.taken lines productId) ∧
      ∃ n, s.stockOf productId = .ok n ∧ Word.Fits (n + sign * Line.taken lines productId)) :
    ∃ told, (Store.events (lineEntries settings now ids orderId reason sign lines) now).Yields
      t told t := by
  apply Store.exists_events
  · intro productId
    have hfits : Word.Fits (sign * Line.taken lines productId) := by
      by_cases hmoved : productId ∈ Line.moved lines
      · exact (hsums productId hmoved).1
      · rw [Line.taken_eq_zero hmoved, mul_zero]
        exact Word.fits_zero
    refine ⟨_, Word.sumFrom?_of_oneSigned (oneSigned_lineEntries hsign hlines productId)
      Word.fits_zero ?_⟩
    rwa [zero_add, sum_deltas_lineEntries]
  · intro e he
    obtain ⟨⟨l, place⟩, hl, rfl⟩ := List.mem_map.mp he
    have hmoved : l.productId ∈ Line.moved lines :=
      List.mem_map_of_mem (List.fst_mem_of_mem_zipIdx hl)
    obtain ⟨-, n, hstock, hfits⟩ := hsums l.productId hmoved
    exact ⟨_, stockOf_lineEntries hsign hlines hentries hstock hfits⟩

/-- Where the events of lines cannot be told, a sum of one of their products is out of range. -/
theorem fails_events_lineEntries (hsign : sign = 1 ∨ sign = -1)
    (hlines : ∀ l ∈ lines, 0 < l.quantity ∧ l.quantity ≤ 999)
    (hentries : t.entries =
      s.entries ++ lineEntries settings now ids orderId reason sign lines)
    {stock : String → Int} (hstock : ∀ productId, s.stockOf productId = .ok (stock productId))
    {f : Fault StorageError}
    (h : (Store.events (lineEntries settings now ids orderId reason sign lines) now).Fails t f) :
    (f = .overflow .add ∧
      ∃ productId ∈ Line.moved lines, ¬ Word.Fits (sign * Line.taken lines productId)) ∨
    f = .error .sumOverflow ∧ ∃ productId ∈ Line.moved lines,
      ¬ Word.Fits (stock productId + sign * Line.taken lines productId) := by
  rcases Store.fails_events h with ⟨rfl, productId, hsum⟩ | ⟨rfl, e, he, hfailed⟩
  · refine Or.inl ⟨rfl, productId, ?_, fun hfits => hsum ?_⟩
    · by_contra hmoved
      refine hsum ⟨0, ?_⟩
      rw [StockEntry.deltasOf_eq_nil]
      · rfl
      · intro hmem
        obtain ⟨e, he, rfl⟩ := List.mem_map.mp hmem
        obtain ⟨⟨l, place⟩, hl, rfl⟩ := List.mem_map.mp he
        exact hmoved (List.mem_map_of_mem (List.fst_mem_of_mem_zipIdx hl))
    · refine ⟨_, Word.sumFrom?_of_oneSigned (oneSigned_lineEntries hsign hlines productId)
        Word.fits_zero ?_⟩
      rwa [zero_add, sum_deltas_lineEntries]
  · obtain ⟨⟨l, place⟩, hl, rfl⟩ := List.mem_map.mp he
    refine Or.inr ⟨rfl, l.productId, List.mem_map_of_mem (List.fst_mem_of_mem_zipIdx hl), ?_⟩
    exact fun hfits => hfailed
      ⟨_, stockOf_lineEntries hsign hlines hentries (hstock l.productId) hfits⟩

end Shop

end OrderLedger
