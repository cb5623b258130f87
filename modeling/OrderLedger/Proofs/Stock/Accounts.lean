import OrderLedger.Proofs.Stock.Balance

/-!
The account of every line. The shop enters one sale for a line that moves stock, and one
entry more exactly when the order of the line has given its stock back.
-/

namespace OrderLedger

/-- What the shop enters for a line: its sale, and that it was given back. -/
def Line.account (l : Line) (back : Option Reason) : List (String × Int × Reason) :=
  if l.type.movesStock then
    (l.productId, -l.quantity, .sale) ::
      back.toList.map fun reason => (l.productId, l.quantity, reason)
  else []

theorem Line.account_none (l : Line) :
    l.account none = if l.type.movesStock then [(l.productId, -l.quantity, .sale)] else [] := rfl

theorem Line.account_some (l : Line) (reason : Reason) :
    l.account (some reason) =
      l.account none ++ if l.type.movesStock then [(l.productId, l.quantity, reason)] else [] := by
  unfold account
  split <;> rfl

/-- The entries that the shop itself has made account for the lines of all orders that
were placed. `given` are the order ids given out so far. -/
structure Accounted (given : List String) (receipts : List OrderReceipt)
    (own : List StockEntry) (s : Store) : Prop where
  known : ∀ r ∈ receipts, r.order.id ∈ given
  orders : ∀ id, s.hasOrder id = true → ∃ r ∈ receipts, r.order.id = id
  entries : ∀ e ∈ own, ∀ id, e.provenance.orderId = some id → id ∈ given
  lineIds : ∀ r ∈ receipts, (r.lines.map (·.id)).Nodup
  lines : ∀ r ∈ receipts, s.hasOrder r.order.id = true → s.linesOf r.order.id = r.lines
  told : ∀ r ∈ receipts, ∀ l ∈ r.lines,
    (StockEntry.about own r.order.id l.id).map StockEntry.told =
      l.account (Status.reasonBack? (s.statusOf r.order.id))

theorem StockEntry.about_eq_nil {es : List StockEntry} {orderId : String}
    (h : ∀ e ∈ es, e.provenance.orderId ≠ some orderId) (lineId : String) :
    about es orderId lineId = [] := by
  rw [about, List.filter_eq_nil_iff]
  intro e he
  simp [h e he]

namespace Accounted

variable {given : List String} {receipts : List OrderReceipt} {own more : List StockEntry}
  {s t : Store}

theorem opened : Accounted [] [] [] Store.empty := by
  constructor <;> simp [Store.empty, Store.hasOrder]

/-- More ids may be given out than orders are placed. -/
theorem weaken (h : Accounted given receipts own s) (ids : List String) :
    Accounted (given ++ ids) receipts own s where
  known := fun r hr => List.mem_append_left _ (h.known r hr)
  orders := h.orders
  entries := fun e he id hid => List.mem_append_left _ (h.entries e he id hid)
  lineIds := h.lineIds
  lines := h.lines
  told := h.told

/-- An answer that tells of no new order adds no receipt. -/
theorem unplaced (h : Accounted given receipts own s) {answer : Answer}
    (hplaced : answer.placed? = none) :
    Accounted given (receipts ++ answer.placed?.toList) own s := by
  rwa [hplaced, Option.toList_none, List.append_nil]

/-- Lines that stay, of orders that hold or have given back what they did before, need no
entries; and entries that name no order do no harm. -/
theorem keep (h : Accounted given receipts own s) (hlines : t.lines = s.lines)
    (hstored : ∀ id, t.hasOrder id = true → s.hasOrder id = true)
    (hreason : ∀ id, Status.reasonBack? (t.statusOf id) = Status.reasonBack? (s.statusOf id))
    (hmore : ∀ e ∈ more, e.provenance.orderId = none) :
    Accounted given receipts (own ++ more) t where
  known := h.known
  orders := fun id hid => h.orders id (hstored id hid)
  entries := by
    intro e he id hid
    rcases List.mem_append.mp he with he | he
    · exact h.entries e he id hid
    · rw [hmore e he] at hid
      cases hid
  lineIds := h.lineIds
  lines := by
    intro r hr hid
    rw [← h.lines r hr (hstored _ hid), Store.linesOf, Store.linesOf, hlines]
  told := by
    intro r hr l hl
    have hother : ∀ e ∈ more, e.provenance.orderId ≠ some r.order.id := by
      intro e he
      rw [hmore e he]
      simp
    have hnone := StockEntry.about_eq_nil hother l.id
    rw [StockEntry.about_append, hnone, List.append_nil, hreason]
    exact h.told r hr l hl

/-- Where orders hold or have given back what they did before, no entries are needed. -/
theorem idle (h : Accounted given receipts own s) (hlines : t.lines = s.lines)
    (hstored : ∀ id, t.hasOrder id = true → s.hasOrder id = true)
    (hreason : ∀ id, Status.reasonBack? (t.statusOf id) = Status.reasonBack? (s.statusOf id)) :
    Accounted given receipts own t := by
  have hkeep : Accounted given receipts (own ++ []) t :=
    h.keep hlines hstored hreason (fun _ he => by cases he)
  rwa [List.append_nil] at hkeep

variable {settings : Settings} {call : Call}

theorem about_lineEntries_of_ne {now : Time.Instant} {ids : Nat → String}
    {orderId other lineId : String} {reason : Reason} {sign : Int} {lines : List Line}
    (hother : other ≠ orderId) :
    StockEntry.about (Shop.lineEntries settings now ids orderId reason sign lines) other lineId =
      [] := by
  apply StockEntry.about_eq_nil
  intro e he
  rw [Shop.orderId_of_mem_lineEntries he]
  simpa using Ne.symm hother

theorem linesOf_of_otherLines {orderId other : String}
    (hlines : (t.lines.filter fun l => l.orderId != orderId) =
      s.lines.filter fun l => l.orderId != orderId) (hother : other ≠ orderId) :
    t.linesOf other = s.linesOf other := by
  have hfilter (u : Store) : u.linesOf other =
      (u.lines.filter fun l => l.orderId != orderId).filter fun l => l.orderId == other := by
    rw [List.filter_filter]
    apply List.filter_congr
    intro l _
    by_cases horder : l.orderId = other
    · simp [horder, hother]
    · simp [horder]
  rw [hfilter t, hlines, ← hfilter s]

/-- The lines of an order that gives its stock back get their second entry. -/
theorem giveBack {now : Time.Instant} {ids : Nat → String} {orderId : String} {reason : Reason}
    (h : Accounted given receipts own s)
    (hback : Shop.GivesBack settings now ids orderId reason s t) :
    Accounted given receipts
      (own ++ Shop.lineEntries settings now ids orderId reason 1 (s.linesOf orderId)) t := by
  obtain ⟨status, hstatus, -⟩ := (Option.any_eq_true _ _).mp hback.held
  have hbefore := Store.hasOrder_of_statusOf hstatus
  have hstored : ∀ id, t.hasOrder id = true → s.hasOrder id = true := by
    intro id hid
    by_cases hsame : id = orderId
    · rwa [hsame]
    · rwa [← Store.hasOrder_congr (hback.others id hsame)]
  refine ⟨h.known, fun id hid => h.orders id (hstored id hid), ?_, h.lineIds, ?_, ?_⟩
  · intro e he id hid
    rcases List.mem_append.mp he with he | he
    · exact h.entries e he id hid
    · rw [Shop.orderId_of_mem_lineEntries he, Option.some.injEq] at hid
      obtain ⟨r, hr, hrid⟩ := h.orders orderId hbefore
      rw [← hid, ← hrid]
      exact h.known r hr
  · intro r hr hid
    by_cases hsame : r.order.id = orderId
    · rw [hsame] at hid ⊢
      rw [hback.ownLines hid, ← hsame]
      exact h.lines r hr (hsame ▸ hbefore)
    · rw [linesOf_of_otherLines hback.otherLines hsame]
      exact h.lines r hr (hstored _ hid)
  · intro r hr l hl
    have htold := h.told r hr l hl
    rw [StockEntry.about_append, List.map_append, htold]
    by_cases hsame : r.order.id = orderId
    · have hlines := h.lines r hr (hsame ▸ hbefore)
      rw [hsame] at hlines ⊢
      rw [hlines, Shop.told_about_lineEntries (h.lineIds r hr) hl, hback.reason,
        Status.reasonBack?_eq_none.mpr hback.held, Line.account_some, one_mul]
    · rw [about_lineEntries_of_ne hsame, hback.others _ hsame, List.map_nil, List.append_nil]

/-- The lines of a new order get their sale. Its id was never given out before. -/
theorem place {catalog : Catalog} {r : OrderRequest} {d : Draft}
    (h : Accounted given receipts own s) (hs : s.Intact) (hfresh : call.ids 0 ∉ given)
    (hsound : Draft.Sound catalog call.pricedAt call.ids r d)
    (hplaced : Shop.Placed settings call d s t) :
    Accounted (given ++ [call.ids 0]) (receipts ++ [d.receipt])
      (own ++ Shop.lineEntries settings call.now (fun n => call.ids (d.lines.length + 1 + n))
        d.order.id .sale (-1) d.lines) t := by
  have hstatus := hplaced.statusOf_eq
  have hlines := hplaced.linesOf_eq hsound hs
  -- An id that was never given out names no earlier order, receipt or entry.
  have hne : ∀ r ∈ receipts, r.order.id ≠ d.order.id := by
    intro r hr heq
    apply hfresh
    rw [← hsound.id, ← heq]
    exact h.known r hr
  have hnew : ∀ r ∈ [d.receipt], r.order.id = d.order.id ∧ r.lines = d.lines := by
    intro r hr
    rw [List.mem_singleton.mp hr]
    exact ⟨rfl, rfl⟩
  have hkept : ∀ id, id ≠ d.order.id → t.statusOf id = s.statusOf id := by
    intro id hid
    rw [hstatus, if_neg hid]
  refine ⟨?_, ?_, ?_, ?_, ?_, ?_⟩
  · intro r hr
    rcases List.mem_append.mp hr with hr | hr
    · exact List.mem_append_left _ (h.known r hr)
    · rw [List.mem_singleton.mp hr]
      exact List.mem_append_right _ (by simp [Draft.receipt, hsound.id])
  · intro id hid
    by_cases hnew : id = d.order.id
    · exact ⟨d.receipt, by simp, hnew.symm⟩
    · rw [Store.hasOrder_congr (hkept id hnew)] at hid
      obtain ⟨r, hr, hrid⟩ := h.orders id hid
      exact ⟨r, List.mem_append_left _ hr, hrid⟩
  · intro e he id hid
    rcases List.mem_append.mp he with he | he
    · exact List.mem_append_left _ (h.entries e he id hid)
    · rw [Shop.orderId_of_mem_lineEntries he, Option.some.injEq, hsound.id] at hid
      exact List.mem_append_right _ (by simp [hid])
  · intro r hr
    rcases List.mem_append.mp hr with hr | hr
    · exact h.lineIds r hr
    · rw [List.mem_singleton.mp hr]
      exact hplaced.lineIds hs
  · intro r hr hid
    rcases List.mem_append.mp hr with hr | hr
    · rw [Store.hasOrder_congr (hkept _ (hne r hr))] at hid
      rw [hlines, if_neg (hne r hr)]
      exact h.lines r hr hid
    · obtain ⟨hid, hreceipt⟩ := hnew r hr
      rw [hid, hreceipt, hlines, if_pos rfl]
  · intro r hr l hl
    rw [StockEntry.about_append, List.map_append]
    rcases List.mem_append.mp hr with hr | hr
    · rw [about_lineEntries_of_ne (hne r hr), hkept _ (hne r hr), h.told r hr l hl]
      simp
    · obtain ⟨hid, hreceipt⟩ := hnew r hr
      have hbefore : ∀ e ∈ own, e.provenance.orderId ≠ some d.order.id := by
        intro e he heq
        apply hfresh
        rw [← hsound.id]
        exact h.entries e he _ heq
      rw [hreceipt] at hl
      rw [hid, StockEntry.about_eq_nil hbefore, hstatus, if_pos rfl, hsound.status,
        Shop.told_about_lineEntries (hplaced.lineIds hs) hl, neg_one_mul]
      exact (Line.account_none l).symm

end Accounted

end OrderLedger
