import OrderLedger.Proofs.Deeds.Basic
import OrderLedger.Proofs.Payment.Rows

/-!
What operations write: nothing, or entries of the ledger, or marks of lines, or an order that
moves on or is deleted. In each of these forms a store is written exactly as a deed tells.
-/

namespace OrderLedger

variable {call : Call} {entryIds : List String} {s t : Store} {answer : Answer}

/-! ## Entries, marks and moves -/

namespace Deed

theorem tells_nothing {verdict : Except (Fault ShopError) (Option Nat)}
    (h : answer.map Reply.number? = verdict) : Tells { verdict } call entryIds s answer s where
  verdict := h
  placed := nofun
  moved := nofun
  kept _ _ _ := ⟨rfl, rfl⟩
  lines _ hl := Or.inl hl
  terms := (List.append_nil _).symm
  handedOver := (List.append_nil _).symm
  changes := (List.append_nil _).symm
  catalog := ⟨rfl, rfl, rfl⟩
  ids := Store.ids_same
  entryIds := Store.ids_same

theorem tells_refused (e : ShopError) :
    Tells (refused e) call entryIds s (.error (.error e)) s := tells_nothing rfl

theorem tells_entries {es : List StockEntry} (h : answer.map Reply.number? = .ok none)
    (hids : ∀ e ∈ es, e.id ∈ entryIds ∨ ∃ n, e.id = call.ids n) :
    Tells { changes := StockEntry.changes es } call entryIds s answer
      { s with entries := s.entries ++ es } where
  verdict := h
  placed := nofun
  moved := nofun
  kept _ _ _ := ⟨rfl, rfl⟩
  lines _ hl := Or.inl hl
  terms := (List.append_nil _).symm
  handedOver := (List.append_nil _).symm
  changes := StockEntry.changes_append s.entries es
  catalog := ⟨rfl, rfl, rfl⟩
  ids := Store.ids_same
  entryIds := Store.ids_append hids

theorem tells_marks {marks : List HandOver}
    (h : answer.map Reply.number? = .ok (some marks.length))
    (hids : ∀ m ∈ marks, ∃ n, m.id = call.ids n) :
    Tells { verdict := .ok (some marks.length), handedOver := marks.map (·.lineId) } call entryIds
      s answer { s with handOvers := s.handOvers ++ marks } where
  verdict := h
  placed := nofun
  moved := nofun
  kept _ _ _ := ⟨rfl, rfl⟩
  lines _ hl := Or.inl hl
  terms := (List.append_nil _).symm
  handedOver := List.map_append
  changes := (List.append_nil _).symm
  catalog := ⟨rfl, rfl, rfl⟩
  ids := Store.ids_of_tables Store.ids_same Store.ids_same Store.ids_same (Store.ids_append hids)
  entryIds := Store.ids_same

/-- An order moves on, and payments and entries are added. -/
theorem tells_move {verdict : Except (Fault ShopError) (Option Nat)} {orderId : String} {o : Order}
    {target : Status} {paid : List Terms} {changes : List (String × Int)} (now : Time.Instant)
    (ps : List Payment) (es : List StockEntry) (hfound : s.order? orderId = some o)
    (hpayments : ∀ p ∈ ps, ∃ n, p.id = call.ids n) (hentries : ∀ e ∈ es, ∃ n, e.id = call.ids n)
    (hpaid : ps.map (·.terms) = paid) (hchanges : StockEntry.changes es = changes)
    (h : answer.map Reply.number? = verdict)
    (ht : t = { s with
      orders := (s.withStatus orderId o.status target now).orders
      payments := s.payments ++ ps
      entries := s.entries ++ es }) :
    Tells { verdict, move := some (orderId, some target), paid, changes } call entryIds s answer
      t := by
  subst ht hpaid hchanges
  exact {
    verdict := h
    placed := nofun
    moved := by
      rintro id target' ⟨⟩
      exact Store.statusOf_of_order? (Shop.order?_withStatus target now hfound rfl)
    kept := fun id hid _ => by
      refine ⟨Store.statusOf_withStatus_ne o.status target now ?_, rfl⟩
      rintro rfl
      exact hid _ rfl
    lines := fun _ => Or.inl
    terms := List.map_append
    handedOver := (List.append_nil _).symm
    changes := StockEntry.changes_append s.entries es
    catalog := ⟨rfl, rfl, rfl⟩
    ids := by
      refine Store.ids_of_tables ?_ Store.ids_same (Store.ids_append hpayments) Store.ids_same
      rw [Store.ids_withStatus]
      exact Store.ids_same
    entryIds := Store.ids_append fun e he => Or.inr (hentries e he) }

/-- Moving an order is refused where it is not stored or may not move; where it may, the rest of
the deed is done. -/
theorem tells_ofMove {deed : Deed} {orderId : String} {target : Status}
    (habsent : s.order? orderId = none →
      answer = .error (.error (.notFound "Order" orderId)) ∧ t = s)
    (hrefused : ∀ o, s.order? orderId = some o → o.status.canMoveTo target = false →
      answer = .error (.error (.badMove o.status target)) ∧ t = s)
    (hmoved : ∀ o, s.order? orderId = some o → o.status.canMoveTo target = true →
      ofMove s orderId target deed = { deed with move := some (orderId, some target) } →
      Tells { deed with move := some (orderId, some target) } call entryIds s answer t) :
    Tells (ofMove s orderId target deed) call entryIds s answer t := by
  cases hfound : s.order? orderId with
  | none =>
      obtain ⟨rfl, rfl⟩ := habsent hfound
      have hdeed : ofMove t orderId target deed = refused (.notFound "Order" orderId) := by
        simp only [ofMove, Store.statusOf, hfound, Option.map_none]
      rw [hdeed]
      exact tells_refused _
  | some o =>
      cases hmove : o.status.canMoveTo target with
      | false =>
          obtain ⟨rfl, rfl⟩ := hrefused o hfound hmove
          have hdeed : ofMove t orderId target deed = refused (.badMove o.status target) := by
            simp only [ofMove, Store.statusOf, hfound, Option.map_some, hmove,
              Bool.false_eq_true, if_false]
          rw [hdeed]
          exact tells_refused _
      | true =>
          have hdeed : ofMove s orderId target deed =
              { deed with move := some (orderId, some target) } := by
            simp only [ofMove, Store.statusOf, hfound, Option.map_some, hmove, if_true]
          rw [hdeed]
          exact hmoved o hfound hmove hdeed

end Deed

/-! ## Orders that are deleted -/

namespace Store

/-- An order may be deleted while it is pending and none of its lines is handed over. -/
theorem Intact.isDeletable_iff (hs : s.Intact) {orderId : String} :
    s.isDeletable orderId = true ↔ s.statusOf orderId = some .pending ∧
      ∀ l ∈ s.linesOf orderId, s.isHandedOver l.id = false := by
  rw [isDeletable, Bool.and_eq_true, isIn_iff_statusOf hs.orderIds]
  simp

/-- The lines that fall with an order are lines of the store. -/
theorem exists_of_mem_lineIdsUnder {orderId lineId : String}
    (h : lineId ∈ s.lineIdsUnder orderId) : ∃ l ∈ s.lines, l.id = lineId := by
  cases mem_lineIdsUnder.mp h with
  | own hl _ => exact ⟨_, hl, rfl⟩
  | under hl _ _ => exact ⟨_, hl, rfl⟩

/-- A deletable order has no payments, so none are deleted with it. -/
theorem payments_withoutOrder (hfirst : s.SettledFirst) {orderId : String}
    (hpending : s.statusOf orderId = some .pending) :
    (s.withoutOrder orderId).payments = s.payments := by
  have hnone := hfirst orderId (isSettled_of_statusOf hpending)
  rw [rowsOf, List.filter_eq_nil_iff] at hnone
  refine List.filter_eq_self.mpr fun p hp => ?_
  simpa using hnone p hp

/-- None of its lines is marked, so no marks are deleted with it either. -/
theorem Intact.handOvers_withoutOrder (hs : s.Intact) {orderId : String}
    (hwaiting : ∀ l ∈ s.linesOf orderId, s.isHandedOver l.id = false) :
    (s.withoutOrder orderId).handOvers = s.handOvers := by
  refine List.filter_eq_self.mpr fun m hm => ?_
  rw [Bool.not_eq_true', ← Bool.not_eq_true, List.contains_iff_mem]
  intro hgone
  obtain ⟨l, hl, hid⟩ := exists_of_mem_lineIdsUnder hgone
  have howner := (hs.mem_lineIdsUnder hl).mp (hid ▸ hgone)
  have hunmarked := hwaiting l (List.mem_filter.mpr ⟨hl, beq_iff_eq.mpr howner⟩)
  rw [isHandedOver, List.any_eq_false] at hunmarked
  exact hunmarked m hm (beq_iff_eq.mpr hid.symm)

end Store

/-- An order is deleted with its lines, and entries are added. -/
theorem Deed.tells_deletion {orderId : String} {es : List StockEntry}
    {changes : List (String × Int)} (hs : s.Intact) (hfirst : s.SettledFirst)
    (hpending : s.statusOf orderId = some .pending)
    (hwaiting : ∀ l ∈ s.linesOf orderId, s.isHandedOver l.id = false)
    (hentries : ∀ e ∈ es, ∃ n, e.id = call.ids n) (hchanges : StockEntry.changes es = changes)
    (h : answer.map Reply.number? = .ok (some 1)) :
    Tells { verdict := .ok (some 1), move := some (orderId, none), changes } call entryIds s answer
      { s.withoutOrder orderId with entries := s.entries ++ es } where
  verdict := h
  placed := nofun
  moved := by
    rintro id target ⟨⟩
    have hgone := s.statusOf_withoutOrder orderId orderId
    rwa [if_pos rfl] at hgone
  kept id hid _ := by
    have hne : id ≠ orderId := fun heq => hid none (by rw [heq])
    have hstatus := s.statusOf_withoutOrder orderId id
    rw [if_neg hne] at hstatus
    exact ⟨hstatus, hs.linesOf_withoutOrder hne⟩
  lines _ hl := Or.inl (List.mem_of_mem_filter hl)
  terms := by
    rw [Store.terms, Store.payments_withoutOrder hfirst hpending, List.append_nil]
    rfl
  handedOver := by
    rw [Store.handedOver, hs.handOvers_withoutOrder hwaiting, List.append_nil]
    rfl
  changes := hchanges ▸ StockEntry.changes_append s.entries es
  catalog := ⟨rfl, rfl, rfl⟩
  ids := Store.ids_of_tables Store.ids_filter Store.ids_filter Store.ids_filter Store.ids_filter
  entryIds := Store.ids_append fun e he => Or.inr (hentries e he)

end OrderLedger
