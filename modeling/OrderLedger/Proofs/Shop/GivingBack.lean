import OrderLedger.Proofs.Shop.Basic
import OrderLedger.Proofs.Shop.LineEntries

/-!
The transactions that give stock back. A reversed order stays and moves on, a discarded
one is deleted with all that belongs to it; either way the ledger gains what the lines of
the order had taken. Reaping discards those of its orders that may be deleted, one after
another.
-/

namespace OrderLedger.Shop

open Work Calculation

variable {settings : Settings} {call : Call} {s t : Store} {orderId : String}

/-- The order moves to a status that gives its stock back, and what its lines had taken
is entered. -/
def Reversed (settings : Settings) (call : Call) (orderId : String) (target : Status)
    (reason : Reason) (s t : Store) : Prop :=
  ∃ o, s.order? orderId = some o ∧ o.status.canMoveTo target = true ∧
    t = { s with
      orders := (s.withStatus orderId o.status target call.now).orders
      entries := s.entries ++
        lineEntries settings call.now call.ids orderId reason 1 (s.linesOf orderId) }

theorem transact_reverseWork {target : Status} {reason : Reason} {o : Order}
    {events : List StockEvent}
    (h : transact (reverseWork settings call orderId target reason) s = (.ok (o, events), t)) :
    Reversed settings call orderId target reason s t ∧ t.order? orderId = some o ∧
      (Store.events (lineEntries settings call.now call.ids orderId reason 1 (s.linesOf orderId))
        call.now).Yields t events t := by
  obtain ⟨closing, u, hwork, hkept⟩ := transact_eq_ok.mp h
  simp only [reverseWork, yields_bind, yields_findOrder, yields_checkMove,
    Store.yields_transition] at hwork
  obtain ⟨o', _, ⟨hfound, rfl⟩, _, _, ⟨hmove, rfl⟩, moved, _, ⟨-, rfl⟩, hwork⟩ := hwork
  cases moved with
  | false => exact absurd hwork yields_fail
  | true =>
      simp only [if_true, yields_bind, yields_get, yields_calculate, yields_findOrder,
        yields_pure] at hwork
      obtain ⟨_, _, ⟨rfl, rfl⟩, es, _, ⟨hes, rfl⟩, events', v, happend, o'', _, ⟨hafter, rfl⟩,
        rfl, rfl⟩ := hwork
      cases hkept
      obtain ⟨rfl, hevents⟩ := yields_appendWork happend
      rw [restocks_eq_ok hes] at hafter hevents ⊢
      exact ⟨⟨o', hfound, hmove, rfl⟩, hafter, hevents⟩

/-- A deletable order is deleted with all that belongs to it, and what its lines had taken
is entered. -/
structure Discarded (settings : Settings) (now : Time.Instant) (ids : Nat → String)
    (orderId : String) (s t : Store) (es : List StockEntry) : Prop where
  deletable : s.isDeletable orderId = true
  entries : es = lineEntries settings now ids orderId .correction 1 (s.linesOf orderId)
  after : t = { s.withoutOrder orderId with entries := s.entries ++ es }

theorem yields_deletePending {now : Time.Instant} {ids : Nat → String}
    {answer : Option (List StockEntry)}
    (h : (deletePending settings now ids orderId).Yields s answer t) :
    (answer = none ∧ s.isDeletable orderId = false ∧ t = s) ∨
    ∃ es, answer = some es ∧ Discarded settings now ids orderId s t es := by
  simp only [deletePending, yields_bind, yields_get, Store.yields_deleteIfPending] at h
  obtain ⟨_, _, ⟨rfl, rfl⟩, deleted, _, ⟨hdeleted, rfl⟩, h⟩ := h
  cases deleted with
  | false =>
      obtain ⟨rfl, rfl⟩ := yields_pure.mp h
      exact Or.inl ⟨rfl, hdeleted.symm, rfl⟩
  | true =>
      simp only [if_true, yields_bind, yields_calculate, yields_stored, yields_pure,
        Store.yields_appendEntries] at h
      obtain ⟨es, _, ⟨hes, rfl⟩, _, _, ⟨rfl, -, -⟩, rfl, rfl⟩ := h
      exact Or.inr ⟨es, rfl, hdeleted.symm, restocks_eq_ok hes, rfl⟩

/-- Of some orders, the deletable ones are discarded one after another. The count and the
entries are those of all of them. -/
inductive DiscardedEach (settings : Settings) (now : Time.Instant) :
    (Nat → String) → List String → Store → Store → Nat → List StockEntry → Prop where
  | nil {ids : Nat → String} {s : Store} : DiscardedEach settings now ids [] s s 0 []
  | keep {ids : Nat → String} {orderId : String} {rest : List String} {s t : Store} {count : Nat}
      {es : List StockEntry} (hkept : s.isDeletable orderId = false)
      (hrest : DiscardedEach settings now ids rest s t count es) :
      DiscardedEach settings now ids (orderId :: rest) s t count es
  | delete {ids : Nat → String} {orderId : String} {rest : List String} {s t u : Store}
      {count : Nat} {es more : List StockEntry}
      (hfirst : Discarded settings now ids orderId s u es)
      (hrest : DiscardedEach settings now (fun n => ids (n + es.length)) rest u t count more) :
      DiscardedEach settings now ids (orderId :: rest) s t (count + 1) (es ++ more)

/-- What every deletion keeps, all of them together keep. -/
theorem DiscardedEach.lift {now : Time.Instant} {ids : Nat → String} {orderIds : List String}
    {count : Nat} {es : List StockEntry} {R : Store → Store → Prop} (hrefl : ∀ s, R s s)
    (htrans : ∀ {s t u}, R s t → R t u → R s u)
    (hdiscarded : ∀ {ids orderId s t es}, Discarded settings now ids orderId s t es → R s t)
    (h : DiscardedEach settings now ids orderIds s t count es) : R s t := by
  induction h with
  | nil => exact hrefl _
  | keep _ _ ih => exact ih
  | delete hfirst _ ih => exact htrans (hdiscarded hfirst) ih

/-- Rows that every deletion only takes away, all of them together only take away. -/
theorem DiscardedEach.subset {α : Type} (rows : Store → List α) {now : Time.Instant}
    {ids : Nat → String} {orderIds : List String} {count : Nat} {es : List StockEntry}
    (hdiscarded : ∀ {ids orderId s t es}, Discarded settings now ids orderId s t es →
      rows t ⊆ rows s)
    (h : DiscardedEach settings now ids orderIds s t count es) : rows t ⊆ rows s := by
  apply h.lift (R := fun s t => rows t ⊆ rows s)
  · intro s
    exact List.Subset.refl _
  · intro s t u hfirst hrest
    exact List.Subset.trans hrest hfirst
  · intro ids orderId s t es hdeleted
    exact hdiscarded hdeleted

theorem DiscardedEach.remembered_eq {now : Time.Instant} {ids : Nat → String}
    {orderIds : List String} {count : Nat} {es : List StockEntry}
    (h : DiscardedEach settings now ids orderIds s t count es) :
    t.remembered = s.remembered := by
  apply h.lift (R := fun s t => t.remembered = s.remembered)
  · intro s
    rfl
  · intro s t u hfirst hrest
    exact hrest.trans hfirst
  · intro ids orderId s t es hdiscarded
    rw [hdiscarded.after]
    rfl

theorem DiscardedEach.entries_eq {now : Time.Instant} {ids : Nat → String}
    {orderIds : List String} {count : Nat} {es : List StockEntry}
    (h : DiscardedEach settings now ids orderIds s t count es) :
    t.entries = s.entries ++ es := by
  induction h with
  | nil => exact (List.append_nil _).symm
  | keep _ _ ih => exact ih
  | delete hfirst _ ih => rw [ih, hfirst.after, List.append_assoc]

/-- Where no order is deletable, nothing is written. -/
theorem DiscardedEach.of_zero {now : Time.Instant} {ids : Nat → String}
    {orderIds : List String} {es : List StockEntry}
    (h : DiscardedEach settings now ids orderIds s t 0 es) : t = s ∧ es = [] := by
  generalize hcount : 0 = count at h
  induction h with
  | nil => exact ⟨rfl, rfl⟩
  | keep _ _ ih => exact ih hcount
  | delete => cases hcount

theorem yields_deleteEach {now : Time.Instant} {ids : Nat → String} {orderIds : List String}
    {count : Nat} {es : List StockEntry}
    (h : (deleteEach settings now ids orderIds).Yields s (count, es) t) :
    DiscardedEach settings now ids orderIds s t count es := by
  induction orderIds generalizing ids s count es with
  | nil =>
      obtain ⟨heq, rfl⟩ := yields_pure.mp h
      cases heq
      exact .nil
  | cons orderId rest ih =>
      simp only [deleteEach, yields_bind, yields_pure] at h
      obtain ⟨answer, u, hfirst, ⟨more, moreEntries⟩, _, hrest, heq, rfl⟩ := h
      rcases yields_deletePending hfirst with ⟨rfl, hkept, rfl⟩ | ⟨entries, rfl, hdiscarded⟩
      · cases heq
        exact .keep hkept (ih hrest)
      · cases heq
        exact .delete hdiscarded (ih hrest)

theorem transact_discardWork {deleted : Bool} {events : List StockEvent}
    (h : transact (discardWork settings call orderId) s = (.ok (deleted, events), t)) :
    (deleted = true ∧ ∃ es, Discarded settings call.now call.ids orderId s t es ∧
      (Store.events es call.now).Yields t events t) ∨
    (deleted = false ∧ s.isDeletable orderId = false ∧ events = [] ∧ t = s) := by
  obtain ⟨closing, u, hwork, hkept⟩ := transact_eq_ok.mp h
  simp only [discardWork, yields_bind] at hwork
  obtain ⟨answer, v, hdelete, hwork⟩ := hwork
  rcases yields_deletePending hdelete with ⟨rfl, hstays, rfl⟩ | ⟨es, rfl, hdiscarded⟩
  · obtain ⟨rfl, rfl⟩ := yields_pure.mp hwork
    cases hkept
    exact Or.inr ⟨rfl, hstays, rfl, rfl⟩
  · simp only [yields_bind, yields_stored, yields_pure] at hwork
    obtain ⟨told, _, hevents, rfl, rfl⟩ := hwork
    cases hkept
    have hsame := Store.yields_events hevents
    subst hsame
    exact Or.inl ⟨rfl, es, hdiscarded, hevents⟩

theorem transact_reapWork {attemptId keptId : String} {count : Nat} {events : List StockEvent}
    (h : transact (reapWork settings call attemptId keptId) s = (.ok (count, events), t)) :
    (count ≠ 0 ∧ ∃ es,
      DiscardedEach settings call.now call.ids (s.pendingIds attemptId keptId) s t count es ∧
      (Store.events es call.now).Yields t events t) ∨
    (count = 0 ∧ events = [] ∧ t = s) := by
  obtain ⟨closing, u, hwork, hkept⟩ := transact_eq_ok.mp h
  simp only [reapWork, yields_bind, yields_get] at hwork
  obtain ⟨_, _, ⟨rfl, rfl⟩, ⟨deleted, es⟩, v, hdelete, hwork⟩ := hwork
  simp only at hwork
  split at hwork
  · obtain ⟨rfl, rfl⟩ := yields_pure.mp hwork
    cases hkept
    exact Or.inr ⟨rfl, rfl, rfl⟩
  · next hcount =>
      simp only [yields_bind, yields_stored, yields_pure] at hwork
      obtain ⟨told, _, hevents, rfl, rfl⟩ := hwork
      cases hkept
      have hsame := Store.yields_events hevents
      subst hsame
      exact Or.inl ⟨hcount, es, yields_deleteEach hdelete, hevents⟩

end OrderLedger.Shop
