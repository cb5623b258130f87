import OrderLedger.Proofs.Calculations
import OrderLedger.Proofs.Store.Work
import OrderLedger.Store.Catalog
import OrderLedger.Store.HandOvers
import OrderLedger.Store.Payments
import OrderLedger.Store.Remembered
import OrderLedger.Store.Stock

/-!
What the statements of the store do when they succeed, and what they have checked by
then. Each law names the store after the statement as the store before it with the
changed tables, so that every other table is seen to stay.
-/

namespace OrderLedger.Store

open Work Calculation

variable {ε : Type} {s t : Store}

theorem hasOrder_eq_false {id : String} : s.hasOrder id = false ↔ ∀ o ∈ s.orders, o.id ≠ id := by
  simp [hasOrder]

theorem hasOrder_eq_true {id : String} : s.hasOrder id = true ↔ ∃ o ∈ s.orders, o.id = id := by
  simp [hasOrder]

theorem hasLine_eq_false {id : String} : s.hasLine id = false ↔ id ∉ s.lines.map (·.id) := by
  simp [hasLine]

theorem isIn_eq_true {id : String} {status : Status} :
    s.isIn id status = true ↔ ∃ o ∈ s.orders, o.id = id ∧ o.status = status := by
  simp [isIn]

theorem order?_eq_some {id : String} {o : Order} (h : s.order? id = some o) :
    o ∈ s.orders ∧ o.id = id :=
  ⟨List.mem_of_find?_eq_some h, by simpa using List.find?_some h⟩

theorem order?_eq_none {id : String} : s.order? id = none ↔ ∀ o ∈ s.orders, o.id ≠ id := by
  simp [order?]

theorem insertOrder_eq_ok {o : Order} :
    insertOrder o s = .ok t ↔
      0 ≤ o.total.cents ∧ s.hasOrder o.id = false ∧ t = { s with orders := s.orders ++ [o] } := by
  rw [insertOrder, refuse_eq_ok, refuse_eq_ok, Int.not_lt, Bool.not_eq_true, Except.ok.injEq,
    eq_comm (b := t)]

/-- A line that keeps the rules of its table and whose order and parent are there. -/
def Admits (s : Store) (l : Line) : Prop :=
  brokenRule? l = none ∧ s.hasLine l.id = false ∧ s.hasOrder l.orderId = true ∧
    l.parentId.all (fun id => id == l.id || s.hasLine id) = true

theorem insertLine_eq_ok {l : Line} :
    insertLine l s = .ok t ↔ s.Admits l ∧ t = { s with lines := s.lines ++ [l] } := by
  unfold insertLine Admits
  split
  · next rule hrule => simp [hrule]
  · next hrule =>
      rw [refuse_eq_ok, accept_eq_ok, Bool.not_eq_true, Bool.and_eq_true, Except.ok.injEq,
        eq_comm (b := t)]
      simp only [hrule, true_and, and_assoc]

/-- Lines that may be inserted one after another. -/
def AdmitsAll (s : Store) : List Line → Prop
  | [] => True
  | l :: rest => s.Admits l ∧ AdmitsAll { s with lines := s.lines ++ [l] } rest

/-- Inserted lines stand at the end of the table, in order. -/
theorem yields_insertLines {ls : List Line} {a : Unit} :
    (insertLines ls).Yields s a t ↔ t = { s with lines := s.lines ++ ls } ∧ s.AdmitsAll ls := by
  induction ls generalizing s with
  | nil =>
      change (pure PUnit.unit : Work StorageError PUnit).Yields s a t ↔ _
      simp [AdmitsAll]
  | cons l rest ih =>
      unfold insertLines at ih ⊢
      rw [yields_forM_cons]
      simp only [yields_execute, insertLine_eq_ok, ih, AdmitsAll]
      constructor
      · rintro ⟨u, ⟨hl, rfl⟩, rfl, hrest⟩
        exact ⟨by simp, hl, hrest⟩
      · rintro ⟨rfl, hl, hrest⟩
        exact ⟨_, ⟨hl, rfl⟩, by simp, hrest⟩

/-- Each of the lines keeps the rules and belongs to a stored order, and ids stay distinct. -/
theorem AdmitsAll.rows {ls : List Line} (h : s.AdmitsAll ls) :
    (∀ l ∈ ls, brokenRule? l = none ∧ s.hasOrder l.orderId = true) ∧
      ((s.lines.map (·.id)).Nodup → ((s.lines ++ ls).map (·.id)).Nodup) := by
  induction ls generalizing s with
  | nil => simp
  | cons l rest ih =>
      obtain ⟨⟨hrule, hnew, horder, -⟩, hrest⟩ := h
      obtain ⟨hall, hnodup⟩ := ih hrest
      refine ⟨?_, ?_⟩
      · intro m hm
        rcases List.mem_cons.mp hm with rfl | hm
        · exact ⟨hrule, horder⟩
        · exact hall m hm
      · intro hs
        have hfresh := hasLine_eq_false.mp hnew
        rw [← List.append_cons] at hnodup
        apply hnodup
        change ((s.lines ++ [l]).map (·.id)).Nodup
        rw [List.map_append, List.nodup_append]
        refine ⟨hs, by simp, ?_⟩
        rintro a ha b hb rfl
        simp only [List.map_cons, List.map_nil, List.mem_singleton] at hb
        exact hfresh (hb ▸ ha)

@[simp] theorem appendEntry_eq_ok {e : StockEntry} :
    appendEntry e s = .ok t ↔
      (∀ other ∈ s.entries, other.id ≠ e.id) ∧ t = { s with entries := s.entries ++ [e] } := by
  rw [appendEntry, refuse_eq_ok, Except.ok.injEq, eq_comm (b := t)]
  simp

/-- Appended entries stand at the end of the ledger, in order. Their ids are distinct and
new. -/
theorem yields_appendEntries {es : List StockEntry} {a : Unit} :
    (appendEntries es).Yields s a t ↔
      t = { s with entries := s.entries ++ es } ∧ (es.map (·.id)).Nodup ∧
        ∀ e ∈ es, ∀ other ∈ s.entries, other.id ≠ e.id := by
  induction es generalizing s with
  | nil =>
      change (pure PUnit.unit : Work StorageError PUnit).Yields s a t ↔ _
      simp
  | cons e rest ih =>
      unfold appendEntries at ih ⊢
      rw [yields_forM_cons]
      simp only [yields_execute, appendEntry_eq_ok, ih]
      constructor
      · rintro ⟨u, ⟨hnew, rfl⟩, rfl, hnodup, hrest⟩
        refine ⟨by simp, ?_, ?_⟩
        · rw [List.map_cons, List.nodup_cons]
          refine ⟨?_, hnodup⟩
          intro hmem
          obtain ⟨other, hother, hid⟩ := List.mem_map.mp hmem
          exact hrest other hother e (by simp) hid.symm
        · intro d hd other hother
          rcases List.mem_cons.mp hd with rfl | hd
          · exact hnew other hother
          · exact hrest d hd other (by simp [hother])
      · rintro ⟨rfl, hnodup, hall⟩
        rw [List.map_cons, List.nodup_cons] at hnodup
        refine ⟨_, ⟨hall e (by simp), rfl⟩, by simp, hnodup.2, ?_⟩
        intro d hd other hother
        rcases List.mem_append.mp hother with hother | hother
        · exact hall d (by simp [hd]) other hother
        · rw [List.mem_singleton.mp hother]
          intro hid
          exact hnodup.1 (hid ▸ List.mem_map_of_mem hd)

theorem insertPayment_eq_ok {p : Payment} :
    insertPayment p s = .ok t ↔
      0 ≤ p.amount.cents ∧ (∀ q ∈ s.payments, q.id ≠ p.id) ∧ s.hasOrder p.orderId = true ∧
        t = { s with payments := s.payments ++ [p] } := by
  rw [insertPayment, refuse_eq_ok, refuse_eq_ok, accept_eq_ok, Int.not_lt, Except.ok.injEq,
    eq_comm (b := t)]
  simp

/-- Inserted payments stand at the end of the table, in order. None is negative, their ids are
distinct and new, and their orders are stored. -/
theorem yields_insertPayments {ps : List Payment} {a : Unit} :
    (insertPayments ps).Yields s a t ↔
      t = { s with payments := s.payments ++ ps } ∧
        (∀ p ∈ ps, 0 ≤ p.amount.cents ∧ s.hasOrder p.orderId = true) ∧ (ps.map (·.id)).Nodup ∧
        ∀ p ∈ ps, ∀ q ∈ s.payments, q.id ≠ p.id := by
  induction ps generalizing s with
  | nil =>
      change (pure PUnit.unit : Work StorageError PUnit).Yields s a t ↔ _
      simp
  | cons p rest ih =>
      unfold insertPayments at ih ⊢
      rw [yields_forM_cons]
      simp only [yields_execute, insertPayment_eq_ok, ih]
      constructor
      · rintro ⟨u, ⟨hamount, hnew, horder, rfl⟩, rfl, hrows, hnodup, hrest⟩
        refine ⟨by simp, ?_, ?_, ?_⟩
        · intro q hq
          rcases List.mem_cons.mp hq with rfl | hq
          · exact ⟨hamount, horder⟩
          · exact hrows q hq
        · rw [List.map_cons, List.nodup_cons]
          refine ⟨?_, hnodup⟩
          intro hmem
          obtain ⟨q, hq, hid⟩ := List.mem_map.mp hmem
          exact hrest q hq p (by simp) hid.symm
        · intro q hq other hother
          rcases List.mem_cons.mp hq with rfl | hq
          · exact hnew other hother
          · exact hrest q hq other (by simp [hother])
      · rintro ⟨rfl, hrows, hnodup, hall⟩
        rw [List.map_cons, List.nodup_cons] at hnodup
        obtain ⟨hamount, horder⟩ := hrows p List.mem_cons_self
        refine ⟨_, ⟨hamount, hall p List.mem_cons_self, horder, rfl⟩, by simp,
          fun q hq => hrows q (List.mem_cons_of_mem _ hq), hnodup.2, ?_⟩
        intro q hq other hother
        rcases List.mem_append.mp hother with hother | hother
        · exact hall q (List.mem_cons_of_mem _ hq) other hother
        · rw [List.mem_singleton.mp hother]
          intro hid
          exact hnodup.1 (hid ▸ List.mem_map_of_mem hq)

@[simp] theorem yields_transition {id : String} {source target : Status} {now : Time.Instant}
    {moved : Bool} :
    (transition id source target now : Work ε Bool).Yields s moved t ↔
      moved = s.isIn id source ∧ t = if moved then s.withStatus id source target now else s := by
  simp only [transition, yields_bind, yields_get]
  constructor
  · rintro ⟨_, _, ⟨rfl, rfl⟩, h⟩
    split at h
    · next hin =>
        simp only [yields_bind, yields_set, yields_pure] at h
        obtain ⟨-, _, rfl, rfl, rfl⟩ := h
        exact ⟨hin.symm, rfl⟩
    · next hin =>
        obtain ⟨rfl, rfl⟩ := yields_pure.mp h
        exact ⟨by simpa using hin, rfl⟩
  · rintro ⟨rfl, rfl⟩
    refine ⟨s, s, ⟨rfl, rfl⟩, ?_⟩
    split <;> simp_all

@[simp] theorem yields_deleteIfPending {id : String} {deleted : Bool} :
    (deleteIfPending id : Work ε Bool).Yields s deleted t ↔
      deleted = s.isDeletable id ∧ t = if deleted then s.withoutOrder id else s := by
  simp only [deleteIfPending, yields_bind, yields_get]
  constructor
  · rintro ⟨_, _, ⟨rfl, rfl⟩, h⟩
    split at h
    · next hdel =>
        simp only [yields_bind, yields_set, yields_pure] at h
        obtain ⟨-, _, rfl, rfl, rfl⟩ := h
        exact ⟨hdel.symm, rfl⟩
    · next hdel =>
        obtain ⟨rfl, rfl⟩ := yields_pure.mp h
        exact ⟨by simpa using hdel, rfl⟩
  · rintro ⟨rfl, rfl⟩
    refine ⟨s, s, ⟨rfl, rfl⟩, ?_⟩
    split <;> simp_all

/-- Telling what entries change writes nothing. -/
theorem yields_events {es : List StockEntry} {now : Time.Instant} {events : List StockEvent}
    (h : (Store.events es now).Yields s events t) : t = s := by
  simp only [Store.events, yields_bind, yields_calculate, yields_ask, yields_pure] at h
  obtain ⟨_, _, ⟨-, rfl⟩, _, _, ⟨-, rfl⟩, -, rfl⟩ := h
  rfl

/-- Marking lines only adds marks. -/
theorem yields_mark {h : HandOver} {isNew : Bool}
    (hmark : (mark h : Work ε Bool).Yields s isNew t) :
    ∃ marks, t = { s with handOvers := s.handOvers ++ marks } := by
  simp only [mark, yields_bind, yields_get] at hmark
  obtain ⟨_, _, ⟨rfl, rfl⟩, hmark⟩ := hmark
  split at hmark
  · obtain ⟨-, rfl⟩ := yields_pure.mp hmark
    exact ⟨[], by simp⟩
  · simp only [yields_bind, yields_set, yields_pure] at hmark
    obtain ⟨-, _, rfl, -, rfl⟩ := hmark
    exact ⟨[h], rfl⟩

theorem yields_markEach {now : Time.Instant} {ids : Nat → String} {n count : Nat}
    {lineIds : List String} (h : (markEach now ids n lineIds : Work ε Nat).Yields s count t) :
    ∃ marks, t = { s with handOvers := s.handOvers ++ marks } := by
  induction lineIds generalizing n count s with
  | nil =>
      obtain ⟨-, rfl⟩ := yields_pure.mp h
      exact ⟨[], by simp⟩
  | cons lineId rest ih =>
      simp only [markEach, yields_bind, yields_pure] at h
      obtain ⟨_, u, hfirst, _, _, hrest, -, rfl⟩ := h
      obtain ⟨marks, rfl⟩ := yields_mark hfirst
      obtain ⟨more, rfl⟩ := ih hrest
      exact ⟨marks ++ more, by simp⟩

theorem yields_handOver {now : Time.Instant} {ids : Nat → String} {lineIds : List String}
    {count : Nat} (h : (handOver now ids lineIds).Yields s count t) :
    ∃ marks, t = { s with handOvers := s.handOvers ++ marks } := by
  simp only [handOver, yields_bind, yields_get] at h
  obtain ⟨_, _, ⟨rfl, rfl⟩, h⟩ := h
  split at h
  · exact absurd h yields_fail
  · exact yields_markEach h

end OrderLedger.Store
