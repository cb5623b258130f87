import OrderLedger.Proofs.Order.Totals
import OrderLedger.Proofs.Validation

/-!
What a draft looks like that a cart was priced to. Its order is pending and has no row
yet; each of its lines belongs to it, sells as many pieces as a cart line asks for, and
costs what the catalog says or nothing; and a component stands below a line of the draft.
-/

namespace OrderLedger

/-- What a request must be like whatever the catalog says. -/
structure OrderRequest.IsValid (r : OrderRequest) : Prop where
  contact : Validation.IsContact r.customerId r.contactEmail
  size : 1 ≤ r.lines.length ∧ r.lines.length ≤ 100
  attempt : ∀ key, r.attemptId = some key → Text.isBlank key = false ∧ key.length ≤ 128
  quantities : ∀ c ∈ r.lines, 1 ≤ c.quantity ∧ c.quantity ≤ 999

namespace Draft

open Calculation

variable {catalog : Catalog} {stamp : Stamp}

/-- A line as pricing makes it, for the order of the stamp. -/
structure Priced (catalog : Catalog) (stamp : Stamp) (l : Line) : Prop where
  order : l.orderId = stamp.orderId
  created : l.createdAt = stamp.now
  price : l.unitPrice = Money.zero ∨ ∃ p ∈ catalog.products, l.unitPrice = p.price

theorem sellable_eq_ok {id : String} {p : Product} :
    sellable catalog id = .ok p ↔ catalog.product? id = some p ∧ p.isActive = true := by
  unfold sellable
  split
  · next hnone => simp [hnone]
  · next q hfound =>
      rw [hfound, accept_eq_ok, Except.ok.injEq, Option.some.injEq, and_comm]
      apply and_congr_right
      rintro rfl
      rfl

theorem mem_of_sellable {id : String} {p : Product} (h : sellable catalog id = .ok p) :
    p ∈ catalog.products :=
  List.mem_of_find?_eq_some (sellable_eq_ok.mp h).1

/-- A simple product becomes one line, and a menu a bundle with the components that fill its
slots. -/
theorem expandLine_eq_ok {position : Nat} {c : CartLine} {lines : List Line} :
    expandLine catalog stamp position c = .ok lines ↔
      ∃ p, sellable catalog c.productId = .ok p ∧
        (p.kind = .simple ∧ c.selections = [] ∧
            lines = [stamp.line position .simple p c.quantity] ∨
          p.kind = .menu ∧ ∃ filled, resolve catalog p c.selections = .ok filled ∧
            lines = stamp.line position .bundle p c.quantity ::
              components stamp (stamp.lineId position) c.quantity (position + 1) filled) := by
  rw [expandLine, bind_eq_ok]
  refine exists_congr fun p => and_congr_right fun _ => ?_
  cases hkind : p.kind with
  | simple =>
      cases hselections : c.selections with
      | nil => simp [eq_comm]
      | cons s rest => simp
  | menu =>
      simp only [bind_eq_ok, Except.ok.injEq, reduceCtorEq, false_and, true_and, false_or]
      exact exists_congr fun filled => and_congr_right fun _ => eq_comm

theorem expand_cons_eq_ok {position : Nat} {c : CartLine} {cart : List CartLine}
    {lines : List Line} :
    expand catalog stamp position (c :: cart) = .ok lines ↔
      ∃ first more, expandLine catalog stamp position c = .ok first ∧
        expand catalog stamp (position + first.length) cart = .ok more ∧ lines = first ++ more := by
  simp only [expand, bind_eq_ok, Except.ok.injEq]
  constructor
  · rintro ⟨first, hfirst, more, hmore, rfl⟩
    exact ⟨first, more, hfirst, hmore, rfl⟩
  · rintro ⟨first, more, hfirst, hmore, rfl⟩
    exact ⟨first, hfirst, more, hmore, rfl⟩

theorem mem_components (catalog : Catalog) {bundleId : String} {quantity : Int} {position : Nat}
    {filled : List (MenuSlot × Product)} {l : Line}
    (h : l ∈ components stamp bundleId quantity position filled) :
    Priced catalog stamp l ∧ l.quantity = quantity ∧ l.parentId = some bundleId := by
  induction filled generalizing position with
  | nil => cases h
  | cons head rest ih =>
      rcases List.mem_cons.mp h with rfl | hrest
      · exact ⟨⟨rfl, rfl, Or.inl rfl⟩, rfl, rfl⟩
      · exact ih hrest

/-- Every line of an expanded cart line is priced and sells its quantity, and the parent of
a line is among them. -/
theorem mem_expandLine {position : Nat} {c : CartLine} {lines : List Line}
    (h : expandLine catalog stamp position c = .ok lines) :
    ∀ l ∈ lines, Priced catalog stamp l ∧ l.quantity = c.quantity ∧
      ∀ parent, l.parentId = some parent → ∃ m ∈ lines, m.id = parent := by
  obtain ⟨p, hp, ⟨-, -, rfl⟩ | ⟨-, filled, -, rfl⟩⟩ := expandLine_eq_ok.mp h
  · intro l hl
    rw [List.mem_singleton.mp hl]
    exact ⟨⟨rfl, rfl, Or.inr ⟨p, mem_of_sellable hp, rfl⟩⟩, rfl, fun _ hparent => by cases hparent⟩
  · intro l hl
    rcases List.mem_cons.mp hl with rfl | hl
    · exact ⟨⟨rfl, rfl, Or.inr ⟨p, mem_of_sellable hp, rfl⟩⟩, rfl,
        fun _ hparent => by cases hparent⟩
    · obtain ⟨hpriced, hquantity, hbundle⟩ := mem_components catalog hl
      refine ⟨hpriced, hquantity, ?_⟩
      intro parent hparent
      rw [hbundle, Option.some.injEq] at hparent
      exact ⟨_, List.mem_cons_self, hparent⟩

theorem mem_expand {position : Nat} {cart : List CartLine} {lines : List Line}
    (h : expand catalog stamp position cart = .ok lines) :
    ∀ l ∈ lines, Priced catalog stamp l ∧ (∃ c ∈ cart, l.quantity = c.quantity) ∧
      ∀ parent, l.parentId = some parent → ∃ m ∈ lines, m.id = parent := by
  induction cart generalizing position lines with
  | nil =>
      cases h
      intro l hl
      cases hl
  | cons c rest ih =>
      obtain ⟨first, more, hfirst, hmore, rfl⟩ := expand_cons_eq_ok.mp h
      intro l hl
      rcases List.mem_append.mp hl with hl | hl
      · obtain ⟨hpriced, hquantity, hparent⟩ := mem_expandLine hfirst l hl
        refine ⟨hpriced, ⟨c, List.mem_cons_self, hquantity⟩, ?_⟩
        intro parent heq
        obtain ⟨m, hm, hid⟩ := hparent parent heq
        exact ⟨m, List.mem_append_left _ hm, hid⟩
      · obtain ⟨hpriced, ⟨d, hd, hquantity⟩, hparent⟩ := ih hmore l hl
        refine ⟨hpriced, ⟨d, List.mem_cons_of_mem _ hd, hquantity⟩, ?_⟩
        intro parent heq
        obtain ⟨m, hm, hid⟩ := hparent parent heq
        exact ⟨m, List.mem_append_right _ hm, hid⟩

theorem checkRequest_eq_ok {r : OrderRequest} : checkRequest r = .ok () ↔ r.IsValid := by
  simp only [checkRequest, valid, bind_eq_ok, mapError_eq_ok, forM_eq_ok]
  constructor
  · rintro ⟨_, hcontact, _, hsize, _, hattempt, hquantities⟩
    refine ⟨Validation.contact_eq_ok.mp hcontact, Validation.cartSize_eq_ok.mp hsize, ?_,
      fun c hc => Validation.quantity_eq_ok.mp (hquantities c hc)⟩
    intro key hkey
    rw [hkey] at hattempt
    exact Validation.key_eq_ok.mp hattempt
  · intro hvalid
    refine ⟨(), Validation.contact_eq_ok.mpr hvalid.contact, (),
      Validation.cartSize_eq_ok.mpr hvalid.size, (), ?_,
      fun c hc => Validation.quantity_eq_ok.mpr (hvalid.quantities c hc)⟩
    cases hkey : r.attemptId with
    | none => rfl
    | some key => exact Validation.key_eq_ok.mpr (hvalid.attempt key hkey)

/-- A valid request is priced when its cart can be expanded and the total of the lines be told. -/
theorem build_eq_ok_iff {now : Time.Instant} {ids : Nat → String} {r : OrderRequest} {d : Draft} :
    build catalog now ids r = .ok d ↔ r.IsValid ∧ ∃ lines total,
      expand catalog ⟨ids 0, now, fun n => ids (n + 1)⟩ 0 r.lines = .ok lines ∧
      checkedTotal lines = .ok total ∧
      d = ⟨{
        id := ids 0
        customerId := Text.trimmed? r.customerId
        contactEmail := Text.trimmed? r.contactEmail
        total
        status := .pending
        origin := r.origin
        attemptId := r.attemptId
        createdAt := now
        updatedAt := now }, lines⟩ := by
  rw [← checkRequest_eq_ok, build]
  simp only [bind_eq_ok, Except.ok.injEq]
  constructor
  · rintro ⟨_, hrequest, lines, hlines, total, htotal, rfl⟩
    exact ⟨hrequest, lines, total, hlines, htotal, rfl⟩
  · rintro ⟨hrequest, lines, total, hlines, htotal, rfl⟩
    exact ⟨(), hrequest, lines, hlines, total, htotal, rfl⟩

/-- A draft that a request was priced to, as the store and a receipt need it. -/
structure Sound (catalog : Catalog) (now : Time.Instant) (ids : Nat → String) (r : OrderRequest)
    (d : Draft) : Prop where
  id : d.order.id = ids 0
  status : d.order.status = .pending
  attempt : d.order.attemptId = r.attemptId
  created : d.order.createdAt = now
  updated : d.order.updatedAt = now
  total : Word.Fits d.order.total.cents
  lines : ∀ l ∈ d.lines, Priced catalog ⟨ids 0, now, fun n => ids (n + 1)⟩ l
  quantities : ∀ l ∈ d.lines, 0 < l.quantity ∧ l.quantity ≤ 999
  parents : ∀ l ∈ d.lines, ∀ parent, l.parentId = some parent → ∃ m ∈ d.lines, m.id = parent

theorem Sound.owner {catalog : Catalog} {now : Time.Instant} {ids : Nat → String}
    {r : OrderRequest} {d : Draft} (hsound : Sound catalog now ids r d) :
    ∀ l ∈ d.lines, l.orderId = d.order.id := by
  intro l hl
  rw [(hsound.lines l hl).order, hsound.id]

theorem build_eq_ok {now : Time.Instant} {ids : Nat → String} {r : OrderRequest} {d : Draft}
    (h : build catalog now ids r = .ok d) : Sound catalog now ids r d := by
  obtain ⟨hvalid, lines, total, hlines, htotal, rfl⟩ := build_eq_ok_iff.mp h
  have hmem := mem_expand hlines
  have hfits : Word.Fits total.cents := by
    obtain ⟨hrange, hsum⟩ := checkedTotal_eq_ok.mp htotal
    rw [hsum]
    exact hrange.totals _ List.prefix_rfl
  refine ⟨rfl, rfl, rfl, rfl, rfl, hfits, ?_, ?_, ?_⟩
  · intro l hl
    exact (hmem l hl).1
  · intro l hl
    obtain ⟨c, hc, hquantity⟩ := (hmem l hl).2.1
    rw [hquantity]
    exact hvalid.quantities c hc
  · intro l hl
    exact (hmem l hl).2.2

end Draft

end OrderLedger
