import OrderLedger.Proofs.Order.Rows
import OrderLedger.Proofs.Shop.Answers
import OrderLedger.Proofs.Shop.Placing

/-!
What the check of the stock finds, and when a draft is written. The quantities that the check
adds up are those that the sales take out of the ledger afterwards; the check names the first
product of which there is too little. Nothing else stands in the way of a priced draft.
-/

namespace OrderLedger

open Work Calculation

theorem Line.amountsOf_moving (lines : List Line) (productId : String) :
    Tally.amountsOf ((moving lines).map fun l => (l.productId, l.quantity)) productId =
      ((moving lines).filter fun l => l.productId == productId).map (·.quantity) := by
  simp [Tally.amountsOf, List.filter_map, Function.comp_def]

/-- What the lines need is added up from their own quantities. -/
theorem Movement.requirements_of_quantities {lines : List Line}
    (hlines : ∀ l ∈ lines, 0 < l.quantity ∧ l.quantity ≤ 999) :
    requirements lines = Word.require .add
      (Tally.of? ((Line.moving lines).map fun l => (l.productId, l.quantity))) := by
  have hneeded : ((Line.moving lines).map fun l =>
      (⟨l.productId, l.id, -l.quantity⟩ : Movement)).mapM
        (fun m => (Word.negate m.delta).map fun n => (m.productId, n)) =
      .ok ((Line.moving lines).map fun l => (l.productId, l.quantity)) := by
    rw [List.mapM_map]
    apply mapM_of_eq_ok
    intro l hl
    have hquantity := hlines l (List.mem_of_mem_filter hl)
    have hword : Word.Fits (- -l.quantity) := by
      simp only [Word.Fits, Word.least, Word.greatest]
      omega
    simp only [Function.comp_apply, negate_eq_ok.mpr ⟨hword, rfl⟩, neg_neg]
    rfl
  rw [requirements, Shop.ofLines_of_quantities hlines]
  change (List.mapM _ _ >>= fun needed => Word.require .add (Tally.of? needed)) = _
  rw [hneeded]
  rfl

/-- The quantities that the lines need are what they take, product by product. -/
theorem Movement.exists_requirements {lines : List Line}
    (hlines : ∀ l ∈ lines, 0 < l.quantity ∧ l.quantity ≤ 999)
    (hfits : ∀ productId ∈ Line.moved lines, Word.Fits (Line.taken lines productId)) :
    ∃ needed, requirements lines = .ok needed ∧ needed.Ascending ∧
      (∀ productId, productId ∈ needed.keys ↔ productId ∈ Line.moved lines) ∧
      ∀ productId, needed.get productId = Line.taken lines productId := by
  have hempty : Tally.Ascending [] := .nil
  obtain ⟨needed, hneeded⟩ := Tally.exists_addAll? hempty
    ((Line.moving lines).map fun l => (l.productId, l.quantity)) (by
      intro productId
      rw [Line.amountsOf_moving]
      refine ⟨_, Word.sumFrom?_of_oneSigned (Or.inl ?_) Word.fits_zero ?_⟩
      · intro n hn
        obtain ⟨l, hl, rfl⟩ := List.mem_map.mp hn
        exact (hlines l (List.mem_of_mem_filter (List.mem_of_mem_filter hl))).1.le
      · change Word.Fits (0 + Line.taken lines productId)
        rw [zero_add]
        by_cases hmoved : productId ∈ Line.moved lines
        · exact hfits productId hmoved
        · rw [Line.taken_eq_zero hmoved]
          exact Word.fits_zero)
  obtain ⟨hascending, hkeys, hsums⟩ := Tally.addAll?_eq_some hempty hneeded
  refine ⟨needed, ?_, hascending, fun productId => ?_, fun productId => ?_⟩
  · rw [requirements_of_quantities hlines, Tally.of?, hneeded]
    rfl
  · rw [hkeys productId, List.map_map]
    exact or_iff_right List.not_mem_nil
  · have hsum := Word.sumFrom?_eq_sum (hsums productId)
    rw [Line.amountsOf_moving] at hsum
    rw [hsum]
    exact zero_add _

/-- Quantities that have been added up fit, product by product. -/
theorem Movement.fits_of_requirements {lines : List Line}
    (hlines : ∀ l ∈ lines, 0 < l.quantity ∧ l.quantity ≤ 999) {needed : Tally}
    (h : requirements lines = .ok needed) (productId : String) :
    Word.Fits (Line.taken lines productId) := by
  rw [requirements_of_quantities hlines, require_eq_ok] at h
  have hempty : Tally.Ascending [] := .nil
  have hsum := (Tally.addAll?_eq_some hempty h).2.2 productId
  rw [Line.amountsOf_moving] at hsum
  have htotal : needed.get productId = 0 + Line.taken lines productId :=
    Word.sumFrom?_eq_sum hsum
  rw [zero_add] at htotal
  rw [← htotal]
  exact Word.sumFrom?_fits Word.fits_zero hsum

/-- Quantities that cannot be added up are too many of one product. -/
theorem Movement.requirements_eq_error {lines : List Line}
    (hlines : ∀ l ∈ lines, 0 < l.quantity ∧ l.quantity ≤ 999) {cause : Overflow}
    (h : requirements lines = .error cause) :
    cause = .add ∧ ∃ productId ∈ Line.moved lines, ¬ Word.Fits (Line.taken lines productId) := by
  constructor
  · rw [requirements_of_quantities hlines] at h
    unfold Word.require at h
    split at h <;> cases h
    rfl
  · by_contra hnone
    obtain ⟨needed, hneeded, -⟩ := exists_requirements hlines fun productId hmoved => by
      by_contra hfits
      exact hnone ⟨productId, hmoved, hfits⟩
    cases hneeded.symm.trans h

namespace Shop

variable {settings : Settings} {call : Call} {s t : Store} {d : Draft} {stock needed : Tally}

/-- A product of which there is too little, while there is enough of every one before it. -/
structure Lacks (stock needed : String → Int) (products : List String) (productId : String) :
    Prop where
  mem : productId ∈ products
  short : stock productId < needed productId
  least : ∀ other ∈ products, other < productId → needed other ≤ stock other

theorem shortage?_eq_none : shortage? stock needed = none ↔
    ∀ entry ∈ needed, entry.2 ≤ stock.get entry.1 := by
  induction needed with
  | nil => simp [shortage?]
  | cons head rest ih =>
      obtain ⟨productId, n⟩ := head
      unfold shortage?
      split
      · next hshort =>
          simp only [reduceCtorEq, List.forall_mem_cons, false_iff, not_and]
          intro henough
          omega
      · next hnot =>
          rw [ih, List.forall_mem_cons, iff_and_self]
          exact fun _ => Int.not_lt.mp hnot

/-- The first shortage is that of the least product. -/
theorem lacks_of_shortage? {e : ShopError} (h : needed.Ascending)
    (hshort : shortage? stock needed = some e) :
    ∃ productId, Lacks stock.get needed.get needed.keys productId ∧
      e = .insufficientStock productId (needed.get productId) (stock.get productId) := by
  induction needed with
  | nil => cases hshort
  | cons head rest ih =>
      obtain ⟨key, n⟩ := head
      obtain ⟨hhead, hrest⟩ := List.pairwise_cons.mp h
      have hkey : Tally.get ((key, n) :: rest) key = n := by rw [Tally.get_cons, if_pos rfl]
      have hlater (other : String) (hother : other ∈ Tally.keys rest) :
          Tally.get ((key, n) :: rest) other = Tally.get rest other := by
        rw [Tally.get_cons, if_neg]
        rintro rfl
        exact String.lt_irrefl _ (hhead other hother)
      unfold shortage? at hshort
      split at hshort
      · next hless =>
          cases hshort
          refine ⟨key, ⟨List.mem_cons_self, ?_, ?_⟩, ?_⟩
          · rwa [hkey]
          · intro other hother hlt
            rcases List.mem_cons.mp hother with rfl | hother
            · exact absurd hlt (String.lt_irrefl _)
            · exact absurd (hhead other hother) (String.lt_asymm hlt)
          · rw [hkey]
      · next henough =>
          obtain ⟨productId, hlacks, rfl⟩ := ih hrest hshort
          refine ⟨productId, ⟨List.mem_cons_of_mem _ hlacks.mem, ?_, ?_⟩, ?_⟩
          · rw [hlater productId hlacks.mem]
            exact hlacks.short
          · intro other hother hlt
            rcases List.mem_cons.mp hother with rfl | hother
            · rw [hkey]
              omega
            · rw [hlater other hother]
              exact hlacks.least other hother hlt
          · rw [hlater productId hlacks.mem]

/-- The check of a draft passes if there is enough of every product, or it fails for the least
product of which there is not. -/
theorem checkStock_cases {stock : String → Int}
    (hlines : ∀ l ∈ d.lines, 0 < l.quantity ∧ l.quantity ≤ 999)
    (hfits : ∀ productId ∈ Line.moved d.lines, Word.Fits (Line.taken d.lines productId))
    (hstock : ∀ productId ∈ Line.moved d.lines, s.stockOf productId = .ok (stock productId)) :
    ((∀ productId ∈ Line.moved d.lines, Line.taken d.lines productId ≤ stock productId) ∧
      (checkStock d).Yields s () s) ∨
    ∃ productId, Lacks stock (Line.taken d.lines) (Line.moved d.lines) productId ∧
      (checkStock d).Fails s (.error
        (.insufficientStock productId (Line.taken d.lines productId) (stock productId))) := by
  obtain ⟨needed, hneeded, hascending, hkeys, hget⟩ :=
    Movement.exists_requirements hlines hfits
  obtain ⟨found, hfound, hsame⟩ := Store.exists_stockOfMany (s := s) needed.keys
    fun productId hid => ⟨_, hstock productId ((hkeys productId).mp hid)⟩
  have hvalue (productId : String) (hid : productId ∈ needed.keys) :
      found.get productId = stock productId := by
    have htwice := (hsame productId hid).symm.trans (hstock productId ((hkeys productId).mp hid))
    exact Except.ok.inj htwice
  cases hshort : shortage? found needed with
  | none =>
      refine Or.inl ⟨fun productId hmoved => ?_, ?_⟩
      · have hid := (hkeys productId).mpr hmoved
        have henough := shortage?_eq_none.mp hshort _ (Tally.exists_of_mem_keys hascending hid)
        rwa [hget, hvalue productId hid] at henough
      · simp only [checkStock, yields_bind, yields_calculate, yields_stored, yields_ask]
        refine ⟨needed, s, ⟨hneeded, rfl⟩, found, s, ⟨hfound, rfl⟩, ?_⟩
        rw [hshort]
        exact yields_pure.mpr ⟨rfl, rfl⟩
  | some e =>
      obtain ⟨productId, hlacks, rfl⟩ := lacks_of_shortage? hascending hshort
      refine Or.inr ⟨productId, ⟨(hkeys productId).mp hlacks.mem, ?_, ?_⟩, ?_⟩
      · rw [← hget, ← hvalue productId hlacks.mem]
        exact hlacks.short
      · intro other hmoved hlt
        have hid := (hkeys other).mpr hmoved
        rw [← hget, ← hvalue other hid]
        exact hlacks.least other hid hlt
      · rw [checkStock, fails_bind]
        refine Or.inr ⟨needed, s, yields_calculate.mpr ⟨hneeded, rfl⟩, ?_⟩
        rw [fails_bind]
        refine Or.inr ⟨found, s, yields_stored.mpr (yields_ask.mpr ⟨hfound, rfl⟩), ?_⟩
        rw [hshort, hget, hvalue productId hlacks.mem]
        exact fails_fail.mpr rfl

/-- The check of a draft fails for want of a product, or because the quantities of a product
cannot be added up. -/
theorem fails_checkStock {stock : String → Int}
    (hlines : ∀ l ∈ d.lines, 0 < l.quantity ∧ l.quantity ≤ 999)
    (hstock : ∀ productId, s.stockOf productId = .ok (stock productId)) {f : Fault ShopError}
    (h : (checkStock d).Fails s f) :
    (∃ productId, Lacks stock (Line.taken d.lines) (Line.moved d.lines) productId ∧
      f = .error (.insufficientStock productId (Line.taken d.lines productId)
        (stock productId))) ∨
    f = .overflow .add ∧
      ∃ productId ∈ Line.moved d.lines, ¬ Word.Fits (Line.taken d.lines productId) := by
  cases hneeded : Movement.requirements d.lines with
  | error cause =>
      obtain ⟨rfl, hbeyond⟩ := Movement.requirements_eq_error hlines hneeded
      rw [checkStock, hneeded, fails_bind, fails_calculate] at h
      rcases h with ⟨_, heq, rfl⟩ | ⟨needed, _, hyields, -⟩
      · cases heq
        exact Or.inr ⟨rfl, hbeyond⟩
      · cases (yields_calculate.mp hyields).1
  | ok needed =>
      rcases checkStock_cases hlines
        (fun productId _ => Movement.fits_of_requirements hlines hneeded productId)
        fun productId _ => hstock productId with ⟨-, hpasses⟩ | ⟨productId, hlacks, hfails⟩
      · exact absurd h hpasses.not_fails
      · exact Or.inl ⟨productId, hlacks, Except.error.inj (h.symm.trans hfails)⟩

/-- The rows of a draft whose ids are new may be inserted: its order, and then its lines. -/
theorem insert_draft {catalog : Catalog} {r : OrderRequest}
    (hbuild : Draft.build catalog call.pricedAt call.ids r = .ok d)
    (hprices : ∀ p ∈ catalog.products, 0 ≤ p.price.cents) (hfresh : call.IsFresh s) :
    Store.insertOrder d.order s = .ok { s with orders := s.orders ++ [d.order] } ∧
      (Store.insertLines d.lines).Yields { s with orders := s.orders ++ [d.order] } ()
        { s with orders := s.orders ++ [d.order], lines := s.lines ++ d.lines } := by
  have hsound := Draft.build_eq_ok hbuild
  have hrows := Draft.rows_build hbuild
  have hprice : ∀ l ∈ d.lines, 0 ≤ l.unitPrice.cents := by
    intro l hl
    rcases (hsound.lines l hl).price with hzero | ⟨p, hp, hprice⟩
    · rw [hzero]
      exact le_refl 0
    · rw [hprice]
      exact hprices p hp
  have hids : d.lines.map (·.id) =
      (List.range' 0 d.lines.length).map fun n => call.ids (n + 1) := hrows.ids
  have hnew : s.hasOrder d.order.id = false := by
    rw [hsound.id]
    exact hfresh.orders 0
  have hadmits : Store.AdmitsAll { s with orders := s.orders ++ [d.order] } d.lines := by
    refine Store.admitsAll_of_rooted ?_ ?_ ?_ (List.forall_mem_nil _) hrows.rooted
    · intro l hl
      refine ⟨Store.brokenRule?_eq_none.mpr
        ⟨(hsound.quantities l hl).1, hprice l hl, hrows.owned l hl⟩, ?_⟩
      rw [Store.hasOrder_eq_true]
      exact ⟨d.order, List.mem_append_right _ List.mem_cons_self, (hsound.owner l hl).symm⟩
    · rw [hids]
      refine List.Nodup.map ?_ List.nodup_range'
      intro m n heq
      exact Nat.succ_injective (hfresh.distinct heq)
    · intro l hl
      obtain ⟨n, hid⟩ := hrows.drawn l hl
      rw [hid]
      exact hfresh.lines (n + 1)
  exact ⟨Store.insertOrder_eq_ok.mpr ⟨Draft.total_nonneg hbuild hprice, hnew, rfl⟩,
    Store.yields_insertLines.mpr ⟨rfl, hadmits⟩⟩

/-- A draft whose order and lines are new is written, with its sales, where the sums of stock
stay in range. -/
theorem exists_writeOrder (settings : Settings) {catalog : Catalog} {r : OrderRequest}
    (hbuild : Draft.build catalog call.pricedAt call.ids r = .ok d)
    (hprices : ∀ p ∈ catalog.products, 0 ≤ p.price.cents) (hfresh : call.IsFresh s)
    (hsums : s.SumsFit (-1) d.lines) :
    ∃ told, (writeOrder settings call d).Yields s told { s with
      orders := s.orders ++ [d.order]
      lines := s.lines ++ d.lines
      entries := s.entries ++ lineEntries settings call.now
        (fun n => call.ids (d.lines.length + 1 + n)) d.order.id .sale (-1) d.lines } := by
  have hquantities := (Draft.build_eq_ok hbuild).quantities
  obtain ⟨horder, hlines⟩ := insert_draft hbuild hprices hfresh
  have hlater : Function.Injective fun n => call.ids (d.lines.length + 1 + n) :=
    fun m n heq => Nat.add_left_cancel (hfresh.distinct heq)
  obtain ⟨told, happend⟩ := exists_appendLineEntries settings call.now d.order.id .sale
    (s := { s with orders := s.orders ++ [d.order], lines := s.lines ++ d.lines })
    (Or.inr rfl) hquantities hlater (fun n => hfresh.entries _) hsums
  refine ⟨told, ?_⟩
  simp only [writeOrder, yields_bind, yields_stored, yields_execute, yields_calculate]
  exact ⟨(), _, horder, (), _, hlines, _, _, ⟨sales_of_quantities hquantities, rfl⟩, happend⟩

/-- A call that is the first of its attempt and can price its draft goes on to write it. -/
theorem place_of_isFirst {shop : Shop} {r : OrderRequest}
    (hprice : priceDraft shop.store call r = .ok d)
    (hfirst : IsFirst shop.settings call shop.store Remembered.placingScope r.attemptId) :
    shop.place call r = shop.commit (placeWork shop.settings call d) := by
  have hkey : checkKey r.attemptId = .ok () := by
    have hbuild := mapError_eq_ok.mp hprice
    simp only [Draft.build, Draft.checkRequest, bind_eq_ok] at hbuild
    obtain ⟨_, ⟨_, -, _, -, _, hkey, -⟩, -⟩ := hbuild
    exact mapError_eq_ok.mpr (mapError_eq_ok.mp hkey)
  have hearlier : earlierPlacing shop.store call r = .ok none := by
    simp only [earlierPlacing, bind_eq_ok]
    exact ⟨(), hkey, hfirst.earlier?⟩
  simp only [place, hearlier, hprice]

section Writing

variable {records : List Remembered}

theorem yields_placeWork {told : List StockEvent}
    (hclaims : Claims settings Remembered.placingScope d.order.attemptId
      (Remembered.payloadOf d.receipt) call.now s records)
    (hcheck : settings.policy = .refuse → (checkStock d).Yields { s with remembered := records } ()
      { s with remembered := records })
    (hwrite : (writeOrder settings call d).Yields { s with remembered := records } told t) :
    (placeWork settings call d).Yields s (.commit (⟨d.receipt, false⟩, told)) t := by
  simp only [placeWork, yields_bind]
  refine ⟨none, _, yields_claim_of_claims hclaims, ?_⟩
  simp only
  split
  · next hpolicy =>
      simp only [yields_bind, yields_pure]
      exact ⟨(), _, hcheck hpolicy, told, t, hwrite, rfl, rfl⟩
  · simp only [yields_bind, yields_pure]
    exact ⟨told, t, hwrite, rfl, rfl⟩

theorem fails_placeWork {f : Fault ShopError}
    (hclaims : Claims settings Remembered.placingScope d.order.attemptId
      (Remembered.payloadOf d.receipt) call.now s records)
    (hpolicy : settings.policy = .refuse)
    (hcheck : (checkStock d).Fails { s with remembered := records } f) :
    (placeWork settings call d).Fails s f := by
  rw [placeWork, fails_bind]
  refine Or.inr ⟨none, _, yields_claim_of_claims hclaims, ?_⟩
  simp only [hpolicy, if_true, fails_bind]
  exact Or.inl hcheck

end Writing

end Shop

end OrderLedger
