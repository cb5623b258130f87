import OrderLedger.Proofs.Run.Values
import OrderLedger.Proofs.Shop.Selling

/-!
Selling and the stock. Where the policy is to refuse, an order is placed exactly if there is
enough of every product that it takes, and what is refused is refused for the first product of
which there is too little. Where the policy is to allow, nothing is refused. Either way the
stock falls by the quantities of the order, and no other sum is ever taken.
-/

namespace OrderLedger

open Work Calculation Remembered

namespace Shop

variable {call : Call} {shop : Shop} {r : OrderRequest} {d : Draft} {stock : String → Int}

/-- The call has placed the order of the draft, and of every product that the order takes there
is less by what it takes. -/
structure Sells (shop : Shop) (call : Call) (r : OrderRequest) (d : Draft)
    (stock : String → Int) : Prop where
  answer : (shop.place call r).1 = .ok ⟨d.receipt, false⟩
  stock : ∀ productId ∈ Line.moved d.lines, (shop.place call r).2.store.stockOf productId =
    .ok (stock productId - Line.taken d.lines productId)

/-- The call is refused for want of a product, and nothing is written. -/
def Refuses (shop : Shop) (call : Call) (r : OrderRequest) (d : Draft) (stock : String → Int)
    (productId : String) : Prop :=
  shop.place call r = (.error (.error
    (.insufficientStock productId (Line.taken d.lines productId) (stock productId))), shop)

section Deciding

variable {records : List Remembered}

theorem place_sells (hprice : priceDraft shop.store call r = .ok d)
    (hprices : ∀ p ∈ shop.store.products, 0 ≤ p.price.cents)
    (hfresh : call.IsFresh shop.store)
    (hfirst : IsFirst shop.settings call shop.store placingScope r.attemptId)
    (hclaims : Claims shop.settings placingScope d.order.attemptId (payloadOf d.receipt) call.now
      shop.store records)
    (hcheck : shop.settings.policy = .refuse →
      (checkStock d).Yields { shop.store with remembered := records } ()
        { shop.store with remembered := records })
    (hstock : ∀ productId ∈ Line.moved d.lines,
      shop.store.stockOf productId = .ok (stock productId))
    (hneeded : ∀ productId ∈ Line.moved d.lines, Word.Fits (-Line.taken d.lines productId))
    (hleft : ∀ productId ∈ Line.moved d.lines,
      Word.Fits (stock productId - Line.taken d.lines productId)) :
    shop.Sells call r d stock := by
  have hbuild := mapError_eq_ok.mp hprice
  have hquantities := (Draft.build_eq_ok hbuild).quantities
  have hsigned (productId : String) : stock productId - Line.taken d.lines productId =
      stock productId + -1 * Line.taken d.lines productId := by
    rw [neg_one_mul, sub_eq_add_neg]
  have hsums : Store.SumsFit { shop.store with remembered := records } (-1) d.lines := by
    intro productId hmoved
    have hneed := hneeded productId hmoved
    have hfits := hleft productId hmoved
    rw [← neg_one_mul] at hneed
    rw [hsigned] at hfits
    exact ⟨hneed, stock productId, hstock productId hmoved, hfits⟩
  obtain ⟨told, hwrite⟩ := exists_writeOrder shop.settings
    (s := { shop.store with remembered := records }) hbuild
    (fun p hp => hprices p (Store.mem_catalogOf hp))
    ⟨hfresh.distinct, hfresh.orders, hfresh.lines, hfresh.payments, hfresh.entries⟩ hsums
  have hcommit := commit_eq_ok.mpr
    ⟨told, _, transact_of_commit (yields_placeWork hclaims hcheck hwrite), rfl⟩
  have hplace := (place_of_isFirst hprice hfirst).trans hcommit
  have hentries : (shop.place call r).2.store.entries = shop.store.entries ++
      lineEntries shop.settings call.now (fun n => call.ids (d.lines.length + 1 + n)) d.order.id
        .sale (-1) d.lines := by
    rw [hplace]
  refine ⟨congrArg Prod.fst hplace, fun productId hmoved => ?_⟩
  have hfits := hleft productId hmoved
  rw [hsigned] at hfits ⊢
  exact stockOf_lineEntries (Or.inr rfl) hquantities hentries (hstock productId hmoved) hfits

theorem place_refuses (hprice : priceDraft shop.store call r = .ok d)
    (hfirst : IsFirst shop.settings call shop.store placingScope r.attemptId)
    (hclaims : Claims shop.settings placingScope d.order.attemptId (payloadOf d.receipt) call.now
      shop.store records)
    (hpolicy : shop.settings.policy = .refuse) {f : Fault ShopError}
    (hcheck : (checkStock d).Fails { shop.store with remembered := records } f) :
    shop.place call r = (.error f, shop) :=
  (place_of_isFirst hprice hfirst).trans (commit_of_fails (fails_placeWork hclaims hpolicy hcheck))

end Deciding

end Shop

namespace Run

/-- Whatever settings a shop has on a store that a run has led to: a call that is the first of
its attempt and has a draft sells the products of its lines, or it is refused. The stock that
there is and the quantities must fit in 64 bits, and what is left must fit where the stock may
fall below zero. -/
theorem sales_respect_stock {opened : Settings} {turns : List Turn} {reached shop : Shop}
    (hrun : Run opened turns reached) (hstore : shop.store = reached.store) {call : Call}
    (hfresh : call.IsFresh shop.store) {r : OrderRequest} {d : Draft}
    (hprice : Shop.priceDraft shop.store call r = .ok d)
    (hfirst : Shop.IsFirst shop.settings call shop.store placingScope r.attemptId)
    {stock : String → Int}
    (hstock : ∀ productId ∈ Line.moved d.lines,
      shop.store.stockOf productId = .ok (stock productId))
    (hneeded : ∀ productId ∈ Line.moved d.lines, Word.Fits (Line.taken d.lines productId)) :
    (shop.settings.policy = .refuse →
      ((∃ o, (shop.place call r).1 = .ok o) ↔
        ∀ productId ∈ Line.moved d.lines, Line.taken d.lines productId ≤ stock productId) ∧
      (∀ o, (shop.place call r).1 = .ok o → shop.Sells call r d stock ∧
        ∀ productId ∈ Line.moved d.lines,
          0 ≤ stock productId - Line.taken d.lines productId) ∧
      (∀ fault, (shop.place call r).1 = .error fault → ∃ productId,
        Shop.Lacks stock (Line.taken d.lines) (Line.moved d.lines) productId ∧
        shop.Refuses call r d stock productId)) ∧
    (shop.settings.policy = .allow →
      (∀ productId ∈ Line.moved d.lines,
        Word.Fits (stock productId - Line.taken d.lines productId)) →
      shop.Sells call r d stock) := by
  have hsound := Draft.build_eq_ok (mapError_eq_ok.mp hprice)
  have hprices : ∀ p ∈ shop.store.products, 0 ≤ p.price.cents := by
    rw [hstore]
    exact hrun.prices_nonneg
  have htaken := Line.taken_nonneg hsound.quantities
  have hnegated : ∀ productId ∈ Line.moved d.lines,
      Word.Fits (-Line.taken d.lines productId) := by
    intro productId hmoved
    have hfits := hneeded productId hmoved
    have hnonneg := htaken productId
    simp only [Word.Fits, Word.least, Word.greatest] at hfits ⊢
    omega
  obtain ⟨records, hclaims⟩ := hfirst.claims (payloadOf d.receipt)
  rw [← hsound.attempt] at hclaims
  refine ⟨fun hpolicy => ?_, fun hpolicy hleft => ?_⟩
  · -- The check reads the ledger only, so it does not matter that the attempt is claimed first.
    rcases Shop.checkStock_cases (s := { shop.store with remembered := records })
        hsound.quantities hneeded hstock with ⟨henough, hcheck⟩ | ⟨productId, hlacks, hcheck⟩
    · have hsold : shop.Sells call r d stock := by
        refine Shop.place_sells hprice hprices hfresh hfirst hclaims (fun _ => hcheck) hstock
          hnegated fun productId hmoved => ?_
        have hthere := Store.fits_of_stockOf (hstock productId hmoved)
        have hnonneg := htaken productId
        have hmore := henough productId hmoved
        simp only [Word.Fits, Word.least, Word.greatest] at hthere ⊢
        omega
      refine ⟨⟨fun _ => henough, fun _ => ⟨_, hsold.answer⟩⟩, fun o _ => ⟨hsold, ?_⟩, ?_⟩
      · exact fun productId hmoved => sub_nonneg.mpr (henough productId hmoved)
      · intro fault hfault
        rw [hsold.answer] at hfault
        cases hfault
    · have hrefused := Shop.place_refuses hprice hfirst hclaims hpolicy hcheck
      have hfailed (o : Outcome OrderReceipt) : (shop.place call r).1 ≠ .ok o := by
        rw [hrefused]
        rintro ⟨⟩
      refine ⟨⟨fun hsold => ?_, fun henough => ?_⟩, fun o ho => absurd ho (hfailed o),
        fun _ _ => ⟨productId, hlacks, hrefused⟩⟩
      · obtain ⟨o, ho⟩ := hsold
        exact absurd ho (hfailed o)
      · exact absurd hlacks.short (not_lt.mpr (henough productId hlacks.mem))
  · refine Shop.place_sells hprice hprices hfresh hfirst hclaims (fun hrefuse => ?_) hstock
      hnegated hleft
    rw [hpolicy] at hrefuse
    cases hrefuse

/-- Soup is counted. -/
def countedSoup : List (Call × Action) :=
  [(Call.on 20000 'a',
      .addProduct ⟨"soup", "Soup", .simple, ⟨850⟩, true, ⟨20000, 0, 0⟩, ⟨20000, 0, 0⟩⟩),
   (Call.on 20000 'b', .operate (.enter "soup" 10 .openingBalance "kitchen"))]

/-- Two lines of one cart ask for more soup than there is. The cart is refused, or sold all the
same. -/
theorem cart_of_countedSoup :
    let reached := (play Settings.standard countedSoup).2
    let shop (policy : OversellPolicy) : Shop :=
      { reached with settings := { Settings.standard with policy } }
    let call := Call.on 20000 'c'
    let r : OrderRequest :=
      ⟨some "c-7", none, .pos, some "till-1", [⟨"soup", 6, []⟩, ⟨"soup", 5, []⟩]⟩
    call.IsFresh reached.store ∧
    (∀ policy, Shop.IsFirst (shop policy).settings call reached.store placingScope r.attemptId) ∧
    (shop .refuse).place call r =
      (.error (.error (.insufficientStock "soup" 11 10)), shop .refuse) ∧
    ((shop .allow).place call r).2.store.stockOf "soup" = .ok (-1) := by
  intro reached shop call r
  have hfresh : call.IsFresh reached.store := by
    apply Call.isFresh_on <;> decide +kernel
  have hfirst (policy : OversellPolicy) :
      Shop.IsFirst (shop policy).settings call reached.store placingScope r.attemptId :=
    ⟨fun _ _ => rfl, fun _ _ => rfl, fun _ _ => ⟨⟨20001, 0, 0⟩, by cases policy <;> decide⟩⟩
  have hcounted : reached.store.stockOf "soup" = .ok 10 := by decide +kernel
  have hpriced : (Shop.priceDraft reached.store call r).map
      (fun d => (Line.moved d.lines, Line.taken d.lines "soup")) =
      .ok (["soup", "soup"], 11) := by decide +kernel
  obtain ⟨d, hprice, heq⟩ := map_eq_ok.mp hpriced
  obtain ⟨hmoved, htaken⟩ := Prod.mk.inj heq
  have hsoup : ∀ productId ∈ Line.moved d.lines, productId = "soup" := by
    rw [← hmoved]
    simp
  have hmem : "soup" ∈ Line.moved d.lines := by
    rw [← hmoved]
    decide
  have hstock : ∀ productId ∈ Line.moved d.lines, reached.store.stockOf productId = .ok 10 := by
    intro productId hproduct
    rw [hsoup productId hproduct]
    exact hcounted
  have hneeded : ∀ productId ∈ Line.moved d.lines, Word.Fits (Line.taken d.lines productId) := by
    intro productId hproduct
    rw [hsoup productId hproduct, ← htaken]
    decide
  have hdecided (policy : OversellPolicy) :=
    sales_respect_stock (run_play Settings.standard countedSoup)
      (show (shop policy).store = reached.store from rfl) hfresh hprice (hfirst policy) hstock
      hneeded
  refine ⟨hfresh, hfirst, ?_, ?_⟩
  · obtain ⟨hsells, -, hrefuses⟩ := (hdecided .refuse).1 rfl
    cases hanswer : ((shop .refuse).place call r).1 with
    | ok o =>
        have henough := hsells.mp ⟨o, hanswer⟩ "soup" hmem
        rw [← htaken] at henough
        exact absurd henough (by decide)
    | error fault =>
        obtain ⟨productId, hlacks, hrefused⟩ := hrefuses fault hanswer
        rw [Shop.Refuses, hsoup productId hlacks.mem, ← htaken] at hrefused
        exact hrefused
  · have hsold := ((hdecided .allow).2 rfl (by
      intro productId hproduct
      rw [hsoup productId hproduct, ← htaken]
      decide)).stock "soup" hmem
    rw [← htaken] at hsold
    exact hsold

end Run

end OrderLedger
