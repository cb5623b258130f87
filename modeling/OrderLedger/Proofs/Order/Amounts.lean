import OrderLedger.Proofs.Order.Acceptance

/-!
The amount of an order. Whichever way the lines are added up, the result is the exact sum or
there is none, and it is none in the same cases. A cart that is in order otherwise is refused
for its amount alone, and where no price is negative only the end of the sum decides.
-/

namespace OrderLedger.Draft

open Calculation

variable {catalog : Catalog} {now : Time.Instant} {ids : Nat → String} {r : OrderRequest}

/-- A cart that can be sold is priced or refused for its amount. -/
theorem build_of_orderable (hvalid : r.IsValid) (horderable : ∀ c ∈ r.lines, Orderable catalog c) :
    ∃ lines, Line.subtotals lines = r.lines.map (worth catalog) ∧
      ((∃ d, build catalog now ids r = .ok d) ↔ Line.InRange lines) ∧
      (build catalog now ids r = .error totalOverflow ↔ ¬ Line.InRange lines) := by
  obtain ⟨lines, hlines⟩ : ∃ lines,
      expand catalog ⟨ids 0, now, fun n => ids (n + 1)⟩ 0 r.lines = .ok lines :=
    exists_expand.mpr horderable
  refine ⟨lines, subtotals_expand hlines, ?_⟩
  by_cases hrange : Line.InRange lines
  · have htotal := checkedTotal_eq_ok.mpr
      ⟨hrange, (rfl : (⟨(Line.subtotals lines).sum⟩ : Money).cents = _)⟩
    obtain ⟨d, hbuild⟩ : ∃ d, build catalog now ids r = .ok d :=
      ⟨_, build_eq_ok_iff.mpr ⟨hvalid, lines, _, hlines, htotal, rfl⟩⟩
    simp [hbuild, hrange]
  · have hbuild : build catalog now ids r = .error totalOverflow := by
      refine bind_eq_error.mpr (Or.inr ⟨(), checkRequest_eq_ok.mpr hvalid, ?_⟩)
      refine bind_eq_error.mpr (Or.inr ⟨lines, hlines, ?_⟩)
      exact bind_eq_error.mpr (Or.inl (checkedTotal_of_not_inRange hrange))
    simp [hbuild, hrange]

/-- What a cart line adds is not negative where its product costs something or nothing. -/
theorem worth_nonneg {c : CartLine} (hquantity : 1 ≤ c.quantity)
    (hprice : ∀ p, catalog.product? c.productId = some p → 0 ≤ p.price.cents) :
    0 ≤ worth catalog c := by
  unfold worth
  cases hfound : catalog.product? c.productId with
  | none => simp
  | some p => exact Int.mul_nonneg (hprice p hfound) (by omega)

/-- The checked and the plain total of lines are the exact sum where it and what leads up to it
fit in 64 bits, and fail together elsewhere. A draft tells its exact sum, and without negative
prices a cart that is in order otherwise is refused exactly when its sum is too large. -/
theorem totals_are_exact_or_refused (lines : List Line) (catalog : Catalog) (now : Time.Instant)
    (ids : Nat → String) (r : OrderRequest) :
    ((Line.InRange lines → checkedTotal lines = .ok ⟨(Line.subtotals lines).sum⟩ ∧
        Line.total lines = .ok ⟨(Line.subtotals lines).sum⟩) ∧
      (¬ Line.InRange lines →
        checkedTotal lines = .error (.invalid (.outOfRange "order total" 0 Word.greatest)) ∧
        (Line.total lines = .error .multiply ∨ Line.total lines = .error .add)) ∧
      checkedTotal (lines.filter fun l => l.type ≠ .component) = checkedTotal lines ∧
      Line.total (lines.filter fun l => l.type ≠ .component) = Line.total lines) ∧
    (∀ d, build catalog now ids r = .ok d →
      d.order.total = ⟨(Line.subtotals d.lines).sum⟩ ∧ Line.total d.lines = .ok d.order.total) ∧
    (r.IsValid → (∀ c ∈ r.lines, Orderable catalog c) →
      (∀ c ∈ r.lines, ∀ p, catalog.product? c.productId = some p → 0 ≤ p.price.cents) →
      ((∃ d, build catalog now ids r = .ok d) ↔
        (r.lines.map (worth catalog)).sum ≤ Word.greatest) ∧
      (build catalog now ids r = .error (.invalid (.outOfRange "order total" 0 Word.greatest)) ↔
        Word.greatest < (r.lines.map (worth catalog)).sum)) := by
  refine ⟨⟨fun hrange => ?_, fun hnot => ?_, ?_, ?_⟩, ?_, ?_⟩
  · exact ⟨checkedTotal_eq_ok.mpr ⟨hrange, rfl⟩, Line.total_eq_ok.mpr ⟨hrange, rfl⟩⟩
  · exact ⟨checkedTotal_of_not_inRange hnot, Line.total_of_not_inRange hnot⟩
  · rw [← Line.priced_eq]
    exact checkedTotalFrom_priced
  · rw [← Line.priced_eq]
    exact Line.totalFrom_priced
  · intro d hbuild
    obtain ⟨-, lines, total, -, htotal, rfl⟩ := build_eq_ok_iff.mp hbuild
    obtain ⟨hrange, hsum⟩ := checkedTotal_eq_ok.mp htotal
    exact ⟨congrArg Money.mk hsum, Line.total_eq_ok.mpr ⟨hrange, hsum⟩⟩
  · intro hvalid horderable hprices
    obtain ⟨lines, hsubtotals, haccepted, hrefused⟩ := build_of_orderable hvalid horderable
    have hnonneg : ∀ n ∈ Line.subtotals lines, 0 ≤ n := by
      rw [hsubtotals, List.forall_mem_map]
      exact fun c hc => worth_nonneg (hvalid.quantities c hc).1 (hprices c hc)
    rw [← hsubtotals, haccepted, Line.inRange_of_nonneg hnonneg]
    refine ⟨Iff.rfl, hrefused.trans ?_⟩
    rw [Line.inRange_of_nonneg hnonneg, Int.not_le]

/-- Twice the price of the cellar is one cent more than an amount can be. -/
def cellarCatalog : Catalog :=
  { products :=
      [⟨"cellar", "Wine cellar", .simple, ⟨4611686018427387904⟩, true, ⟨20000, 43200, 0⟩,
        ⟨20000, 43200, 0⟩⟩]
    menus := [] }

def cellarOrder (cellars : Nat) : OrderRequest :=
  ⟨some "c-7", none, .pos, none, List.replicate cellars ⟨"cellar", 1, []⟩⟩

/-- The sum of these lines fits, but not what comes up before the last of them. -/
def outAndBack : List Line :=
  [Word.greatest, 1, -1].map fun cents =>
    { id := "", orderId := "", type := .simple, productId := "cellar", title := "Wine cellar",
      quantity := 1, unitPrice := ⟨cents⟩, parentId := none, slotId := none, slotName := none,
      createdAt := ⟨20000, 43200, 0⟩ }

theorem total_of_cellarOrder :
    let ids (n : Nat) := String.ofList (List.replicate n 'x')
    let noon : Time.Instant := ⟨20000, 43200, 0⟩
    ((cellarOrder 1).IsValid ∧ (cellarOrder 2).IsValid ∧
      ∀ c ∈ (cellarOrder 2).lines, Orderable cellarCatalog c) ∧
    (∃ d, build cellarCatalog noon ids (cellarOrder 1) = .ok d ∧
      Line.total d.lines = .ok d.order.total) ∧
    build cellarCatalog noon ids (cellarOrder 2) =
      .error (.invalid (.outOfRange "order total" 0 Word.greatest)) ∧
    (¬ Line.InRange outAndBack ∧
      checkedTotal outAndBack = .error (.invalid (.outOfRange "order total" 0 Word.greatest)) ∧
      (Line.total outAndBack = .error .multiply ∨ Line.total outAndBack = .error .add)) := by
  intro ids noon
  have horderable (cellars : Nat) : ∀ c ∈ (cellarOrder cellars).lines,
      Orderable cellarCatalog c := by
    intro c hc
    obtain rfl := List.eq_of_mem_replicate hc
    exact .simple rfl rfl rfl rfl
  have hprices (cellars : Nat) : ∀ c ∈ (cellarOrder cellars).lines, ∀ p,
      cellarCatalog.product? c.productId = some p → 0 ≤ p.price.cents := by
    intro c hc p hp
    obtain rfl := List.eq_of_mem_replicate hc
    cases hp
    decide
  have hone : (cellarOrder 1).IsValid := checkRequest_eq_ok.mp (by decide +kernel)
  have htwo : (cellarOrder 2).IsValid := checkRequest_eq_ok.mp (by decide +kernel)
  have hspoilt : ¬ Line.InRange outAndBack := fun hrange =>
    absurd (hrange.totals [Word.greatest, 1] (by decide)) (by decide)
  have htotals (cellars : Nat) :=
    totals_are_exact_or_refused outAndBack cellarCatalog noon ids (cellarOrder cellars)
  obtain ⟨haccepted, -⟩ := (htotals 1).2.2 hone (horderable 1) (hprices 1)
  obtain ⟨-, hrefused⟩ := (htotals 2).2.2 htwo (horderable 2) (hprices 2)
  obtain ⟨d, hbuild⟩ := haccepted.mpr (by decide)
  exact ⟨⟨hone, htwo, horderable 2⟩, ⟨d, hbuild, ((htotals 1).2.1 d hbuild).2⟩,
    hrefused.mpr (by decide), hspoilt, (htotals 1).1.2.1 hspoilt⟩

end OrderLedger.Draft
