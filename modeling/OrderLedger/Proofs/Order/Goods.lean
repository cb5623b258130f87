import OrderLedger.Proofs.Order.Footprint
import OrderLedger.Proofs.Stock.Volume

/-!
What a request takes out of stock. The time of an order stays apart from its pricing as its ids
do, so that a cart sells the same goods, or is refused for the same reason, whenever it is
placed and whichever ids are drawn for it.
-/

namespace OrderLedger

section Time

variable (now : Time.Instant)

/-- The same line made at another time. -/
def Line.madeAt (l : Line) : Line := { l with createdAt := now }

namespace Draft

/-- The same draft made at another time. -/
def madeAt (d : Draft) : Draft :=
  { order := { d.order with createdAt := now, updatedAt := now }
    lines := d.lines.map (Line.madeAt now) }

theorem becomes_madeAt (stamp : Stamp) : stamp.Becomes (Line.madeAt now) { stamp with now } where
  line _ _ _ _ := rfl
  component _ _ _ _ _ := rfl

/-- At another time, a request is refused for the same reason or becomes the same draft of that
time. -/
theorem build_madeAt {catalog : Catalog} (earlier : Time.Instant) (ids : Nat → String)
    (r : OrderRequest) :
    build catalog now ids r = (build catalog earlier ids r).map (madeAt now) := by
  refine build_becomes (g := fun o => { o with createdAt := now, updatedAt := now })
    (becomes_madeAt now ⟨ids 0, earlier, fun n => ids (n + 1)⟩) (fun _ => ⟨rfl, rfl, rfl⟩) ?_
  intro o hid _ _
  simp only [hid]

end Draft

end Time

/-- Lines make the same changes of stock whatever their ids and times. -/
theorem Line.changes_map {f : Line → Line} (hf : ∀ l, (f l).type = l.type ∧
    (f l).productId = l.productId ∧ (f l).quantity = l.quantity) (sign : Int) (lines : List Line) :
    changes sign (lines.map f) = changes sign lines := by
  simp only [changes, moving, List.filter_map, List.map_map, Function.comp_def, hf]

namespace Draft

/-- The changes of stock that a request makes, if it is not refused. -/
def sold (catalog : Catalog) (r : OrderRequest) : Except RuleError (List (String × Int)) :=
  (build catalog .epoch (fun _ => "") r).map fun d => Line.changes (-1) d.lines

/-- The goods that a request sells are those of its draft, with whichever ids and at whichever
time it was priced. -/
theorem sold_eq (catalog : Catalog) (now : Time.Instant) (ids : Nat → String) (r : OrderRequest) :
    sold catalog r = (build catalog now ids r).map fun d => Line.changes (-1) d.lines := by
  have hblank : build catalog .epoch (fun _ => "") r =
      (build catalog .epoch ids r).map (withIds fun _ => "") :=
    build_withIds (fun _ => "") .epoch ids r
  rw [sold, hblank, build_madeAt .epoch now]
  cases build catalog now ids r with
  | error e => rfl
  | ok d =>
      have hids := Line.changes_map (f := Line.withIds fun _ => "") (fun _ => ⟨rfl, rfl, rfl⟩) (-1)
        (d.lines.map (Line.madeAt .epoch))
      have htime := Line.changes_map (f := Line.madeAt .epoch) (fun _ => ⟨rfl, rfl, rfl⟩) (-1)
        d.lines
      exact congrArg Except.ok (hids.trans htime)

end Draft

end OrderLedger
