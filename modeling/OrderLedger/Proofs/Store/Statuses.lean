import Mathlib.Data.List.Nodup
import OrderLedger.Proofs.Store.Statements

/-!
The status of an order by its id, and how the changes of the orders table move it.
-/

namespace OrderLedger.Store

variable {s : Store} {id : String}

/-- The status of an order, if it is stored. -/
def statusOf (s : Store) (id : String) : Option Status := (s.order? id).map (·.status)

theorem statusOf_eq_none : s.statusOf id = none ↔ s.hasOrder id = false := by
  rw [statusOf, Option.map_eq_none_iff, order?_eq_none, hasOrder_eq_false]

theorem hasOrder_of_statusOf {status : Status} (h : s.statusOf id = some status) :
    s.hasOrder id = true := by
  cases horder : s.hasOrder id with
  | true => rfl
  | false =>
      rw [statusOf_eq_none.mpr horder] at h
      cases h

theorem hasOrder_congr {t : Store} (h : t.statusOf id = s.statusOf id) :
    t.hasOrder id = s.hasOrder id := by
  have hfalse : t.hasOrder id = false ↔ s.hasOrder id = false := by
    rw [← statusOf_eq_none, ← statusOf_eq_none, h]
  rw [← Bool.not_eq_true, ← Bool.not_eq_true, not_iff_not] at hfalse
  exact Bool.eq_iff_iff.mpr hfalse

theorem statusOf_of_orders {t : Store} (h : t.orders = s.orders) (id : String) :
    t.statusOf id = s.statusOf id := by
  rw [statusOf, statusOf, order?, order?, h]

theorem statusOf_of_order? {o : Order} (h : s.order? id = some o) :
    s.statusOf id = some o.status := by
  rw [statusOf, h, Option.map_some]

/-- Where ids are distinct, an order that is in a status has that status. -/
theorem statusOf_of_isIn {status : Status} (hids : (s.orders.map (·.id)).Nodup)
    (h : s.isIn id status = true) : s.statusOf id = some status := by
  obtain ⟨o, ho, rfl, rfl⟩ := isIn_eq_true.mp h
  cases hfound : s.order? o.id with
  | none => exact absurd rfl (order?_eq_none.mp hfound o ho)
  | some found =>
      obtain ⟨hmem, hid⟩ := order?_eq_some hfound
      rw [statusOf_of_order? hfound, List.inj_on_of_nodup_map hids hmem ho hid]

theorem isIn_iff_statusOf {status : Status} (hids : (s.orders.map (·.id)).Nodup) :
    s.isIn id status = true ↔ s.statusOf id = some status := by
  refine ⟨statusOf_of_isIn hids, fun h => ?_⟩
  obtain ⟨o, hfound, rfl⟩ := Option.map_eq_some_iff.mp h
  obtain ⟨hmem, hid⟩ := order?_eq_some hfound
  exact isIn_eq_true.mpr ⟨o, hmem, hid, rfl⟩

theorem statusOf_insert {t : Store} {o : Order} (h : t.orders = s.orders ++ [o])
    (hnew : s.hasOrder o.id = false) (id : String) :
    t.statusOf id = if id = o.id then some o.status else s.statusOf id := by
  rw [statusOf, order?, h, List.find?_append]
  split
  · next hid =>
      rw [hid]
      have hnone := order?_eq_none.mpr (hasOrder_eq_false.mp hnew)
      rw [order?] at hnone
      simp [hnone]
  · next hid =>
      rw [statusOf, order?]
      have hne : (o.id == id) = false := by
        rw [beq_eq_false_iff_ne]
        exact Ne.symm hid
      simp [hne]

/-- Of an order there is after a change of status what there was before, or the order in its
new status. -/
theorem order?_withStatus_map (s : Store) (id : String) (source target : Status)
    (now : Time.Instant) (other : String) :
    (s.withStatus id source target now).order? other = (s.order? other).map fun o =>
      if o.id == id && o.status == source then { o with status := target, updatedAt := now }
      else o := by
  unfold order? withStatus
  simp only [List.find?_map]
  have hsame : ((fun o : Order => o.id == other) ∘ fun o =>
      if o.id == id && o.status == source then { o with status := target, updatedAt := now }
      else o) = fun o => o.id == other := by
    funext o
    rw [Function.comp_apply]
    split <;> rfl
  rw [hsame]

theorem order?_withStatus_ne {other : String} (source target : Status) (now : Time.Instant)
    (h : other ≠ id) : (s.withStatus id source target now).order? other = s.order? other := by
  rw [order?_withStatus_map]
  cases hfound : s.order? other with
  | none => rfl
  | some o =>
      have hid : o.id ≠ id := by rwa [(order?_eq_some hfound).2]
      simp [hid]

theorem statusOf_withStatus_ne {other : String} (source target : Status) (now : Time.Instant)
    (h : other ≠ id) : (s.withStatus id source target now).statusOf other = s.statusOf other := by
  rw [statusOf, order?_withStatus_ne source target now h, statusOf]

theorem order?_withoutOrder (s : Store) (id other : String) :
    (s.withoutOrder id).order? other = if other = id then none else s.order? other := by
  unfold order? withoutOrder
  rw [List.find?_filter]
  split
  · next hid =>
      rw [List.find?_eq_none]
      intro o _
      simp [hid]
  · next hid =>
      have hsame : (fun o : Order => decide ((o.id != id) = true ∧ (o.id == other) = true)) =
          fun o => o.id == other := by
        funext o
        by_cases ho : o.id = other
        · simp [ho, hid]
        · simp [ho]
      rw [hsame]

theorem statusOf_withoutOrder (s : Store) (id other : String) :
    (s.withoutOrder id).statusOf other = if other = id then none else s.statusOf other := by
  rw [statusOf, order?_withoutOrder]
  split <;> rfl

end OrderLedger.Store
