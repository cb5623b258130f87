import OrderLedger.Proofs.Integrity

/-!
What an action does to an order that is stored already. Its lines stay what they are, and so
does the order but for its status and the time of its last change, unless a deletion takes it
away.
-/

namespace OrderLedger

/-- Deletes orders that are still pending. -/
def Action.isDeletion : Action → Bool
  | .operate (.discard _) | .operate (.reap _ _) => true
  | _ => false

namespace Store

/-- An order is in both stores, with the same lines and perhaps in another status, or in
neither. -/
structure Keeps (s t : Store) (id : String) : Prop where
  order : ∃ status updatedAt, t.order? id = (s.order? id).map fun o => { o with status, updatedAt }
  lines : t.linesOf id = s.linesOf id

variable {s t u : Store} {id : String}

theorem hasOrder_eq_isSome : s.hasOrder id = (s.order? id).isSome := by
  rw [Bool.eq_iff_iff, hasOrder_eq_true, order?, List.find?_isSome]
  simp

theorem Keeps.hasOrder_eq (h : s.Keeps t id) : t.hasOrder id = s.hasOrder id := by
  obtain ⟨status, updatedAt, horder⟩ := h.order
  rw [hasOrder_eq_isSome, hasOrder_eq_isSome, horder, Option.isSome_map]

theorem Keeps.of_order? (horder : t.order? id = s.order? id)
    (hlines : t.linesOf id = s.linesOf id) : s.Keeps t id := by
  refine ⟨?_, hlines⟩
  rw [horder]
  cases s.order? id with
  | none => exact ⟨.pending, ⟨0, 0, 0⟩, rfl⟩
  | some o => exact ⟨o.status, o.updatedAt, rfl⟩

/-- Only the orders and the lines of a store count. -/
theorem Keeps.of_eq (horders : t.orders = s.orders) (hlines : t.lines = s.lines) :
    s.Keeps t id := by
  refine .of_order? ?_ ?_
  · rw [order?, order?, horders]
  · rw [linesOf, linesOf, hlines]

theorem Keeps.trans (h : s.Keeps t id) (hu : t.Keeps u id) : s.Keeps u id := by
  obtain ⟨_, _, hfirst⟩ := h.order
  obtain ⟨status, updatedAt, hsecond⟩ := hu.order
  refine ⟨⟨status, updatedAt, ?_⟩, hu.lines.trans h.lines⟩
  rw [hsecond, hfirst, Option.map_map]
  rfl

theorem keeps_withStatus (s : Store) (other : String) (source target : Status)
    (now : Time.Instant) (id : String) : s.Keeps (s.withStatus other source target now) id := by
  refine ⟨?_, rfl⟩
  rw [order?_withStatus_map]
  cases s.order? id with
  | none => exact ⟨target, now, rfl⟩
  | some o =>
      rw [Option.map_some]
      split
      · exact ⟨target, now, rfl⟩
      · exact ⟨o.status, o.updatedAt, rfl⟩

theorem Intact.keeps_withoutOrder (hs : s.Intact) {other : String} (hid : id ≠ other) :
    s.Keeps (s.withoutOrder other) id := by
  refine .of_order? ?_ (hs.linesOf_withoutOrder hid)
  rw [order?_withoutOrder, if_neg hid]

theorem hasOrder_withoutOrder (s : Store) (id : String) :
    (s.withoutOrder id).hasOrder id = false := by
  rw [hasOrder_eq_isSome, order?_withoutOrder, if_pos rfl]
  rfl

end Store

namespace Shop

variable {settings : Settings} {call : Call} {s t : Store} {id : String}

theorem Placed.order?_eq {d : Draft} (hplaced : Placed settings call d s t) :
    t.order? id = if id = d.order.id then some d.order else s.order? id := by
  have hnew := Store.order?_eq_none.mpr (Store.hasOrder_eq_false.mp hplaced.newOrder)
  obtain ⟨records, -, rfl⟩ := hplaced.after
  rw [Store.order?] at hnew ⊢
  rw [List.find?_append]
  split
  · next hid =>
      rw [hid, hnew]
      simp
  · next hid => simp [Store.order?, Ne.symm hid]

theorem Placed.keeps {catalog : Catalog} {r : OrderRequest} {d : Draft}
    (hplaced : Placed settings call d s t)
    (hsound : Draft.Sound catalog call.pricedAt call.ids r d) (hs : s.Intact)
    (hid : id ≠ d.order.id) : s.Keeps t id := by
  refine .of_order? ?_ ?_
  · rw [hplaced.order?_eq, if_neg hid]
  · rw [hplaced.linesOf_eq hsound hs, if_neg hid]

theorem Discarded.keeps {now : Time.Instant} {ids : Nat → String} {orderId : String}
    {es : List StockEntry} (hdiscarded : Discarded settings now ids orderId s t es)
    (hs : s.Intact) : s.Keeps t id ∨ t.hasOrder id = false := by
  rw [hdiscarded.after]
  by_cases hid : id = orderId
  · rw [hid]
    exact Or.inr (s.hasOrder_withoutOrder orderId)
  · exact Or.inl ((hs.keeps_withoutOrder hid).trans (.of_eq rfl rfl))

/-- An order that one deletion has taken away is not brought back by the next. -/
theorem DiscardedEach.keeps {now : Time.Instant} {ids : Nat → String} {orderIds : List String}
    {count : Nat} {es : List StockEntry}
    (hdiscarded : DiscardedEach settings now ids orderIds s t count es) (hs : s.Intact) :
    s.Keeps t id ∨ t.hasOrder id = false := by
  refine (hdiscarded.lift (R := fun s t => s.Intact →
    t.Intact ∧ (s.Keeps t id ∨ t.hasOrder id = false)) ?_ ?_ ?_ hs).2
  · intro s hs
    exact ⟨hs, Or.inl (.of_eq rfl rfl)⟩
  · intro s t u hfirst hrest hs
    obtain ⟨ht, hkept⟩ := hfirst hs
    obtain ⟨hu, hkeptAfter⟩ := hrest ht
    refine ⟨hu, ?_⟩
    rcases hkeptAfter with hkeeps | hgone
    · refine hkept.imp (fun h => h.trans hkeeps) fun hgone => ?_
      rw [hkeeps.hasOrder_eq, hgone]
    · exact Or.inr hgone
  · intro ids orderId s t es hdeleted hs
    exact ⟨hdeleted.intact hs, hdeleted.keeps hs⟩

/-- An action keeps every order whose id it does not give to an order of its own, or it is a
deletion that has deleted the order. -/
theorem Effect.keeps {action : Action} {answer : Answer}
    (heffect : Effect settings call s action answer t) (hs : s.Intact)
    (hid : s.hasOrder id = true ∨ id ≠ call.ids 0) :
    s.Keeps t id ∨ action.isDeletion = true ∧ t.hasOrder id = false := by
  cases heffect with
  | aside | catalogued | entered | purged => exact Or.inl (.of_eq rfl rfl)
  | placed hsound hplaced =>
      refine Or.inl (hplaced.keeps hsound hs ?_)
      rcases hid with hstored | hid
      · rintro rfl
        rw [hplaced.newOrder] at hstored
        cases hstored
      · rwa [hsound.id]
  | paid _ hpaid =>
      obtain ⟨records, -, rfl⟩ := hpaid.after
      exact Or.inl ((s.keeps_withStatus _ _ _ _ id).trans (.of_eq rfl rfl))
  | cancelled hreversed | refunded hreversed =>
      obtain ⟨o, -, -, rfl⟩ := hreversed
      exact Or.inl ((s.keeps_withStatus _ _ _ _ id).trans (.of_eq rfl rfl))
  | discarded hdiscarded => exact (hdiscarded.keeps hs).imp_right fun hgone => ⟨rfl, hgone⟩
  | reaped hdiscarded => exact (hdiscarded.keeps hs).imp_right fun hgone => ⟨rfl, hgone⟩

end Shop

end OrderLedger
