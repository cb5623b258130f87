import OrderLedger.Proofs.Placing.Floor
import OrderLedger.Proofs.Remembered.Claims

/-!
The record of an attempt. Nothing but a call of the attempt itself writes it, and while it
is live nothing deletes it; and nothing else inserts an order of the attempt.
-/

namespace OrderLedger

open Work Calculation Remembered

/-- An action is a whole call that places an order for an attempt. -/
def Action.PlacesFor (key : String) : Action → Prop
  | .operate (.place r) => r.attemptId = some key
  | _ => False

/-- The orders of an attempt whose ids are new in a store that came from another one. -/
def Store.insertedFor (key : String) (s t : Store) : List Order :=
  t.orders.filter fun o => o.attemptId == some key && !s.hasOrder o.id

namespace Store

variable {s t : Store} {key : String}

theorem insertedFor_eq_nil
    (h : ∀ o ∈ t.orders, o.attemptId = some key → s.hasOrder o.id = true) :
    insertedFor key s t = [] := by
  rw [insertedFor, List.filter_eq_nil_iff]
  intro o ho
  by_cases hkey : o.attemptId = some key
  · simp [h o ho hkey]
  · simp [hkey]

/-- Where all orders were there before, none is inserted. -/
theorem insertedFor_of_subset (h : ∀ o ∈ t.orders, o ∈ s.orders) : insertedFor key s t = [] := by
  apply insertedFor_eq_nil
  intro o ho _
  exact hasOrder_eq_true.mpr ⟨o, h o ho, rfl⟩

theorem insertedFor_self (key : String) (s : Store) : insertedFor key s s = [] :=
  insertedFor_of_subset fun _ ho => ho

theorem insertedFor_withStatus {id : String} {source target : Status} {now : Time.Instant}
    (horders : t.orders = (s.withStatus id source target now).orders) :
    insertedFor key s t = [] := by
  apply insertedFor_eq_nil
  intro o ho _
  have hid := List.mem_map_of_mem (f := (·.id)) ho
  rwa [horders, ids_withStatus, ← hasOrder_iff_mem] at hid

end Store

namespace Shop

variable {settings : Settings} {call : Call} {s t : Store} {key : String}

/-- The order that a call places for an attempt is the one order that is inserted for it. -/
theorem Placed.insertedFor {d : Draft} (hplaced : Placed settings call d s t) :
    Store.insertedFor key s t = if d.order.attemptId = some key then [d.order] else [] := by
  obtain ⟨records, -, rfl⟩ := hplaced.after
  have hold : (s.orders.filter fun o => o.attemptId == some key && !s.hasOrder o.id) = [] := by
    rw [List.filter_eq_nil_iff]
    intro o ho
    simp [Store.hasOrder_eq_true.mpr ⟨o, ho, rfl⟩]
  rw [Store.insertedFor, List.filter_append, hold, List.nil_append]
  split
  · next hkey => simp [hkey, hplaced.newOrder]
  · next hkey => simp [hkey]

/-- An action that is not a call of an attempt leaves the record of the attempt, unless that
has expired, and inserts no order for it. -/
theorem Effect.attempt {action : Action} {answer : Answer}
    (heffect : Effect settings call s action answer t) (hother : ¬ action.PlacesFor key)
    (hlive : ∀ r, s.remembered? placingScope key = some r → r.isLive call.now = true) :
    t.remembered? placingScope key = s.remembered? placingScope key ∧
      Store.insertedFor key s t = [] := by
  have hsame : Store.insertedFor key s s = [] := Store.insertedFor_self key s
  cases heffect with
  | aside marks => exact ⟨rfl, hsame⟩
  | catalogued => exact ⟨rfl, hsame⟩
  | placed hsound hplaced =>
      have hne : _ ≠ some key := fun hkey => hother (hsound.attempt.symm.trans hkey)
      rw [hplaced.insertedFor, if_neg hne]
      obtain ⟨records, hclaims, rfl⟩ := hplaced.after
      exact ⟨hclaims.remembered?_other (Or.inr hne) rfl, rfl⟩
  | paid _ hpaid =>
      obtain ⟨records, hclaims, rfl⟩ := hpaid.after
      exact ⟨hclaims.remembered?_other (Or.inl (by decide)) rfl,
        Store.insertedFor_withStatus rfl⟩
  | cancelled hreversed =>
      obtain ⟨o, -, -, rfl⟩ := hreversed
      exact ⟨rfl, Store.insertedFor_withStatus rfl⟩
  | refunded hreversed =>
      obtain ⟨o, -, -, rfl⟩ := hreversed
      exact ⟨rfl, Store.insertedFor_withStatus rfl⟩
  | discarded hdiscarded =>
      rw [hdiscarded.after]
      exact ⟨rfl, Store.insertedFor_of_subset fun _ ho => List.mem_of_mem_filter ho⟩
  | reaped hdiscarded =>
      refine ⟨?_, Store.insertedFor_of_subset fun o ho => hdiscarded.orders_subset ho⟩
      rw [Store.remembered?, hdiscarded.remembered_eq, Store.remembered?]
  | entered => exact ⟨rfl, hsame⟩
  | purged => exact ⟨Store.remembered?_filter_isLive hlive, hsame⟩

end Shop

end OrderLedger
