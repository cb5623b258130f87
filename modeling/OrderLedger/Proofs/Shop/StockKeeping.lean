import OrderLedger.Proofs.Shop.Basic
import OrderLedger.Shop.HandingOver
import OrderLedger.Shop.StockKeeping

/-!
The transactions that touch no order. Appending writes its entries and nothing else,
handing over adds marks. A single entry is told by a single event, so that a person who
enters one always gets an answer.
-/

namespace OrderLedger

open Work Calculation

namespace Store

theorem yields_events_singleton {e : StockEntry} {now : Time.Instant} {s t : Store}
    {events : List StockEvent} (h : (Store.events [e] now).Yields s events t) :
    ∃ event, events = [event] := by
  simp only [Store.events, yields_bind, yields_calculate, yields_ask, yields_pure] at h
  obtain ⟨deltas, _, ⟨hdeltas, rfl⟩, stock, _, -, rfl, -⟩ := h
  rw [require_eq_ok] at hdeltas
  simp only [Tally.of?, StockEntry.changes, List.map_cons, List.map_nil, Tally.addAll?,
    Tally.add?, Option.bind_eq_some_iff, Option.map_eq_some_iff, Option.some.injEq] at hdeltas
  obtain ⟨_, ⟨sum, -, rfl⟩, rfl⟩ := hdeltas
  exact ⟨_, rfl⟩

/-- Where nothing was appended, there is nothing to tell. -/
theorem yields_events_nil (s : Store) (now : Time.Instant) :
    (Store.events [] now).Yields s [] s := by
  simp only [Store.events, yields_bind, yields_calculate, yields_ask, yields_pure]
  refine ⟨[], s, ⟨rfl, rfl⟩, [], s, ⟨?_, rfl⟩, rfl, rfl⟩
  simp [stockOfMany, distinctSorted, Tally.keys, StockEntry.changes, Tally.addAll?]

end Store

namespace Shop

variable {call : Call} {shop after : Shop}

theorem append_eq_ok {entries : List StockEntry} {events : List StockEvent}
    (h : shop.append call entries = (.ok events, after)) :
    after = { shop with
      store := { shop.store with entries := shop.store.entries ++ entries }
      feed := shop.feed.publishAll events } ∧
      (Store.events entries call.now).Yields after.store events after.store := by
  unfold append at h
  split at h
  · next hempty =>
      cases h
      rw [List.isEmpty_iff.mp hempty, List.append_nil]
      exact ⟨rfl, Store.yields_events_nil _ _⟩
  · obtain ⟨told, t, htransact, rfl⟩ := commit_eq_ok.mp h
    obtain ⟨closing, u, hwork, hkept⟩ := transact_eq_ok.mp htransact
    simp only [yields_bind, yields_pure] at hwork
    obtain ⟨_, _, happend, rfl, rfl⟩ := hwork
    cases hkept
    obtain ⟨rfl, hevents⟩ := yields_appendWork happend
    exact ⟨rfl, hevents⟩

theorem append_eq_error {entries : List StockEntry} {f : Fault ShopError}
    (h : shop.append call entries = (.error f, after)) : after = shop := by
  unfold append at h
  split at h
  · cases h
  · exact commit_eq_error h

variable {productId actor : String} {delta : Int} {reason : Reason}

theorem enter_eq_ok {event : StockEvent}
    (h : shop.enter call productId delta reason actor = (.ok event, after)) :
    after = { shop with
      store := { shop.store with
        entries := shop.store.entries ++
          [manualEntry shop.settings call productId delta reason actor] }
      feed := shop.feed.publishAll [event] } ∧
      (Store.events [manualEntry shop.settings call productId delta reason actor]
        call.now).Yields after.store [event] after.store := by
  unfold enter at h
  split at h
  · cases h
  · split at h
    · cases h
    · split at h
      · next happend =>
          cases h
          obtain ⟨hafter, hevents⟩ := append_eq_ok happend
          obtain ⟨only, honly⟩ := Store.yields_events_singleton hevents
          cases honly
          exact ⟨hafter, hevents⟩
      · cases h
      · cases h

/-- An entry that fails has not been appended: whatever was appended is told by an event. -/
theorem enter_eq_error {f : Fault ShopError}
    (h : shop.enter call productId delta reason actor = (.error f, after)) : after = shop := by
  unfold enter at h
  split at h
  · cases h
    rfl
  · split at h
    · cases h
      rfl
    · split at h
      · cases h
      · next happend =>
          obtain ⟨event, hevent⟩ := Store.yields_events_singleton (append_eq_ok happend).2
          cases hevent
      · next happend =>
          rw [append_eq_error happend] at h
          cases h
          rfl

/-- Handing over writes marks and publishes nothing. -/
theorem transact_handOver {now : Time.Instant} {ids : Nat → String} {lineIds : List String}
    {s t : Store} {count : Nat} {events : List StockEvent}
    (h : transact (silently (do return .commit (← stored (Store.handOver now ids lineIds)))) s =
      (.ok (count, events), t)) :
    ∃ marks, t = { s with handOvers := s.handOvers ++ marks } := by
  obtain ⟨-, hmark⟩ := transact_silently.mp h
  obtain ⟨closing, u, hwork, hkept⟩ := transact_eq_ok.mp hmark
  simp only [yields_bind, yields_stored, yields_pure] at hwork
  obtain ⟨_, _, hmarks, rfl, rfl⟩ := hwork
  cases hkept
  exact Store.yields_handOver hmarks

theorem transact_handOverOrderWork {orderId : String} {s t : Store} {count : Nat}
    {events : List StockEvent}
    (h : transact (silently (handOverOrderWork call orderId)) s = (.ok (count, events), t)) :
    ∃ marks, t = { s with handOvers := s.handOvers ++ marks } := by
  obtain ⟨-, hmark⟩ := transact_silently.mp h
  obtain ⟨closing, u, hwork, hkept⟩ := transact_eq_ok.mp hmark
  simp only [handOverOrderWork, yields_bind, yields_findOrder] at hwork
  obtain ⟨o, _, ⟨-, rfl⟩, hwork⟩ := hwork
  split at hwork
  · simp at hwork
  · simp only [yields_bind, yields_get, yields_stored, yields_pure] at hwork
    obtain ⟨_, _, ⟨rfl, rfl⟩, _, _, hmarks, rfl, rfl⟩ := hwork
    cases hkept
    exact Store.yields_handOver hmarks

end Shop

end OrderLedger
