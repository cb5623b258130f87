import Mathlib.Logic.Function.Basic
import OrderLedger.Proofs.Calculations
import OrderLedger.Proofs.Store.Records
import OrderLedger.Proofs.Store.Statements
import OrderLedger.Proofs.Store.Statuses
import OrderLedger.Shop.Basic

/-!
The steps that the transactions of the shop share: finding an order, checking a move,
appending entries, and claiming the key of a call.
-/

namespace OrderLedger

open Work Calculation

/-- The ids of a call are distinct, and no row has one of them. -/
structure Call.IsFresh (call : Call) (s : Store) : Prop where
  distinct : Function.Injective call.ids
  orders : ∀ n, s.hasOrder (call.ids n) = false
  lines : ∀ n, s.hasLine (call.ids n) = false
  payments : ∀ n, ∀ p ∈ s.payments, p.id ≠ call.ids n
  entries : ∀ n, ∀ e ∈ s.entries, e.id ≠ call.ids n

namespace Shop

variable {settings : Settings} {call : Call} {s t : Store}

/-- Committed work leaves its store, and its events are published. -/
theorem commit_eq_ok {α : Type} {shop after : Shop}
    {work : Work ShopError (Closing (α × List StockEvent))} {a : α} :
    shop.commit work = (.ok a, after) ↔
      ∃ events t, transact work shop.store = (.ok (a, events), t) ∧
        after = { shop with store := t, feed := shop.feed.publishAll events } := by
  unfold commit
  rcases transact work shop.store with ⟨r, t⟩
  cases r with
  | error f => simp
  | ok pair =>
      obtain ⟨b, events⟩ := pair
      simp only [Prod.mk.injEq, Except.ok.injEq]
      constructor
      · rintro ⟨rfl, rfl⟩
        exact ⟨events, t, ⟨⟨rfl, rfl⟩, rfl⟩, rfl⟩
      · rintro ⟨_, _, ⟨⟨rfl, rfl⟩, rfl⟩, rfl⟩
        exact ⟨rfl, rfl⟩

/-- Work that fails leaves the shop as it was. -/
theorem commit_eq_error {α : Type} {shop after : Shop}
    {work : Work ShopError (Closing (α × List StockEvent))} {f : Fault ShopError}
    (h : shop.commit work = (.error f, after)) : after = shop := by
  unfold commit at h
  split at h
  · cases h
  · next e t htransact =>
      rw [transact_eq_error htransact] at h
      cases h
      rfl

/-- Work that fails is answered with its fault. -/
theorem commit_of_fails {α : Type} {shop : Shop}
    {work : Work ShopError (Closing (α × List StockEvent))} {f : Fault ShopError}
    (h : work.Fails shop.store f) : shop.commit work = (.error f, shop) := by
  rw [commit, transact_of_fails h]

theorem commit_error_iff {α : Type} {shop : Shop}
    {work : Work ShopError (Closing (α × List StockEvent))} {f : Fault ShopError} :
    (shop.commit work).1 = .error f ↔ work.Fails shop.store f := by
  rw [← transact_error_iff, commit]
  rcases transact work shop.store with ⟨r, t⟩
  cases r with
  | error e => simp
  | ok pair => simp

theorem fails_silently {α : Type} {work : Work ShopError (Closing α)} {f : Fault ShopError}
    (h : work.Fails s f) : (silently work).Fails s f := by
  rw [silently, fails_bind]
  exact Or.inl h

theorem yields_stored {α : Type} {work : Work StorageError α} {a : α} :
    (stored work).Yields s a t ↔ work.Yields s a t := yields_recast

theorem yields_findOrder {id : String} {o : Order} :
    (findOrder id).Yields s o t ↔ s.order? id = some o ∧ t = s := by
  simp only [findOrder, yields_bind, yields_get]
  constructor
  · rintro ⟨_, _, ⟨rfl, rfl⟩, h⟩
    split at h
    · next found hfound =>
        obtain ⟨rfl, rfl⟩ := yields_pure.mp h
        exact ⟨hfound, rfl⟩
    · exact absurd h yields_fail
  · rintro ⟨hfound, rfl⟩
    exact ⟨t, t, ⟨rfl, rfl⟩, by simp [hfound]⟩

theorem yields_checkMove {source target : Status} {u : Unit} :
    (checkMove source target).Yields s u t ↔ source.canMoveTo target = true ∧ t = s := by
  unfold checkMove Status.moveTo
  by_cases hmove : source.canMoveTo target = true <;> simp [hmove]

@[simp] theorem fails_findOrder {id : String} {f : Fault ShopError} :
    (findOrder id).Fails s f ↔ s.order? id = none ∧ f = .error (.notFound "Order" id) := by
  simp only [findOrder, fails_bind, fails_get, yields_get, false_or]
  constructor
  · rintro ⟨_, _, ⟨rfl, rfl⟩, h⟩
    split at h
    · exact absurd h fails_pure
    · next hnone => exact ⟨hnone, fails_fail.mp h⟩
  · rintro ⟨hnone, rfl⟩
    exact ⟨s, s, ⟨rfl, rfl⟩, by simp [hnone]⟩

@[simp] theorem fails_checkMove {source target : Status} {f : Fault ShopError} :
    (checkMove source target).Fails s f ↔
      source.canMoveTo target = false ∧ f = .error (.badMove source target) := by
  unfold checkMove Status.moveTo
  by_cases hmove : source.canMoveTo target = true <;> simp [hmove, ShopError.ofRule]

/-- Appended entries stand at the end of the ledger, and the events tell what they
change there. -/
theorem yields_appendWork {es : List StockEntry} {now : Time.Instant} {events : List StockEvent}
    (h : (appendWork es now).Yields s events t) :
    t = { s with entries := s.entries ++ es } ∧ (Store.events es now).Yields t events t := by
  simp only [appendWork, yields_bind, yields_stored, Store.yields_appendEntries] at h
  obtain ⟨_, u, ⟨rfl, -, -⟩, hevents⟩ := h
  have hsame := Store.yields_events hevents
  subst hsame
  exact ⟨rfl, hevents⟩

/-- Entries that may be appended are appended where their events can be told. -/
theorem exists_appendWork {es : List StockEntry} {now : Time.Instant}
    (happend : (Store.appendEntries es).Yields s () { s with entries := s.entries ++ es })
    (hevents : ∃ told, (Store.events es now).Yields { s with entries := s.entries ++ es } told
      { s with entries := s.entries ++ es }) :
    ∃ told, (appendWork es now).Yields s told { s with entries := s.entries ++ es } := by
  obtain ⟨told, htold⟩ := hevents
  refine ⟨told, ?_⟩
  simp only [appendWork, yields_bind, yields_stored]
  exact ⟨(), _, happend, htold⟩

/-- Where entries may be appended, only the telling of their events can fail. -/
theorem fails_appendWork {es : List StockEntry} {now : Time.Instant} {f : Fault ShopError}
    (happend : (Store.appendEntries es).Yields s () { s with entries := s.entries ++ es })
    (h : (appendWork es now).Fails s f) :
    ∃ cause, (Store.events es now).Fails { s with entries := s.entries ++ es } cause ∧
      f = cause.map .ofStorage := by
  rw [appendWork, fails_bind] at h
  rcases h with happended | ⟨_, t, happended, htold⟩
  · obtain ⟨cause, happended, -⟩ := fails_recast.mp happended
    exact absurd happended happend.not_fails
  · rw [(happend.unique (yields_stored.mp happended)).2] at htold
    exact fails_recast.mp htold

/-- Work that publishes nothing is the same transaction with no events. -/
theorem transact_silently {α : Type} {work : Work ShopError (Closing α)} {a : α}
    {events : List StockEvent} :
    transact (silently work) s = (.ok (a, events), t) ↔
      events = [] ∧ transact work s = (.ok a, t) := by
  simp only [transact_eq_ok, silently, yields_bind]
  constructor
  · rintro ⟨_, _, ⟨closing, u, hwork, h⟩, hkept⟩
    cases closing with
    | commit b =>
        obtain ⟨rfl, rfl⟩ := yields_pure.mp h
        cases hkept
        exact ⟨rfl, _, _, hwork, rfl⟩
    | rollback b =>
        obtain ⟨rfl, rfl⟩ := yields_pure.mp h
        cases hkept
        exact ⟨rfl, _, _, hwork, rfl⟩
  · rintro ⟨rfl, closing, u, hwork, hkept⟩
    cases closing with
    | commit b =>
        cases hkept
        exact ⟨_, _, ⟨_, _, hwork, yields_pure.mpr ⟨rfl, rfl⟩⟩, rfl⟩
    | rollback b =>
        cases hkept
        exact ⟨_, _, ⟨_, _, hwork, yields_pure.mpr ⟨rfl, rfl⟩⟩, rfl⟩

theorem silently_feed {α : Type} (work : Work ShopError (Closing α)) (shop : Shop) :
    (shop.commit (silently work)).2.feed = shop.feed := by
  rcases hcommit : shop.commit (silently work) with ⟨answer, after⟩
  cases answer with
  | error f => rw [commit_eq_error hcommit]
  | ok a =>
      obtain ⟨events, t, htransact, rfl⟩ := commit_eq_ok.mp hcommit
      rw [(transact_silently.mp htransact).1]
      rfl

/-- A moved order keeps its id, so it is found under it with its new status. -/
theorem order?_withStatus {id : String} {source : Status} {o : Order} (target : Status)
    (now : Time.Instant) (hfound : s.order? id = some o) (hstatus : o.status = source) :
    (s.withStatus id source target now).order? id =
      some { o with status := target, updatedAt := now } := by
  have hid := (Store.order?_eq_some hfound).2
  rw [Store.order?_withStatus_map, hfound, Option.map_some, hid, hstatus]
  simp

/-- The records after a call has claimed its key for an answer: no live record held the
key. A call without a key claims nothing. -/
def Claims (settings : Settings) (scope : String) (key : Option String) (payload : List UInt8)
    (now : Time.Instant) (s : Store) (records : List Remembered) : Prop :=
  match key with
  | none => records = s.remembered
  | some key =>
      ∃ expiresAt, settings.lifetime >>= Remembered.expiry now = .ok expiresAt ∧
        s.live? scope key now = none ∧
        records = (s.withRemembered ⟨scope, key, payload, now, expiresAt⟩).remembered

/-- Nothing stands in the way of a call's key: no live record holds it, neither when the call
looks nor when it writes, and the expiry of a record of its own can be told. -/
structure IsFirst (settings : Settings) (call : Call) (s : Store) (scope : String)
    (key : Option String) : Prop where
  unanswered : ∀ k, key = some k → s.live? scope k call.lookedUpAt = none
  unclaimed : ∀ k, key = some k → s.live? scope k call.now = none
  expires : ∀ k, key = some k →
    ∃ expiresAt, settings.lifetime >>= Remembered.expiry call.now = .ok expiresAt

theorem IsFirst.claims {scope : String} {key : Option String}
    (h : IsFirst settings call s scope key) (payload : List UInt8) :
    ∃ records, Claims settings scope key payload call.now s records := by
  cases key with
  | none => exact ⟨s.remembered, rfl⟩
  | some k =>
      obtain ⟨expiresAt, hexpiry⟩ := h.expires k rfl
      exact ⟨_, expiresAt, hexpiry, h.unclaimed k rfl, rfl⟩

theorem IsFirst.earlier? {α : Type} [Wire α] {scope : String} {key : Option String}
    (h : IsFirst settings call s scope key) :
    earlier? (α := α) s scope key call.lookedUpAt = .ok none := by
  cases key with
  | none => rfl
  | some k => simp only [Shop.earlier?, h.unanswered k rfl]

/-- A call's key is held by a live record, whose answer is given. -/
def Lost {α : Type} [Wire α] (scope : String) (key : Option String) (now : Time.Instant)
    (s : Store) (o : Outcome α) : Prop :=
  ∃ k r, key = some k ∧ s.live? scope k now = some r ∧ replay r = .ok o

theorem replay_eq_ok {α : Type} [Wire α] {r : Remembered} {o : Outcome α} :
    replay r = .ok o ↔ Remembered.valueOf? r.payload = some o.receipt ∧ o.replayed = true := by
  obtain ⟨receipt, replayed⟩ := o
  unfold replay
  cases hvalue : Remembered.valueOf? (α := α) r.payload with
  | none => simp
  | some found => simp [eq_comm]

theorem Lost.replayed {α : Type} [Wire α] {scope : String} {key : Option String}
    {now : Time.Instant} {o : Outcome α} (h : Lost scope key now s o) : o.replayed = true := by
  obtain ⟨_, _, _, _, hreplay⟩ := h
  exact (replay_eq_ok.mp hreplay).2

theorem earlier?_eq_some {α : Type} [Wire α] {scope : String} {key : Option String}
    {now : Time.Instant} {o : Outcome α} (h : earlier? s scope key now = .ok (some o)) :
    Lost scope key now s o := by
  unfold earlier? at h
  split at h
  · cases h
  · next key =>
      split at h
      · cases h
      · next r hlive =>
          obtain ⟨o', hreplay, ho⟩ := map_eq_ok.mp h
          cases ho
          exact ⟨key, r, rfl, hlive, hreplay⟩

theorem yields_claim {α : Type} [Wire α] {scope : String} {key : Option String}
    {payload : List UInt8} {now : Time.Instant} {answer : Option (Outcome α)}
    (h : (claim settings scope key payload now).Yields s answer t) :
    (answer = none ∧ ∃ records, Claims settings scope key payload now s records ∧
      t = { s with remembered := records }) ∨
    ∃ o, answer = some o ∧ Lost scope key now s o ∧ t = s := by
  cases key with
  | none =>
      obtain ⟨rfl, rfl⟩ := yields_pure.mp h
      exact Or.inl ⟨rfl, t.remembered, rfl, rfl⟩
  | some key =>
      simp only [claim, yields_bind, yields_calculate, Store.yields_claim] at h
      obtain ⟨lifetime, _, ⟨hlifetime, rfl⟩, expiresAt, _, ⟨hexpiry, rfl⟩, ⟨r, isNew⟩, u, hclaim,
        h⟩ := h
      rcases hclaim with ⟨holder, hlive, heq, rfl⟩ | ⟨hfree, heq, rfl⟩
      · cases heq
        simp only [Bool.false_eq_true, if_false] at h
        split at h
        · next o hreplay =>
            obtain ⟨rfl, rfl⟩ := yields_pure.mp h
            exact Or.inr ⟨o, rfl, ⟨key, r, rfl, hlive, hreplay⟩, rfl⟩
        · exact absurd h yields_fail
      · cases heq
        obtain ⟨rfl, rfl⟩ := yields_pure.mp h
        refine Or.inl ⟨rfl, _, ⟨expiresAt, ?_, hfree, rfl⟩, Store.withRemembered_eq _ _⟩
        rw [bind_eq_ok]
        exact ⟨lifetime, hlifetime, hexpiry⟩

/-- A key that may be claimed is claimed. -/
theorem yields_claim_of_claims {α : Type} [Wire α] {scope : String} {key : Option String}
    {payload : List UInt8} {now : Time.Instant} {records : List Remembered}
    (h : Claims settings scope key payload now s records) :
    (claim (α := α) settings scope key payload now).Yields s none
      { s with remembered := records } := by
  cases key with
  | none =>
      obtain rfl : records = s.remembered := h
      exact yields_pure.mpr ⟨rfl, rfl⟩
  | some k =>
      obtain ⟨expiresAt, hexpiry, hfree, rfl⟩ := h
      obtain ⟨lifetime, hlifetime, hexpiry⟩ := bind_eq_ok.mp hexpiry
      simp only [claim, yields_bind, yields_calculate, Store.yields_claim]
      refine ⟨lifetime, s, ⟨hlifetime, rfl⟩, expiresAt, s, ⟨hexpiry, rfl⟩, _, _,
        Or.inr ⟨hfree, rfl, rfl⟩, ?_⟩
      exact yields_pure.mpr ⟨rfl, (Store.withRemembered_eq _ _).symm⟩

end Shop

end OrderLedger
