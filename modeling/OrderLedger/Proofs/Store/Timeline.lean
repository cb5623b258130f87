import OrderLedger.Proofs.Remembered.Lifetime
import OrderLedger.Proofs.Sorting
import OrderLedger.Proofs.Text.Bytes

/-!
The tables tell time by its text. In the years of four digits that is the time of the clock, up
to the last nanosecond: whether a record has expired is the same question for whoever asks it,
and every listing goes by the clock. Rows of one moment are listed as they were inserted, or in
the reverse of that where the newest come first.
-/

namespace OrderLedger.Store

open Time

section Listings

variable {α : Type} {time : α → Instant} {rows : List α}

/-- The rows in ascending time, and those of one time as they were inserted. -/
structure OldestFirst (time : α → Instant) (rows listed : List α) : Prop where
  perm : listed.Perm rows
  ascending : listed.Pairwise fun a b => time a ≤ time b
  stable : ∀ t, (listed.filter fun row => time row = t) = rows.filter fun row => time row = t

/-- The exact reverse of the rows with the oldest first, of which a limit keeps the first. -/
structure NewestFirst (time : α → Instant) (rows : List α) (listing : Nat → List α) : Prop where
  reversed : ∃ listed, OldestFirst time rows listed ∧
    ∀ limit, listing limit = listed.reverse.take limit
  longer : ∀ {limit more}, limit ≤ more → listing limit <+: listing more

theorem notAfter_trans {a b c : Instant} (hab : notAfter a b = true) (hbc : notAfter b c = true) :
    notAfter a c = true := by
  rw [notAfter, decide_eq_true_iff] at hab hbc ⊢
  exact String.le_trans hab hbc

theorem notAfter_total (a b : Instant) : (notAfter a b || notAfter b a) = true := by
  rw [Bool.or_eq_true, notAfter, notAfter, decide_eq_true_iff, decide_eq_true_iff]
  exact String.le_total _ _

theorem oldestFirst_chronological (hplain : ∀ row ∈ rows, (time row).IsPlain) :
    OldestFirst time rows (chronological time rows) := by
  have htrans : ∀ a b c : α, notAfter (time a) (time b) = true →
      notAfter (time b) (time c) = true → notAfter (time a) (time c) = true :=
    fun _ _ _ => notAfter_trans
  have htotal : ∀ a b : α, (notAfter (time a) (time b) || notAfter (time b) (time a)) = true :=
    fun _ _ => notAfter_total _ _
  have hperm := chronological_perm time rows
  refine ⟨hperm, (List.pairwise_mergeSort htrans htotal rows).imp_of_mem ?_, fun t => ?_⟩
  · intro a b ha hb hab
    exact (notAfter_iff (hplain a (hperm.mem_iff.mp ha)) (hplain b (hperm.mem_iff.mp hb))).mp hab
  · have hself := notAfter_total t t
    rw [Bool.or_self] at hself
    refine Sorting.filter_mergeSort htrans htotal rows fun a b ha hb => ?_
    rw [of_decide_eq_true ha, of_decide_eq_true hb]
    exact hself

theorem newestFirst_newestFirst (hplain : ∀ row ∈ rows, (time row).IsPlain) :
    NewestFirst time rows fun limit => newestFirst time limit rows := by
  refine ⟨⟨_, oldestFirst_chronological hplain, fun _ => rfl⟩, fun hlimit => ?_⟩
  exact List.take_prefix_take_left hlimit

/-- Rows that are selected by a column have plain times if all rows of that column have. -/
theorem selected_isPlain {κ : Type} [BEq κ] [LawfulBEq κ] {column : α → κ} {key : κ}
    (hplain : ∀ row ∈ rows, column row = key → (time row).IsPlain) :
    ∀ row ∈ rows.filter fun row => column row == key, (time row).IsPlain := by
  intro row hrow
  obtain ⟨hmem, hkey⟩ := List.mem_filter.mp hrow
  exact hplain row hmem (eq_of_beq hkey)

end Listings

section Records

variable {s : Store} {r : Remembered} {now : Instant}

/-- The time of a record is over: it has expired by its own account, a claim of its key writes
over it, a lookup passes it by, and a purge deletes it. -/
structure IsOver (s : Store) (r : Remembered) (now : Instant) : Prop where
  expired : r.isExpired now = true
  overwritten : ∀ (ε : Type) (payload : List UInt8) (expiresAt : Instant),
    (claim r.scope r.key payload now expiresAt : Work ε (Remembered × Bool)).Yields s
      (⟨r.scope, r.key, payload, now, expiresAt⟩, true)
      { s with
        remembered := s.remembered.map fun other =>
          if other = r then ⟨r.scope, r.key, payload, now, expiresAt⟩ else other }
  ignored : s.live? r.scope r.key now = none
  deleted : r ∉ (s.purge now).2.remembered

/-- A record stands: it has not expired by its own account, a claim of its key leaves everything
as it is and gets the record, a lookup finds it, and a purge keeps it. -/
structure Stands (s : Store) (r : Remembered) (now : Instant) : Prop where
  unexpired : r.isExpired now = false
  upheld : ∀ (ε : Type) (payload : List UInt8) (expiresAt : Instant),
    (claim r.scope r.key payload now expiresAt : Work ε (Remembered × Bool)).Yields s (r, false) s
  found : s.live? r.scope r.key now = some r
  kept : r ∈ (s.purge now).2.remembered

/-- Where keys are distinct, a record is written over in its place. -/
theorem KeysDistinct.withRemembered_eq_map (hs : s.KeysDistinct) (hr : r ∈ s.remembered)
    (x : Remembered) (hscope : x.scope = r.scope) (hkey : x.key = r.key) :
    s.withRemembered x =
      { s with remembered := s.remembered.map fun other => if other = r then x else other } := by
  have hunder : ∀ other ∈ s.remembered, other.isUnder x.scope x.key = true ↔ other = r := by
    intro other hother
    rw [Remembered.isUnder_iff, hscope, hkey]
    refine ⟨fun hsame => ?_, fun heq => heq ▸ ⟨rfl, rfl⟩⟩
    exact List.inj_on_of_nodup_map hs hother hr (by rw [hsame.1, hsame.2])
  rw [Store.withRemembered, if_pos (List.any_eq_true.mpr ⟨r, hr, (hunder r hr).mpr rfl⟩)]
  congr 1
  exact List.map_congr_left fun other hother => if_congr (hunder other hother) rfl rfl

theorem KeysDistinct.isOver (hs : s.KeysDistinct) (hr : r ∈ s.remembered)
    (hplain : r.expiresAt.IsPlain) (hnow : now.IsPlain) (hover : r.expiresAt ≤ now) :
    s.IsOver r now := by
  have hlive : r.isLive now = false := by
    rw [← Bool.not_eq_true, Remembered.isLive_iff hplain hnow]
    exact hover
  have hignored := hs.live?_eq_none (Or.inl (hs.remembered?_of_mem hr)) hlive
  refine ⟨decide_eq_true hover, fun ε payload expiresAt => ?_, hignored, fun hmem => ?_⟩
  · have hwritten := hs.withRemembered_eq_map hr ⟨r.scope, r.key, payload, now, expiresAt⟩ rfl rfl
    exact yields_claim.mpr (Or.inr ⟨hignored, rfl, hwritten.symm⟩)
  · have hkept := (List.mem_filter.mp hmem).2
    rw [hlive] at hkept
    cases hkept

theorem KeysDistinct.stands (hs : s.KeysDistinct) (hr : r ∈ s.remembered)
    (hplain : r.expiresAt.IsPlain) (hnow : now.IsPlain) (hstill : now < r.expiresAt) :
    s.Stands r now := by
  have hlive := (Remembered.isLive_iff hplain hnow).mpr hstill
  have hfound := live?_of_remembered? (hs.remembered?_of_mem hr) hlive
  refine ⟨decide_eq_false fun hover => hover hstill, fun ε payload expiresAt => ?_, hfound, ?_⟩
  · exact yields_claim.mpr (Or.inl ⟨r, hfound, rfl, rfl⟩)
  · exact List.mem_filter.mpr ⟨hr, hlive⟩

end Records

/-- Stored times sort as the moments do, so a record is over for all who ask or for none, and
listings go by the clock. -/
theorem stored_times_sort_as_times (s : Store) :
    (∀ a b : Instant, a.IsPlain → b.IsPlain →
      (Text.Utf8.bytes (Rfc3339.storedText a) < Text.Utf8.bytes (Rfc3339.storedText b) ↔ a < b) ∧
      (Rfc3339.storedText a = Rfc3339.storedText b ↔ a = b)) ∧
    (s.KeysDistinct → ∀ r ∈ s.remembered, ∀ now : Instant, r.expiresAt.IsPlain → now.IsPlain →
      r.expiresAt ≤ now ∧ s.IsOver r now ∨ now < r.expiresAt ∧ s.Stands r now) ∧
    (∀ attemptId, (∀ o ∈ s.orders, o.attemptId = some attemptId → o.createdAt.IsPlain) →
      OldestFirst (·.createdAt) (s.orders.filter fun o => o.attemptId == some attemptId)
        (s.ordersOfAttempt attemptId)) ∧
    (∀ orderId, (∀ p ∈ s.payments, p.orderId = orderId → p.paidAt.IsPlain) →
      OldestFirst (·.paidAt) (s.payments.filter fun p => p.orderId == orderId)
        (s.paymentsOf orderId)) ∧
    (∀ status, (∀ o ∈ s.orders, o.status = status → o.createdAt.IsPlain) →
      NewestFirst (·.createdAt) (s.orders.filter fun o => o.status == status)
        (s.ordersIn status)) ∧
    (∀ productId, (∀ e ∈ s.entries, e.productId = productId → e.createdAt.IsPlain) →
      NewestFirst (·.createdAt) (s.entries.filter fun e => e.productId == productId)
        (s.history productId)) := by
  refine ⟨fun a b ha hb => ⟨?_, ?_⟩, ?_, ?_, ?_, ?_, ?_⟩
  · rw [Text.Utf8.bytes_lt_iff, Rfc3339.storedText_lt_iff ha hb]
  · refine ⟨fun hsame => ?_, congrArg _⟩
    rcases Instant.lt_or_eq a b with h | h | h
    · exact absurd ((Rfc3339.storedText_lt_iff ha hb).mpr h) (hsame ▸ String.lt_irrefl _)
    · exact h
    · exact absurd ((Rfc3339.storedText_lt_iff hb ha).mpr h) (hsame ▸ String.lt_irrefl _)
  · intro hkeys r hr now hplain hnow
    by_cases hstill : now < r.expiresAt
    · exact Or.inr ⟨hstill, hkeys.stands hr hplain hnow hstill⟩
    · exact Or.inl ⟨hstill, hkeys.isOver hr hplain hnow hstill⟩
  · exact fun attemptId hplain => oldestFirst_chronological (selected_isPlain hplain)
  · exact fun orderId hplain => oldestFirst_chronological (selected_isPlain hplain)
  · exact fun status hplain => newestFirst_newestFirst (selected_isPlain hplain)
  · exact fun productId hplain => newestFirst_newestFirst (selected_isPlain hplain)

/-- Half a second after noon, and nanoseconds later. -/
def halfPastNoon (later : Nat) : Instant := ⟨20500, 43200, 500000000 + later⟩

/-- An answer that has just expired and one that lasts for another nanosecond. The order with
the longest fraction was inserted first, before two of one moment. -/
def closeCalls : Store :=
  { Store.empty with
    orders := [
      ⟨"third", none, none, ⟨0⟩, .pending, .storefront, some "cart", halfPastNoon 1, halfPastNoon 1⟩,
      ⟨"first", none, none, ⟨0⟩, .pending, .storefront, some "cart", halfPastNoon 0, halfPastNoon 1⟩,
      ⟨"second", none, none, ⟨0⟩, .paid, .storefront, some "cart", halfPastNoon 0, halfPastNoon 0⟩]
    remembered := [
      ⟨"order-create", "over", [], halfPastNoon 0, halfPastNoon 0⟩,
      ⟨"order-create", "lasting", [], halfPastNoon 0, halfPastNoon 1⟩] }

theorem times_of_closeCalls :
    closeCalls.KeysDistinct ∧ (halfPastNoon 0).IsPlain ∧ (halfPastNoon 1).IsPlain ∧
    Text.Utf8.bytes (Rfc3339.storedText (halfPastNoon 0)) <
      Text.Utf8.bytes (Rfc3339.storedText (halfPastNoon 1)) ∧
    closeCalls.IsOver ⟨"order-create", "over", [], halfPastNoon 0, halfPastNoon 0⟩
      (halfPastNoon 0) ∧
    closeCalls.Stands ⟨"order-create", "lasting", [], halfPastNoon 0, halfPastNoon 1⟩
      (halfPastNoon 0) ∧
    OldestFirst (·.createdAt) closeCalls.orders (closeCalls.ordersOfAttempt "cart") := by
  have hkeys : closeCalls.KeysDistinct := by
    unfold KeysDistinct
    decide
  have hnow : (halfPastNoon 0).IsPlain := by decide
  have hlater : (halfPastNoon 1).IsPlain := by decide
  obtain ⟨htexts, hrecords, hattempts, -⟩ := stored_times_sort_as_times closeCalls
  refine ⟨hkeys, hnow, hlater, (htexts _ _ hnow hlater).1.mpr (by decide), ?_, ?_, ?_⟩
  · rcases hrecords hkeys ⟨"order-create", "over", [], halfPastNoon 0, halfPastNoon 0⟩
      (by decide) _ hnow hnow with ⟨-, hover⟩ | ⟨hstill, -⟩
    · exact hover
    · exact absurd hstill (by decide)
  · rcases hrecords hkeys ⟨"order-create", "lasting", [], halfPastNoon 0, halfPastNoon 1⟩
      (by decide) _ hlater hnow with ⟨hover, -⟩ | ⟨-, hstands⟩
    · exact absurd hover (by decide)
    · exact hstands
  · exact hattempts "cart" (by decide)

end OrderLedger.Store
