import OrderLedger.Proofs.Integrity

/-!
Records under their keys, action by action. A call with a key claims it for its answer, where no
live record holds it. No other action writes a record, and none touches a record that is live.
-/

namespace OrderLedger

open Work Calculation Remembered

namespace Action

/-- The scope and the key of a call that wants its answer kept. -/
def key? : Action → Option (String × String)
  | .operate (.place r) => r.attemptId.map fun key => (placingScope, key)
  | .operate (.pay _ _ key) => key.map fun key => (payingScope, key)
  | _ => none

theorem key?_place {r : OrderRequest} {scope key : String} :
    key? (.operate (.place r)) = some (scope, key) ↔
      r.attemptId = some key ∧ scope = placingScope := by
  simp [key?, eq_comm, and_comm]

theorem key?_pay {id : String} {tenders : List Tender} {own : Option String}
    {scope key : String} :
    key? (.operate (.pay id tenders own)) = some (scope, key) ↔
      own = some key ∧ scope = payingScope := by
  simp [key?, eq_comm, and_comm]

/-- A call that wants its answer kept places an order for an attempt, or pays with a key. -/
theorem exists_of_key? {action : Action} {scope key : String}
    (h : action.key? = some (scope, key)) :
    (scope = placingScope ∧ ∃ r, r.attemptId = some key ∧ action = .operate (.place r)) ∨
      scope = payingScope ∧ ∃ id tenders, action = .operate (.pay id tenders (some key)) := by
  cases action with
  | operate operation =>
      cases operation with
      | place r =>
          obtain ⟨hattempt, rfl⟩ := key?_place.mp h
          exact Or.inl ⟨rfl, r, hattempt, rfl⟩
      | pay id tenders own =>
          obtain ⟨rfl, rfl⟩ := key?_pay.mp h
          exact Or.inr ⟨rfl, id, tenders, rfl⟩
      | _ => cases h
  | _ => cases h

end Action

namespace Shop

variable {settings : Settings} {call : Call} {s t : Store} {scope key : String}

/-- The records after a claim: those from before, and the one of the call if it has a key. -/
theorem Claims.mem_cases {scope : String} {key : Option String} {payload : List UInt8}
    {now : Time.Instant} {records : List Remembered}
    (h : Claims settings scope key payload now s records) {r : Remembered} (hr : r ∈ records) :
    r ∈ s.remembered ∨
      key = some r.key ∧ r.scope = scope ∧ r.payload = payload ∧
        s.live? scope r.key now = none := by
  cases key with
  | none =>
      obtain rfl : records = s.remembered := h
      exact Or.inl hr
  | some key =>
      obtain ⟨expiresAt, -, hfree, rfl⟩ := h
      rcases Store.mem_withRemembered.mp hr with rfl | ⟨hr, -⟩
      · exact Or.inr ⟨rfl, rfl, rfl, hfree⟩
      · exact Or.inl hr

theorem Claims.remembered?_other {claimed : String} {own : Option String}
    {payload : List UInt8} {now : Time.Instant} {records : List Remembered}
    (h : Claims settings claimed own payload now s records)
    (hother : claimed ≠ scope ∨ own ≠ some key) (ht : t.remembered = records) :
    t.remembered? scope key = s.remembered? scope key := by
  cases own with
  | none =>
      obtain rfl : records = s.remembered := h
      rw [Store.remembered?, ht]
      rfl
  | some own =>
      obtain ⟨expiresAt, -, -, rfl⟩ := h
      rw [Store.remembered?, ht]
      apply Store.remembered?_withRemembered_other
      rw [← Bool.not_eq_true, Remembered.isUnder_iff]
      rintro ⟨hscope, hkey⟩
      rcases hother with hne | hne
      · exact hne hscope
      · exact hne (congrArg some hkey)

theorem Claims.remembered?_self {payload : List UInt8} {now : Time.Instant}
    {records : List Remembered} (h : Claims settings scope (some key) payload now s records)
    (hnone : s.remembered? scope key = none) (ht : t.remembered = records) :
    ∃ r, t.remembered? scope key = some r ∧ r.payload = payload := by
  obtain ⟨expiresAt, -, -, rfl⟩ := h
  refine ⟨⟨scope, key, payload, now, expiresAt⟩, ?_, rfl⟩
  rw [Store.remembered?, ht]
  exact Store.remembered?_withRemembered_self (r := ⟨scope, key, payload, now, expiresAt⟩) hnone

/-- A claim leaves the record under a key, or it is the claim of that key and the record was
not live. -/
theorem Claims.remembered?_cases {claimed : String} {own : Option String} {payload : List UInt8}
    {now : Time.Instant} {records : List Remembered}
    (h : Claims settings claimed own payload now s records) (ht : t.remembered = records) :
    t.remembered? scope key = s.remembered? scope key ∨
      own = some key ∧ claimed = scope ∧ s.live? scope key now = none := by
  by_cases hother : claimed ≠ scope ∨ own ≠ some key
  · exact Or.inl (h.remembered?_other hother ht)
  · simp only [not_or, not_not] at hother
    obtain ⟨rfl, rfl⟩ := hother
    obtain ⟨expiresAt, -, hfree, -⟩ := h
    exact Or.inr ⟨rfl, rfl, hfree⟩

theorem Claims.remembered?_claimed {payload : List UInt8} {now : Time.Instant}
    {records : List Remembered} (h : Claims settings scope (some key) payload now s records)
    (hs : s.KeysDistinct) (ht : t.remembered = records) :
    ∃ expiresAt, settings.lifetime >>= Remembered.expiry now = .ok expiresAt ∧
      t.remembered? scope key = some ⟨scope, key, payload, now, expiresAt⟩ := by
  obtain ⟨expiresAt, hexpiry, -, rfl⟩ := h
  refine ⟨expiresAt, hexpiry, ?_⟩
  have hdistinct := hs.withRemembered ⟨scope, key, payload, now, expiresAt⟩
  have hfound := hdistinct.remembered?_of_mem (Store.mem_withRemembered.mpr (Or.inl rfl))
  rw [Store.remembered?, ht]
  exact hfound

/-- An action leaves no record that was not there, or it is a call that has claimed the key of the
record for its receipt. -/
theorem Effect.mem_remembered {action : Action} {answer : Answer}
    (heffect : Effect settings call s action answer t) {x : Remembered} (hx : x ∈ t.remembered) :
    x ∈ s.remembered ∨
      (x.scope = placingScope ∧ ∃ r d, action = .operate (.place r) ∧
        r.attemptId = some x.key ∧ answer = .ok (.placed ⟨d.receipt, false⟩) ∧
        Draft.Sound (s.catalogOf r.productIds) call.pricedAt call.ids r d ∧
        Placed settings call d s t ∧ x.payload = payloadOf d.receipt) ∨
      (x.scope = payingScope ∧ ∃ id tenders receipt,
        action = .operate (.pay id tenders (some x.key)) ∧
        answer = (report ⟨receipt, false⟩).map .paid ∧ checkKey (some x.key) = .ok () ∧
        Paid settings call id tenders (some x.key) receipt s t ∧ x.payload = payloadOf receipt ∧
        s.live? payingScope x.key call.now = none) := by
  cases heffect with
  | aside | catalogued | entered => exact Or.inl hx
  | @placed r d _ hsound hplaced =>
      obtain ⟨records, hclaims, ht⟩ := hplaced.after
      rw [ht] at hx
      rcases hclaims.mem_cases hx with hold | ⟨hkey, hscope, hpayload, -⟩
      · exact Or.inl hold
      · exact Or.inr (Or.inl ⟨hscope, r, d, rfl, hsound.attempt.symm.trans hkey, rfl, hsound,
          hplaced, hpayload⟩)
  | @paid id tenders key receipt _ hchecked hpaid =>
      obtain ⟨records, hclaims, ht⟩ := hpaid.after
      rw [ht] at hx
      rcases hclaims.mem_cases hx with hold | ⟨rfl, hscope, hpayload, hfree⟩
      · exact Or.inl hold
      · exact Or.inr (Or.inr ⟨hscope, id, tenders, receipt, rfl, rfl, hchecked.2, hpaid, hpayload,
          hfree⟩)
  | cancelled hreversed | refunded hreversed =>
      obtain ⟨o, -, -, rfl⟩ := hreversed
      exact Or.inl hx
  | discarded hdiscarded =>
      rw [hdiscarded.after] at hx
      exact Or.inl hx
  | reaped hdiscarded =>
      rw [hdiscarded.remembered_eq] at hx
      exact Or.inl hx
  | purged => exact Or.inl (List.mem_of_mem_filter hx)

/-- An action leaves the record under a key, unless the record was not live. Then a purge may
have deleted it, or a call with the key may have written over it. -/
theorem Effect.remembered?_cases {action : Action} {answer : Answer}
    (heffect : Effect settings call s action answer t) (hs : s.KeysDistinct)
    (scope key : String) : t.remembered? scope key = s.remembered? scope key ∨
      s.live? scope key call.now = none ∧
        (action = .operate .purge ∧ t.remembered? scope key = none ∨
          action.key? = some (scope, key)) := by
  cases heffect with
  | aside | catalogued | entered => exact Or.inl rfl
  | placed hsound hplaced =>
      obtain ⟨records, hclaims, ht⟩ := hplaced.after
      have hrecords : t.remembered = records := congrArg Store.remembered ht
      refine (hclaims.remembered?_cases hrecords).imp_right ?_
      rintro ⟨hkey, rfl, hfree⟩
      exact ⟨hfree, Or.inr (Action.key?_place.mpr ⟨hsound.attempt.symm.trans hkey, rfl⟩)⟩
  | paid _ hpaid =>
      obtain ⟨records, hclaims, ht⟩ := hpaid.after
      have hrecords : t.remembered = records := congrArg Store.remembered ht
      refine (hclaims.remembered?_cases hrecords).imp_right ?_
      rintro ⟨hkey, rfl, hfree⟩
      exact ⟨hfree, Or.inr (Action.key?_pay.mpr ⟨hkey, rfl⟩)⟩
  | cancelled hreversed | refunded hreversed =>
      obtain ⟨o, -, -, rfl⟩ := hreversed
      exact Or.inl rfl
  | discarded hdiscarded =>
      rw [hdiscarded.after]
      exact Or.inl rfl
  | reaped hdiscarded =>
      rw [Store.remembered?, hdiscarded.remembered_eq, ← Store.remembered?]
      exact Or.inl rfl
  | purged =>
      cases hlive : s.live? scope key call.now with
      | some x =>
          obtain ⟨hx, rfl, rfl, hisLive⟩ := Store.live?_eq_some hlive
          refine Or.inl (Store.remembered?_filter_isLive fun r hr => ?_)
          rw [hs.remembered?_of_mem hx, Option.some.injEq] at hr
          rw [← hr]
          exact hisLive
      | none =>
          refine Or.inr ⟨rfl, Or.inl ⟨rfl, Store.remembered?_eq_none.mpr fun x hx => ?_⟩⟩
          obtain ⟨hmem, hisLive⟩ := List.mem_filter.mp hx
          rw [← Bool.not_eq_true]
          intro hunder
          rw [Store.live?_eq_none.mp hlive x hmem hunder] at hisLive
          cases hisLive

/-- A record stays, unless it is not live for a purge or a call with its key. -/
theorem Effect.keeps_live {action : Action} {answer : Answer}
    (heffect : Effect settings call s action answer t) (hs : s.KeysDistinct) {x : Remembered}
    (hx : s.remembered? scope key = some x)
    (hlive : action = .operate .purge ∨ action.key? = some (scope, key) →
      x.isLive call.now = true) : t.remembered? scope key = some x := by
  rcases heffect.remembered?_cases hs scope key with hsame | ⟨hnone, haction⟩
  · exact hsame.trans hx
  · rw [Store.live?_of_remembered? hx (hlive (haction.imp_left And.left))] at hnone
    cases hnone

end Shop

end OrderLedger
