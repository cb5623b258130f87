import OrderLedger.Proofs.Remembered.Lifetime
import OrderLedger.Proofs.Shop.Heedless
import OrderLedger.Proofs.Store.Agrees

/-!
Records of which some were purged. A record that is missing was not live when it was purged, and
so is not live at any later moment; lookups do not see it and claims write over it, as if it were
not there. So every action does the same with and without it.
-/

namespace OrderLedger

open Work Calculation Remembered

/-- A record that is over stays over, for the text of plain moments sorts as time does. -/
theorem Remembered.isLive_mono {r : Remembered} {now later : Time.Instant} (hnow : now.IsPlain)
    (hlater : later.IsPlain) (h : now ≤ later) (hover : r.isLive now = false) :
    r.isLive later = false := by
  have horder := (Store.notAfter_iff hnow hlater).mpr h
  simp only [isLive, Store.notAfter, Bool.not_eq_false', decide_eq_true_eq] at hover horder ⊢
  exact String.le_trans hover horder

/-- What is left of records when some of those were deleted that are not live at `now`. -/
structure Purged (now : Time.Instant) (whole left : List Remembered) : Prop where
  distinct : (whole.map fun r => (r.scope, r.key)).Nodup
  leftDistinct : (left.map fun r => (r.scope, r.key)).Nodup
  subset : left ⊆ whole
  ended : ∀ r ∈ whole, r ∉ left → r.isLive now = false

namespace Purged

variable {now later : Time.Instant} {whole left : List Remembered}

theorem refl (h : (whole.map fun r => (r.scope, r.key)).Nodup) : Purged now whole whole :=
  ⟨h, h, List.Subset.refl _, fun _ hr hnot => absurd hr hnot⟩

theorem mono (h : Purged now whole left) (hnow : now.IsPlain) (hlater : later.IsPlain)
    (hle : now ≤ later) : Purged later whole left :=
  { h with ended := fun r hr hnot => isLive_mono hnow hlater hle (h.ended r hr hnot) }

private theorem nodup_filter {records : List Remembered} (p : Remembered → Bool)
    (h : (records.map fun r => (r.scope, r.key)).Nodup) :
    ((records.filter p).map fun r => (r.scope, r.key)).Nodup :=
  h.sublist (List.filter_sublist.map _)

/-- A purge deletes what is not live any more. -/
theorem purge (h : Purged now whole left) :
    Purged now whole (left.filter fun r => r.isLive now) where
  distinct := h.distinct
  leftDistinct := nodup_filter _ h.leftDistinct
  subset := fun _ hr => h.subset (List.mem_of_mem_filter hr)
  ended := by
    intro r hr hnot
    by_cases hleft : r ∈ left
    · by_contra hlive
      exact hnot (List.mem_filter.mpr ⟨hleft, Bool.eq_true_of_not_eq_false hlive⟩)
    · exact h.ended r hr hleft

theorem purge_both (h : Purged now whole left) :
    Purged now (whole.filter fun r => r.isLive now) (left.filter fun r => r.isLive now) where
  distinct := nodup_filter _ h.distinct
  leftDistinct := nodup_filter _ h.leftDistinct
  subset := List.filter_subset _ h.subset
  ended := fun r hr => h.purge.ended r (List.mem_of_mem_filter hr)

end Purged

namespace Store

variable {now : Time.Instant} {s t : Store} {scope key : String}

/-- A live record is found whatever was purged. -/
theorem live?_purged (h : Purged now s.remembered t.remembered) :
    t.live? scope key now = s.live? scope key now := by
  cases hlive : s.live? scope key now with
  | some r =>
      obtain ⟨hr, rfl, rfl, hisLive⟩ := live?_eq_some hlive
      have hleft : r ∈ t.remembered := by
        by_contra hnot
        rw [h.ended r hr hnot] at hisLive
        cases hisLive
      have hkeys : t.KeysDistinct := h.leftDistinct
      exact live?_of_remembered? (hkeys.remembered?_of_mem hleft) hisLive
  | none =>
      rw [live?_eq_none] at hlive ⊢
      exact fun r hr => hlive r (h.subset hr)

/-- Records in which one was written, with and without the others that were purged. -/
def Written (now : Time.Instant) (r : Remembered) (whole left : List Remembered) : Prop :=
  ∃ s t : Store, Purged now s.remembered t.remembered ∧
    whole = (s.withRemembered r).remembered ∧ left = (t.withRemembered r).remembered

/-- Writing a record writes over the one under its key or adds one where that was purged. -/
theorem Written.purged {r : Remembered} {whole left : List Remembered}
    (h : Written now r whole left) : Purged now whole left := by
  obtain ⟨s, t, hpurged, rfl, rfl⟩ := h
  have hs : s.KeysDistinct := hpurged.distinct
  have ht : t.KeysDistinct := hpurged.leftDistinct
  refine ⟨hs.withRemembered r, ht.withRemembered r, fun x hx => ?_, fun x hx hnot => ?_⟩
  · rw [mem_withRemembered] at hx ⊢
    exact hx.imp_right (And.imp_left fun hleft => hpurged.subset hleft)
  · rw [mem_withRemembered] at hx hnot
    rcases hx with rfl | ⟨hwhole, hother⟩
    · exact absurd (Or.inl rfl) hnot
    · exact hpurged.ended x hwhole fun hleft => hnot (Or.inr ⟨hleft, hother⟩)

theorem agrees_claim {ε : Type} (payload : List UInt8) (expiresAt : Time.Instant) :
    Agrees (SameBut (Purged now)) (claim scope key payload now expiresAt : Work ε _) fun answer =>
      SameBut (if answer.2 then Written now ⟨scope, key, payload, now, expiresAt⟩
        else Purged now) := by
  rintro s t ⟨htables, hpurged⟩
  have hlive : t.live? scope key now = s.live? scope key now := live?_purged hpurged
  cases hs : s.live? scope key now with
  | some holder =>
      have hyields {u : Store} (hu : u.live? scope key now = some holder) :
          (claim scope key payload now expiresAt : Work ε _).runOn u = (.ok (holder, false), u) :=
        yields_claim.mpr (Or.inl ⟨holder, hu, rfl, rfl⟩)
      rw [hyields hs, hyields (hlive.trans hs)]
      refine ⟨rfl, fun a ha => ?_⟩
      cases ha
      exact ⟨htables, hpurged⟩
  | none =>
      have hyields {u : Store} (hu : u.live? scope key now = none) :
          (claim scope key payload now expiresAt : Work ε _).runOn u =
            (.ok (⟨scope, key, payload, now, expiresAt⟩, true),
              u.withRemembered ⟨scope, key, payload, now, expiresAt⟩) :=
        yields_claim.mpr (Or.inr ⟨hu, rfl, rfl⟩)
      rw [hyields hs, hyields (hlive.trans hs)]
      refine ⟨rfl, fun a ha => ?_⟩
      cases ha
      refine ⟨?_, s, t, hpurged, rfl, rfl⟩
      rw [withRemembered_eq t, withRemembered_eq s, htables]

end Store

namespace Shop

variable {settings : Settings} {call : Call} {scope : String} {now : Time.Instant}

theorem agrees_claim {α : Type} [Wire α] (settings : Settings) (scope k : String)
    (payload : List UInt8) (now : Time.Instant) :
    Agrees (Store.SameBut (Purged now))
      (claim (α := α) settings scope (some k) payload now) fun earlier =>
        Store.SameBut fun whole left =>
          (earlier = none → ∃ expiresAt,
            Store.Written now ⟨scope, k, payload, now, expiresAt⟩ whole left) ∧
          Purged now whole left := by
  refine agrees_bind agrees_calculate fun lifetime => agrees_bind agrees_calculate fun expiresAt =>
    agrees_bind (Store.agrees_claim payload expiresAt) fun answer => ?_
  obtain ⟨r, isNew⟩ := answer
  cases isNew with
  | true => exact agrees_pure fun s t ⟨htables, hwritten⟩ =>
      ⟨htables, fun _ => ⟨expiresAt, hwritten⟩, hwritten.purged⟩
  | false =>
      dsimp only
      cases replay (α := α) r with
      | ok o => exact agrees_pure fun s t ⟨htables, hpurged⟩ => ⟨htables, nofun, hpurged⟩
      | error e => exact agrees_fail

/-- A claim leaves records that are purged as they were, or as the claim wrote them. -/
theorem agrees_claim_purged {α : Type} [Wire α] (settings : Settings) (scope : String)
    (key : Option String) (payload : List UInt8) (now : Time.Instant) :
    Agrees (Store.SameBut (Purged now)) (claim (α := α) settings scope key payload now)
      fun _ => Store.SameBut (Purged now) := by
  cases key with
  | none => exact agrees_pure fun _ _ h => h
  | some k =>
      exact (agrees_claim (α := α) settings scope k payload now).mono
        fun _ _ _ ⟨htables, _, hpurged⟩ => ⟨htables, hpurged⟩

theorem agrees_placeWork (settings : Settings) (call : Call) (d : Draft) :
    Agrees (Store.SameBut (Purged call.now)) (placeWork settings call d)
      fun _ => Store.SameBut (Purged call.now) := by
  refine agrees_bind (agrees_claim_purged _ _ _ _ _) fun earlier => ?_
  cases earlier with
  | some o => exact agrees_pure fun _ _ h => h
  | none =>
      refine Heedless.agrees ?_ _
      dsimp only
      split
      · exact heedless_bind (heedless_checkStock d) fun _ =>
          heedless_bind (heedless_writeOrder settings call d) fun _ => heedless_pure _
      · exact heedless_bind (heedless_writeOrder settings call d) fun _ => heedless_pure _

/-- An answer fills the record that was claimed for it. -/
theorem agrees_keep (scope k : String) (payload : List UInt8) (now : Time.Instant) :
    Agrees (Store.SameBut fun whole left =>
        ∃ expiresAt, Store.Written now ⟨scope, k, [], now, expiresAt⟩ whole left)
      (keep scope (some k) payload) fun _ => Store.SameBut (Purged now) := by
  rintro s t ⟨htables, expiresAt, s', t', hpurged, hs, ht⟩
  have hkeep {u v : Store}
      (hu : u.remembered = (v.withRemembered ⟨scope, k, [], now, expiresAt⟩).remembered) :
      (keep scope (some k) payload).runOn u = (.ok (), { u with
        remembered := (v.withRemembered ⟨scope, k, payload, now, expiresAt⟩).remembered }) :=
    yields_stored.mpr (yields_execute.mpr (fill_claimed v now expiresAt hu))
  rw [hkeep hs, hkeep ht, htables]
  exact ⟨rfl, fun _ _ => ⟨rfl, Store.Written.purged ⟨s', t', hpurged, rfl, rfl⟩⟩⟩

theorem agrees_payWork (settings : Settings) (call : Call) (orderId : String)
    (tenders : List Tender) (key : Option String) :
    Agrees (Store.SameBut (Purged call.now)) (payWork settings call orderId tenders key)
      fun _ => Store.SameBut (Purged call.now) := by
  have hsettle := heedless_settle orderId (paymentsBy settings call orderId tenders) call.now
  cases key with
  | none =>
      exact (heedless_bind hsettle fun _ => heedless_bind (heedless_pure _) fun _ =>
        heedless_pure _).agrees _
  | some k =>
      refine agrees_bind (agrees_claim _ _ _ _ _) fun earlier => ?_
      cases earlier with
      | some o => exact agrees_pure fun _ _ ⟨htables, _, hpurged⟩ => ⟨htables, hpurged⟩
      | none =>
          refine agrees_bind (hsettle.agrees _) fun receipt => agrees_bind (Agrees.of_imp ?_
            (agrees_keep payingScope k (payloadOf receipt) call.now)) fun _ =>
              agrees_pure fun _ _ h => h
          exact fun s t ⟨htables, hwritten, _⟩ => ⟨htables, hwritten rfl⟩

end Shop

end OrderLedger
