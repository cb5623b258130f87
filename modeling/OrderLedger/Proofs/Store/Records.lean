import Mathlib.Data.List.Nodup
import OrderLedger.Proofs.Store.Work
import OrderLedger.Store.Remembered

/-!
Remembered answers. A scope and a key have one record at most; writing a record leaves
the records of all other keys as they are, and a record that is live is not written over.
-/

namespace OrderLedger

theorem Remembered.isUnder_iff {r : Remembered} {scope key : String} :
    r.isUnder scope key = true ↔ r.scope = scope ∧ r.key = key := by
  simp [Remembered.isUnder]

namespace Store

open Work

variable {ε : Type} {s t : Store} {r x : Remembered} {scope key : String} {now : Time.Instant}

/-- No two records stand under one scope and key. -/
def KeysDistinct (s : Store) : Prop := (s.remembered.map fun r => (r.scope, r.key)).Nodup

theorem remembered?_eq_some (h : s.remembered? scope key = some r) :
    r ∈ s.remembered ∧ r.scope = scope ∧ r.key = key := by
  have hunder := List.find?_some h
  exact ⟨List.mem_of_find?_eq_some h, Remembered.isUnder_iff.mp hunder⟩

theorem remembered?_eq_none :
    s.remembered? scope key = none ↔ ∀ r ∈ s.remembered, r.isUnder scope key = false := by
  simp [remembered?]

theorem live?_eq_some (h : s.live? scope key now = some r) :
    r ∈ s.remembered ∧ r.scope = scope ∧ r.key = key ∧ r.isLive now = true := by
  have hprop := List.find?_some h
  rw [Bool.and_eq_true, Remembered.isUnder_iff] at hprop
  exact ⟨List.mem_of_find?_eq_some h, hprop.1.1, hprop.1.2, hprop.2⟩

theorem live?_eq_none :
    s.live? scope key now = none ↔
      ∀ r ∈ s.remembered, r.isUnder scope key = true → r.isLive now = false := by
  simp [live?]

/-- Where keys are distinct, a record is the one under its key. -/
theorem KeysDistinct.remembered?_of_mem (hs : s.KeysDistinct) (hr : r ∈ s.remembered) :
    s.remembered? r.scope r.key = some r := by
  cases hfind : s.remembered? r.scope r.key with
  | none =>
      have hnot := remembered?_eq_none.mp hfind r hr
      simp [Remembered.isUnder] at hnot
  | some x =>
      obtain ⟨hx, hscope, hkey⟩ := remembered?_eq_some hfind
      rw [List.inj_on_of_nodup_map hs hx hr (by simp [hscope, hkey])]

/-- Writing a record touches no other table. -/
theorem withRemembered_eq (s : Store) (r : Remembered) :
    s.withRemembered r = { s with remembered := (s.withRemembered r).remembered } := by
  unfold withRemembered
  split <;> rfl

/-- The records after one was written: that one, and those of other keys. -/
theorem mem_withRemembered :
    x ∈ (s.withRemembered r).remembered ↔
      x = r ∨ x ∈ s.remembered ∧ x.isUnder r.scope r.key = false := by
  unfold withRemembered
  split
  · next hany =>
      rw [List.any_eq_true] at hany
      obtain ⟨old, hold, hunder⟩ := hany
      simp only [List.mem_map]
      constructor
      · rintro ⟨y, hy, rfl⟩
        by_cases hyunder : y.isUnder r.scope r.key = true
        · simp [hyunder]
        · simp only [hyunder, Bool.false_eq_true, if_false]
          exact Or.inr ⟨hy, trivial⟩
      · rintro (rfl | ⟨hx, hother⟩)
        · exact ⟨old, hold, by simp [hunder]⟩
        · exact ⟨x, hx, by simp [hother]⟩
  · next hany =>
      simp only [List.any_eq_true, not_exists, not_and, Bool.not_eq_true] at hany
      simp only [List.mem_append, List.mem_singleton]
      constructor
      · rintro (hx | rfl)
        · exact Or.inr ⟨hx, hany x hx⟩
        · exact Or.inl rfl
      · rintro (rfl | ⟨hx, -⟩)
        · exact Or.inr rfl
        · exact Or.inl hx

theorem KeysDistinct.withRemembered (hs : s.KeysDistinct) (r : Remembered) :
    (s.withRemembered r).KeysDistinct := by
  unfold KeysDistinct Store.withRemembered
  split
  · have hkeys : (s.remembered.map fun x => if x.isUnder r.scope r.key then r else x).map
        (fun x => (x.scope, x.key)) = s.remembered.map fun x => (x.scope, x.key) := by
      rw [List.map_map]
      apply List.map_congr_left
      intro x _
      by_cases hx : x.isUnder r.scope r.key = true
      · obtain ⟨hscope, hkey⟩ := Remembered.isUnder_iff.mp hx
        simp [hx, hscope, hkey]
      · simp [hx]
    change ((s.remembered.map fun x => if x.isUnder r.scope r.key then r else x).map
      (fun x => (x.scope, x.key))).Nodup
    rw [hkeys]
    exact hs
  · next hany =>
      simp only [List.any_eq_true, not_exists, not_and, Bool.not_eq_true] at hany
      change ((s.remembered ++ [r]).map fun x => (x.scope, x.key)).Nodup
      rw [List.map_append, List.nodup_append]
      refine ⟨hs, by simp, ?_⟩
      rintro a ha b hb rfl
      obtain ⟨x, hx, rfl⟩ := List.mem_map.mp ha
      simp only [List.map_cons, List.map_nil, List.mem_singleton, Prod.mk.injEq] at hb
      have hother := hany x hx
      simp [Remembered.isUnder, hb.1, hb.2] at hother

/-- A record of another key leaves the record under a key as it is. -/
theorem remembered?_withRemembered_other (h : r.isUnder scope key = false) :
    (s.withRemembered r).remembered? scope key = s.remembered? scope key := by
  unfold remembered? withRemembered
  split
  · have hsame : ((fun x : Remembered => x.isUnder scope key) ∘ fun x =>
        if x.isUnder r.scope r.key then r else x) = fun x => x.isUnder scope key := by
      funext x
      rw [Function.comp_apply]
      split
      · next hx =>
          obtain ⟨hscope, hkey⟩ := Remembered.isUnder_iff.mp hx
          rw [h, Remembered.isUnder, hscope, hkey]
          exact h.symm
      · rfl
    simp only [List.find?_map, hsame]
    cases hfind : s.remembered.find? fun x => x.isUnder scope key with
    | none => rfl
    | some x =>
        have hunder := List.find?_some hfind
        have hx := Remembered.isUnder_iff.mp hunder
        have hother : x.isUnder r.scope r.key = false := by
          rw [← Bool.not_eq_true, Remembered.isUnder_iff, hx.1, hx.2]
          rw [← Bool.not_eq_true, Remembered.isUnder_iff] at h
          rintro ⟨hscope, hkey⟩
          exact h ⟨hscope.symm, hkey.symm⟩
        simp [hother]
  · simp [List.find?_append, h]

/-- A record under a key that had none is found under it. -/
theorem remembered?_withRemembered_self (h : s.remembered? r.scope r.key = none) :
    (s.withRemembered r).remembered? r.scope r.key = some r := by
  have hnone := remembered?_eq_none.mp h
  have hany : (s.remembered.any fun x => x.isUnder r.scope r.key) = false := by
    rw [List.any_eq_false]
    intro x hx
    simp [hnone x hx]
  rw [remembered?] at h
  rw [withRemembered, hany, if_neg Bool.false_ne_true, remembered?, List.find?_append, h]
  simp [Remembered.isUnder]

theorem live?_of_remembered? (h : s.remembered? scope key = some r)
    (hlive : r.isLive now = true) : s.live? scope key now = some r := by
  rw [remembered?, List.find?_eq_some_iff_append] at h
  obtain ⟨hunder, before, after, hsplit, hnot⟩ := h
  rw [live?, List.find?_eq_some_iff_append]
  refine ⟨by rw [hunder, hlive, Bool.and_self], before, after, hsplit, ?_⟩
  intro x hx
  rw [Bool.not_and, hnot x hx, Bool.true_or]

theorem live?_of_remembered?_none (h : s.remembered? scope key = none) :
    s.live? scope key now = none := by
  rw [live?_eq_none]
  intro x hx hunder
  rw [remembered?_eq_none.mp h x hx] at hunder
  cases hunder

/-- The record under a key that is live stays when those that are not are deleted. -/
theorem remembered?_filter_isLive (hlive : ∀ r, s.remembered? scope key = some r →
    r.isLive now = true) :
    ({ s with remembered := s.remembered.filter fun r => r.isLive now } : Store).remembered?
      scope key = s.remembered? scope key := by
  have hfilter : ({ s with remembered := s.remembered.filter fun r => r.isLive now } :
      Store).remembered? scope key = s.live? scope key now := by
    simp only [remembered?, live?, List.find?_filter, Bool.decide_and, Bool.decide_eq_true,
      Bool.and_comm]
  rw [hfilter]
  cases hfind : s.remembered? scope key with
  | none => exact live?_of_remembered?_none hfind
  | some r => exact live?_of_remembered? hfind (hlive r hfind)

theorem yields_claim {payload : List UInt8} {expiresAt : Time.Instant} {a : Remembered × Bool} :
    (claim scope key payload now expiresAt : Work ε (Remembered × Bool)).Yields s a t ↔
      (∃ holder, s.live? scope key now = some holder ∧ a = (holder, false) ∧ t = s) ∨
      (s.live? scope key now = none ∧ a = (⟨scope, key, payload, now, expiresAt⟩, true) ∧
        t = s.withRemembered ⟨scope, key, payload, now, expiresAt⟩) := by
  simp only [claim, yields_bind, yields_get]
  constructor
  · rintro ⟨_, _, ⟨rfl, rfl⟩, h⟩
    split at h
    · next holder hlive =>
        obtain ⟨rfl, rfl⟩ := yields_pure.mp h
        exact Or.inl ⟨holder, hlive, rfl, rfl⟩
    · next hlive =>
        simp only [yields_bind, yields_set, yields_pure] at h
        obtain ⟨-, _, rfl, rfl, rfl⟩ := h
        exact Or.inr ⟨hlive, rfl, rfl⟩
  · rintro (⟨holder, hlive, rfl, rfl⟩ | ⟨hlive, rfl, rfl⟩)
    · exact ⟨t, t, ⟨rfl, rfl⟩, by simp [hlive]⟩
    · exact ⟨s, s, ⟨rfl, rfl⟩, by simp [hlive]⟩

end Store

end OrderLedger
