import OrderLedger.Proofs.Store.Heedless

/-!
One work on two stores. Related stores give one result, and a work that succeeds leaves related
stores again; what a failing work leaves does not matter, for its transaction keeps none of it.
-/

namespace OrderLedger

/-- The same rows in every table but the records, and records that are related. -/
def Store.SameBut (related : List Remembered → List Remembered → Prop) (s t : Store) : Prop :=
  t = { s with remembered := t.remembered } ∧ related s.remembered t.remembered

namespace Work

variable {ε ε' α β : Type} {before : Store → Store → Prop} {after : α → Store → Store → Prop}

/-- From related stores the work has one result, and where it succeeds it leaves stores that are
related as its answer tells. -/
def Agrees (before : Store → Store → Prop) (work : Work ε α)
    (after : α → Store → Store → Prop) : Prop :=
  ∀ s t, before s t → (work.runOn t).1 = (work.runOn s).1 ∧
    ∀ a, (work.runOn s).1 = .ok a → after a (work.runOn s).2 (work.runOn t).2

theorem agrees_pure {a : α} (h : ∀ s t, before s t → after a s t) :
    Agrees before (pure a : Work ε α) after := by
  intro s t hst
  refine ⟨rfl, fun b hb => ?_⟩
  cases hb
  exact h s t hst

theorem Agrees.mono {work : Work ε α} {last : α → Store → Store → Prop}
    (h : Agrees before work after) (himp : ∀ a s t, after a s t → last a s t) :
    Agrees before work last := fun s t hst =>
  ⟨(h s t hst).1, fun a ha => himp a _ _ ((h s t hst).2 a ha)⟩

theorem Agrees.of_imp {work : Work ε α} {first : Store → Store → Prop}
    (himp : ∀ s t, first s t → before s t) (h : Agrees before work after) :
    Agrees first work after := fun s t hst => h s t (himp s t hst)

theorem agrees_fail {e : ε} : Agrees before (fail e : Work ε α) after := fun _ _ _ => ⟨rfl, nofun⟩

theorem agrees_bind {next : α → Work ε β} {work : Work ε α} {last : β → Store → Store → Prop}
    (h : Agrees before work after) (hnext : ∀ a, Agrees (after a) (next a) last) :
    Agrees before (work >>= next) last := by
  intro s t hst
  obtain ⟨hresult, hafter⟩ := h s t hst
  rw [runOn_bind, runOn_bind]
  rcases hs : work.runOn s with ⟨r, s'⟩
  rcases ht : work.runOn t with ⟨r', t'⟩
  rw [hs, ht] at hresult hafter
  obtain rfl : r' = r := hresult
  cases r' with
  | error e => exact ⟨rfl, nofun⟩
  | ok a => exact hnext a s' t' (hafter a rfl)

/-- Work that does not look at the records keeps whatever relates them. -/
theorem Heedless.agrees {work : Work ε α} (h : Heedless work)
    (related : List Remembered → List Remembered → Prop) :
    Agrees (Store.SameBut related) work fun _ => Store.SameBut related := by
  rintro s t ⟨htables, hrecords⟩
  rw [htables, h s t.remembered]
  refine ⟨rfl, fun a _ => ⟨rfl, ?_⟩⟩
  rw [h.remembered s]
  exact hrecords

theorem agrees_calculate {c : Except Overflow α} :
    Agrees before (calculate c : Work ε α) fun _ => before := by
  intro s t hst
  cases c with
  | ok a => exact ⟨rfl, fun _ _ => hst⟩
  | error cause => exact ⟨rfl, nofun⟩

end Work

/-- A transaction answers the same on related stores and leaves related stores. -/
theorem transact_agrees {ε α : Type} {related : Store → Store → Prop}
    {work : Work ε (Closing α)} (h : work.Agrees related fun _ => related) {s t : Store}
    (hst : related s t) :
    (transact work t).1 = (transact work s).1 ∧ related (transact work s).2 (transact work t).2 := by
  obtain ⟨hresult, hafter⟩ := h s t hst
  unfold transact
  rcases hs : work.runOn s with ⟨r, s'⟩
  rcases ht : work.runOn t with ⟨r', t'⟩
  rw [hs, ht] at hresult hafter
  obtain rfl : r' = r := hresult
  cases r' with
  | error e => exact ⟨rfl, hst⟩
  | ok closing =>
      cases closing with
      | commit a => exact ⟨rfl, hafter _ rfl⟩
      | rollback a => exact ⟨rfl, hst⟩

end OrderLedger
