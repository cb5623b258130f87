import Mathlib.Data.List.Forall2
import OrderLedger.Order.Draft

/-!
Checks and calculations, told by their successes: what has held when a chain of them
comes to an end, and which value it has then.
-/

namespace OrderLedger.Calculation

variable {ε ε' α β : Type}

theorem bind_eq_ok {x : Except ε α} {f : α → Except ε β} {b : β} :
    x >>= f = .ok b ↔ ∃ a, x = .ok a ∧ f a = .ok b := by
  cases x with
  | error e =>
      constructor
      · intro h
        cases h
      · rintro ⟨_, h, _⟩
        cases h
  | ok a =>
      constructor
      · intro h
        exact ⟨a, rfl, h⟩
      · rintro ⟨_, h, hf⟩
        cases h
        exact hf

theorem bind_eq_error {x : Except ε α} {f : α → Except ε β} {e : ε} :
    x >>= f = .error e ↔ x = .error e ∨ ∃ a, x = .ok a ∧ f a = .error e := by
  cases x with
  | error e' =>
      change (Except.error e' : Except ε β) = .error e ↔ _
      simp
  | ok a =>
      change f a = .error e ↔ _
      simp

theorem pure_eq_ok {a b : α} : (pure a : Except ε α) = .ok b ↔ b = a := by
  change Except.ok a = .ok b ↔ _
  rw [Except.ok.injEq, eq_comm]

theorem map_eq_ok {x : Except ε α} {f : α → β} {b : β} :
    x.map f = .ok b ↔ ∃ a, x = .ok a ∧ b = f a := by
  cases x with
  | error e => simp [Except.map]
  | ok a => simp [Except.map, eq_comm]

theorem map_eq_error {x : Except ε α} {f : α → β} {e : ε} :
    x.map f = .error e ↔ x = .error e := by
  cases x <;> simp [Except.map]

theorem mapError_eq_ok {x : Except ε α} {f : ε → ε'} {a : α} :
    x.mapError f = .ok a ↔ x = .ok a := by
  cases x with
  | error e => constructor <;> intro h <;> cases h
  | ok b =>
      change (Except.ok b : Except ε' α) = .ok a ↔ _
      rw [Except.ok.injEq, Except.ok.injEq]

theorem require_eq_ok {cause : Overflow} {x : Option α} {a : α} :
    Word.require cause x = .ok a ↔ x = some a := by
  cases x <;> simp [Word.require]

theorem require_eq_error {cause e : Overflow} {x : Option α} :
    Word.require cause x = .error e ↔ x = none ∧ e = cause := by
  cases x <;> simp [Word.require, eq_comm]

theorem negate_eq_ok {n m : Int} : Word.negate n = .ok m ↔ Word.Fits (-n) ∧ m = -n := by
  rw [Word.negate, require_eq_ok, Word.narrow?_eq_some_iff]

/-- A check that refuses lets through what it is not about. -/
theorem refuse_eq_ok {p : Prop} [Decidable p] {e : ε} {rest : Except ε α} {a : α} :
    (if p then .error e else rest) = .ok a ↔ ¬ p ∧ rest = .ok a := by
  split
  · next hp => simp [hp]
  · next hp => simp [hp]

/-- A check that accepts lets through what it is about. -/
theorem accept_eq_ok {p : Prop} [Decidable p] {e : ε} {rest : Except ε α} {a : α} :
    (if p then rest else .error e) = .ok a ↔ p ∧ rest = .ok a := by
  split
  · next hp => simp [hp]
  · next hp => simp [hp]

/-- A series of checks passes when each of them passes. -/
theorem forM_eq_ok {xs : List α} {check : α → Except ε PUnit} {u : PUnit} :
    xs.forM check = .ok u ↔ ∀ x ∈ xs, check x = .ok () := by
  induction xs with
  | nil =>
      constructor
      · intro _ x hx
        cases hx
      · intro _
        rfl
  | cons x xs ih =>
      change (check x >>= fun _ => xs.forM check) = .ok u ↔ _
      rw [bind_eq_ok, List.forall_mem_cons, ih]
      constructor
      · rintro ⟨_, hx, hrest⟩
        exact ⟨hx, hrest⟩
      · rintro ⟨hx, hrest⟩
        exact ⟨(), hx, hrest⟩

/-- A list of calculations has the list of their values. -/
theorem mapM_eq_ok {f : α → Except ε β} {xs : List α} {ys : List β} :
    xs.mapM f = .ok ys ↔ List.Forall₂ (fun x y => f x = .ok y) xs ys := by
  induction xs generalizing ys with
  | nil =>
      rw [List.mapM_nil, pure_eq_ok, List.forall₂_nil_left_iff]
  | cons x xs ih =>
      rw [List.mapM_cons, bind_eq_ok]
      simp only [bind_eq_ok, pure_eq_ok, ih]
      constructor
      · rintro ⟨y, hy, rest, hrest, rfl⟩
        exact List.Forall₂.cons hy hrest
      · intro h
        cases h with
        | cons hy hrest => exact ⟨_, hy, _, hrest, rfl⟩

/-- Where each value is a function of its input, so is the list of the values. -/
theorem mapM_eq_map {f : α → Except ε β} (value : α → β) {xs : List α} {ys : List β}
    (hvalue : ∀ x ∈ xs, ∀ y, f x = .ok y → y = value x) (h : xs.mapM f = .ok ys) :
    ys = xs.map value := by
  rw [mapM_eq_ok] at h
  induction h with
  | nil => rfl
  | cons hy _ ih =>
      rw [hvalue _ (by simp) _ hy, ih fun x hx => hvalue x (by simp [hx])]
      rfl

theorem mapM_of_eq_ok {f : α → Except ε β} (value : α → β) {xs : List α}
    (h : ∀ x ∈ xs, f x = .ok (value x)) : xs.mapM f = .ok (xs.map value) := by
  rw [mapM_eq_ok, List.forall₂_map_right_iff, List.forall₂_same]
  exact h

/-- A list goes with some other one exactly when each of its elements goes with something. -/
theorem exists_forall₂ {R : α → β → Prop} {xs : List α} :
    (∃ ys, List.Forall₂ R xs ys) ↔ ∀ x ∈ xs, ∃ y, R x y := by
  induction xs with
  | nil => simp
  | cons x xs ih =>
      rw [List.forall_mem_cons, ← ih]
      constructor
      · rintro ⟨_, h⟩
        cases h with
        | cons hy hrest => exact ⟨⟨_, hy⟩, _, hrest⟩
      · rintro ⟨⟨y, hy⟩, ys, hrest⟩
        exact ⟨y :: ys, .cons hy hrest⟩

end OrderLedger.Calculation
