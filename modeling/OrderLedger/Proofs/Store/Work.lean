import OrderLedger.Store.Basic

/-!
Work inside a transaction, told by its successes and its failures: on which store it yields which
value and leaves which store, and on which it fails with which fault. Every way of putting work
together has one law, so that a program of the shop is taken apart by rewriting. A transaction
keeps what its work has written only when the work commits.
-/

namespace OrderLedger

namespace Work

variable {ε ε' α β : Type}

/-- On `s` the work succeeds with `a` and leaves `t`. -/
def Yields (work : Work ε α) (s : Store) (a : α) (t : Store) : Prop :=
  work.runOn s = (.ok a, t)

theorem runOn_bind (work : Work ε α) (next : α → Work ε β) (s : Store) :
    (work >>= next).runOn s =
      match work.runOn s with
      | (.ok a, t) => (next a).runOn t
      | (.error e, t) => (.error e, t) := by
  have hrun : (work >>= next).runOn s =
      StateT.run (ExceptT.bindCont next (work.runOn s).1) (work.runOn s).2 := rfl
  rw [hrun]
  rcases work.runOn s with ⟨r, t⟩
  cases r <;> rfl

@[simp] theorem yields_pure {a b : α} {s t : Store} :
    Yields (pure a : Work ε α) s b t ↔ b = a ∧ t = s := by
  change ((Except.ok a, s) : Except (Fault ε) α × Store) = (.ok b, t) ↔ _
  simp only [Prod.mk.injEq, Except.ok.injEq]
  exact and_congr eq_comm eq_comm

@[simp] theorem yields_bind {work : Work ε α} {next : α → Work ε β} {s u : Store} {b : β} :
    Yields (work >>= next) s b u ↔ ∃ a t, Yields work s a t ∧ Yields (next a) t b u := by
  unfold Yields
  rw [runOn_bind]
  rcases work.runOn s with ⟨r, t⟩
  cases r with
  | error e => simp
  | ok a =>
      simp only [Prod.mk.injEq, Except.ok.injEq]
      constructor
      · intro h
        exact ⟨a, t, ⟨rfl, rfl⟩, h⟩
      · rintro ⟨_, _, ⟨rfl, rfl⟩, h⟩
        exact h

/-- Work goes on from the value and the store that its first part yields. -/
theorem Yields.runOn_bind {work : Work ε α} {s t : Store} {a : α} (h : Yields work s a t)
    (next : α → Work ε β) : (work >>= next).runOn s = (next a).runOn t := by
  rw [Work.runOn_bind, show work.runOn s = (.ok a, t) from h]

@[simp] theorem yields_map {work : Work ε α} {f : α → β} {s t : Store} {b : β} :
    Yields (f <$> work) s b t ↔ ∃ a, Yields work s a t ∧ b = f a := by
  rw [← bind_pure_comp, yields_bind]
  simp only [yields_pure]
  constructor
  · rintro ⟨a, _, h, rfl, rfl⟩
    exact ⟨a, h, rfl⟩
  · rintro ⟨a, h, rfl⟩
    exact ⟨a, t, h, rfl, rfl⟩

@[simp] theorem yields_get {a s t : Store} :
    Yields (get : Work ε Store) s a t ↔ a = s ∧ t = s := by
  change ((Except.ok s, s) : Except (Fault ε) Store × Store) = (.ok a, t) ↔ _
  simp only [Prod.mk.injEq, Except.ok.injEq]
  exact and_congr eq_comm eq_comm

@[simp] theorem yields_set {r s t : Store} {a : PUnit} :
    Yields (set r : Work ε PUnit) s a t ↔ t = r := by
  change ((Except.ok PUnit.unit, r) : Except (Fault ε) PUnit × Store) = (.ok a, t) ↔ _
  simp only [Prod.mk.injEq, true_and]
  exact eq_comm

@[simp] theorem yields_throw {e : Fault ε} {a : α} {s t : Store} :
    ¬ Yields (throw e : Work ε α) s a t := by
  intro h
  cases congrArg Prod.fst h

@[simp] theorem yields_fail {e : ε} {a : α} {s t : Store} :
    ¬ Yields (fail e : Work ε α) s a t := yields_throw

@[simp] theorem yields_calculate {c : Except Overflow α} {a : α} {s t : Store} :
    Yields (calculate c : Work ε α) s a t ↔ c = .ok a ∧ t = s := by
  cases c with
  | ok b => simp [calculate, eq_comm]
  | error cause => simp [calculate]

@[simp] theorem yields_ask {query : Store → Except StorageError α} {a : α} {s t : Store} :
    Yields (ask query) s a t ↔ query s = .ok a ∧ t = s := by
  simp only [ask, yields_bind, yields_get]
  constructor
  · rintro ⟨s', t', ⟨rfl, rfl⟩, h⟩
    split at h
    · simp_all
    · simp at h
  · rintro ⟨hq, rfl⟩
    exact ⟨t, t, ⟨rfl, rfl⟩, by simp [hq]⟩

@[simp] theorem yields_execute {statement : Statement} {s t : Store} {a : Unit} :
    Yields (execute statement) s a t ↔ statement s = .ok t := by
  simp only [execute, yields_bind, yields_get]
  constructor
  · rintro ⟨s', t', ⟨rfl, rfl⟩, h⟩
    split at h
    · simp_all
    · simp at h
  · intro h
    exact ⟨s, s, ⟨rfl, rfl⟩, by simp [h]⟩

@[simp] theorem yields_recast {f : ε → ε'} {work : Work ε α} {a : α} {s t : Store} :
    Yields (recast f work) s a t ↔ Yields work s a t := by
  unfold Yields
  have hrun : (recast f work).runOn s =
      ((work.runOn s).1.mapError (Fault.map f), (work.runOn s).2) := by
    rfl
  rw [hrun]
  rcases work.runOn s with ⟨r, t'⟩
  cases r with
  | error e => constructor <;> intro h <;> cases h
  | ok b =>
      change ((Except.ok b, t') : Except (Fault ε') α × Store) = (.ok a, t) ↔ _
      simp only [Prod.mk.injEq, Except.ok.injEq]

/-- A series of statements yields when each yields on the store that the one before left. -/
theorem yields_forM_cons {a : α} {rest : List α} {f : α → Work ε PUnit} {s u : Store}
    {b : PUnit} :
    Yields ((a :: rest).forM f) s b u ↔ ∃ t, Yields (f a) s () t ∧ Yields (rest.forM f) t b u := by
  change Yields (f a >>= fun _ => rest.forM f) s b u ↔ _
  rw [yields_bind]
  constructor
  · rintro ⟨_, t, h⟩
    exact ⟨t, h⟩
  · rintro ⟨t, h⟩
    exact ⟨(), t, h⟩

/-- On `s` the work fails with `f`. What it has written by then does not matter. -/
def Fails (work : Work ε α) (s : Store) (f : Fault ε) : Prop := (work.runOn s).1 = .error f

theorem Yields.not_fails {work : Work ε α} {s t : Store} {a : α} {f : Fault ε}
    (h : Yields work s a t) : ¬ Fails work s f := by
  unfold Fails
  rw [show work.runOn s = (.ok a, t) from h]
  exact fun heq => nomatch heq

@[simp] theorem fails_pure {a : α} {s : Store} {f : Fault ε} :
    ¬ Fails (pure a : Work ε α) s f :=
  (yields_pure.mpr ⟨rfl, rfl⟩ : Yields (pure a : Work ε α) s a s).not_fails

@[simp] theorem fails_get {s : Store} {f : Fault ε} : ¬ Fails (get : Work ε Store) s f :=
  (yields_get.mpr ⟨rfl, rfl⟩ : Yields (get : Work ε Store) s s s).not_fails

@[simp] theorem fails_fail {e : ε} {s : Store} {f : Fault ε} :
    Fails (fail e : Work ε α) s f ↔ f = .error e := by
  change (Except.error (Fault.error e) : Except (Fault ε) α) = .error f ↔ _
  rw [Except.error.injEq, eq_comm]

@[simp] theorem fails_calculate {c : Except Overflow α} {s : Store} {f : Fault ε} :
    Fails (calculate c : Work ε α) s f ↔ ∃ cause, c = .error cause ∧ f = .overflow cause := by
  cases c with
  | ok a =>
      have hyields : Yields (calculate (.ok a) : Work ε α) s a s := yields_calculate.mpr ⟨rfl, rfl⟩
      simp [hyields.not_fails]
  | error cause =>
      change (Except.error (Fault.overflow cause) : Except (Fault ε) α) = .error f ↔ _
      simp [eq_comm]

/-- Work fails in its first part, or in what follows a first part that has not failed. -/
@[simp] theorem fails_bind {work : Work ε α} {next : α → Work ε β} {s : Store} {f : Fault ε} :
    Fails (work >>= next) s f ↔
      Fails work s f ∨ ∃ a t, Yields work s a t ∧ Fails (next a) t f := by
  unfold Fails Yields
  rw [runOn_bind]
  rcases work.runOn s with ⟨r, t⟩
  cases r with
  | error e => simp
  | ok a =>
      simp only [reduceCtorEq, false_or, Prod.mk.injEq, Except.ok.injEq]
      constructor
      · intro h
        exact ⟨a, t, ⟨rfl, rfl⟩, h⟩
      · rintro ⟨_, _, ⟨rfl, rfl⟩, h⟩
        exact h

@[simp] theorem fails_ask {query : Store → Except StorageError α} {s : Store}
    {f : Fault StorageError} :
    Fails (ask query) s f ↔ ∃ e, query s = .error e ∧ f = .error e := by
  simp only [ask, fails_bind, fails_get, yields_get, false_or]
  constructor
  · rintro ⟨_, _, ⟨rfl, rfl⟩, h⟩
    split at h
    · exact absurd h fails_pure
    · next e hquery => exact ⟨e, hquery, fails_fail.mp h⟩
  · rintro ⟨e, hquery, rfl⟩
    exact ⟨s, s, ⟨rfl, rfl⟩, by simp [hquery]⟩

@[simp] theorem fails_execute {statement : Statement} {s : Store} {f : Fault StorageError} :
    Fails (execute statement) s f ↔ ∃ e, statement s = .error e ∧ f = .error e := by
  simp only [execute, fails_bind, fails_get, yields_get, false_or]
  constructor
  · rintro ⟨_, _, ⟨rfl, rfl⟩, h⟩
    split at h
    · next t _ => exact absurd h (yields_set.mpr rfl : Yields (set t) _ () t).not_fails
    · next e hstatement => exact ⟨e, hstatement, fails_fail.mp h⟩
  · rintro ⟨e, hstatement, rfl⟩
    exact ⟨s, s, ⟨rfl, rfl⟩, by simp [hstatement]⟩

/-- The same work told in other terms fails with the same fault told in other terms. -/
@[simp] theorem fails_recast {g : ε → ε'} {work : Work ε α} {s : Store} {f : Fault ε'} :
    Fails (recast g work) s f ↔ ∃ cause, Fails work s cause ∧ f = cause.map g := by
  unfold Fails
  have hrun : ((recast g work).runOn s).1 = (work.runOn s).1.mapError (Fault.map g) := rfl
  rw [hrun]
  rcases work.runOn s with ⟨r, t⟩
  cases r with
  | error e =>
      change (Except.error (e.map g) : Except (Fault ε') α) = .error f ↔ _
      simp [eq_comm]
  | ok a =>
      change (Except.ok a : Except (Fault ε') α) = .error f ↔ _
      simp

/-- Work has one outcome. -/
theorem Yields.unique {work : Work ε α} {s t u : Store} {a b : α} (h : Yields work s a t)
    (hagain : Yields work s b u) : b = a ∧ u = t := by
  have hsame := hagain.symm.trans h
  cases hsame
  exact ⟨rfl, rfl⟩

end Work

section Transactions

variable {ε α : Type} {work : Work ε (Closing α)} {s t : Store} {a : α} {e : Fault ε}

/-- The answer of work that began on `s` and left `u`, with what its transaction keeps. -/
def Closing.kept (s u : Store) : Closing α → α × Store
  | .commit a => (a, u)
  | .rollback a => (a, s)

/-- A transaction that answers has either kept what its work left, or kept nothing. -/
theorem transact_eq_ok :
    transact work s = (.ok a, t) ↔
      ∃ closing u, work.Yields s closing u ∧ closing.kept s u = (a, t) := by
  unfold transact Work.Yields
  rcases work.runOn s with ⟨r, u⟩
  cases r with
  | error e => simp
  | ok closing =>
      constructor
      · intro h
        refine ⟨closing, u, rfl, ?_⟩
        cases closing <;> cases h <;> rfl
      · rintro ⟨_, _, heq, hkept⟩
        cases heq
        cases closing <;> cases hkept <;> rfl

theorem transact_of_commit (h : work.Yields s (.commit a) t) : transact work s = (.ok a, t) :=
  transact_eq_ok.mpr ⟨_, _, h, rfl⟩

/-- A transaction that fails leaves every table as it was. -/
theorem transact_eq_error (h : transact work s = (.error e, t)) : t = s := by
  unfold transact at h
  split at h <;> cases h
  rfl

/-- A transaction whose work fails gives the fault and keeps nothing. -/
theorem transact_of_fails (h : work.Fails s e) : transact work s = (.error e, s) := by
  unfold transact
  rcases hrun : work.runOn s with ⟨r, u⟩
  unfold Work.Fails at h
  rw [hrun] at h
  obtain rfl : r = .error e := h
  rfl

/-- A transaction fails as its work does. -/
theorem transact_error_iff : (transact work s).1 = .error e ↔ work.Fails s e := by
  unfold transact Work.Fails
  rcases work.runOn s with ⟨r, t⟩
  cases r with
  | error f => simp
  | ok closing => cases closing <;> simp

/-- Work that is committed unless it fails keeps what it yields. -/
theorem transactAll_eq_ok {work : Work ε α} :
    transactAll work s = (.ok a, t) ↔ work.Yields s a t := by
  rw [transactAll, transact_eq_ok]
  simp only [Work.yields_bind, Work.yields_pure]
  constructor
  · rintro ⟨_, _, ⟨_, _, hwork, rfl, rfl⟩, hkept⟩
    cases hkept
    exact hwork
  · intro hwork
    exact ⟨_, t, ⟨a, t, hwork, rfl, rfl⟩, rfl⟩

end Transactions

end OrderLedger
