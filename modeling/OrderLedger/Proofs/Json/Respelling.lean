import Mathlib.Data.List.Nodup
import Mathlib.Logic.Relation
import OrderLedger.Json.Wire

/-!
Other spellings of a value. Writers of JSON put the members of an object in any order, add
members that the reader does not know and leave out members that have nothing to tell. What
a reader finds under the names that it looks for stays the same.
-/

namespace OrderLedger

/-- What a reader looks for in a value. -/
inductive Shape where
  /-- The value as it stands. -/
  | whole
  /-- The items of a list. -/
  | items (item : Shape)
  /-- The members of an object by their names. The value beside a name, if there is one, is
  the value in whose place the member may be left out. -/
  | members (slots : List (String × Option Json × Shape))

/-- One change to how a value of a shape is spelled. -/
inductive Edit : Shape → Json → Json → Prop where
  | reorder (h : ms.Perm ms') : Edit (.members slots) (.obj ms) (.obj ms')
  /-- A member that the reader does not look for. -/
  | add (key : String) (j : Json) (h : ∀ slot ∈ slots, slot.1 ≠ key) :
      Edit (.members slots) (.obj ms) (.obj ((key, j) :: ms))
  | leaveOut (h : (name, some j, shape) ∈ slots) :
      Edit (.members slots) (.obj ((name, j) :: ms)) (.obj ms)
  | member (h : (name, left, shape) ∈ slots) (hedit : Edit shape j j') :
      Edit (.members slots) (.obj ((name, j) :: ms)) (.obj ((name, j') :: ms))
  | item (hedit : Edit shape j j') :
      Edit (.items shape) (.arr (before ++ j :: after)) (.arr (before ++ j' :: after))

/-- Any number of changes, one after another. -/
def Respelt (shape : Shape) : Json → Json → Prop := Relation.ReflTransGen (Edit shape)

/-- What may be found under a name after a change, in place of what was found before. -/
inductive Alike (left : Option Json) (shape : Shape) : List Json → List Json → Prop where
  | same : Alike left shape js js
  | edited (h : Edit shape j j') : Alike left shape [j] [j']
  | leftOut (h : left = some j) : Alike left shape [j] []

namespace Members

variable {ms : Members} {name key : String} {j : Json}

/-- The values of all members with a name. -/
def found (name : String) (ms : Members) : List Json :=
  (ms.filter fun m => m.1 == name).map (·.2)

theorem found_cons_self : found name ((name, j) :: ms) = j :: found name ms := by
  simp [found]

theorem found_cons_of_ne (h : key ≠ name) : found name ((key, j) :: ms) = found name ms := by
  simp [found, h]

theorem lookup_eq_head? : ms.lookup name = (found name ms).head? := by
  induction ms with
  | nil => rfl
  | cons m rest ih =>
      obtain ⟨key, j⟩ := m
      by_cases h : key = name
      · subst h
        rw [List.lookup_cons_self, found_cons_self, List.head?_cons]
      · have hkey : (name == key) = false := beq_eq_false_iff_ne.mpr (Ne.symm h)
        rw [found_cons_of_ne h, List.lookup_cons, hkey, ih]

theorem found_eq_nil_iff : found name ms = [] ↔ ms.any (·.1 == name) = false := by
  simp [found, List.filter_eq_nil_iff]

theorem found_tail_eq_nil (honce : (found name ((name, j) :: ms)).length ≤ 1) :
    found name ms = [] := by
  rw [found_cons_self, List.length_cons] at honce
  exact List.eq_nil_of_length_eq_zero (by omega)

/-- No name is repeated when each of them is found once at most. -/
theorem repeats_eq_false_iff {names : List String} :
    repeats names ms = false ↔ ∀ name ∈ names, (found name ms).length ≤ 1 := by
  induction ms with
  | nil => simp [repeats, found]
  | cons m rest ih =>
      obtain ⟨key, j⟩ := m
      have hfirst : (names.contains key && rest.any (·.1 == key)) = false ↔
          (key ∈ names → found key rest = []) := by
        rw [Bool.and_eq_false_imp, List.contains_iff_mem, found_eq_nil_iff]
      rw [repeats, Bool.or_eq_false_iff, hfirst, ih]
      constructor
      · rintro ⟨hkey, hrest⟩ name hname
        by_cases h : key = name
        · subst h
          rw [found_cons_self, hkey hname]
          exact Nat.le_refl 1
        · rw [found_cons_of_ne h]
          exact hrest name hname
      · intro h
        refine ⟨fun hkey => found_tail_eq_nil (h key hkey), fun name hname => ?_⟩
        have honce := h name hname
        by_cases hkey : key = name
        · subst hkey
          rw [found_tail_eq_nil honce]
          exact Nat.zero_le 1
        · rwa [found_cons_of_ne hkey] at honce

/-- In any order of the members the same is found under a name that is not repeated. -/
theorem found_of_perm {ms' : Members} (h : ms.Perm ms') (honce : (found name ms).length ≤ 1) :
    found name ms' = found name ms := by
  have hfound : (found name ms').Perm (found name ms) := (h.symm.filter _).map _
  match hms : found name ms with
  | [] =>
      rw [hms] at hfound
      exact hfound.eq_nil
  | [j] =>
      rw [hms] at hfound
      exact List.perm_singleton.mp hfound
  | _ :: _ :: _ =>
      rw [hms] at honce
      simp at honce

end Members

theorem Alike.length_le (h : Alike left shape js js') (hjs : js.length ≤ 1) :
    js'.length ≤ 1 := by
  cases h with
  | same => exact hjs
  | edited h => exact Nat.le_refl 1
  | leftOut h => exact Nat.zero_le 1

theorem Edit.exists_obj {slots : List (String × Option Json × Shape)}
    (hedit : Edit (.members slots) j j') : ∃ ms, j = .obj ms := by
  cases hedit <;> exact ⟨_, rfl⟩

/-- A change of an object leaves what is alike under each name. -/
theorem Edit.alike {slots : List (String × Option Json × Shape)}
    (hedit : Edit (.members slots) (.obj ms) j) (hnames : (slots.map (·.1)).Nodup)
    (honce : ∀ slot ∈ slots, (Members.found slot.1 ms).length ≤ 1) :
    ∃ ms', j = .obj ms' ∧ ∀ slot ∈ slots,
      Alike slot.2.1 slot.2.2 (Members.found slot.1 ms) (Members.found slot.1 ms') := by
  cases hedit with
  | reorder h =>
      refine ⟨_, rfl, fun slot hslot => ?_⟩
      rw [Members.found_of_perm h (honce slot hslot)]
      exact .same
  | add key j h =>
      refine ⟨_, rfl, fun slot hslot => ?_⟩
      rw [Members.found_cons_of_ne (h slot hslot).symm]
      exact .same
  | @leaveOut _ name j shape ms h =>
      refine ⟨ms, rfl, fun slot hslot => ?_⟩
      by_cases hname : slot.1 = name
      · obtain rfl := List.inj_on_of_nodup_map hnames hslot h hname
        rw [Members.found_cons_self, Members.found_tail_eq_nil (honce _ hslot)]
        exact .leftOut rfl
      · rw [Members.found_cons_of_ne (Ne.symm hname)]
        exact .same
  | @member _ name left shape j j' ms h hedit =>
      refine ⟨(name, j') :: ms, rfl, fun slot hslot => ?_⟩
      by_cases hname : slot.1 = name
      · obtain rfl := List.inj_on_of_nodup_map hnames hslot h hname
        rw [Members.found_cons_self, Members.found_cons_self,
          Members.found_tail_eq_nil (honce _ hslot)]
        exact .edited hedit
      · rw [Members.found_cons_of_ne (Ne.symm hname), Members.found_cons_of_ne (Ne.symm hname)]
        exact .same

end OrderLedger
