import OrderLedger.Proofs.Json.Respelling
import OrderLedger.Proofs.Json.Wire

/-!
Types whose values survive the wire in every spelling. A structure is one of them when each
of its members is, since it is read member by member.
-/

namespace OrderLedger

open Wire

/-- A type whose sound values are read back as they were written, and whose reader does not
tell a value from another spelling of it. -/
class Faithful (α : Type) [Wire α] where
  shape : Shape
  /-- The numbers in it fit in their words and its moments are moments of the calendar. -/
  IsSound : α → Prop
  survives : ∀ {a : α}, IsSound a → Survives a
  tolerates : ∀ {j j' : Json} {a : α}, Edit shape j j' → decode? j = some a → decode? j' = some a

namespace Faithful

variable {α β : Type}

/-- A type whose values have one spelling. -/
@[reducible]
def whole [Wire α] (IsSound : α → Prop) (survives : ∀ a, IsSound a → Survives a) :
    Faithful α where
  shape := .whole
  IsSound := IsSound
  survives h := survives _ h
  tolerates h := nomatch h

instance : Faithful String := whole (fun _ => True) fun s _ => survives_string s

instance : Faithful Int := whole Word.Fits fun _ h => survives_int h

instance : Faithful Bool := whole (fun _ => True) fun b _ => by cases b <;> exact ⟨rfl, rfl⟩

instance : Faithful Time.Instant := whole Time.Instant.IsValid fun _ h => survives_instant h

instance : Faithful (Option String) := whole (fun _ => True) fun s _ => survives_optionalString s

/-- A type each of whose values has a name of its own. -/
@[reducible]
def named [Named α] (h : ∀ a : α, Named.ofName? (Named.name a) = some a) : Faithful α :=
  whole (fun _ => True) fun a _ => survives_named (h a)

theorem mapM_decode?_edit [Wire α] {before after : List Json} {j j' : Json} {items : List α}
    (hitem : ∀ a : α, decode? j = some a → decode? j' = some a)
    (h : (before ++ j :: after).mapM decode? = some items) :
    (before ++ j' :: after).mapM decode? = some items := by
  induction before generalizing items with
  | nil =>
      simp only [List.nil_append, List.mapM_cons, Option.bind_eq_bind, Option.bind_eq_some_iff,
        Option.pure_def] at h ⊢
      obtain ⟨a, ha, h⟩ := h
      exact ⟨a, hitem a ha, h⟩
  | cons first before ih =>
      simp only [List.cons_append, List.mapM_cons, Option.bind_eq_bind, Option.bind_eq_some_iff,
        Option.pure_def] at h ⊢
      obtain ⟨a, ha, rest, hrest, h⟩ := h
      exact ⟨a, ha, rest, ih hrest, h⟩

/-- A list is read item by item. -/
instance [Wire α] [Faithful α] : Faithful (List α) where
  shape := .items (shape α)
  IsSound items := ∀ a ∈ items, IsSound a
  survives h := survives_list fun a ha => survives (h a ha)
  tolerates hedit hread := by
    cases hedit with
    | item hedit => exact mapM_decode?_edit (fun a => tolerates hedit) hread

end Faithful

/-- A member of a structure. -/
structure Field (α : Type) where
  name : String
  /-- The value in whose place the member may be left out, if there is one. -/
  left : Option Json
  shape : Shape
  value : α → Json
  IsSound : α → Prop
  /-- The members of an object give this member of the structure. -/
  IsRead : Members → α → Prop
  plain : ∀ {a : α}, IsSound a → (value a).isPlain = true
  read : ∀ {ms : Members} {a : α}, IsSound a → ms.lookup name = some (value a) → IsRead ms a
  tolerates : ∀ {ms ms' : Members} {a : α},
    Alike left shape (ms.found name) (ms'.found name) → IsRead ms a → IsRead ms' a

namespace Field

section Kinds

variable {α β : Type} [Wire β] [Faithful β]

/-- A member that is read where it is found and is `missing` where it is not. -/
@[simp]
def member (name : String) (part : α → β) (get : Members → Option β) (missing : Option β)
    (hget : ∀ ms, get ms = (ms.lookup name).elim missing decode?) (left : Option Json)
    (hleft : ∀ j, left = some j → decode? j = missing) : Field α where
  name := name
  left := left
  shape := Faithful.shape β
  value a := encode (part a)
  IsSound a := Faithful.IsSound (part a)
  IsRead ms a := get ms = some (part a)
  plain h := (Faithful.survives h).plain
  read h hlookup := by rw [hget, hlookup, Option.elim_some, (Faithful.survives h).read]
  tolerates {ms ms' a} halike hread := by
    rw [hget, Members.lookup_eq_head?] at hread ⊢
    generalize ms.found name = js at halike hread
    generalize ms'.found name = js' at halike ⊢
    cases halike with
    | same => exact hread
    | edited hedit => exact Faithful.tolerates hedit hread
    | leftOut h => exact hleft _ h ▸ hread

/-- A member that must be present. -/
@[simp]
def required (name : String) (part : α → β) : Field α :=
  member name part (·.required? name) none
    (fun ms => by rw [Members.required?]; cases ms.lookup name <;> rfl)
    none (fun _ h => nomatch h)

/-- A member that may be missing or null. -/
@[simp]
def optional {β : Type} [Wire β] [Faithful (Option β)] (name : String) (part : α → Option β) :
    Field α :=
  member name part (·.optional? name) (some none)
    (fun ms => by rw [Members.optional?]; cases ms.lookup name <;> rfl)
    (some .null) (fun _ h => by cases h; rfl)

/-- A member that has a value of its own when it is missing. -/
@[simp]
def defaulted (name : String) (part : α → β) (default : β) (h : Faithful.IsSound default) :
    Field α :=
  member name part (·.defaulted? name default) (some default)
    (fun ms => by rw [Members.defaulted?]; cases ms.lookup name <;> rfl)
    (some (encode default)) (fun _ hleft => by cases hleft; exact (Faithful.survives h).read)

end Kinds

variable {α : Type} {fields : List (Field α)}

/-- The members of the object that is written. -/
def written (fields : List (Field α)) (a : α) : Members := fields.map fun f => (f.name, f.value a)

theorem found_written_eq_nil {name : String} (h : name ∉ fields.map (·.name)) (a : α) :
    (written fields a).found name = [] := by
  induction fields with
  | nil => rfl
  | cons f rest ih =>
      rw [List.map_cons, List.mem_cons, not_or] at h
      rw [written, List.map_cons, Members.found_cons_of_ne (Ne.symm h.1)]
      exact ih h.2

/-- Each member that was written is found once. -/
theorem found_written (hdistinct : (fields.map (·.name)).Nodup) (a : α) {f : Field α}
    (hf : f ∈ fields) : (written fields a).found f.name = [f.value a] := by
  induction fields with
  | nil => cases hf
  | cons g rest ih =>
      rw [List.map_cons, List.nodup_cons] at hdistinct
      rw [written, List.map_cons]
      rcases List.mem_cons.mp hf with rfl | hrest
      · rw [Members.found_cons_self]
        congr 1
        exact found_written_eq_nil hdistinct.1 a
      · have hname : g.name ≠ f.name := by
          intro heq
          exact hdistinct.1 (heq ▸ List.mem_map_of_mem hrest)
        rw [Members.found_cons_of_ne hname]
        exact ih hdistinct.2 hrest

theorem havePlain_written {a : α} (h : ∀ f ∈ fields, (f.value a).isPlain = true) :
    Json.havePlain (written fields a) = true := by
  induction fields with
  | nil => rfl
  | cons f rest ih =>
      rw [List.forall_mem_cons] at h
      rw [written, List.map_cons, Json.havePlain, h.1, Bool.true_and]
      exact ih h.2

end Field

/-- How a structure is written and read: as an object, member by member. -/
structure Format (α : Type) [Wire α] where
  fields : List (Field α)
  /-- How many items an array must give in place of an object. -/
  least : Nat
  distinct : (fields.map (·.name)).Nodup := by decide
  written : ∀ a : α, encode a = .obj (Field.written fields a) := by intro a; rfl
  read : ∀ (j : Json) (a : α), decode? j = some a ↔
    ∃ ms, Members.ofJson? (fields.map (·.name)) least j = some ms ∧ ∀ f ∈ fields, f.IsRead ms a

namespace Format

variable {α : Type} [Wire α] (format : Format α)

def slots : List (String × Option Json × Shape) :=
  format.fields.map fun f => (f.name, f.left, f.shape)

/-- A value is read from an object when every member is found once at most and gives its part. -/
theorem decode?_obj (ms : Members) (a : α) : decode? (.obj ms) = some a ↔
    (∀ f ∈ format.fields, (ms.found f.name).length ≤ 1) ∧ ∀ f ∈ format.fields, f.IsRead ms a := by
  have hrepeats : Members.repeats (format.fields.map (·.name)) ms = false ↔
      ∀ f ∈ format.fields, (ms.found f.name).length ≤ 1 := by
    rw [Members.repeats_eq_false_iff, List.forall_mem_map]
  rw [format.read, ← hrepeats]
  simp [Members.ofJson?]

theorem survives {a : α} (h : ∀ f ∈ format.fields, f.IsSound a) : Survives a := by
  have hfound {f : Field α} (hf : f ∈ format.fields) := Field.found_written format.distinct a hf
  constructor
  · rw [format.written]
    exact Field.havePlain_written fun f hf => f.plain (h f hf)
  · rw [format.written, format.decode?_obj]
    constructor
    · intro f hf
      rw [hfound hf]
      exact Nat.le_refl 1
    · intro f hf
      apply f.read (h f hf)
      rw [Members.lookup_eq_head?, hfound hf, List.head?_cons]

theorem tolerates {j j' : Json} {a : α} (hedit : Edit (.members format.slots) j j')
    (hread : decode? j = some a) : decode? j' = some a := by
  obtain ⟨ms, rfl⟩ := hedit.exists_obj
  obtain ⟨honce, hfields⟩ := (format.decode?_obj ms a).mp hread
  have hnames : (format.slots.map (·.1)).Nodup := by
    rw [slots, List.map_map]
    exact format.distinct
  obtain ⟨ms', rfl, halike⟩ := hedit.alike hnames (List.forall_mem_map.mpr honce)
  have halike {f : Field α} (hf : f ∈ format.fields) := List.forall_mem_map.mp halike f hf
  rw [format.decode?_obj]
  constructor
  · intro f hf
    exact (halike hf).length_le (honce f hf)
  · intro f hf
    exact f.tolerates (halike hf) (hfields f hf)

end Format

/-- A structure whose members survive the wire does so itself. -/
@[reducible]
def Faithful.ofFormat {α : Type} [Wire α] (format : Format α) : Faithful α where
  shape := .members format.slots
  IsSound a := ∀ f ∈ format.fields, f.IsSound a
  survives := format.survives
  tolerates := format.tolerates

end OrderLedger
