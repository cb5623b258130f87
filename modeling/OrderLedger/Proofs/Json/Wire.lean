import OrderLedger.Money
import OrderLedger.Proofs.Json.RoundTrip
import OrderLedger.Proofs.Time.Rfc3339
import OrderLedger.Remembered

/-!
Values that survive the wire: written as JSON and read back they are the same. A value of
a type is one when its numbers fit in 64 bits and its moments are moments of the calendar.
-/

namespace OrderLedger

namespace Wire

/-- A value that is read back as it was written, from its JSON and from the text of it. -/
structure Survives {α : Type} [Wire α] (a : α) : Prop where
  plain : (encode a).isPlain = true
  read : decode? (encode a) = some a

variable {α : Type}

theorem survives_string (s : String) : Survives s := ⟨rfl, rfl⟩

theorem survives_int {n : Int} (h : Word.Fits n) : Survives n := ⟨rfl, if_pos h⟩

theorem survives_money {m : Money} (h : Word.Fits m.cents) : Survives m := by
  refine ⟨rfl, ?_⟩
  change (decode? (encode m.cents)).map Money.mk = some m
  rw [(survives_int h).read, Option.map_some]

theorem survives_named [Named α] {a : α} (h : Named.ofName? (Named.name a) = some a) :
    Survives a := ⟨rfl, h⟩

theorem survives_instant {t : Time.Instant} (h : t.IsValid) : Survives t :=
  ⟨rfl, Time.Rfc3339.read?_wireText h⟩

theorem survives_optionalString (s : Option String) : Survives s := by
  cases s <;> exact ⟨rfl, rfl⟩

theorem survives_list [Wire α] {items : List α} (h : ∀ a ∈ items, Survives a) :
    Survives items := by
  have hitems : Json.arePlain (items.map encode) = true ∧
      (items.map encode).mapM decode? = some items := by
    induction items with
    | nil => exact ⟨rfl, rfl⟩
    | cons a rest ih =>
        rw [List.forall_mem_cons] at h
        obtain ⟨hplain, hread⟩ := ih h.2
        constructor
        · rw [List.map_cons, Json.arePlain, h.1.plain, hplain, Bool.and_self]
        · simp only [List.map_cons, List.mapM_cons, h.1.read, hread, Option.pure_def,
            Option.bind_eq_bind, Option.bind_some]
  exact ⟨hitems.1, hitems.2⟩

end Wire

namespace Remembered

variable {α : Type} [Wire α] {a : α}

/-- A payload gives back the value that it was made for. -/
theorem valueOf?_payloadOf (h : Wire.Survives a) : valueOf? (payloadOf a) = some a := by
  rw [valueOf?, payloadOf, Json.outlineOfBytes?_text h.plain, Option.bind_some, h.read]

/-- Nothing is read from the empty payload with which a key is claimed. -/
theorem valueOf?_nil : valueOf? (α := α) [] = none := rfl

theorem payloadOf_ne_nil (h : Wire.Survives a) : payloadOf a ≠ [] := by
  intro hnil
  have hvalue := valueOf?_payloadOf h
  rw [hnil, valueOf?_nil] at hvalue
  cases hvalue

end Remembered

end OrderLedger
