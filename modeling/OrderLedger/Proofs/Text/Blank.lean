import Mathlib.Data.List.TakeWhile
import OrderLedger.Text.Blank

/-!
Blank text. Nothing is left of a text by trimming exactly when it is blank, so a blank text
counts as one that is not given.
-/

namespace OrderLedger.Text

variable {s t : String} {text : Option String}

theorem trimChars_eq_nil {cs : List Char} :
    trimChars cs = [] ↔ ∀ c ∈ cs, isWhiteSpace c = true := by
  constructor
  · intro h
    -- Only white space is dropped from the end, so the first character left is white space too.
    rw [trimChars, List.reverse_eq_nil_iff, List.dropWhile_eq_nil_iff] at h
    rw [← List.dropWhile_eq_nil_iff]
    by_contra hleft
    have hfirst := List.head_dropWhile_not isWhiteSpace hleft
    rw [h _ (List.mem_reverse.mpr (List.head_mem hleft))] at hfirst
    cases hfirst
  · intro h
    rw [trimChars, List.dropWhile_eq_nil_iff.mpr h]
    rfl

theorem trim_eq_empty : trim s = "" ↔ isBlank s = true := by
  rw [trim, String.ofList_eq_empty_iff, trimChars_eq_nil, isBlank, List.all_eq_true]

/-- A text that is there and not blank. -/
def Given (text : Option String) : Prop := ∃ s, text = some s ∧ isBlank s = false

theorem trimmed?_eq_some :
    trimmed? text = some t ↔ ∃ s, text = some s ∧ isBlank s = false ∧ t = trim s := by
  rw [trimmed?, Option.filter_eq_some_iff]
  cases text with
  | none => simp
  | some s =>
      rw [Option.map_some, Option.some.injEq]
      constructor
      · rintro ⟨rfl, hleft⟩
        refine ⟨s, rfl, ?_, rfl⟩
        rw [← Bool.not_eq_true, ← trim_eq_empty]
        simpa using hleft
      · rintro ⟨_, ⟨⟩, hgiven, rfl⟩
        rw [← Bool.not_eq_true, ← trim_eq_empty] at hgiven
        exact ⟨rfl, by simpa using hgiven⟩

theorem trimmed?_eq_none : trimmed? text = none ↔ ¬ Given text := by
  rw [Option.eq_none_iff_forall_ne_some]
  constructor
  · rintro h ⟨s, hs, hgiven⟩
    exact h _ (trimmed?_eq_some.mpr ⟨s, hs, hgiven, rfl⟩)
  · intro h t ht
    obtain ⟨s, hs, hgiven, -⟩ := trimmed?_eq_some.mp ht
    exact h ⟨s, hs, hgiven⟩

theorem isSome_trimmed? : (trimmed? text).isSome ↔ Given text := by
  rw [Option.isSome_iff_ne_none, Ne, trimmed?_eq_none, not_not]

end OrderLedger.Text
