/-!
Where a run of characters ends: at the end of the text, or at the first character that is none
of them. What is written as one run is taken as one run, whatever stands behind it.
-/

namespace OrderLedger.Text

variable {p : Char → Bool} {c : Char} {cs rest : List Char}

/-- What may stand behind a run: nothing, or a character that does not belong to it. -/
def Stops (p : Char → Bool) (rest : List Char) : Prop := ∀ c ∈ rest.head?, p c = false

theorem stops_nil : Stops p [] := by
  intro c hc
  cases hc

theorem stops_cons (hc : p c = false) : Stops p (c :: rest) := by
  rintro _ ⟨⟩
  exact hc

theorem Stops.mono {few : Char → Bool} (hrest : Stops p rest)
    (himp : ∀ c, few c = true → p c = true) : Stops few rest := by
  intro c hc
  rw [Bool.eq_false_iff]
  intro hfew
  exact Bool.eq_false_iff.mp (hrest c hc) (himp c hfew)

theorem Stops.take (hrest : Stops p rest) (n : Nat) : Stops p (rest.take n) := by
  cases rest with
  | nil => rw [List.take_nil]; exact stops_nil
  | cons c rest =>
      cases n with
      | zero => exact stops_nil
      | succ n => exact stops_cons (hrest c rfl)

theorem takeWhile_of_stops (hrest : Stops p rest) : rest.takeWhile p = [] := by
  cases rest with
  | nil => rfl
  | cons c rest => simp [hrest c rfl]

theorem dropWhile_of_stops (hrest : Stops p rest) : rest.dropWhile p = rest := by
  cases rest with
  | nil => rfl
  | cons c rest => simp [hrest c rfl]

theorem takeWhile_append_stops (hall : cs.all p = true) (hrest : Stops p rest) :
    (cs ++ rest).takeWhile p = cs := by
  rw [List.takeWhile_append_of_pos (List.all_eq_true.mp hall), takeWhile_of_stops hrest,
    List.append_nil]

theorem dropWhile_append_stops (hall : cs.all p = true) (hrest : Stops p rest) :
    (cs ++ rest).dropWhile p = rest := by
  rw [List.dropWhile_append_of_pos (List.all_eq_true.mp hall), dropWhile_of_stops hrest]

end OrderLedger.Text
