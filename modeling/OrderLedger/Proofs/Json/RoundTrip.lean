import OrderLedger.Proofs.Json.Strings

/-!
Values of JSON are read back as they were written, whatever stands behind them. The depth
that a reader needs is bounded by the length of what it reads.
-/

namespace OrderLedger.Json

open OrderLedger.Text

mutual

/-- Whether a value is built of texts, whole numbers, truth values and null. -/
def isPlain : Json → Bool
  | .null | .bool _ | .int _ | .str _ => true
  | .real _ | .garbled => false
  | .arr items => arePlain items
  | .obj members => havePlain members

def arePlain : List Json → Bool
  | [] => true
  | j :: items => isPlain j && arePlain items

def havePlain : List (String × Json) → Bool
  | [] => true
  | (_, j) :: members => isPlain j && havePlain members

end

theorem skip_cons {c : Char} {cs : List Char} (hc : isBlankChar c = false) :
    skip (c :: cs) = c :: cs := by
  simp [skip, hc]

/-- A written number starts with a digit or a minus sign. -/
theorem exists_head_signed (n : Int) :
    ∃ c cs, Decimal.signed n = c :: cs ∧ (Decimal.isDigit c = true ∨ c = '-') := by
  unfold Decimal.signed
  split
  · exact ⟨'-', _, rfl, Or.inr rfl⟩
  · have hall := Decimal.all_isDigit_digits n.natAbs
    cases hdigits : Decimal.digits n.natAbs with
    | nil => exact absurd hdigits (Decimal.digits_ne_nil _)
    | cons c cs =>
        rw [hdigits, List.all_cons, Bool.and_eq_true] at hall
        exact ⟨c, cs, rfl, Or.inl hall.1⟩

theorem isBlankChar_of_isDigit {c : Char} (h : Decimal.isDigit c = true) :
    isBlankChar c = false := by
  have hspace : c ≠ ' ' := Decimal.ne_of_isDigit h (by decide)
  have hnewline : c ≠ '\n' := Decimal.ne_of_isDigit h (by decide)
  have hreturn : c ≠ '\r' := Decimal.ne_of_isDigit h (by decide)
  have htab : c ≠ '\t' := Decimal.ne_of_isDigit h (by decide)
  simp [isBlankChar, hspace, hnewline, hreturn, htab]

/-- A written value starts with a mark of its own: no blank, and no bracket that closes. -/
theorem exists_head_chars {j : Json} (hj : j.isPlain = true) :
    ∃ c cs, chars j = c :: cs ∧ isBlankChar c = false ∧ c ≠ ']' := by
  cases j with
  | null => exact ⟨'n', _, rfl, by decide, by decide⟩
  | bool b => cases b <;> exact ⟨_, _, rfl, by decide, by decide⟩
  | int n =>
      obtain ⟨c, cs, hsigned, hdigit | rfl⟩ := exists_head_signed n
      · exact ⟨c, cs, hsigned, isBlankChar_of_isDigit hdigit,
          Decimal.ne_of_isDigit hdigit (by decide)⟩
      · exact ⟨'-', cs, hsigned, by decide, by decide⟩
  | real text => cases hj
  | str s => exact ⟨'"', _, rfl, by decide, by decide⟩
  | arr items => cases items <;> exact ⟨'[', _, rfl, by decide, by decide⟩
  | obj members => cases members <;> exact ⟨'{', _, rfl, by decide, by decide⟩
  | garbled => cases hj

section Readers

variable {depth : Nat} {cs more rest : List Char} {j : Json} {items : List Json} {key : String}
  {members : List (String × Json)}

theorem value?_signed (n : Int) (hrest : Ends rest) :
    value? (depth + 1) (Decimal.signed n ++ rest) = some (.int n, rest) := by
  have hnumber := number?_signed n hrest
  obtain ⟨c, ds, hsigned, hhead⟩ := exists_head_signed n
  have hblank : isBlankChar c = false := by
    rcases hhead with hdigit | rfl
    · exact isBlankChar_of_isDigit hdigit
    · decide
  rw [hsigned, List.cons_append] at hnumber ⊢
  generalize ds ++ rest = tail at hnumber ⊢
  rw [value?, skip_cons hblank]
  split
  all_goals first
    | exact hnumber
    | next heq =>
        cases heq
        exact absurd hhead (by decide)

theorem value?_quoted (s : String) :
    value? (depth + 1) (quoted s ++ rest) = some (.str s, rest) := by
  have hread := string?_quoted s rest
  have hquoted : quoted s ++ rest = '"' :: (s.toList.flatMap escaped ++ '"' :: rest) := by
    simp [quoted]
  rw [hquoted] at hread ⊢
  rw [value?, skip_cons (by decide)]
  simp only [hread, Option.map_some, ofString]

/-- An array is read by its first item and the items behind it. -/
theorem value?_items (hdepth : 0 < depth)
    (hhead : ∃ c ds, cs = c :: ds ∧ isBlankChar c = false ∧ c ≠ ']')
    (hfirst : value? depth cs = some (j, more))
    (hmore : moreItems? (value? depth) (more.length + 1) more = some (items, rest)) :
    value? (depth + 1) ('[' :: cs) = some (.arr (j :: items), rest) := by
  obtain ⟨c, ds, rfl, hblank, hclose⟩ := hhead
  rw [value?, skip_cons (by decide)]
  simp only [Nat.ne_of_gt hdepth, if_false, skip_cons hblank]
  split
  · next heq =>
      cases heq
      exact absurd rfl hclose
  · simp only [hfirst, hmore, Option.bind_eq_bind, Option.bind_some]

theorem member?_quoted {item : List Char → Option (Json × List Char)}
    (h : item cs = some (j, more)) :
    member? item (quoted key ++ ':' :: cs) = some ((some key, j), more) := by
  have hskip : skip (quoted key ++ ':' :: cs) = quoted key ++ ':' :: cs := by
    rw [quoted, List.cons_append, List.cons_append]
    exact skip_cons (by decide)
  have hcolon : isBlankChar ':' = false := by decide
  simp only [member?, hskip, string?_quoted, Option.bind_eq_bind, Option.bind_some,
    skip_cons hcolon, h]

theorem ofMembers_texts : ofMembers (members.map fun m => (some m.1, m.2)) = .obj members := by
  have htexts : (members.map fun m => (some m.1, m.2)).mapM
      (fun m : Option String × Json => m.1.map fun key => (key, m.2)) = some members := by
    induction members with
    | nil => rfl
    | cons m rest ih => simp [ih]
  rw [ofMembers, htexts]

/-- An object is read by its first member and the members behind it. -/
theorem value?_members (hdepth : 0 < depth) (hfirst : value? depth cs = some (j, more))
    (hmore : moreMembers? (value? depth) (more.length + 1) more =
      some (members.map fun m => (some m.1, m.2), rest)) :
    value? (depth + 1) ('{' :: (quoted key ++ ':' :: cs)) =
      some (.obj ((key, j) :: members), rest) := by
  have hmember : member? (value? depth) (quoted key ++ ':' :: cs) = some ((some key, j), more) :=
    member?_quoted hfirst
  have htexts : ofMembers (((key, j) :: members).map fun m => (some m.1, m.2)) =
      .obj ((key, j) :: members) := ofMembers_texts
  rw [List.map_cons] at htexts
  have hquoted : quoted key ++ ':' :: cs =
      '"' :: (key.toList.flatMap escaped ++ '"' :: ':' :: cs) := by
    simp [quoted]
  rw [hquoted] at hmember ⊢
  generalize key.toList.flatMap escaped ++ '"' :: ':' :: cs = tail at hmember ⊢
  rw [value?, skip_cons (by decide)]
  have hquote : isBlankChar '"' = false := by decide
  simp only [Nat.ne_of_gt hdepth, if_false, skip_cons hquote]
  split
  · next heq => cases heq
  · simp only [hmember, hmore, htexts, Option.bind_eq_bind, Option.bind_some]

end Readers

theorem ends_nil : Ends [] := by
  intro c hc
  cases hc

theorem ends_tailItems (items : List Json) (rest : List Char) : Ends (tailItems items ++ rest) := by
  intro c hc
  cases items with
  | nil =>
      cases hc
      exact Or.inr (Or.inl rfl)
  | cons j items =>
      cases hc
      exact Or.inl rfl

theorem ends_tailMembers (members : List (String × Json)) (rest : List Char) :
    Ends (tailMembers members ++ rest) := by
  intro c hc
  cases members with
  | nil =>
      cases hc
      exact Or.inr (Or.inr rfl)
  | cons m members =>
      cases hc
      exact Or.inl rfl

theorem length_le_tailItems (items : List Json) : items.length < (tailItems items).length := by
  induction items with
  | nil => simp [tailItems]
  | cons j items ih =>
      simp only [tailItems, List.length_cons, List.length_append]
      omega

theorem length_le_tailMembers (members : List (String × Json)) :
    members.length < (tailMembers members).length := by
  induction members with
  | nil => simp [tailMembers]
  | cons m members ih =>
      simp only [tailMembers, List.length_cons, List.length_append]
      omega

mutual

/-- A value is read back whatever ends it, by a reader that goes as deep as it is long. -/
theorem value?_chars (j : Json) (hj : j.isPlain = true) (depth : Nat)
    (hdepth : (chars j).length < depth) (rest : List Char) (hrest : Ends rest) :
    value? depth (chars j ++ rest) = some (j, rest) := by
  obtain ⟨depth, rfl⟩ : ∃ d, depth = d + 1 := ⟨depth - 1, by omega⟩
  cases j with
  | null => rfl
  | bool b => cases b <;> rfl
  | int n => exact value?_signed n hrest
  | real text => cases hj
  | str s => exact value?_quoted s
  | arr items =>
      cases items with
      | nil =>
          simp only [chars, List.length_cons, List.length_nil] at hdepth
          obtain ⟨depth, rfl⟩ : ∃ d, depth = d + 1 := ⟨depth - 1, by omega⟩
          rfl
      | cons j items =>
          simp only [isPlain, arePlain, Bool.and_eq_true] at hj
          simp only [chars, List.length_cons, List.length_append] at hdepth
          have hfirst := value?_chars j hj.1 depth (by omega) (tailItems items ++ rest)
            (ends_tailItems items rest)
          have hlength := length_le_tailItems items
          have hmore := moreItems?_tailItems items hj.2 depth (by omega)
            ((tailItems items ++ rest).length + 1) (by rw [List.length_append]; omega) rest
          simp only [chars, List.cons_append, List.append_assoc]
          apply value?_items (by omega) _ hfirst hmore
          obtain ⟨c, cs, hchars, hblank, hclose⟩ := exists_head_chars hj.1
          exact ⟨c, _, by rw [hchars, List.cons_append], hblank, hclose⟩
  | obj members =>
      cases members with
      | nil =>
          simp only [chars, List.length_cons, List.length_nil] at hdepth
          obtain ⟨depth, rfl⟩ : ∃ d, depth = d + 1 := ⟨depth - 1, by omega⟩
          rfl
      | cons m members =>
          obtain ⟨key, j⟩ := m
          simp only [isPlain, havePlain, Bool.and_eq_true] at hj
          simp only [chars, List.length_cons, List.length_append] at hdepth
          have hfirst := value?_chars j hj.1 depth (by omega) (tailMembers members ++ rest)
            (ends_tailMembers members rest)
          have hlength := length_le_tailMembers members
          have hmore := moreMembers?_tailMembers members hj.2 depth (by omega)
            ((tailMembers members ++ rest).length + 1) (by rw [List.length_append]; omega) rest
          simp only [chars, List.cons_append, List.append_assoc]
          exact value?_members (by omega) hfirst hmore
  | garbled => cases hj

theorem moreItems?_tailItems (items : List Json) (hitems : arePlain items = true) (depth : Nat)
    (hdepth : (tailItems items).length ≤ depth) (fuel : Nat) (hfuel : items.length < fuel)
    (rest : List Char) :
    moreItems? (value? depth) fuel (tailItems items ++ rest) = some (items, rest) := by
  obtain ⟨fuel, rfl⟩ : ∃ f, fuel = f + 1 := ⟨fuel - 1, by omega⟩
  cases items with
  | nil => rfl
  | cons j items =>
      simp only [arePlain, Bool.and_eq_true] at hitems
      simp only [tailItems, List.length_cons, List.length_append] at hdepth hfuel
      have hfirst := value?_chars j hitems.1 depth (by omega) (tailItems items ++ rest)
        (ends_tailItems items rest)
      have hmore := moreItems?_tailItems items hitems.2 depth (by omega) fuel (by omega) rest
      have hcomma : isBlankChar ',' = false := by decide
      simp only [tailItems, List.cons_append, List.append_assoc, moreItems?, skip_cons hcomma,
        hfirst, hmore, Option.bind_eq_bind, Option.bind_some]

theorem moreMembers?_tailMembers (members : List (String × Json))
    (hmembers : havePlain members = true) (depth : Nat)
    (hdepth : (tailMembers members).length ≤ depth) (fuel : Nat) (hfuel : members.length < fuel)
    (rest : List Char) :
    moreMembers? (value? depth) fuel (tailMembers members ++ rest) =
      some (members.map fun m => (some m.1, m.2), rest) := by
  obtain ⟨fuel, rfl⟩ : ∃ f, fuel = f + 1 := ⟨fuel - 1, by omega⟩
  cases members with
  | nil => rfl
  | cons m members =>
      obtain ⟨key, j⟩ := m
      simp only [havePlain, Bool.and_eq_true] at hmembers
      simp only [tailMembers, List.length_cons, List.length_append] at hdepth hfuel
      have hfirst := value?_chars j hmembers.1 depth (by omega) (tailMembers members ++ rest)
        (ends_tailMembers members rest)
      have hmore := moreMembers?_tailMembers members hmembers.2 depth (by omega) fuel
        (by omega) rest
      have hmember : member? (value? depth) (quoted key ++ ':' ::
          (chars j ++ (tailMembers members ++ rest))) = some ((some key, j), _) :=
        member?_quoted hfirst
      have hcomma : isBlankChar ',' = false := by decide
      simp only [tailMembers, List.cons_append, List.append_assoc, moreMembers?, skip_cons hcomma,
        hmember, hmore, Option.bind_eq_bind, Option.bind_some, List.map_cons]

end

/-- The text of a plain value is read back, and nothing stands behind it. -/
theorem outline?_chars {j : Json} (hj : j.isPlain = true) : outline? (chars j) = some j := by
  have hread := value?_chars j hj ((chars j).length + 1) (Nat.lt_succ_self _) [] ends_nil
  rw [List.append_nil] at hread
  rw [outline?, ofChars?, hread]
  rfl

theorem outlineOfBytes?_text {j : Json} (hj : j.isPlain = true) :
    outlineOfBytes? (Utf8.bytes (text j)) = some j := by
  rw [outlineOfBytes?, Utf8.text?_bytes]
  change outline? (text j).toList = some j
  rw [text, String.toList_ofList, outline?_chars hj]

end OrderLedger.Json
