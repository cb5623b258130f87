import Mathlib.Tactic.SplitIfs
import OrderLedger.Proofs.Text.Spans
import OrderLedger.Toml.Reader
import OrderLedger.Toml.Writer

/-!
Texts of TOML are read back as they were written, in each of the four kinds of quotes. Between
triple quotes up to two quotes may stand in a row, also right before the quotes that close the
text; so a reader that meets a quote has to look at what follows, and a text must not offer it
three.
-/

namespace OrderLedger.Toml

open OrderLedger.Text

variable {q c : Char} {cs es rest : List Char} {triple : Bool} {run room : Nat} {quotes : Quotes}

def isQuote (c : Char) : Bool := c = '"' || c = '\x27'

def isLineEnd (c : Char) : Bool := c = '\n' || c = '\r'

/-- A text that can stand in quotes of a kind as the writer puts it there. Where there are no
escapes, no character may need one, and no quotes may stand where they would close the text. -/
def Quotes.Holds : Quotes → List Char → Prop
  | .double, _ => True
  | .tripleDouble, _ => True
  | .single, cs => ∀ c ∈ cs, isPlainChar c = true ∧ c ≠ '\x27'
  | .tripleSingle, cs =>
      (∀ c ∈ cs, isPlainChar c = true ∨ c = '\n') ∧ longestRun '\x27' 0 cs ≤ 2

/-! ## Runs of quotes -/

theorem le_longestRun (q : Char) (run : Nat) (cs : List Char) : run ≤ longestRun q run cs := by
  induction cs generalizing run with
  | nil => exact Nat.le_refl run
  | cons c cs ih =>
      rw [longestRun]
      split
      · exact Nat.le_of_succ_le (ih (run + 1))
      · exact Nat.le_max_left _ _

theorem not_mem_of_longestRun (h : longestRun q 0 cs = 0) : q ∉ cs := by
  induction cs with
  | nil => exact List.not_mem_nil
  | cons c cs ih =>
      rw [longestRun] at h
      split at h
      · have := le_longestRun q (0 + 1) cs
        omega
      · next hc =>
          rw [Nat.zero_max] at h
          exact List.not_mem_cons_of_ne_of_not_mem (Ne.symm hc) (ih h)

theorem not_two_of_longestRun (h : longestRun q (run + 1) cs ≤ 2) (more : List Char) :
    cs ≠ q :: q :: more := by
  rintro rfl
  rw [longestRun, if_pos rfl, longestRun, if_pos rfl] at h
  have := le_longestRun q (run + 1 + 1 + 1) more
  omega

/-- At a quote of the text the reader has come to the end if only quotes are left, and else it has
not, unless two more quotes follow. -/
theorem closing?_marks (h : ∀ more, cs ≠ q :: q :: more) (hrest : Stops (· == q) rest) :
    closing? q (q :: (cs ++ q :: q :: q :: rest)) =
      if cs.all (· == q) then some (q :: cs, rest) else none := by
  rcases cs with - | ⟨a, - | ⟨b, more⟩⟩
  · cases rest with
    | nil => simp [closing?]
    | cons d more =>
        have hd : d ≠ q := by simpa using hrest d rfl
        simp [closing?, hd]
  · by_cases ha : a = q
    · simp [closing?, ha]
    · simp [closing?, ha]
  · by_cases ha : a = q
    · have hb : b ≠ q := by
        rintro rfl
        exact h more (by rw [ha])
      simp [closing?, ha, hb]
    · simp [closing?, ha]

/-- At the quotes behind the text the reader has come to its end. -/
theorem closing?_mark (hrest : Stops (· == q) rest) :
    closing? q (q :: q :: q :: rest) = some ([], rest) := by
  rcases rest with - | ⟨d, - | ⟨e, more⟩⟩
  · simp [closing?]
  · have hd : d ≠ q := by simpa using hrest d rfl
    simp [closing?, hd]
  · have hd : d ≠ q := by simpa using hrest d rfl
    simp [closing?, hd]

/-! ## Texts with escapes -/

/-- An escape of one letter. -/
theorem escapedTail?_letter {e : Char} (hu : e ≠ 'u') (hU : e ≠ 'U')
    (hline : endsLine (e :: rest) = false) (h : unescape? e = some c) :
    escapedTail? triple .text ('\\' :: e :: rest) =
      (escapedTail? triple .text rest).map fun r => (c :: r.1, r.2) := by
  rw [escapedTail?, hline, Bool.and_false, if_neg Bool.false_ne_true, h]
  · cases escapedTail? triple .text rest <;> rfl
  · rintro _ _ _ _ _ rfl
    exact absurd rfl hu
  · rintro _ _ _ _ _ _ _ _ _ rfl
    exact absurd rfl hU

/-- An escape by four digits. -/
theorem escapedTail?_digits {i j k l : Char} (h : scalar? [i, j, k, l] = some c) :
    escapedTail? triple .text ('\\' :: 'u' :: i :: j :: k :: l :: rest) =
      (escapedTail? triple .text rest).map fun r => (c :: r.1, r.2) := by
  rw [escapedTail?, h]
  cases escapedTail? triple .text rest <;> rfl

/-- A character that neither begins an escape nor a line end of two characters. -/
theorem escapedTail?_other (hslash : c ≠ '\\') (hreturn : c ≠ '\r') :
    escapedTail? triple .text (c :: rest) =
      if triple && c = '\n' then (escapedTail? triple .text rest).map fun r => ('\n' :: r.1, r.2)
      else if c = '"' then
        if triple then
          match closing? '"' (c :: rest) with
          | some r => some r
          | none => (escapedTail? triple .text rest).map fun r => ('"' :: r.1, r.2)
        else some ([], rest)
      else if isPlainChar c && c != '\\' then
        (escapedTail? triple .text rest).map fun r => (c :: r.1, r.2)
      else none := by
  rw [escapedTail?]
  · rfl
  all_goals
    intros
    contradiction

theorem escapedTail?_line :
    escapedTail? true .text ('\n' :: rest) =
      (escapedTail? true .text rest).map fun r => ('\n' :: r.1, r.2) := by
  rw [escapedTail?_other (by decide) (by decide)]
  rfl

theorem ne_return_of_isPlainChar (h : isPlainChar c = true) : c ≠ '\r' := by
  rintro rfl
  revert h
  decide

theorem ne_lineEnd_of_isPlainChar (h : isPlainChar c = true) : c ≠ '\n' := by
  rintro rfl
  revert h
  decide

/-- A character that needs no escape. -/
theorem escapedTail?_plain (hplain : isPlainChar c = true) (hquote : c ≠ '"') (hslash : c ≠ '\\') :
    escapedTail? triple .text (c :: rest) =
      (escapedTail? triple .text rest).map fun r => (c :: r.1, r.2) := by
  rw [escapedTail?_other hslash (ne_return_of_isPlainChar hplain)]
  simp [hplain, hquote, hslash, ne_lineEnd_of_isPlainChar hplain]

theorem value?_upperDigit {n : Nat} (h : n < 16) : Hex.value? (Hex.upperDigit n) = some n := by
  have hall : ∀ m : Fin 16, Hex.value? (Hex.upperDigit m.val) = some m.val := by decide
  exact hall ⟨n, h⟩

/-- A control character that has no letter is written by the two digits of its number. -/
theorem scalar?_digits (h : c.toNat < 128) :
    scalar? ['0', '0', Hex.upperDigit (c.toNat / 16), Hex.upperDigit (c.toNat % 16)] = some c := by
  have hzero : Hex.value? '0' = some 0 := by decide
  have hvalue : 16 * (c.toNat / 16) + c.toNat % 16 = c.toNat := Nat.div_add_mod _ _
  have hsmall : c.toNat < 55296 := Nat.lt_trans h (by decide)
  simp only [scalar?, List.mapM_cons, List.mapM_nil, hzero,
    value?_upperDigit (show c.toNat / 16 < 16 by omega),
    value?_upperDigit (show c.toNat % 16 < 16 by omega), Option.bind_eq_bind, Option.bind_some,
    Option.pure_def, List.foldl_cons, List.foldl_nil, Nat.mul_zero, Nat.zero_add, hvalue]
  rw [if_pos (Or.inl hsmall), Char.ofNat_toNat]

/-- A character is read from its escape. -/
theorem escapedTail?_escaped (hquote : c ≠ '"') (rest : List Char) :
    escapedTail? triple .text (escaped triple c ++ rest) =
      (escapedTail? triple .text rest).map fun r => (c :: r.1, r.2) := by
  unfold escaped
  split
  · next h => exact escapedTail?_letter (by decide) (by decide) rfl (by rw [h]; rfl)
  split
  · next h => exact escapedTail?_letter (by decide) (by decide) rfl (by rw [h]; rfl)
  split
  · next h =>
      subst h
      cases triple with
      | false => exact escapedTail?_letter (by decide) (by decide) rfl rfl
      | true => exact escapedTail?_line
  split
  · next h => exact escapedTail?_letter (by decide) (by decide) rfl (by rw [h]; rfl)
  split
  · next h => exact escapedTail?_letter (by decide) (by decide) rfl (by rw [h]; rfl)
  split
  · next h => exact escapedTail?_letter (by decide) (by decide) rfl (by rw [h]; rfl)
  split
  · next hcontrol => exact escapedTail?_digits (scalar?_digits (by omega))
  · next hslash hcontrol =>
      have hplain : isPlainChar c = true := by
        simp [isPlainChar]
        omega
      exact escapedTail?_plain hplain hquote hslash

theorem escapedTail?_quote (rest : List Char) :
    escapedTail? triple .text ('\\' :: '"' :: rest) =
      (escapedTail? triple .text rest).map fun r => ('"' :: r.1, r.2) :=
  escapedTail?_letter (by decide) (by decide) rfl rfl

/-- No escape begins with a quote or a return, and only a line end begins with a line end. -/
theorem exists_head_escaped (triple : Bool) (hquote : c ≠ '"') :
    ∃ d ds, escaped triple c = d :: ds ∧ d ≠ '"' ∧ d ≠ '\r' ∧ (d = '\n' → c = '\n') := by
  have hslash (ds : List Char) : ∃ d ds', '\\' :: ds = d :: ds' ∧ d ≠ '"' ∧ d ≠ '\r' ∧
      (d = '\n' → c = '\n') :=
    ⟨_, _, rfl, by decide, by decide, fun h => absurd h (by decide)⟩
  unfold escaped
  split_ifs with _ _ hline _ _ hreturn
  · exact hslash _
  · exact hslash _
  · exact ⟨_, _, rfl, by decide, by decide, fun _ => hline⟩
  · exact hslash _
  · exact hslash _
  · exact hslash _
  · exact hslash _
  · exact hslash _
  · exact ⟨_, _, rfl, hquote, hreturn, id⟩

theorem escapedText_quote (triple : Bool) (cs : List Char) :
    escapedText triple 0 ('"' :: cs) =
      '\\' :: '"' :: escapedText triple (quoteRoom triple) cs := rfl

theorem escapedText_room (triple : Bool) (room : Nat) (cs : List Char) :
    escapedText triple (room + 1) ('"' :: cs) = '"' :: escapedText triple room cs := rfl

theorem escapedText_other (hquote : c ≠ '"') (room : Nat) (cs : List Char) :
    escapedText triple room (c :: cs) =
      escaped triple c ++ escapedText triple (quoteRoom triple) cs := by
  rw [escapedText.eq_def]
  exact if_neg hquote

/-- Where there is no room for a quote, none is written without an escape. -/
theorem stops_escapedText (triple : Bool) (cs : List Char) :
    Stops (· == '"') (escapedText triple 0 cs) := by
  cases cs with
  | nil => exact stops_nil
  | cons c cs =>
      by_cases hquote : c = '"'
      · subst hquote
        exact stops_cons rfl
      · obtain ⟨d, ds, hescaped, hd, -⟩ := exists_head_escaped triple hquote
        rw [escapedText_other hquote, hescaped]
        exact stops_cons (beq_eq_false_iff_ne.mpr hd)

/-- Where there is room for one quote, not two are written. -/
theorem escapedText_not_two (hroom : room ≤ 1) (cs more : List Char) :
    escapedText triple room cs ≠ '"' :: '"' :: more := by
  have hzero (cs tail : List Char) : escapedText triple 0 cs ≠ '"' :: tail := by
    intro heq
    have hhead := stops_escapedText triple cs '"' (by rw [heq]; rfl)
    cases hhead
  intro heq
  match room, hroom, cs with
  | 0, _, cs => exact hzero cs _ heq
  | 1, _, [] => cases heq
  | 1, _, c :: cs =>
      by_cases hquote : c = '"'
      · subst hquote
        exact hzero cs _ (List.cons.inj heq).2
      · obtain ⟨d, ds, hescaped, hd, -⟩ := exists_head_escaped triple hquote
        rw [escapedText_other hquote, hescaped] at heq
        exact hd (List.cons.inj heq).1

/-- What is written as nothing but quotes is nothing but quotes. -/
theorem escapedText_of_all (h : (escapedText triple room cs).all (· == '"') = true) :
    escapedText triple room cs = cs := by
  induction cs generalizing room with
  | nil => rfl
  | cons c cs ih =>
      by_cases hquote : c = '"'
      · subst hquote
        cases room with
        | zero => cases h
        | succ room =>
            rw [escapedText_room, List.all_cons, Bool.and_eq_true] at h
            rw [escapedText_room, ih h.2]
      · obtain ⟨d, ds, hescaped, hd, -⟩ := exists_head_escaped triple hquote
        rw [escapedText_other hquote, hescaped, List.cons_append, List.all_cons,
          beq_eq_false_iff_ne.mpr hd] at h
        cases h

/-- A text between double quotes is read up to the quote that closes it. -/
theorem escapedTail?_escapedText (cs rest : List Char) :
    escapedTail? false .text (escapedText false 0 cs ++ '"' :: rest) = some (cs, rest) := by
  induction cs with
  | nil => rfl
  | cons c cs ih =>
      by_cases hquote : c = '"'
      · rw [hquote, escapedText_quote, List.cons_append, List.cons_append, escapedTail?_quote]
        exact congrArg (Option.map _) ih
      · rw [escapedText_other hquote, List.append_assoc, escapedTail?_escaped hquote]
        exact congrArg (Option.map _) ih

/-- A quote between three double quotes: the end of the text, or a character of it. -/
theorem escapedTail?_mark :
    escapedTail? true .text ('"' :: rest) =
      match closing? '"' ('"' :: rest) with
      | some r => some r
      | none => (escapedTail? true .text rest).map fun r => ('"' :: r.1, r.2) := by
  rw [escapedTail?_other (by decide) (by decide)]
  rfl

/-- A text between three double quotes is read up to the quotes that close it, also where its
own quotes stand right before them. -/
theorem escapedTail?_escapedText_triple (hroom : room ≤ 2) (hrest : Stops (· == '"') rest) :
    escapedTail? true .text (escapedText true room cs ++ '"' :: '"' :: '"' :: rest) =
      some (cs, rest) := by
  induction cs generalizing room with
  | nil =>
      change escapedTail? true .text ('"' :: '"' :: '"' :: rest) = _
      rw [escapedTail?_mark, closing?_mark hrest]
  | cons c cs ih =>
      by_cases hquote : c = '"'
      · subst hquote
        cases room with
        | zero =>
            rw [escapedText_quote, List.cons_append, List.cons_append, escapedTail?_quote]
            exact congrArg (Option.map _) (ih (Nat.le_refl 2))
        | succ room =>
            rw [escapedText_room, List.cons_append, escapedTail?_mark,
              closing?_marks (escapedText_not_two (Nat.le_of_succ_le_succ hroom) cs) hrest]
            by_cases hall : (escapedText true room cs).all (· == '"') = true
            · rw [if_pos hall, escapedText_of_all hall]
            · rw [if_neg hall, ih (Nat.le_of_succ_le hroom)]
              rfl
      · rw [escapedText_other hquote, List.append_assoc, escapedTail?_escaped hquote]
        exact congrArg (Option.map _) (ih (Nat.le_refl 2))

/-! ## Texts without escapes -/

/-- A character that does not begin a line end of two characters. -/
theorem literalTail?_other (hreturn : c ≠ '\r') :
    literalTail? triple (c :: rest) =
      if c = '\x27' then
        if triple then
          match closing? '\x27' (c :: rest) with
          | some r => some r
          | none => (literalTail? triple rest).map fun r => (c :: r.1, r.2)
        else some ([], rest)
      else if isPlainChar c || (triple && c = '\n') then
        (literalTail? triple rest).map fun r => (c :: r.1, r.2)
      else none := by
  rw [literalTail?.eq_def]
  split
  · next heq => cases heq
  · next heq => exact absurd (List.cons.inj heq).1 hreturn
  · next heq =>
      cases heq
      rfl

theorem literalTail?_plain (hplain : isPlainChar c = true) (hquote : c ≠ '\x27') :
    literalTail? triple (c :: rest) =
      (literalTail? triple rest).map fun r => (c :: r.1, r.2) := by
  rw [literalTail?_other (ne_return_of_isPlainChar hplain)]
  simp [hplain, hquote]

theorem literalTail?_line :
    literalTail? true ('\n' :: rest) =
      (literalTail? true rest).map fun r => ('\n' :: r.1, r.2) := by
  rw [literalTail?_other (by decide)]
  rfl

theorem literalTail?_mark :
    literalTail? true ('\x27' :: rest) =
      match closing? '\x27' ('\x27' :: rest) with
      | some r => some r
      | none => (literalTail? true rest).map fun r => ('\x27' :: r.1, r.2) := by
  rw [literalTail?_other (by decide)]
  rfl

theorem literalTail?_single (h : ∀ c ∈ cs, isPlainChar c = true ∧ c ≠ '\x27') (rest : List Char) :
    literalTail? false (cs ++ '\x27' :: rest) = some (cs, rest) := by
  induction cs with
  | nil => rfl
  | cons c cs ih =>
      obtain ⟨⟨hplain, hquote⟩, hrest⟩ := List.forall_mem_cons.mp h
      rw [List.cons_append, literalTail?_plain hplain hquote, ih hrest]
      rfl

theorem literalTail?_triple (h : ∀ c ∈ cs, isPlainChar c = true ∨ c = '\n')
    (hrun : longestRun '\x27' run cs ≤ 2) (hrest : Stops (· == '\x27') rest) :
    literalTail? true (cs ++ '\x27' :: '\x27' :: '\x27' :: rest) = some (cs, rest) := by
  induction cs generalizing run with
  | nil =>
      change literalTail? true ('\x27' :: '\x27' :: '\x27' :: rest) = _
      rw [literalTail?_mark, closing?_mark hrest]
  | cons c cs ih =>
      obtain ⟨hc, hcs⟩ := List.forall_mem_cons.mp h
      rw [longestRun] at hrun
      rw [List.cons_append]
      split at hrun
      · next hquote =>
          subst hquote
          rw [literalTail?_mark, closing?_marks (not_two_of_longestRun hrun) hrest]
          by_cases hall : cs.all (· == '\x27') = true
          · rw [if_pos hall]
          · rw [if_neg hall, ih hcs hrun]
            rfl
      · next hquote =>
          have hmore := ih hcs (Nat.le_trans (Nat.le_max_right _ _) hrun)
          rcases hc with hplain | rfl
          · rw [literalTail?_plain hplain hquote, hmore]
            rfl
          · rw [literalTail?_line, hmore]
            rfl

/-! ## The choice of quotes -/

theorem isPlainChar_of_not_isControl (h : isControl c = false) :
    isPlainChar c = true ∨ c = '\n' := by
  simp only [isControl, isPlainChar, Bool.or_eq_false_iff, Bool.and_eq_false_iff, Bool.or_eq_true,
    Bool.and_eq_true, decide_eq_true_eq, decide_eq_false_iff_not, bne_iff_ne, bne_eq_false_iff_eq,
    beq_eq_false_iff_ne] at h ⊢
  obtain ⟨(hlow | htab) | hline, hdelete⟩ := h
  · exact Or.inl (Or.inr ⟨by omega, hdelete⟩)
  · exact Or.inl (Or.inl htab)
  · exact Or.inr hline

/-- The quotes that the writer chooses hold the text. -/
theorem holds_quotesFor (cs : List Char) : (quotesFor cs).Holds cs := by
  have hplain (h : (!cs.any isControl) = true) : ∀ c ∈ cs, isPlainChar c = true ∨ c = '\n' := by
    intro c hc
    refine isPlainChar_of_not_isControl (Bool.not_eq_true _ ▸ fun hcontrol => ?_)
    rw [List.any_eq_true.mpr ⟨c, hc, hcontrol⟩] at h
    cases h
  unfold quotesFor
  simp only
  split_ifs with hdouble hsingle htripleDouble htripleSingle hline
  · trivial
  · simp only [Bool.and_eq_true, decide_eq_true_eq] at hsingle
    obtain ⟨⟨hcontrol, hquotes⟩, hline⟩ := hsingle
    intro c hc
    constructor
    · refine (hplain hcontrol c hc).resolve_right ?_
      rintro rfl
      rw [List.contains_iff_mem.mpr hc] at hline
      cases hline
    · rintro rfl
      exact not_mem_of_longestRun hquotes hc
  · trivial
  · simp only [Bool.and_eq_true, decide_eq_true_eq] at htripleSingle
    exact ⟨hplain htripleSingle.1, htripleSingle.2⟩
  · trivial
  · trivial

/-! ## Texts in quotes -/

/-- Quotes that are not three in a row open a text on one line. -/
theorem text?_double (h : ∀ more, cs ≠ '"' :: '"' :: more) :
    text? ('"' :: cs) = escapedTail? false .text cs := by
  rw [text?.eq_def]
  split
  · next heq => exact absurd (List.cons.inj heq).2 (h _)
  · next heq => cases heq
  · rfl

theorem text?_single (h : ∀ more, cs ≠ '\x27' :: '\x27' :: more) :
    text? ('\x27' :: cs) = literalTail? false cs := by
  rw [text?.eq_def]
  split
  · next heq => cases heq
  · next heq => exact absurd (List.cons.inj heq).2 (h _)
  · rfl

theorem not_two_of_stops (hcs : Stops (· == q) cs) (hrest : Stops (· == q) rest)
    (more : List Char) : cs ++ q :: rest ≠ q :: q :: more := by
  intro heq
  cases cs with
  | nil =>
      have hhead := hrest q (by rw [(List.cons.inj heq).2]; rfl)
      simp at hhead
  | cons c cs =>
      have hhead := hcs q (by rw [(List.cons.inj heq).1]; rfl)
      simp at hhead

/-- The line end that is put before a text of several lines is passed over, and nothing of
another text is. -/
theorem skipLineEnd_start (h : '\n' ∉ cs → Stops isLineEnd es) :
    skipLineEnd ((if cs.contains '\n' then ['\n'] else []) ++ es) = es := by
  by_cases hline : '\n' ∈ cs
  · rw [if_pos (List.contains_iff_mem.mpr hline)]
    rfl
  · rw [if_neg (mt List.contains_iff_mem.mp hline), List.nil_append, skipLineEnd.eq_def]
    split
    · cases h hline '\n' rfl
    · cases h hline '\r' rfl
    · rfl

theorem isLineEnd_eq_false (hline : c ≠ '\n') (hreturn : c ≠ '\r') : isLineEnd c = false := by
  simp [isLineEnd, hline, hreturn]

theorem stops_lineEnd_escapedText (hline : '\n' ∉ cs) :
    Stops isLineEnd (escapedText true 2 cs ++ '"' :: es) := by
  cases cs with
  | nil => exact stops_cons rfl
  | cons c cs =>
      by_cases hquote : c = '"'
      · subst hquote
        exact stops_cons rfl
      · obtain ⟨d, ds, hescaped, -, hreturn, hd⟩ := exists_head_escaped true hquote
        rw [escapedText_other hquote, hescaped]
        exact stops_cons
          (isLineEnd_eq_false (fun heq => hline (hd heq ▸ List.mem_cons_self)) hreturn)

theorem stops_lineEnd_plain (h : ∀ c ∈ cs, isPlainChar c = true ∨ c = '\n') (hline : '\n' ∉ cs) :
    Stops isLineEnd (cs ++ '\x27' :: es) := by
  cases cs with
  | nil => exact stops_cons rfl
  | cons c cs =>
      have hne : c ≠ '\n' := fun heq => hline (heq ▸ List.mem_cons_self)
      have hplain := (h c List.mem_cons_self).resolve_right hne
      exact stops_cons (isLineEnd_eq_false hne (ne_return_of_isPlainChar hplain))

/-- A text is read from quotes that hold it. -/
theorem text?_quotedIn (h : quotes.Holds cs) (hrest : Stops isQuote rest) :
    text? (quotedIn quotes cs ++ rest) = some (cs, rest) := by
  have hdouble : Stops (· == '"') rest :=
    hrest.mono fun c hc => by simp [isQuote, beq_iff_eq.mp hc]
  have hsingle : Stops (· == '\x27') rest :=
    hrest.mono fun c hc => by simp [isQuote, beq_iff_eq.mp hc]
  cases quotes with
  | double =>
      have hwritten : quotedIn .double cs ++ rest =
          '"' :: (escapedText false 0 cs ++ '"' :: rest) := by
        simp [quotedIn, Quotes.mark, Quotes.isTriple, Quotes.hasEscapes, quoteRoom]
      rw [hwritten, text?_double (not_two_of_stops (stops_escapedText false cs) hdouble),
        escapedTail?_escapedText]
  | single =>
      have hwritten : quotedIn .single cs ++ rest = '\x27' :: (cs ++ '\x27' :: rest) := by
        simp [quotedIn, Quotes.mark, Quotes.isTriple, Quotes.hasEscapes]
      have hcs : Stops (· == '\x27') cs := fun c hc =>
        beq_eq_false_iff_ne.mpr (h c (List.mem_of_mem_head? hc)).2
      rw [hwritten, text?_single (not_two_of_stops hcs hsingle), literalTail?_single h]
  | tripleDouble =>
      have hwritten : quotedIn .tripleDouble cs ++ rest = '"' :: '"' :: '"' ::
          ((if cs.contains '\n' then ['\n'] else []) ++
            (escapedText true 2 cs ++ '"' :: '"' :: '"' :: rest)) := by
        simp [quotedIn, Quotes.mark, Quotes.isTriple, Quotes.hasEscapes, quoteRoom]
      rw [hwritten, text?, skipLineEnd_start stops_lineEnd_escapedText,
        escapedTail?_escapedText_triple (Nat.le_refl 2) hdouble]
  | tripleSingle =>
      have hwritten : quotedIn .tripleSingle cs ++ rest = '\x27' :: '\x27' :: '\x27' ::
          ((if cs.contains '\n' then ['\n'] else []) ++
            (cs ++ '\x27' :: '\x27' :: '\x27' :: rest)) := by
        simp [quotedIn, Quotes.mark, Quotes.isTriple, Quotes.hasEscapes]
      rw [hwritten, text?, skipLineEnd_start (stops_lineEnd_plain h.1),
        literalTail?_triple h.1 h.2 hsingle]

theorem text?_quoted (s : String) (hrest : Stops isQuote rest) :
    text? (quoted s ++ rest) = some (s.toList, rest) :=
  text?_quotedIn (holds_quotesFor s.toList) hrest

end OrderLedger.Toml
