import OrderLedger.Proofs.Text.Decimal
import OrderLedger.Proofs.Toml.Strings

/-!
One line of a TOML document is read as what it sets: a bare key with a text or a number, or the
header of a table with a bare name. The reader tells a number from a date, from a number in
another base and from a real number only behind its first characters.
-/

namespace OrderLedger.Toml

open OrderLedger.Text

variable {c : Char} {cs rest : List Char} {n : Int} {key : String} {value : Scalar}

/-- A name that is written without quotes. -/
structure IsBare (name : String) : Prop where
  nonempty : name.toList ≠ []
  all : name.toList.all isBareChar = true

instance (name : String) : Decidable (IsBare name) :=
  decidable_of_iff (name.toList ≠ [] ∧ name.toList.all isBareChar = true)
    ⟨fun h => ⟨h.1, h.2⟩, fun h => ⟨h.nonempty, h.all⟩⟩

/-- A value that fits where it is read. -/
def Scalar.Fits : Scalar → Prop
  | .text _ => True
  | .number n => Word.Fits n

def Scalar.toJson : Scalar → Json
  | .text s => .str s
  | .number n => .int n

/-! ## Numbers -/

theorem mem_signed (h : c ∈ Decimal.signed n) : Decimal.isDigit c = true ∨ c = '-' := by
  have hdigits {c : Char} (h : c ∈ Decimal.digits n.natAbs) : Decimal.isDigit c = true :=
    List.all_eq_true.mp (Decimal.all_isDigit_digits _) c h
  unfold Decimal.signed at h
  split at h
  · rcases List.mem_cons.mp h with rfl | h
    · exact Or.inr rfl
    · exact Or.inl (hdigits h)
  · exact Or.inl (hdigits h)

theorem isDigit_of_mem_tail_signed (h : c ∈ (Decimal.signed n).tail) :
    Decimal.isDigit c = true := by
  unfold Decimal.signed at h
  split at h
  · exact List.all_eq_true.mp (Decimal.all_isDigit_digits _) c h
  · exact List.all_eq_true.mp (Decimal.all_isDigit_digits _) c (List.mem_of_mem_tail h)

theorem signed_ne_nil (n : Int) : Decimal.signed n ≠ [] := by
  unfold Decimal.signed
  split
  · exact List.cons_ne_nil _ _
  · exact Decimal.digits_ne_nil _

theorem not_mem_signed (hdigit : Decimal.isDigit c = false) (hminus : c ≠ '-') :
    c ∉ Decimal.signed n := by
  intro h
  rcases mem_signed h with h | h
  · rw [hdigit] at h
    cases h
  · exact hminus h

/-- A date has a hyphen behind its year. -/
theorem isDate_eq_false (h : '-' ∉ cs.tail) : isDate cs = false := by
  unfold isDate
  split
  · exact absurd (by simp) h
  · rfl

/-- A time has a colon behind its hour. -/
theorem isTime_eq_false (h : ':' ∉ cs) (offset : Bool) : isTime offset cs = false := by
  unfold isTime
  split
  · exact absurd (by simp) h
  · rfl

theorem isDateTime_eq_false (hminus : '-' ∉ cs.tail) (hcolon : ':' ∉ cs) :
    isDateTime cs = false := by
  have htake : '-' ∉ (cs.take 10).tail := fun h =>
    hminus ((List.take_sublist 10 cs).tail.subset h)
  rw [isDateTime, isDate_eq_false hminus, isTime_eq_false hcolon, isDate_eq_false htake]
  rfl

theorem withoutUnderscores?_of_all {isDigit : Char → Bool} (hunderscore : isDigit '_' = false)
    (hne : cs ≠ []) (hall : ∀ c ∈ cs, isDigit c = true) :
    withoutUnderscores? isDigit cs = some cs := by
  induction cs with
  | nil => exact absurd rfl hne
  | cons c cs ih =>
      obtain ⟨hc, hcs⟩ := List.forall_mem_cons.mp hall
      cases cs with
      | nil => rw [withoutUnderscores?, if_pos hc]
      | cons d ds =>
          have hd : d ≠ '_' := by
            rintro rfl
            rw [hcs '_' List.mem_cons_self] at hunderscore
            cases hunderscore
          rw [withoutUnderscores?, if_pos hc, ih (List.cons_ne_nil d ds) hcs]
          · rfl
          · exact List.cons_ne_nil d ds
          · rintro rest ⟨⟩
            exact hd rfl

theorem isDigit_of_mem_digits {n : Nat} (h : c ∈ Decimal.digits n) : Decimal.isDigit c = true :=
  List.all_eq_true.mp (Decimal.all_isDigit_digits n) c h

/-- The digits of a number have no zero in front. -/
theorem whole?_digits (n : Nat) : whole? (Decimal.digits n) = some (Decimal.digits n) := by
  have hfront : (Decimal.digits n).length = 1 ∨ (Decimal.digits n).head? ≠ some '0' := by
    rcases Nat.eq_zero_or_pos n with rfl | hpositive
    · left
      rw [Decimal.digits]
      rfl
    · obtain ⟨c, cs, hdigits, hc⟩ := Decimal.exists_head_digits hpositive
      right
      rw [hdigits, List.head?_cons]
      exact fun heq => hc (Option.some.inj heq)
  rw [whole?, withoutUnderscores?_of_all rfl (Decimal.digits_ne_nil n) fun _ =>
    isDigit_of_mem_digits]
  exact if_pos hfront

theorem splitSign_signed (n : Int) :
    splitSign (Decimal.signed n) = (decide (n < 0), Decimal.digits n.natAbs) := by
  unfold Decimal.signed
  split
  · next hnegative => rw [decide_eq_true hnegative]; rfl
  · next hpositive =>
      rw [decide_eq_false hpositive, splitSign.eq_def]
      have hnot {c : Char} {cs : List Char} (heq : Decimal.digits n.natAbs = c :: cs) :
          Decimal.isDigit c = true := isDigit_of_mem_digits (heq ▸ List.mem_cons_self)
      split
      · next heq => cases hnot heq
      · next heq => cases hnot heq
      · rfl

theorem integer?_signed (h : Word.Fits n) : integer? (Decimal.signed n) = some n := by
  have hletter {d e : Char} {cs : List Char} (he : Decimal.isDigit e = false)
      (heq : Decimal.signed n = d :: e :: cs) : False := by
    have hdigit : Decimal.isDigit e = true :=
      isDigit_of_mem_tail_signed (n := n) (by rw [heq]; simp)
    rw [he] at hdigit
    cases hdigit
  rw [integer?.eq_def]
  split
  · next heq => exact (hletter rfl heq).elim
  · next heq => exact (hletter rfl heq).elim
  · next heq => exact (hletter rfl heq).elim
  · rw [splitSign_signed]
    simp only [whole?_digits, Option.bind_eq_bind, Option.bind_some, Decimal.value_digits,
      decide_eq_true_eq]
    have hvalue : (if n < 0 then -(Int.ofNat n.natAbs) else Int.ofNat n.natAbs) = n := by
      rw [Int.ofNat_eq_natCast]
      omega
    rw [hvalue, Word.narrow?, if_pos h]

theorem word?_signed (h : Word.Fits n) : word? (Decimal.signed n) = some (.int n) := by
  have hletter {c : Char} {cs : List Char} (hdigit : Decimal.isDigit c = false) (hminus : c ≠ '-') :
      Decimal.signed n ≠ c :: cs := by
    intro heq
    exact not_mem_signed (n := n) hdigit hminus (heq ▸ List.mem_cons_self)
  have htime : isDateTime (Decimal.signed n) = false := by
    refine isDateTime_eq_false (fun hmem => ?_) (not_mem_signed rfl (by decide))
    cases isDigit_of_mem_tail_signed hmem
  have htrue : Decimal.signed n ≠ "true".toList := hletter rfl (by decide)
  have hfalse : Decimal.signed n ≠ "false".toList := hletter rfl (by decide)
  rw [word?, if_neg htrue, if_neg hfalse, htime, if_neg Bool.false_ne_true, integer?_signed h]

theorem isAlphanum_of_isDigit (h : Decimal.isDigit c = true) : c.isAlphanum = true := by
  have hdigit : c.isDigit = true := h
  rw [Char.isAlphanum, hdigit, Bool.or_true]

theorem spanWord_signed (n : Int) (rest : List Char) :
    spanWord (Decimal.signed n ++ '\n' :: rest) = (Decimal.signed n, '\n' :: rest) := by
  have hall : (Decimal.signed n).all isWordChar = true := by
    refine List.all_eq_true.mpr fun c hc => ?_
    rcases mem_signed hc with hdigit | rfl
    · rw [isWordChar, isAlphanum_of_isDigit hdigit]
      rfl
    · rfl
  have hstop : Stops isWordChar ('\n' :: rest) := stops_cons rfl
  rw [spanWord, takeWhile_append_stops hall hstop, dropWhile_append_stops hall hstop]
  rfl

/-! ## Values -/

/-- A text begins with a quote. -/
theorem exists_head_quoted (s : String) :
    ∃ q tail, quoted s = q :: tail ∧ (q = '"' ∨ q = '\x27') := by
  rw [quoted, quotedIn]
  cases quotesFor s.toList
  · exact ⟨_, _, rfl, Or.inl rfl⟩
  · exact ⟨_, _, rfl, Or.inr rfl⟩
  · exact ⟨_, _, rfl, Or.inl rfl⟩
  · exact ⟨_, _, rfl, Or.inr rfl⟩

/-- A number begins with a digit or a minus sign. -/
theorem exists_head_signed (n : Int) :
    ∃ c tail, Decimal.signed n = c :: tail ∧ (Decimal.isDigit c = true ∨ c = '-') := by
  cases hsigned : Decimal.signed n with
  | nil => exact absurd hsigned (signed_ne_nil n)
  | cons c tail => exact ⟨c, tail, rfl, mem_signed (n := n) (hsigned ▸ List.mem_cons_self)⟩

theorem value?_quote {q : Char} (hq : q = '"' ∨ q = '\x27') (depth : Nat) (cs : List Char) :
    value? (depth + 1) (q :: cs) =
      (text? (q :: cs)).map fun r => (.str (String.ofList r.1), r.2) := by
  rcases hq with rfl | rfl
  · rw [value?]
    · exact if_pos (Or.inl rfl)
    · rintro _ ⟨⟩
    · rintro _ ⟨⟩
  · rw [value?]
    · exact if_pos (Or.inr rfl)
    · rintro _ ⟨⟩
    · rintro _ ⟨⟩

theorem value?_word (hc : c ≠ '[' ∧ c ≠ '{' ∧ c ≠ '"' ∧ c ≠ '\x27') (depth : Nat) (cs : List Char) :
    value? (depth + 1) (c :: cs) =
      (word? (spanWord (c :: cs)).1).map fun j => (j, (spanWord (c :: cs)).2) := by
  obtain ⟨harray, htable, hdouble, hsingle⟩ := hc
  have hquote : ¬ ((c :: cs).head? = some '"' ∨ (c :: cs).head? = some '\x27') := by
    simp [hdouble, hsingle]
  rw [value?]
  · rw [if_neg hquote]
  · rintro _ ⟨⟩
    exact harray rfl
  · rintro _ ⟨⟩
    exact htable rfl

/-- A value is read up to the end of its line. -/
theorem value?_chars (h : value.Fits) (depth : Nat) (rest : List Char) :
    value? (depth + 1) (value.chars ++ '\n' :: rest) = some (value.toJson, '\n' :: rest) := by
  cases value with
  | text s =>
      have hread : text? (quoted s ++ '\n' :: rest) = some (s.toList, '\n' :: rest) :=
        text?_quoted s (stops_cons rfl)
      obtain ⟨q, tail, hquoted, hq⟩ := exists_head_quoted s
      change value? (depth + 1) (quoted s ++ '\n' :: rest) = _
      rw [hquoted, List.cons_append] at hread ⊢
      rw [value?_quote hq, hread, Option.map_some, String.ofList_toList]
      rfl
  | number n =>
      have hspan := spanWord_signed n rest
      obtain ⟨c, tail, hsigned, hc⟩ := exists_head_signed n
      have hhead : c ≠ '[' ∧ c ≠ '{' ∧ c ≠ '"' ∧ c ≠ '\x27' := by
        rcases hc with hdigit | rfl
        · refine ⟨?_, ?_, ?_, ?_⟩ <;> exact Decimal.ne_of_isDigit hdigit rfl
        · decide
      change value? (depth + 1) (Decimal.signed n ++ '\n' :: rest) = _
      rw [hsigned, List.cons_append] at hspan ⊢
      rw [value?_word hhead, hspan, ← hsigned, word?_signed h]
      rfl

/-- A value begins with a character that is not blank. -/
theorem exists_head_chars (value : Scalar) :
    ∃ c tail, value.chars = c :: tail ∧ isBlankChar c = false := by
  cases value with
  | text s =>
      obtain ⟨q, tail, hquoted, hq⟩ := exists_head_quoted s
      refine ⟨q, tail, hquoted, ?_⟩
      rcases hq with rfl | rfl <;> rfl
  | number n =>
      obtain ⟨c, tail, hsigned, hc⟩ := exists_head_signed n
      refine ⟨c, tail, hsigned, ?_⟩
      rcases hc with hdigit | rfl
      · simp [isBlankChar, Decimal.ne_of_isDigit hdigit (d := ' ') rfl,
          Decimal.ne_of_isDigit hdigit (d := '\t') rfl]
      · rfl

/-! ## Lines -/

theorem skip_of_not_blank (h : isBlankChar c = false) : skip (c :: cs) = c :: cs :=
  dropWhile_of_stops (stops_cons h)

/-- A line is read as a statement, and begins with neither white space nor a comment. -/
structure Says (line : List Char) (statement : Statement) : Prop where
  read : ∀ rest, statement? (line ++ '\n' :: rest) = some (statement, '\n' :: rest)
  begins : ∃ c tail, line = c :: tail ∧ isBlankChar c = false ∧ c ≠ '\n' ∧ c ≠ '\r' ∧ c ≠ '#'

theorem ne_of_isBareChar {d : Char} (h : isBareChar c = true) (hd : isBareChar d = false) :
    c ≠ d := by
  rintro rfl
  rw [h] at hd
  cases hd

/-- A bare name begins with a character that has no other use. -/
theorem IsBare.exists_head (h : IsBare key) :
    ∃ c tail, key.toList = c :: tail ∧ isBareChar c = true := by
  cases hkey : key.toList with
  | nil => exact absurd hkey h.nonempty
  | cons c tail => exact ⟨c, tail, rfl, List.all_eq_true.mp h.all c (hkey ▸ List.mem_cons_self)⟩

theorem not_blank_of_isBareChar (h : isBareChar c = true) : isBlankChar c = false := by
  simp [isBlankChar, ne_of_isBareChar h (d := ' ') rfl, ne_of_isBareChar h (d := '\t') rfl]

theorem pathTail?_of_no_dot (hdot : ∀ more, skip cs ≠ '.' :: more) (fuel : Nat) :
    pathTail? fuel cs = some ([], cs) := by
  cases fuel with
  | zero => rfl
  | succ fuel =>
      rw [pathTail?]
      split
      · next heq => exact absurd heq (hdot _)
      · rfl

/-- A bare name that no dot follows is a whole path. -/
theorem path?_bare (h : IsBare key) (hrest : Stops isBareChar rest)
    (hdot : ∀ more, skip rest ≠ '.' :: more) :
    path? (key.toList ++ rest) = some ((key, []), rest) := by
  obtain ⟨c, tail, hkey, hc⟩ := h.exists_head
  have hskip : skip (key.toList ++ rest) = key.toList ++ rest := by
    rw [hkey]
    exact skip_of_not_blank (not_blank_of_isBareChar hc)
  have hnonempty : key.toList.isEmpty = false := by
    rw [hkey]
    rfl
  have hname : simpleKey? (key.toList ++ rest) = some (key, rest) := by
    rw [simpleKey?, takeWhile_append_stops h.all hrest, dropWhile_append_stops h.all hrest]
    simp only [hnonempty, Bool.false_eq_true, if_false, String.ofList_toList]
  simp only [path?, hskip, hname, Option.bind_eq_bind, Option.bind_some, pathTail?_of_no_dot hdot]
  rfl

/-- A key, an equals sign and a value, with one blank on each side of the sign. -/
theorem member?_bare (hkey : IsBare key) (hvalue : value.Fits) (depth : Nat) (rest : List Char) :
    member? (value? (depth + 1))
        (key.toList ++ ' ' :: '=' :: ' ' :: (value.chars ++ '\n' :: rest)) =
      some (((key, []), value.toJson), '\n' :: rest) := by
  have hpath : path? (key.toList ++ ' ' :: '=' :: ' ' :: (value.chars ++ '\n' :: rest)) =
      some ((key, []), ' ' :: '=' :: ' ' :: (value.chars ++ '\n' :: rest)) :=
    path?_bare hkey (stops_cons rfl) fun _ heq => by cases heq
  have hequals : skip (' ' :: '=' :: ' ' :: (value.chars ++ '\n' :: rest)) =
      '=' :: ' ' :: (value.chars ++ '\n' :: rest) := rfl
  have hvalueStart : skip (' ' :: (value.chars ++ '\n' :: rest)) = value.chars ++ '\n' :: rest := by
    obtain ⟨c, tail, hchars, hc⟩ := exists_head_chars value
    rw [hchars, List.cons_append]
    exact skip_of_not_blank hc
  simp only [member?, hpath, hequals, hvalueStart, value?_chars hvalue, Option.bind_eq_bind,
    Option.bind_some]

theorem says_member (hkey : IsBare key) (hvalue : value.Fits) :
    Says (key.toList ++ " = ".toList ++ value.chars) (.set key [] value.toJson) := by
  obtain ⟨c, tail, hc, hbare⟩ := hkey.exists_head
  constructor
  · intro rest
    have hmember := member?_bare hkey hvalue 79 rest
    have hline : key.toList ++ " = ".toList ++ value.chars ++ '\n' :: rest =
        key.toList ++ ' ' :: '=' :: ' ' :: (value.chars ++ '\n' :: rest) := by
      simp
    rw [hline]
    rw [hc, List.cons_append] at hmember ⊢
    rw [statement?, nestingLimit, hmember]
    · rfl
    · intro _ heq
      exact ne_of_isBareChar hbare rfl (List.cons.inj heq).1
    · intro _ heq
      exact ne_of_isBareChar hbare rfl (List.cons.inj heq).1
  · refine ⟨c, tail ++ " = ".toList ++ value.chars, by rw [hc]; rfl, not_blank_of_isBareChar hbare,
      ?_, ?_, ?_⟩
    all_goals exact ne_of_isBareChar hbare rfl

theorem says_header (hname : IsBare key) :
    Says ('[' :: key.toList ++ [']']) (.table [] key) := by
  obtain ⟨c, tail, hc, hbare⟩ := hname.exists_head
  refine ⟨fun rest => ?_, '[', key.toList ++ [']'], rfl, by decide, by decide, by decide, by decide⟩
  have hpath : path? (key.toList ++ ']' :: '\n' :: rest) = some ((key, []), ']' :: '\n' :: rest) :=
    path?_bare hname (stops_cons rfl) fun _ heq => by cases heq
  have hline : '[' :: key.toList ++ [']'] ++ '\n' :: rest =
      '[' :: (key.toList ++ ']' :: '\n' :: rest) := by
    simp
  have hskip : skip (']' :: '\n' :: rest) = ']' :: '\n' :: rest := rfl
  rw [hline, statement?]
  · simp only [hpath, hskip, Option.bind_eq_bind, Option.bind_some]
    rfl
  · intro more heq
    rw [hc, List.cons_append] at heq
    exact ne_of_isBareChar hbare rfl (List.cons.inj heq).1

end OrderLedger.Toml
