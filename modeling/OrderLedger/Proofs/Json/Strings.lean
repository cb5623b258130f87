import OrderLedger.Json.Reader
import OrderLedger.Json.Writer
import OrderLedger.Proofs.Text.Decimal
import OrderLedger.Proofs.Text.Spans

/-!
Strings and whole numbers of JSON are read back as they were written.
-/

namespace OrderLedger.Json

open OrderLedger.Text

/-- What may follow a value that stands inside another one. -/
def Ends (rest : List Char) : Prop := ∀ c ∈ rest.head?, c = ',' ∨ c = ']' ∨ c = '}'

theorem value?_lowerDigit {n : Nat} (h : n < 16) : Hex.value? (Hex.lowerDigit n) = some n := by
  have hall : ∀ m : Fin 16, Hex.value? (Hex.lowerDigit m.val) = some m.val := by decide
  exact hall ⟨n, h⟩

/-- An escape of one letter. -/
private theorem codePoints?_letter {e c : Char} (rest : List Char) (he : e ≠ 'u')
    (h : unescape? e = some c) :
    codePoints? ('\\' :: e :: rest) = (codePoints? rest).map fun r => (c.toNat :: r.1, r.2) := by
  rw [codePoints?.eq_def]
  split
  · next heq => cases heq
  · next heq =>
      cases heq
      exact absurd rfl he
  · next heq =>
      cases heq
      rw [h]
      cases codePoints? rest <;> rfl
  · next _ hletter heq =>
      cases heq
      exact absurd rfl (hletter _ _ rfl)
  · next heq => cases heq

/-- An escape by four digits. -/
private theorem codePoints?_digits {a b c d : Char} {n : Nat} (rest : List Char)
    (h : hexQuad? a b c d = some n) :
    codePoints? ('\\' :: 'u' :: a :: b :: c :: d :: rest) =
      (codePoints? rest).map fun r => (n :: r.1, r.2) := by
  rw [codePoints?, h]
  cases codePoints? rest <;> rfl

/-- A character that needs no escape. -/
private theorem codePoints?_plain {c : Char} (rest : List Char) (hquote : c ≠ '"')
    (hslash : c ≠ '\\') (hcontrol : ¬ c.toNat < 32) :
    codePoints? (c :: rest) = (codePoints? rest).map fun r => (c.toNat :: r.1, r.2) := by
  rw [codePoints?.eq_def]
  split
  · next heq =>
      cases heq
      exact absurd rfl hquote
  · next heq =>
      cases heq
      exact absurd rfl hslash
  · next heq =>
      cases heq
      exact absurd rfl hslash
  · next heq =>
      cases heq
      rw [if_neg (by simp [hcontrol, hslash])]
      cases codePoints? rest <;> rfl
  · next heq => cases heq

/-- A character is read from its escape as its code point. -/
theorem codePoints?_escaped (c : Char) (rest : List Char) :
    codePoints? (escaped c ++ rest) =
      (codePoints? rest).map fun r => (c.toNat :: r.1, r.2) := by
  unfold escaped
  split
  · next h => exact codePoints?_letter rest (by decide) (by rw [h]; rfl)
  split
  · next h => exact codePoints?_letter rest (by decide) (by rw [h]; rfl)
  split
  · next h => exact codePoints?_letter rest (by decide) (by rw [h]; rfl)
  split
  · next h => exact codePoints?_letter rest (by decide) (by rw [h]; rfl)
  split
  · next h => exact codePoints?_letter rest (by decide) (by rw [h]; rfl)
  split
  · next h => exact codePoints?_letter rest (by decide) (by rw [h]; rfl)
  split
  · next h => exact codePoints?_letter rest (by decide) (by rw [h]; rfl)
  split
  · next hcontrol =>
      apply codePoints?_digits
      have hzero : Hex.value? '0' = some 0 := by decide
      rw [hexQuad?, hzero, value?_lowerDigit (by omega), value?_lowerDigit (by omega)]
      simp only [Option.bind_eq_bind, Option.bind_some, Option.some.injEq]
      omega
  · next hquote hslash _ _ _ _ _ hcontrol => exact codePoints?_plain rest hquote hslash hcontrol

theorem codePoints?_quoted (cs rest : List Char) :
    codePoints? (cs.flatMap escaped ++ '"' :: rest) = some (cs.map Char.toNat, rest) := by
  induction cs with
  | nil => rfl
  | cons c cs ih =>
      rw [List.flatMap_cons, List.append_assoc, codePoints?_escaped, ih]
      rfl

theorem string?_quoted (s : String) (rest : List Char) :
    string? (quoted s ++ rest) = some (some s, rest) := by
  have hquoted : quoted s ++ rest = '"' :: (s.toList.flatMap escaped ++ '"' :: rest) := by
    simp [quoted]
  simp only [hquoted, string?, codePoints?_quoted, Option.bind_eq_bind, Option.bind_some,
    ofCodePoints?_toNat, Option.map_some, String.ofList_toList]

/-- The digits of a number have no zero in front. -/
theorem isWhole_digits (n : Nat) : isWhole (Decimal.digits n) = true := by
  rcases Nat.eq_zero_or_pos n with rfl | hpositive
  · rw [Decimal.digits]
    rfl
  · obtain ⟨c, cs, hdigits, hc⟩ := Decimal.exists_head_digits hpositive
    rw [hdigits, isWhole.eq_def]
    split
    · next heq => cases heq
    · rfl
    · next heq =>
        cases heq
        simpa using hc

variable {rest : List Char}

private theorem spanDigits_digits (n : Nat) (hrest : Ends rest) :
    spanDigits (Decimal.digits n ++ rest) = (Decimal.digits n, rest) := by
  have hend : Stops Decimal.isDigit rest := by
    intro c hc
    rcases hrest c hc with rfl | rfl | rfl <;> decide
  rw [spanDigits, takeWhile_append_stops (Decimal.all_isDigit_digits n) hend,
    dropWhile_append_stops (Decimal.all_isDigit_digits n) hend]

private theorem fraction?_of_ends (hrest : Ends rest) : fraction? rest = some ([], rest) := by
  cases rest with
  | nil => rfl
  | cons c rest => rcases hrest c rfl with rfl | rfl | rfl <;> rfl

private theorem exponent?_of_ends (hrest : Ends rest) : exponent? rest = some ([], rest) := by
  cases rest with
  | nil => rfl
  | cons c rest => rcases hrest c rfl with rfl | rfl | rfl <;> rfl

private theorem unsignedNumber?_digits (negative : Bool) (n : Nat) (hrest : Ends rest) :
    unsignedNumber? negative (Decimal.digits n ++ rest) =
      some (ofNumber negative (Decimal.digits n) [], rest) := by
  simp only [unsignedNumber?, spanDigits_digits n hrest, isWhole_digits, if_true,
    fraction?_of_ends hrest, exponent?_of_ends hrest, Option.bind_eq_bind, Option.bind_some,
    List.append_nil]

theorem number?_signed (n : Int) (hrest : Ends rest) :
    number? (Decimal.signed n ++ rest) = some (.int n, rest) := by
  unfold Decimal.signed
  split
  · next hnegative =>
      change unsignedNumber? true (Decimal.digits n.natAbs ++ rest) = _
      rw [unsignedNumber?_digits true _ hrest, ofNumber, Decimal.value_digits]
      have hnonzero : n.natAbs ≠ 0 := by omega
      have hvalue : -Int.ofNat n.natAbs = n := by
        rw [Int.ofNat_eq_natCast]
        omega
      simp only [List.isEmpty_nil, Bool.true_and, decide_eq_false hnonzero, Bool.not_false,
        if_true, hvalue]
  · next hpositive =>
      rw [number?.eq_def]
      split
      · next heq =>
          -- No number starts with a minus sign that is not negative.
          have hall := Decimal.all_isDigit_digits n.natAbs
          cases hdigits : Decimal.digits n.natAbs with
          | nil => exact absurd hdigits (Decimal.digits_ne_nil _)
          | cons c cs =>
              rw [hdigits] at heq hall
              cases heq
              have hminus : Decimal.isDigit '-' = false := by decide
              simp [hminus] at hall
      · rw [unsignedNumber?_digits false _ hrest, ofNumber, Decimal.value_digits]
        have hvalue : Int.ofNat n.natAbs = n := by
          rw [Int.ofNat_eq_natCast]
          omega
        simp only [List.isEmpty_nil, Bool.false_and, Bool.not_false, Bool.and_self, if_true,
          Bool.false_eq_true, if_false, hvalue]

end OrderLedger.Json
