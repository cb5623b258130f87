/-!
Whole numbers in decimal digits: writing, reading back, and the readers for
numbers that come as text, with an optional sign and no other character.
-/

namespace OrderLedger.Text.Decimal

def isDigit (c : Char) : Bool := '0' ≤ c && c ≤ '9'

def digitValue (c : Char) : Nat := c.toNat - 48

def digitChar (n : Nat) : Char := Char.ofNat (48 + n)

/-- The decimal digits of a number, without leading zeros. -/
def digits (n : Nat) : List Char :=
  if n < 10 then [digitChar n] else digits (n / 10) ++ [digitChar (n % 10)]
termination_by n

/-- The number that a list of digits denotes. -/
def value (cs : List Char) : Nat := cs.foldl (fun n c => 10 * n + digitValue c) 0

/-- At least `width` digits, filled up with zeros on the left. -/
def padded (width n : Nat) : List Char :=
  List.replicate (width - (digits n).length) '0' ++ digits n

def signed (n : Int) : List Char :=
  if n < 0 then '-' :: digits n.natAbs else digits n.natAbs

def text (n : Int) : String := String.ofList (signed n)

/-- Reads one or more digits and nothing else. -/
def natural? (cs : List Char) : Option Nat :=
  if !cs.isEmpty && cs.all isDigit then some (value cs) else none

/-- Reads digits after an optional plus. -/
def unsigned? (s : String) : Option Nat :=
  match s.toList with
  | '+' :: rest => natural? rest
  | cs => natural? cs

/-- Reads digits after an optional sign. -/
def signed? (s : String) : Option Int :=
  match s.toList with
  | '+' :: rest => (natural? rest).map Int.ofNat
  | '-' :: rest => (natural? rest).map fun n => -(Int.ofNat n)
  | cs => (natural? cs).map Int.ofNat

theorem value_append (cs : List Char) (c : Char) :
    value (cs ++ [c]) = 10 * value cs + digitValue c := by
  simp [value, List.foldl_append]

theorem digitValue_digitChar {n : Nat} (h : n < 10) : digitValue (digitChar n) = n := by
  have : ∀ m : Fin 10, digitValue (digitChar m.val) = m.val := by decide
  exact this ⟨n, h⟩

theorem isDigit_digitChar {n : Nat} (h : n < 10) : isDigit (digitChar n) = true := by
  have : ∀ m : Fin 10, isDigit (digitChar m.val) = true := by decide
  exact this ⟨n, h⟩

/-- Reading the digits of a number gives it back. -/
theorem value_digits (n : Nat) : value (digits n) = n := by
  induction n using Nat.strongRecOn with
  | ind n ih =>
      rw [digits]
      split
      · next h => simp [value, digitValue_digitChar h]
      · next h =>
          rw [value_append, ih (n / 10) (by omega), digitValue_digitChar (Nat.mod_lt _ (by omega))]
          omega

theorem all_isDigit_digits (n : Nat) : (digits n).all isDigit = true := by
  induction n using Nat.strongRecOn with
  | ind n ih =>
      rw [digits]
      split
      · next h => simp [isDigit_digitChar h]
      · next h =>
          have hsmall : n % 10 < 10 := Nat.mod_lt n (by omega)
          have hlast := isDigit_digitChar hsmall
          rw [List.all_append, ih (n / 10) (by omega)]
          simp [hlast]

theorem digits_ne_nil (n : Nat) : digits n ≠ [] := by
  rw [digits]
  split <;> simp

end OrderLedger.Text.Decimal
