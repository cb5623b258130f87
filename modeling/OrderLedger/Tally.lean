import OrderLedger.Word

/-!
Totals per key. A tally lists each key once, in ascending order, with the sum of
what was added under it; every sum stays in the signed 64-bit range.
-/

namespace OrderLedger

abbrev Tally := List (String × Int)

namespace Tally

/-- Adds `n` under `key`, in the place of the key. -/
def add? (key : String) (n : Int) : Tally → Option Tally
  | [] => (Word.add? 0 n).map fun sum => [(key, sum)]
  | (k, total) :: rest =>
      if key = k then (Word.add? total n).map fun sum => (k, sum) :: rest
      else if key < k then (Word.add? 0 n).map fun sum => (key, sum) :: (k, total) :: rest
      else (add? key n rest).map fun rest => (k, total) :: rest

/-- Adds a list of amounts on top of a tally, from left to right. -/
def addAll? (tally : Tally) : List (String × Int) → Option Tally
  | [] => some tally
  | (key, n) :: rest => (tally.add? key n).bind fun tally => addAll? tally rest

def of? (amounts : List (String × Int)) : Option Tally := addAll? [] amounts

def keys (tally : Tally) : List String := tally.map (·.1)

/-- The sum under a key, 0 if there is none. -/
def get (tally : Tally) (key : String) : Int := (tally.lookup key).getD 0

end Tally

/-- Puts a text in its place in an ascending list, unless it is there already. -/
def insertDistinct (s : String) : List String → List String
  | [] => [s]
  | t :: rest =>
      if s = t then t :: rest
      else if s < t then s :: t :: rest
      else t :: insertDistinct s rest

/-- The distinct texts of a list in ascending order. -/
def distinctSorted (texts : List String) : List String := texts.foldr insertDistinct []

theorem mem_insertDistinct {s t : String} {texts : List String} :
    t ∈ insertDistinct s texts ↔ t = s ∨ t ∈ texts := by
  induction texts with
  | nil => simp [insertDistinct]
  | cons u rest ih =>
      unfold insertDistinct
      split
      · simp_all
      · split
        · simp
        · simp only [List.mem_cons, ih]
          exact or_left_comm

theorem mem_distinctSorted {t : String} {texts : List String} :
    t ∈ distinctSorted texts ↔ t ∈ texts := by
  induction texts with
  | nil => simp [distinctSorted]
  | cons s rest ih =>
      change t ∈ insertDistinct s (distinctSorted rest) ↔ _
      rw [mem_insertDistinct, ih, List.mem_cons]

end OrderLedger
