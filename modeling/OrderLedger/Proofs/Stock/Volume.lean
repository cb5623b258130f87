import Mathlib.Algebra.BigOperators.Ring.List
import OrderLedger.Proofs.Shop.Answers
import OrderLedger.Proofs.Stock.Events

/-!
The volume of changes of stock: what they come to when none makes up for another. As long as
the volume of the ledger stays in 64 bits, every sum over it does, in whichever order its
entries were made.
-/

namespace OrderLedger

open Work

/-- A running sum cannot leave the range while the amounts added up without their signs stay
in it. -/
theorem Word.sumFrom?_of_volume {start : Int} {ns : List Int}
    (h : start.natAbs + (ns.map Int.natAbs).sum < 2 ^ 63) :
    sumFrom? start ns = some (start + ns.sum) := by
  induction ns generalizing start with
  | nil => rw [sumFrom?, List.sum_nil, add_zero]
  | cons n rest ih =>
      rw [List.map_cons, List.sum_cons] at h
      have hfits : Fits (start + n) := by
        simp only [Fits, least, greatest]
        omega
      rw [sumFrom?_cons hfits, ih (by omega), List.sum_cons, add_assoc]

namespace Tally

variable {amounts more : List (String × Int)}

def volume (amounts : List (String × Int)) : Nat := (amounts.map (·.2.natAbs)).sum

theorem volume_append (amounts more : List (String × Int)) :
    volume (amounts ++ more) = volume amounts + volume more := by
  rw [volume, List.map_append, List.sum_append]
  rfl

/-- The order of changes does not matter for their volume. -/
theorem volume_perm (h : amounts.Perm more) : volume amounts = volume more :=
  (h.map _).sum_eq

/-- The amounts of one key are a part of the volume. -/
theorem volume_amountsOf_le (amounts : List (String × Int)) (key : String) :
    ((amountsOf amounts key).map Int.natAbs).sum ≤ volume amounts := by
  induction amounts with
  | nil => exact le_refl 0
  | cons head rest ih =>
      simp only [volume, List.map_cons, List.sum_cons] at ih ⊢
      rw [amountsOf_cons]
      split
      · rw [List.map_cons, List.sum_cons]
        omega
      · omega

theorem natAbs_sum_le (ns : List Int) : ns.sum.natAbs ≤ (ns.map Int.natAbs).sum := by
  induction ns with
  | nil => exact le_refl 0
  | cons n rest ih =>
      rw [List.sum_cons, List.map_cons, List.sum_cons]
      omega

/-- Where the volume stays in range, so does the sum under any key. -/
theorem fits_sum_of_volume (h : volume amounts < 2 ^ 63) (key : String) :
    Word.Fits (amountsOf amounts key).sum := by
  have hkey := volume_amountsOf_le amounts key
  have hsum := natAbs_sum_le (amountsOf amounts key)
  simp only [Word.Fits, Word.least, Word.greatest]
  omega

theorem sum?_of_volume (h : volume amounts < 2 ^ 63) (key : String) :
    Word.sum? (amountsOf amounts key) = some (amountsOf amounts key).sum := by
  have hkey := volume_amountsOf_le amounts key
  rw [Word.sum?, Word.sumFrom?_of_volume, zero_add]
  simp only [Int.natAbs_zero, zero_add]
  omega

end Tally

/-- The changes that so many times the quantities of lines make. -/
def Line.changes (sign : Int) (lines : List Line) : List (String × Int) :=
  (moving lines).map fun l => (l.productId, sign * l.quantity)

theorem Line.sum_amountsOf_changes (sign : Int) (lines : List Line) (productId : String) :
    (Tally.amountsOf (changes sign lines) productId).sum = sign * taken lines productId := by
  rw [taken, ← List.sum_map_mul_left]
  simp [Tally.amountsOf, changes, List.filter_map, Function.comp_def]

/-- The entries of lines make the changes of the lines. -/
theorem Shop.changes_lineEntries {settings : Settings} {now : Time.Instant} {ids : Nat → String}
    {orderId : String} {reason : Reason} {sign : Int} {lines : List Line} :
    StockEntry.changes (lineEntries settings now ids orderId reason sign lines) =
      Line.changes sign lines := by
  rw [Line.changes]
  conv_rhs => rw [← List.zipIdx_map_fst 0 (Line.moving lines)]
  rw [StockEntry.changes, lineEntries, List.map_map, List.map_map]
  rfl

namespace StockEntry

theorem changes_append (es more : List StockEntry) :
    changes (es ++ more) = changes es ++ changes more := List.map_append

end StockEntry

namespace Store

variable {s t : Store} {es : List StockEntry}

theorem stockOf_of_volume (h : Tally.volume (StockEntry.changes s.entries) < 2 ^ 63)
    (productId : String) :
    s.stockOf productId = .ok (StockEntry.deltasOf s.entries productId).sum := by
  rw [stockOf_eq_ok, ← StockEntry.amountsOf_changes]
  exact Tally.sum?_of_volume h productId

/-- Where the volume of the ledger stays in range, the events of its last entries can be told. -/
theorem exists_events_of_volume {now : Time.Instant} (hentries : t.entries = s.entries ++ es)
    (h : Tally.volume (StockEntry.changes t.entries) < 2 ^ 63) :
    ∃ told, (Store.events es now).Yields t told t := by
  apply exists_events
  · intro productId
    rw [hentries, StockEntry.changes_append, Tally.volume_append] at h
    rw [← StockEntry.amountsOf_changes]
    exact ⟨_, Tally.sum?_of_volume (by omega) productId⟩
  · intro e _
    exact ⟨_, stockOf_of_volume h e.productId⟩

/-- Where the volume stays in range with the changes of lines, their sums do. -/
theorem sumsFit_of_volume {sign : Int} {lines : List Line}
    (h : Tally.volume (StockEntry.changes s.entries ++ Line.changes sign lines) < 2 ^ 63) :
    s.SumsFit sign lines := by
  have hparts := h
  rw [Tally.volume_append] at hparts
  intro productId _
  rw [← Line.sum_amountsOf_changes]
  refine ⟨Tally.fits_sum_of_volume (by omega) productId, _,
    stockOf_of_volume (by omega) productId, ?_⟩
  have hall := Tally.fits_sum_of_volume h productId
  rwa [Tally.amountsOf, List.filter_append, List.map_append, List.sum_append,
    ← Tally.amountsOf, ← Tally.amountsOf, StockEntry.amountsOf_changes] at hall

end Store

end OrderLedger
