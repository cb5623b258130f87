import Mathlib.Data.List.Sort
import OrderLedger.Tally

/-!
What a tally holds. Its keys ascend, so a key has one place; and adding amounts works
exactly if under every key the running sums stay in the 64-bit range, and leaves under each
key the sum of its amounts.
-/

namespace OrderLedger

private theorem lt_of_not_lt_of_ne {s t : String} (hnot : ¬ s < t) (hne : s ≠ t) : t < s := by
  rw [← String.not_le]
  exact fun hle => hne (String.le_antisymm hle (String.not_lt.mp hnot))

namespace Tally

variable {tally after : Tally} {key other : String} {n : Int} {amounts : List (String × Int)}

/-- Every key stands once, and in its order. -/
def Ascending (tally : Tally) : Prop := tally.keys.Pairwise (· < ·)

/-- The amounts under a key, in their order. -/
def amountsOf (amounts : List (String × Int)) (key : String) : List Int :=
  (amounts.filter fun a => a.1 == key).map (·.2)

theorem amountsOf_cons (a : String × Int) (rest : List (String × Int)) (key : String) :
    amountsOf (a :: rest) key = if a.1 = key then a.2 :: amountsOf rest key
      else amountsOf rest key := by
  by_cases hkey : a.1 = key <;> simp [amountsOf, hkey]

theorem get_cons (k : String) (n : Int) (rest : Tally) (key : String) :
    get ((k, n) :: rest) key = if key = k then n else get rest key := by
  by_cases hkey : key = k
  · simp [get, hkey]
  · have hne : (key == k) = false := beq_eq_false_iff_ne.mpr hkey
    simp [get, List.lookup_cons, hkey, hne]

theorem get_eq_zero (h : key ∉ tally.keys) : tally.get key = 0 := by
  induction tally with
  | nil => rfl
  | cons head rest ih =>
      simp only [keys, List.map_cons, List.mem_cons, not_or] at h
      rw [get_cons, if_neg h.1]
      exact ih h.2

theorem get_of_mem (h : tally.Ascending) (hmem : (key, n) ∈ tally) : tally.get key = n := by
  induction tally with
  | nil => cases hmem
  | cons head rest ih =>
      obtain ⟨k, total⟩ := head
      obtain ⟨hhead, hrest⟩ := List.pairwise_cons.mp h
      rw [get_cons]
      rcases List.mem_cons.mp hmem with heq | hlater
      · cases heq
        exact if_pos rfl
      · rw [if_neg, ih hrest hlater]
        rintro rfl
        exact String.lt_irrefl _ (hhead key (List.mem_map.mpr ⟨(key, n), hlater, rfl⟩))

theorem exists_of_mem_keys (h : tally.Ascending) (hkey : key ∈ tally.keys) :
    (key, tally.get key) ∈ tally := by
  obtain ⟨⟨k, n⟩, hmem, rfl⟩ := List.mem_map.mp hkey
  rwa [get_of_mem h hmem]

/-- A key below all keys of a tally is not among them. -/
theorem get_of_lt {k : String} {total : Int} {rest : Tally}
    (h : Ascending ((k, total) :: rest)) (hlt : key < k) : get ((k, total) :: rest) key = 0 := by
  apply get_eq_zero
  have hrest := (List.pairwise_cons.mp h).1
  simp only [keys, List.map_cons, List.mem_cons, not_or]
  refine ⟨fun heq => String.lt_irrefl k (heq ▸ hlt), fun hmem => ?_⟩
  exact String.lt_asymm hlt (hrest key hmem)

/-- An amount that may be added goes under its key, and the sums of the other keys stay. -/
theorem add?_eq_some (h : tally.Ascending) (hadd : tally.add? key n = some after) :
    after.Ascending ∧ (∀ k, k ∈ after.keys ↔ k = key ∨ k ∈ tally.keys) ∧
      Word.Fits (tally.get key + n) ∧
      ∀ k, after.get k = if k = key then tally.get key + n else tally.get k := by
  induction tally generalizing after with
  | nil =>
      simp only [add?, Word.add?, Option.map_eq_some_iff, Word.narrow?_eq_some_iff] at hadd
      obtain ⟨_, ⟨hfits, rfl⟩, rfl⟩ := hadd
      refine ⟨List.pairwise_singleton _ _, by simp [keys], hfits, fun k => ?_⟩
      rw [get_cons]
      rfl
  | cons head rest ih =>
      obtain ⟨k₀, total⟩ := head
      obtain ⟨hhead, hrest⟩ := List.pairwise_cons.mp h
      unfold add? at hadd
      split at hadd
      · next heq =>
          subst heq
          simp only [Word.add?, Option.map_eq_some_iff, Word.narrow?_eq_some_iff] at hadd
          obtain ⟨_, ⟨hfits, rfl⟩, rfl⟩ := hadd
          simp only [get_cons, if_true]
          refine ⟨h, by simp [keys], hfits, fun k => ?_⟩
          split <;> rfl
      · next hne =>
          split at hadd
          · next hlt =>
              have hzero := get_of_lt h hlt
              simp only [Word.add?, Option.map_eq_some_iff, Word.narrow?_eq_some_iff] at hadd
              obtain ⟨_, ⟨hfits, rfl⟩, rfl⟩ := hadd
              rw [hzero]
              refine ⟨?_, by simp [keys], hfits, fun k => get_cons ..⟩
              refine List.pairwise_cons.mpr ⟨fun k hk => ?_, h⟩
              rcases List.mem_cons.mp hk with rfl | hk
              · exact hlt
              · exact String.lt_trans hlt (hhead k hk)
          · next hnot =>
              obtain ⟨more, hmore, rfl⟩ := Option.map_eq_some_iff.mp hadd
              obtain ⟨hasc, hkeys, hfits, hget⟩ := ih hrest hmore
              rw [get_cons, if_neg hne]
              refine ⟨?_, ?_, hfits, fun k => ?_⟩
              · refine List.pairwise_cons.mpr ⟨fun k hk => ?_, hasc⟩
                rcases (hkeys k).mp hk with rfl | hk
                · exact lt_of_not_lt_of_ne hnot hne
                · exact hhead k hk
              · intro k
                simp only [keys, List.map_cons, List.mem_cons] at hkeys ⊢
                rw [hkeys k]
                exact or_left_comm
              · rw [get_cons, get_cons, hget k]
                split
                · next hk =>
                    rw [if_neg]
                    rintro rfl
                    exact hne hk
                · rfl

/-- An amount may be added if the sum under its key stays in range. -/
theorem exists_add? (h : tally.Ascending) (hfits : Word.Fits (tally.get key + n)) :
    ∃ after, tally.add? key n = some after := by
  induction tally with
  | nil => exact ⟨_, congrArg _ (Word.narrow?_eq_some_iff.mpr ⟨hfits, rfl⟩)⟩
  | cons head rest ih =>
      obtain ⟨k₀, total⟩ := head
      rw [get_cons] at hfits
      unfold add?
      split
      · next heq =>
          rw [if_pos heq] at hfits
          exact ⟨_, congrArg _ (Word.narrow?_eq_some_iff.mpr ⟨hfits, rfl⟩)⟩
      · next hne =>
          rw [if_neg hne] at hfits
          split
          · next hlt =>
              have hzero := get_of_lt h hlt
              rw [get_cons, if_neg hne] at hzero
              rw [hzero] at hfits
              exact ⟨_, congrArg _ (Word.narrow?_eq_some_iff.mpr ⟨hfits, rfl⟩)⟩
          · obtain ⟨after, hafter⟩ := ih (List.pairwise_cons.mp h).2 hfits
            exact ⟨_, congrArg _ hafter⟩

/-- Added up, the amounts stand under their keys with their running sums. -/
theorem addAll?_eq_some (h : tally.Ascending) (hadd : tally.addAll? amounts = some after) :
    after.Ascending ∧ (∀ k, k ∈ after.keys ↔ k ∈ tally.keys ∨ k ∈ amounts.map (·.1)) ∧
      ∀ k, Word.sumFrom? (tally.get k) (amountsOf amounts k) = some (after.get k) := by
  induction amounts generalizing tally with
  | nil =>
      cases hadd
      exact ⟨h, by simp, fun k => rfl⟩
  | cons a rest ih =>
      obtain ⟨key, n⟩ := a
      obtain ⟨middle, hfirst, hrest⟩ := Option.bind_eq_some_iff.mp hadd
      obtain ⟨hasc, hkeys, hfits, hget⟩ := add?_eq_some h hfirst
      obtain ⟨hasc', hkeys', hsums⟩ := ih hasc hrest
      refine ⟨hasc', ?_, ?_⟩
      · intro k
        rw [hkeys', hkeys, List.map_cons, List.mem_cons, or_assoc]
        exact or_left_comm
      · intro k
        have hsum := hsums k
        rw [hget k] at hsum
        rw [amountsOf_cons]
        by_cases hk : k = key
        · subst hk
          rw [if_pos rfl] at hsum
          rw [if_pos rfl, Word.sumFrom?, Word.add?, Word.narrow?_eq_some_iff.mpr ⟨hfits, rfl⟩]
          exact hsum
        · rw [if_neg hk] at hsum
          rw [if_neg (Ne.symm hk)]
          exact hsum

theorem exists_addAll? (h : tally.Ascending) (amounts : List (String × Int))
    (hsums : ∀ k, ∃ total, Word.sumFrom? (tally.get k) (amountsOf amounts k) = some total) :
    ∃ after, tally.addAll? amounts = some after := by
  induction amounts generalizing tally with
  | nil => exact ⟨tally, rfl⟩
  | cons a rest ih =>
      obtain ⟨key, n⟩ := a
      obtain ⟨total, hkey⟩ := hsums key
      rw [amountsOf_cons, if_pos rfl, Word.sumFrom?, Option.bind_eq_some_iff] at hkey
      obtain ⟨sum, hsum, hkey⟩ := hkey
      obtain ⟨hfits, rfl⟩ := Word.narrow?_eq_some_iff.mp hsum
      obtain ⟨middle, hfirst⟩ := exists_add? h hfits
      obtain ⟨hasc, -, -, hget⟩ := add?_eq_some h hfirst
      obtain ⟨after, hafter⟩ := ih hasc (fun k => by
        rw [hget k]
        by_cases hk : k = key
        · rw [if_pos hk, hk]
          exact ⟨total, hkey⟩
        · rw [if_neg hk]
          have hother := hsums k
          rwa [amountsOf_cons, if_neg (Ne.symm hk)] at hother)
      exact ⟨after, Option.bind_eq_some_iff.mpr ⟨middle, hfirst, hafter⟩⟩

end Tally

theorem insertDistinct_pairwise {s : String} {texts : List String}
    (h : texts.Pairwise (· < ·)) : (insertDistinct s texts).Pairwise (· < ·) := by
  induction texts with
  | nil => exact List.pairwise_singleton _ _
  | cons t rest ih =>
      obtain ⟨hhead, hrest⟩ := List.pairwise_cons.mp h
      unfold insertDistinct
      split
      · exact h
      · next hne =>
          split
          · next hlt =>
              refine List.pairwise_cons.mpr ⟨fun u hu => ?_, h⟩
              rcases List.mem_cons.mp hu with rfl | hu
              · exact hlt
              · exact String.lt_trans hlt (hhead u hu)
          · next hnot =>
              refine List.pairwise_cons.mpr ⟨fun u hu => ?_, ih hrest⟩
              rcases mem_insertDistinct.mp hu with rfl | hu
              · exact lt_of_not_lt_of_ne hnot hne
              · exact hhead u hu

theorem distinctSorted_pairwise (texts : List String) :
    (distinctSorted texts).Pairwise (· < ·) := by
  induction texts with
  | nil => exact .nil
  | cons s rest ih => exact insertDistinct_pairwise ih

theorem distinctSorted_nodup (texts : List String) : (distinctSorted texts).Nodup := by
  refine (distinctSorted_pairwise texts).imp ?_
  rintro a b hlt rfl
  exact String.lt_irrefl a hlt

/-- A tally of some amounts has their distinct keys in ascending order. -/
theorem Tally.keys_of? {amounts : List (String × Int)} {tally : Tally}
    (h : Tally.of? amounts = some tally) : tally.keys = distinctSorted (amounts.map (·.1)) := by
  have hempty : Tally.Ascending [] := .nil
  obtain ⟨hascending, hkeys, -⟩ := addAll?_eq_some hempty h
  apply List.Pairwise.eq_of_mem_iff hascending (distinctSorted_pairwise _)
  intro key
  rw [hkeys, mem_distinctSorted]
  exact or_iff_right List.not_mem_nil

end OrderLedger
