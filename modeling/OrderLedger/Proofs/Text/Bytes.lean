import Mathlib.Data.List.Lex
import OrderLedger.Text.Utf8

/-!
Texts compare as their bytes do. Two characters differ in UTF-8 before the shorter of them
ends, and the first byte that differs is the smaller one for the earlier character.
-/

namespace OrderLedger.Text.Utf8

variable {us vs : List UInt8}

theorem bytes_eq (s : String) : bytes s = s.toList.flatMap String.utf8EncodeChar := by
  rw [bytes, String.toUTF8_eq_toByteArray, ← String.utf8Encode_toList, List.utf8Encode,
    List.toList_data_toByteArray]

theorem cons_lt_cons {m n : Nat} (hm : m < 256) (hn : n < 256) :
    UInt8.ofNat m :: us < UInt8.ofNat n :: vs ↔ m < n ∨ m = n ∧ us < vs := by
  have hsame : UInt8.ofNat m = UInt8.ofNat n ↔ m = n := by
    rw [← UInt8.toNat_inj, UInt8.toNat_ofNat', UInt8.toNat_ofNat', Nat.mod_eq_of_lt hm,
      Nat.mod_eq_of_lt hn]
  rw [List.cons_lt_cons_iff, UInt8.ofNat_lt_iff_lt hm hn, hsame]

/-- The earlier of two characters has the smaller encoding, whatever follows. -/
theorem encodeChar_lt {c d : Char} (h : c < d) (us vs : List UInt8) :
    String.utf8EncodeChar c ++ us < String.utf8EncodeChar d ++ vs := by
  have hlt : c.val.toNat < d.val.toNat := h
  have hmost : d.val.toNat < 1114112 := by
    rcases d.valid with hlow | ⟨-, hhigh⟩
    · exact Nat.lt_trans hlow (by decide)
    · exact hhigh
  have htwo (n : Nat) : n / 4096 = n / 64 / 64 := (Nat.div_div_eq_div_mul n 64 64).symm
  have hthree (n : Nat) : n / 262144 = n / 64 / 64 / 64 := by
    rw [← htwo, Nat.div_div_eq_div_mul]
  -- One case for each pair of lengths. A first byte that grows with the length stands before
  -- digits in base 64.
  unfold String.utf8EncodeChar
  simp only
  split_ifs
  all_goals first
    | omega
    | simp (disch := omega) only [List.cons_append, List.nil_append, cons_lt_cons, htwo, hthree]
  all_goals omega

theorem flatMap_lt {cs ds : List Char} (h : cs < ds) :
    cs.flatMap String.utf8EncodeChar < ds.flatMap String.utf8EncodeChar := by
  induction cs generalizing ds with
  | nil =>
      cases ds with
      | nil => cases h
      | cons d ds =>
          rw [List.flatMap_nil, List.flatMap_cons]
          cases hencoded : String.utf8EncodeChar d with
          | nil => exact absurd hencoded String.utf8EncodeChar_ne_nil
          | cons byte rest => exact List.nil_lt_cons _ _
  | cons c cs ih =>
      cases ds with
      | nil => cases h
      | cons d ds =>
          rw [List.flatMap_cons, List.flatMap_cons]
          rcases List.cons_lt_cons_iff.mp h with hfirst | ⟨rfl, hrest⟩
          · exact encodeChar_lt hfirst _ _
          · exact List.append_left_lt (ih hrest)

/-- The order of texts is the order of their bytes. -/
theorem bytes_lt {s t : String} (h : s < t) : bytes s < bytes t := by
  rw [bytes_eq, bytes_eq]
  exact flatMap_lt h

theorem bytes_lt_iff {s t : String} : bytes s < bytes t ↔ s < t := by
  refine ⟨fun hless => ?_, bytes_lt⟩
  by_contra hnot
  have hle := String.not_lt.mp hnot
  by_cases hback : t < s
  · exact List.lt_asymm hless (bytes_lt hback)
  · rw [String.le_antisymm (String.not_lt.mp hback) hle] at hless
    exact List.lt_irrefl _ hless

end OrderLedger.Text.Utf8
