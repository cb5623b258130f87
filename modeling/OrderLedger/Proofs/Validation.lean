import OrderLedger.Proofs.Calculations
import OrderLedger.Proofs.Text.Blank
import OrderLedger.Proofs.Text.Spans

/-!
What the rules for input let through. Each check passes exactly on the values that are
described here without it: the numbers in range, the keys with something in them, the addresses
and the pairs of customer and email of which one is given.
-/

namespace OrderLedger.Validation

open OrderLedger.Text Calculation

variable {s : String}

theorem quantity_eq_ok {n : Int} : quantity n = .ok () ↔ 1 ≤ n ∧ n ≤ 999 := by
  rw [quantity, refuse_eq_ok, refuse_eq_ok, and_iff_left rfl, maxLineQuantity]
  omega

theorem cartSize_eq_ok {lines : Nat} : cartSize lines = .ok () ↔ 1 ≤ lines ∧ lines ≤ 100 := by
  rw [cartSize, refuse_eq_ok, refuse_eq_ok, and_iff_left rfl, maxCartLines]
  omega

theorem key_eq_ok : key s = .ok () ↔ isBlank s = false ∧ s.length ≤ 128 := by
  rw [key, refuse_eq_ok, refuse_eq_ok, and_iff_left rfl, maxKeyLength, Bool.not_eq_true,
    Nat.not_lt]

/-! ## Addresses -/

/-- An address has one `@` between a name and a domain, and the domain has a dot inside. -/
structure IsAddress (s : String) : Prop where
  bytes : s.utf8ByteSize ≤ 254
  unspaced : ∀ c ∈ s.toList, isWhiteSpace c = false
  parts : ∃ name domain, s.toList = name ++ '@' :: domain ∧
    name ≠ [] ∧ '@' ∉ name ∧ '@' ∉ domain ∧
    '.' ∈ domain ∧ domain.head? ≠ some '.' ∧ domain.getLast? ≠ some '.'

/-- The text is cut at its first `@`. -/
theorem span_at {cs name domain : List Char} (hname : '@' ∉ name)
    (h : cs = name ++ '@' :: domain) :
    cs.takeWhile (fun c => c != '@') = name ∧
      cs.dropWhile (fun c => c != '@') = '@' :: domain := by
  have hbefore : (name.all fun c => c != '@') = true := by
    rw [List.all_eq_true]
    intro c hc
    rw [bne_iff_ne]
    rintro rfl
    exact hname hc
  have hat : Stops (fun c => c != '@') ('@' :: domain) := stops_cons rfl
  rw [h, takeWhile_append_stops hbefore hat, dropWhile_append_stops hbefore hat]
  exact ⟨rfl, rfl⟩

theorem looksLikeEmail_iff {cs : List Char} :
    looksLikeEmail cs = true ↔ (∀ c ∈ cs, isWhiteSpace c = false) ∧
      ∃ name domain, cs = name ++ '@' :: domain ∧ name ≠ [] ∧ '@' ∉ name ∧ '@' ∉ domain ∧
        '.' ∈ domain ∧ domain.head? ≠ some '.' ∧ domain.getLast? ≠ some '.' := by
  constructor
  · intro h
    simp only [looksLikeEmail] at h
    split at h
    · cases h
    · next c domain hdrop =>
        have hname : '@' ∉ cs.takeWhile (fun c => c != '@') := by
          intro hmem
          simpa using List.mem_takeWhile_imp hmem
        have hat : c = '@' := by
          have hfirst := List.head_dropWhile_not (fun c => c != '@') (by rw [hdrop]; simp)
          simpa [hdrop] using hfirst
        have hcut := List.takeWhile_append_dropWhile (p := fun c => c != '@') (l := cs)
        rw [hdrop, hat] at hcut
        simp only [Bool.and_eq_true, Bool.not_eq_true', bne_iff_ne, List.isEmpty_eq_false_iff,
          List.contains_eq_mem, decide_eq_false_iff_not, decide_eq_true_eq, List.any_eq_false,
          Bool.not_eq_true] at h
        obtain ⟨⟨⟨⟨⟨hempty, hdomain⟩, hdot⟩, hhead⟩, hlast⟩, hspace⟩ := h
        exact ⟨hspace, _, domain, hcut.symm, hempty, hname, hdomain, hdot, hhead, hlast⟩
  · rintro ⟨hspace, name, domain, hcs, hempty, hname, hdomain, hdot, hhead, hlast⟩
    obtain ⟨htake, hdrop⟩ := span_at hname hcs
    simp only [looksLikeEmail, htake, hdrop]
    simp only [Bool.and_eq_true, Bool.not_eq_true', bne_iff_ne, List.isEmpty_eq_false_iff,
      List.contains_eq_mem, decide_eq_false_iff_not, decide_eq_true_eq, List.any_eq_false,
      Bool.not_eq_true]
    exact ⟨⟨⟨⟨⟨hempty, hdomain⟩, hdot⟩, hhead⟩, hlast⟩, hspace⟩

theorem email_eq_ok : email s = .ok () ↔ IsAddress s := by
  rw [email, refuse_eq_ok, accept_eq_ok, and_iff_left rfl, maxEmailBytes, Nat.not_lt,
    looksLikeEmail_iff]
  constructor
  · rintro ⟨hbytes, hspace, hparts⟩
    exact ⟨hbytes, hspace, hparts⟩
  · intro haddress
    exact ⟨haddress.bytes, haddress.unspaced, haddress.parts⟩

/-! ## Contacts -/

/-- Either the customer or the email is given, and the email, trimmed, is an address. -/
structure IsContact (customerId contactEmail : Option String) : Prop where
  one : Given customerId ↔ ¬ Given contactEmail
  address : ∀ s, contactEmail = some s → isBlank s = false → IsAddress (trim s)

variable {customerId contactEmail : Option String}

theorem contact_eq_ok :
    contact customerId contactEmail = .ok () ↔ IsContact customerId contactEmail := by
  unfold contact
  split
  · next customer hcustomer hemail =>
      have hgiven := isSome_trimmed?.mp (Option.isSome_of_eq_some hcustomer)
      have hnone := trimmed?_eq_none.mp hemail
      refine iff_of_true rfl ⟨iff_of_true hgiven hnone, ?_⟩
      intro s hs hblank
      exact absurd ⟨s, hs, hblank⟩ hnone
  · next address hcustomer hemail =>
      have hnone := trimmed?_eq_none.mp hcustomer
      obtain ⟨s, rfl, hblank, rfl⟩ := trimmed?_eq_some.mp hemail
      have hgiven : Given (some s) := ⟨s, rfl, hblank⟩
      rw [email_eq_ok]
      constructor
      · intro haddress
        refine ⟨iff_of_false hnone (not_not_intro hgiven), ?_⟩
        rintro _ ⟨⟩ _
        exact haddress
      · intro hcontact
        exact hcontact.address s rfl hblank
  · next hcustomer hemail =>
      simp only [reduceCtorEq, false_iff]
      intro hcontact
      cases hc : trimmed? customerId with
      | none =>
          have hgiven : Given contactEmail := by
            by_contra hnone
            exact trimmed?_eq_none.mp hc (hcontact.one.mpr hnone)
          obtain ⟨address, haddress⟩ := Option.isSome_iff_exists.mp (isSome_trimmed?.mpr hgiven)
          exact hemail address hc haddress
      | some customer =>
          have hnone := hcontact.one.mp (isSome_trimmed?.mp (Option.isSome_of_eq_some hc))
          exact hcustomer customer hc (trimmed?_eq_none.mpr hnone)

/-- A contact is stored as a customer or an email, never both. -/
theorem IsContact.isSome_trimmed? (h : IsContact customerId contactEmail) :
    (trimmed? customerId).isSome ↔ (trimmed? contactEmail).isNone := by
  rw [Text.isSome_trimmed?, Option.isNone_iff_eq_none, trimmed?_eq_none]
  exact h.one

end OrderLedger.Validation
