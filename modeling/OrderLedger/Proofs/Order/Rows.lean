import Mathlib.Data.List.Nodup
import OrderLedger.Proofs.Order.Drafts
import OrderLedger.Proofs.Store.Statements

/-!
The lines of a draft as rows. They have the ids of their stamp in order, and a component comes
after the bundle that it belongs to, so the lines may be written one after another.
-/

namespace OrderLedger

/-- Every line comes after the line that it belongs to, or belongs to a known one. -/
def Line.Rooted (known : List String) : List Line → Prop
  | [] => True
  | l :: rest =>
      (∀ parent, l.parentId = some parent → parent ∈ known) ∧ Line.Rooted (l.id :: known) rest

namespace Line

variable {known more : List String} {ls rest : List Line}

theorem Rooted.mono (h : Rooted known ls) (hknown : known ⊆ more) : Rooted more ls := by
  induction ls generalizing known more with
  | nil => trivial
  | cons l rest ih =>
      refine ⟨fun parent hparent => hknown (h.1 parent hparent), ih h.2 ?_⟩
      exact List.cons_subset_cons _ hknown

theorem Rooted.append (h : Rooted known ls) (hrest : Rooted known rest) :
    Rooted known (ls ++ rest) := by
  induction ls generalizing known with
  | nil => exact hrest
  | cons l ls ih => exact ⟨h.1, ih h.2 (hrest.mono (List.subset_cons_self _ _))⟩

end Line

namespace Draft

open Calculation

variable {catalog : Catalog} {stamp : Stamp} {position : Nat} {known : List String}
  {ls more : List Line}

/-- Lines that a stamp has numbered from a position on, each after the line that it belongs
to. -/
structure Rows (stamp : Stamp) (position : Nat) (known : List String) (ls : List Line) : Prop where
  ids : ls.map (·.id) = (List.range' position ls.length).map stamp.lineId
  rooted : Line.Rooted known ls
  owned : ∀ l ∈ ls, l.type = .component → l.parentId.isSome

theorem Rows.drawn (h : Rows stamp position known ls) : ∀ l ∈ ls, ∃ n, l.id = stamp.lineId n := by
  intro l hl
  have hmem : l.id ∈ ls.map (·.id) := List.mem_map_of_mem hl
  rw [h.ids] at hmem
  obtain ⟨n, -, hid⟩ := List.mem_map.mp hmem
  exact ⟨n, hid.symm⟩

theorem Rows.nil : Rows stamp position known [] :=
  ⟨rfl, trivial, by simp⟩

theorem Rows.cons {l : Line} (hid : l.id = stamp.lineId position)
    (hparent : ∀ parent, l.parentId = some parent → parent ∈ known)
    (howned : l.type = .component → l.parentId.isSome)
    (hrest : Rows stamp (position + 1) (l.id :: known) ls) :
    Rows stamp position known (l :: ls) := by
  refine ⟨?_, ⟨hparent, hrest.rooted⟩, ?_⟩
  · rw [List.map_cons, hrest.ids, hid, List.length_cons, List.range'_succ, List.map_cons]
  · intro m hm
    rcases List.mem_cons.mp hm with rfl | hm
    · exact howned
    · exact hrest.owned m hm

theorem Rows.append (h : Rows stamp position known ls)
    (hmore : Rows stamp (position + ls.length) known more) :
    Rows stamp position known (ls ++ more) := by
  refine ⟨?_, h.rooted.append hmore.rooted, ?_⟩
  · rw [List.map_append, h.ids, hmore.ids, ← List.map_append, List.length_append,
      List.range'_append_1]
  · intro l hl
    rcases List.mem_append.mp hl with hl | hl
    · exact h.owned l hl
    · exact hmore.owned l hl

theorem rows_components {bundleId : String} (quantity : Int) (filled : List (MenuSlot × Product))
    (hbundle : bundleId ∈ known) :
    Rows stamp position known (components stamp bundleId quantity position filled) := by
  induction filled generalizing position known with
  | nil => exact .nil
  | cons head rest ih =>
      refine .cons rfl ?_ (fun _ => rfl) (ih (List.mem_cons_of_mem _ hbundle))
      intro parent hparent
      cases hparent
      exact hbundle

theorem rows_expandLine {c : CartLine} (h : expandLine catalog stamp position c = .ok ls) :
    Rows stamp position known ls := by
  obtain ⟨p, -, ⟨-, -, rfl⟩ | ⟨-, filled, -, rfl⟩⟩ := expandLine_eq_ok.mp h
  · refine .cons rfl ?_ ?_ .nil
    · rintro _ ⟨⟩
    · rintro ⟨⟩
  · refine .cons rfl ?_ ?_ (rows_components _ _ List.mem_cons_self)
    · rintro _ ⟨⟩
    · rintro ⟨⟩

theorem rows_expand {cart : List CartLine} (h : expand catalog stamp position cart = .ok ls) :
    Rows stamp position known ls := by
  induction cart generalizing position ls with
  | nil =>
      cases h
      exact .nil
  | cons c rest ih =>
      obtain ⟨first, more, hfirst, hmore, rfl⟩ := expand_cons_eq_ok.mp h
      exact (rows_expandLine hfirst).append (ih hmore)

theorem rows_build {now : Time.Instant} {ids : Nat → String} {r : OrderRequest} {d : Draft}
    (h : build catalog now ids r = .ok d) :
    Rows ⟨ids 0, now, fun n => ids (n + 1)⟩ 0 [] d.lines := by
  obtain ⟨-, lines, total, hlines, -, rfl⟩ := build_eq_ok_iff.mp h
  exact rows_expand hlines

theorem total_nonneg {now : Time.Instant} {ids : Nat → String} {r : OrderRequest} {d : Draft}
    (h : build catalog now ids r = .ok d) (hprices : ∀ l ∈ d.lines, 0 ≤ l.unitPrice.cents) :
    0 ≤ d.order.total.cents := by
  have hquantities := (build_eq_ok h).quantities
  obtain ⟨-, lines, total, -, htotal, rfl⟩ := build_eq_ok_iff.mp h
  rw [(checkedTotal_eq_ok.mp htotal).2]
  exact Line.subtotals_nonneg fun l hl => ⟨hprices l hl, Int.le_of_lt (hquantities l hl).1⟩

end Draft

namespace Store

variable {s : Store}

theorem brokenRule?_eq_none {l : Line} :
    brokenRule? l = none ↔ 0 < l.quantity ∧ 0 ≤ l.unitPrice.cents ∧
      (l.type = .component → l.parentId.isSome) := by
  unfold brokenRule?
  split
  · simp only [reduceCtorEq, false_iff]
    omega
  · split
    · simp only [reduceCtorEq, false_iff]
      omega
    · split
      · next horphan =>
          rw [Bool.and_eq_true, beq_iff_eq, Option.isNone_iff_eq_none] at horphan
          simp [horphan]
      · next hpos hprice howned =>
          simp only [Bool.and_eq_true, beq_iff_eq, Option.isNone_iff_eq_none, not_and] at howned
          refine iff_of_true rfl ⟨by omega, by omega, fun htype => ?_⟩
          exact Option.isSome_iff_ne_none.mpr (howned htype)

/-- New lines of stored orders may be inserted if each comes after the line that it belongs
to. -/
theorem admitsAll_of_rooted {known : List String} {ls : List Line}
    (hrules : ∀ l ∈ ls, brokenRule? l = none ∧ s.hasOrder l.orderId = true)
    (hids : (ls.map (·.id)).Nodup) (hnew : ∀ l ∈ ls, s.hasLine l.id = false)
    (hknown : ∀ id ∈ known, s.hasLine id = true) (hrooted : Line.Rooted known ls) :
    s.AdmitsAll ls := by
  induction ls generalizing s known with
  | nil => trivial
  | cons l rest ih =>
      rw [List.map_cons, List.nodup_cons] at hids
      obtain ⟨hrule, horder⟩ := hrules l List.mem_cons_self
      refine ⟨⟨hrule, hnew l List.mem_cons_self, horder, ?_⟩, ?_⟩
      · cases hparent : l.parentId with
        | none => rfl
        | some parent => simp [hknown parent (hrooted.1 parent hparent)]
      · refine ih (fun m hm => hrules m (List.mem_cons_of_mem _ hm)) hids.2 ?_ ?_ hrooted.2
        · intro m hm
          have hold := hasLine_eq_false.mp (hnew m (List.mem_cons_of_mem _ hm))
          refine hasLine_eq_false.mpr ?_
          rw [List.map_append, List.mem_append, not_or]
          refine ⟨hold, ?_⟩
          rw [List.map_singleton, List.mem_singleton]
          intro hid
          exact hids.1 (hid ▸ List.mem_map_of_mem hm)
        · intro id hid
          rw [hasLine, List.any_append, Bool.or_eq_true]
          rcases List.mem_cons.mp hid with rfl | hid
          · exact Or.inr (by simp)
          · exact Or.inl (hknown id hid)

end Store

end OrderLedger
