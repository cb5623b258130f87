import Mathlib.Data.Finset.Card
import Mathlib.Logic.Function.Basic
import OrderLedger.Proofs.Store.Statements
import OrderLedger.Proofs.Tally

/-!
Handing lines over. Marks are only added, they are counted, and no line gets a second one. Where
ids are new, every line that has no mark yet gets one, so that handing the same lines over again
does nothing.
-/

namespace OrderLedger.Store

open Work

variable {ε : Type} {s t : Store} {ids : Nat → String} {lineIds : List String}

/-- Those of the lines that are not handed over, each once and in order. -/
def waiting (s : Store) (lineIds : List String) : List String :=
  (distinctSorted lineIds).filter fun id => !s.isHandedOver id

/-- The marks of a store after more of them. -/
theorem isHandedOver_append {t : Store} (marks : List HandOver)
    (h : t.handOvers = s.handOvers ++ marks) (lineId : String) :
    t.isHandedOver lineId = (s.isHandedOver lineId || marks.any fun m => m.lineId == lineId) := by
  rw [isHandedOver, h, List.any_append]
  rfl

/-- A mark with a new id is made unless its line has one. -/
theorem yields_mark_new {h : HandOver} (hnew : ∀ other ∈ s.handOvers, other.id ≠ h.id) :
    (mark h : Work ε Bool).Yields s (!s.isHandedOver h.lineId)
      (if s.isHandedOver h.lineId then s else { s with handOvers := s.handOvers ++ [h] }) := by
  have hsame : (s.handOvers.any fun other => other.lineId == h.lineId || other.id == h.id) =
      s.isHandedOver h.lineId := by
    rw [isHandedOver, Bool.eq_iff_iff, List.any_eq_true, List.any_eq_true]
    refine exists_congr fun other => and_congr_right fun hother => ?_
    rw [beq_eq_false_iff_ne.mpr (hnew other hother), Bool.or_false]
  simp only [mark, yields_bind, yields_get]
  refine ⟨s, s, ⟨rfl, rfl⟩, ?_⟩
  rw [hsame]
  cases s.isHandedOver h.lineId with
  | true => exact yields_pure.mpr ⟨rfl, rfl⟩
  | false =>
      simp only [Bool.false_eq_true, if_false, yields_bind, yields_set, yields_pure]
      exact ⟨⟨⟩, _, rfl, rfl, rfl⟩

theorem exists_markEach (now : Time.Instant) {n : Nat} (hids : Function.Injective ids)
    (hlines : lineIds.Nodup) (hnew : ∀ m, n ≤ m → ∀ h ∈ s.handOvers, h.id ≠ ids m) :
    ∃ marks, marks.map (·.lineId) = lineIds.filter (fun id => !s.isHandedOver id) ∧
      (∀ h ∈ marks, ∃ m, h.id = ids m) ∧
      (markEach now ids n lineIds : Work ε Nat).Yields s marks.length
        { s with handOvers := s.handOvers ++ marks } := by
  induction lineIds generalizing n s with
  | nil => exact ⟨[], rfl, List.forall_mem_nil _, yields_pure.mpr ⟨rfl, by rw [List.append_nil]⟩⟩
  | cons lineId rest ih =>
      obtain ⟨hfirst, hrest⟩ := List.nodup_cons.mp hlines
      have hmark := yields_mark_new (ε := ε) (s := s) (h := ⟨ids n, lineId, now⟩)
        (hnew n (le_refl n))
      cases hdone : s.isHandedOver lineId with
      | true =>
          obtain ⟨marks, hmarked, hdrawn, hyields⟩ := ih (n := n + 1) hrest
            fun m hm => hnew m (by omega)
          refine ⟨marks, ?_, hdrawn, ?_⟩
          · rw [hmarked, List.filter_cons_of_neg (by simp [hdone])]
          · simp only [markEach, yields_bind, yields_pure]
            rw [hdone, if_pos rfl] at hmark
            exact ⟨_, _, hmark, _, _, hyields, by simp, rfl⟩
      | false =>
          let first : HandOver := ⟨ids n, lineId, now⟩
          have hafter (id : String) (hid : id ∈ rest) :
              ({ s with handOvers := s.handOvers ++ [first] } : Store).isHandedOver id =
                s.isHandedOver id := by
            have hne : lineId ≠ id := fun heq => hfirst (heq ▸ hid)
            rw [isHandedOver_append (s := s) [first] rfl]
            simp [first, hne]
          obtain ⟨marks, hmarked, hdrawn, hyields⟩ := ih (n := n + 1)
            (s := { s with handOvers := s.handOvers ++ [first] }) hrest (by
              intro m hm h hh
              rcases List.mem_append.mp hh with hh | hh
              · exact hnew m (by omega) h hh
              · rw [List.mem_singleton.mp hh]
                intro heq
                have := hids heq
                omega)
          refine ⟨first :: marks, ?_, ?_, ?_⟩
          · rw [List.map_cons, hmarked, List.filter_cons_of_pos (by simp [hdone])]
            congr 1
            exact List.filter_congr fun id hid => by rw [hafter id hid]
          · exact List.forall_mem_cons.mpr ⟨⟨n, rfl⟩, hdrawn⟩
          · simp only [markEach, yields_bind, yields_pure]
            rw [hdone, if_neg Bool.false_ne_true] at hmark
            refine ⟨_, _, hmark, _, _, hyields, ?_, ?_⟩
            · simp [Nat.add_comm]
            · simp

/-- Lines that are all stored are handed over: the waiting ones among them are marked and
counted. -/
theorem exists_handOver (now : Time.Instant) (hids : Function.Injective ids)
    (hnew : ∀ m, ∀ h ∈ s.handOvers, h.id ≠ ids m)
    (hstored : (distinctSorted lineIds).find? (fun id => !s.hasLine id) = none) :
    ∃ marks, marks.map (·.lineId) = s.waiting lineIds ∧ (∀ h ∈ marks, ∃ m, h.id = ids m) ∧
      (handOver now ids lineIds).Yields s marks.length
        { s with handOvers := s.handOvers ++ marks } := by
  obtain ⟨marks, hmarked, hdrawn, hyields⟩ := exists_markEach now (n := 0) hids
    (distinctSorted_nodup lineIds) fun m _ => hnew m
  refine ⟨marks, hmarked, hdrawn, ?_⟩
  simp only [handOver, yields_bind, yields_get]
  refine ⟨s, s, ⟨rfl, rfl⟩, ?_⟩
  rw [hstored]
  exact hyields

/-- The least id that is no line is told. -/
theorem fails_handOver {now : Time.Instant} {missing : String}
    (hmissing : (distinctSorted lineIds).find? (fun id => !s.hasLine id) = some missing) :
    (handOver now ids lineIds).Fails s (.error (.notFound "Order line" missing)) := by
  simp only [handOver, fails_bind, yields_get]
  refine Or.inr ⟨s, s, ⟨rfl, rfl⟩, ?_⟩
  rw [hmissing]
  exact fails_fail.mpr rfl

/-! ## What is counted -/

/-- New marks have ids that are drawn, there are as many as counted, and no line that had one mark
at most has two. -/
structure GainsMarks (ids : Nat → String) (s t : Store) (count : Nat) : Prop where
  drawn : ∀ h ∈ t.handOvers, h ∈ s.handOvers ∨ ∃ n, h.id = ids n
  count : t.handOvers.length = s.handOvers.length + count
  once : (s.handOvers.map (·.lineId)).Nodup → (t.handOvers.map (·.lineId)).Nodup

section Gaining

variable {now : Time.Instant} {n count : Nat}

theorem gainsMarks_same (ids : Nat → String) (h : t.handOvers = s.handOvers) :
    GainsMarks ids s t 0 := by
  constructor
  · exact fun m hm => Or.inl (h ▸ hm)
  · rw [h, Nat.add_zero]
  · rw [h]
    exact id

theorem GainsMarks.trans {u : Store} {more : Nat} (h : GainsMarks ids s t count)
    (hmore : GainsMarks ids t u more) : GainsMarks ids s u (count + more) where
  drawn m hm := (hmore.drawn m hm).elim (h.drawn m) Or.inr
  count := by rw [hmore.count, h.count, Nat.add_assoc]
  once hs := hmore.once (h.once hs)

theorem yields_mark_gains {lineId : String} {isNew : Bool}
    (hmark : (mark ⟨ids n, lineId, now⟩ : Work ε Bool).Yields s isNew t) :
    GainsMarks ids s t (if isNew then 1 else 0) := by
  simp only [mark, yields_bind, yields_get] at hmark
  obtain ⟨_, _, ⟨rfl, rfl⟩, hmark⟩ := hmark
  split at hmark
  · obtain ⟨rfl, rfl⟩ := yields_pure.mp hmark
    exact gainsMarks_same ids rfl
  · next hnew =>
      simp only [yields_bind, yields_set, yields_pure] at hmark
      obtain ⟨-, _, rfl, rfl, rfl⟩ := hmark
      refine ⟨fun m hm => ?_, List.length_append, fun hnodup => ?_⟩
      · refine (List.mem_append.mp hm).imp_right fun hlast => ?_
        rw [List.mem_singleton.mp hlast]
        exact ⟨n, rfl⟩
      · rw [List.map_append, List.map_singleton, ← List.concat_eq_append]
        refine hnodup.concat fun hmem => hnew ?_
        obtain ⟨other, hother, hline⟩ := List.mem_map.mp hmem
        exact List.any_eq_true.mpr ⟨other, hother, by simp [hline]⟩

theorem yields_markEach_gains
    (h : (markEach now ids n lineIds : Work ε Nat).Yields s count t) :
    GainsMarks ids s t count := by
  induction lineIds generalizing n count s with
  | nil =>
      obtain ⟨rfl, rfl⟩ := yields_pure.mp h
      exact gainsMarks_same ids rfl
  | cons lineId rest ih =>
      simp only [markEach, yields_bind, yields_pure] at h
      obtain ⟨isNew, u, hfirst, more, _, hrest, rfl, rfl⟩ := h
      exact (yields_mark_gains hfirst).trans (ih hrest)

theorem yields_handOver_gains (h : (handOver now ids lineIds).Yields s count t) :
    GainsMarks ids s t count := by
  simp only [handOver, yields_bind, yields_get] at h
  obtain ⟨_, _, ⟨rfl, rfl⟩, h⟩ := h
  split at h
  · exact absurd h yields_fail
  · exact yields_markEach_gains h

end Gaining

/-! ## What is marked -/

/-- Those of the lines that have no mark. -/
def unmarked (s : Store) (lineIds : List String) : Finset String :=
  lineIds.toFinset.filter fun id => s.isHandedOver id = false

/-- Exactly the given lines are marked, each once, and nothing else is written. -/
def Marks (lineIds : Finset String) (s t : Store) : Prop :=
  ∃ marks, (marks.map (·.lineId)).Nodup ∧ (marks.map (·.lineId)).toFinset = lineIds ∧
    t = { s with handOvers := s.handOvers ++ marks }

theorem waiting_nodup (s : Store) (lineIds : List String) : (s.waiting lineIds).Nodup :=
  (distinctSorted_nodup lineIds).filter _

theorem waiting_toFinset (s : Store) (lineIds : List String) :
    (s.waiting lineIds).toFinset = s.unmarked lineIds := by
  ext id
  simp [waiting, unmarked, mem_distinctSorted]

/-- All the lines are lines of the store. -/
theorem find?_hasLine_eq_none :
    (distinctSorted lineIds).find? (fun id => !s.hasLine id) = none ↔
      ∀ id ∈ lineIds, s.hasLine id = true := by
  simp [List.find?_eq_none, mem_distinctSorted]

/-- Lines that are all stored are handed over under new ids: those of them that have no mark get
one, and they are counted. -/
theorem exists_marks (now : Time.Instant) (hids : Function.Injective ids)
    (hnew : ∀ m, ∀ h ∈ s.handOvers, h.id ≠ ids m) (hstored : ∀ id ∈ lineIds, s.hasLine id = true) :
    ∃ t, s.Marks (s.unmarked lineIds) t ∧
      (handOver now ids lineIds).Yields s (s.unmarked lineIds).card t := by
  obtain ⟨marks, hmarked, -, hyields⟩ :=
    exists_handOver now hids hnew (find?_hasLine_eq_none.mpr hstored)
  have hnodup : (marks.map (·.lineId)).Nodup := hmarked ▸ s.waiting_nodup lineIds
  have hset : (marks.map (·.lineId)).toFinset = s.unmarked lineIds := by
    rw [hmarked, waiting_toFinset]
  refine ⟨_, ⟨marks, hnodup, hset, rfl⟩, ?_⟩
  rw [← hset, List.toFinset_card_of_nodup hnodup, List.length_map]
  exact hyields

theorem Marks.isHandedOver (h : s.Marks (s.unmarked lineIds) t) :
    ∀ id ∈ lineIds, t.isHandedOver id = true := by
  intro id hid
  obtain ⟨marks, -, hset, rfl⟩ := h
  rw [isHandedOver_append (s := s) marks rfl, Bool.or_eq_true]
  cases hdone : s.isHandedOver id with
  | true => exact Or.inl rfl
  | false =>
      have hmem : id ∈ (marks.map (·.lineId)).toFinset := by
        rw [hset, unmarked, Finset.mem_filter]
        exact ⟨List.mem_toFinset.mpr hid, hdone⟩
      obtain ⟨m, hm, hline⟩ := List.mem_map.mp (List.mem_toFinset.mp hmem)
      exact Or.inr (List.any_eq_true.mpr ⟨m, hm, beq_iff_eq.mpr hline⟩)

/-- Lines that all have a mark are not marked again, whatever ids are drawn. -/
theorem yields_markEach_done (now : Time.Instant) (ids : Nat → String) (n : Nat)
    (hdone : ∀ id ∈ lineIds, s.isHandedOver id = true) :
    (markEach now ids n lineIds : Work ε Nat).Yields s 0 s := by
  induction lineIds generalizing n with
  | nil => exact yields_pure.mpr ⟨rfl, rfl⟩
  | cons lineId rest ih =>
      obtain ⟨hfirst, hrest⟩ := List.forall_mem_cons.mp hdone
      have hmark : (mark ⟨ids n, lineId, now⟩ : Work ε Bool).Yields s false s := by
        simp only [mark, yields_bind, yields_get]
        refine ⟨s, s, ⟨rfl, rfl⟩, ?_⟩
        rw [if_pos]
        · exact yields_pure.mpr ⟨rfl, rfl⟩
        · obtain ⟨other, hother, hline⟩ := List.any_eq_true.mp hfirst
          exact List.any_eq_true.mpr ⟨other, hother, by simp [beq_iff_eq.mp hline]⟩
      simp only [markEach, yields_bind, yields_pure]
      exact ⟨false, s, hmark, 0, s, ih (n + 1) hrest, rfl, rfl⟩

theorem yields_handOver_done (now : Time.Instant) (ids : Nat → String)
    (hstored : ∀ id ∈ lineIds, s.hasLine id = true)
    (hdone : ∀ id ∈ lineIds, s.isHandedOver id = true) :
    (handOver now ids lineIds).Yields s 0 s := by
  simp only [handOver, yields_bind, yields_get]
  refine ⟨s, s, ⟨rfl, rfl⟩, ?_⟩
  rw [find?_hasLine_eq_none.mpr hstored]
  exact yields_markEach_done now ids 0 fun id hid => hdone id (mem_distinctSorted.mp hid)

/-- What is told is the least of the ids that are no lines. -/
theorem fails_handOver_least {now : Time.Instant} {missing : String} (hmem : missing ∈ lineIds)
    (hunknown : s.hasLine missing = false)
    (hleast : ∀ id ∈ lineIds, s.hasLine id = false → ¬ id < missing) :
    (handOver now ids lineIds).Fails s (.error (.notFound "Order line" missing)) := by
  apply fails_handOver
  have hsorted := distinctSorted_pairwise lineIds
  obtain ⟨before, after, hsplit⟩ := List.append_of_mem (mem_distinctSorted.mpr hmem)
  rw [hsplit] at hsorted ⊢
  rw [List.find?_eq_some_iff_append]
  refine ⟨by simp [hunknown], before, after, rfl, fun id hid => ?_⟩
  have hlt : id < missing := (List.pairwise_append.mp hsorted).2.2 id hid missing List.mem_cons_self
  have hgiven : id ∈ lineIds := by
    rw [← mem_distinctSorted, hsplit]
    exact List.mem_append_left _ hid
  by_contra hstored
  exact hleast id hgiven (by simpa using hstored) hlt

end OrderLedger.Store
