import OrderLedger.Proofs.Deeds.Locality
import OrderLedger.Proofs.Stock.Readable

/-!
Independent operations commute. Since the stock of a product is a sum over the ledger and no row
of its own, operations on different orders do not meet: each of a list of them does the deed
that it would do alone, and what the deeds come to does not depend on their order.
-/

namespace OrderLedger

namespace Shop

/-- Performs operations one after another. Gives their answers and the shop after the last. -/
def performAll : List (Call × Operation) → Shop → List Answer × Shop
  | [], shop => ([], shop)
  | (call, operation) :: rest, shop =>
      ((shop.perform call operation).1 :: (performAll rest (shop.perform call operation).2).1,
        (performAll rest (shop.perform call operation).2).2)

/-- For each of the operations, the error or the number that it was answered, and the status in
the end of the order under the first id of its call. -/
def outcomes (steps : List (Call × Operation)) (shop : Shop) :
    List (Operation × Except (Fault ShopError) (Option Nat) × Option Status) :=
  (steps.zip (shop.performAll steps).1).map fun ((call, operation), answer) =>
    (operation, answer.map Reply.number?,
      (shop.performAll steps).2.store.statusOf (call.ids 0))

end Shop

/-- Plain operations that touch different orders. The entries that they append are distinct and
new, and the ledger has room for all that they change. -/
structure Independent (settings : Settings) (s : Store) (operations : List Operation) : Prop where
  plain : ∀ operation ∈ operations, operation.isPlain settings = true
  apart : operations.Pairwise fun a b => ∀ id ∈ a.orders s, id ∉ b.orders s
  distinct : (operations.flatMap (·.entryIds)).Nodup
  unused : ∀ id ∈ operations.flatMap (·.entryIds), id ∉ s.entryIds
  volume : Tally.volume
    (s.changes ++ operations.flatMap fun operation => (operation.deed settings s).changes) < 2 ^ 63

/-- The ids that the calls draw are new: no row has one, no two calls draw the same, and no
operation names one. -/
structure Fresh (s : Store) (steps : List (Call × Operation)) : Prop where
  new : ∀ step ∈ steps, step.1.IsNew s
  apart : steps.Pairwise fun a b => ∀ m n, a.1.ids m ≠ b.1.ids n
  unnamed : ∀ step ∈ steps, ∀ other ∈ steps, ∀ n, step.1.ids n ∉ other.2.names

/-- What calls do that do deeds one after another. -/
structure Deed.TellAll (deeds : List (Call × Deed)) (s : Store) (answers : List Answer)
    (t : Store) : Prop where
  verdicts : answers.map (Except.map Reply.number?) = deeds.map (·.2.verdict)
  placed : ∀ done ∈ deeds,
    t.statusOf (done.1.ids 0) = if done.2.places then some .pending else none
  moved : ∀ done ∈ deeds, ∀ id target, done.2.move = some (id, target) → t.statusOf id = target
  kept : ∀ id, (∀ done ∈ deeds, id ≠ done.1.ids 0 ∧ ∀ target, done.2.move ≠ some (id, target)) →
    t.statusOf id = s.statusOf id
  terms : t.terms = s.terms ++ deeds.flatMap (·.2.paid)
  handedOver : t.handedOver = s.handedOver ++ deeds.flatMap (·.2.handedOver)
  changes : t.changes = s.changes ++ deeds.flatMap (·.2.changes)

variable {settings : Settings} {turns : List Turn} {shop : Shop} {s t : Store} {call : Call}
  {operation : Operation} {rest steps again : List (Call × Operation)} {answer : Answer}

/-- The deeds of operations on the store before the first of them. -/
def deedsOf (settings : Settings) (s : Store) (steps : List (Call × Operation)) :
    List (Call × Deed) :=
  steps.map fun step => (step.1, step.2.deed settings s)

/-! ## After the first of several operations -/

section First

variable (htells : (operation.deed settings s).Tells call operation.entryIds s answer t)

include htells

/-- Calls whose ids are new stay so after another call. -/
theorem Fresh.after (h : Fresh s ((call, operation) :: rest)) : Fresh t rest := by
  obtain ⟨hfirst, hapart⟩ := List.pairwise_cons.mp h.apart
  refine ⟨fun step hstep => ?_, hapart, fun step hstep other hother =>
    h.unnamed step (List.mem_cons_of_mem _ hstep) other (List.mem_cons_of_mem _ hother)⟩
  have hnew := h.new step (List.mem_cons_of_mem _ hstep)
  have hdrawn (n : Nat) : ¬ ∃ m, step.1.ids n = call.ids m := by
    rintro ⟨m, heq⟩
    exact hfirst step hstep m n heq.symm
  refine ⟨hnew.distinct, fun n hid => ?_, fun n hid => ?_⟩
  · rcases htells.ids _ hid with hid | hid
    · exact hnew.unused n hid
    · exact hdrawn n hid
  · rcases htells.entryIds _ hid with hid | hid | hid
    · exact hnew.unusedEntry n hid
    · exact h.unnamed step (List.mem_cons_of_mem _ hstep) _ List.mem_cons_self n
        (operation.entryIds_subset hid)
    · exact hdrawn n hid

variable (hs : s.Intact) (hfresh : Fresh s ((call, operation) :: rest))
  (hind : Independent settings s (operation :: rest.map (·.2)))

include hs hfresh hind

/-- The others have the deeds that they had before. -/
theorem deed_after {step : Call × Operation} (hstep : step ∈ rest) :
    step.2.deed settings t = step.2.deed settings s := by
  have hnew := hfresh.new _ List.mem_cons_self
  have hunnamed := hfresh.unnamed _ List.mem_cons_self step (List.mem_cons_of_mem _ hstep)
  have hapart := (List.pairwise_cons.mp hind.apart).1 step.2 (List.mem_map_of_mem hstep)
  exact Operation.deed_eq htells hs hnew hapart hunnamed

theorem Independent.after : Independent settings t (rest.map (·.2)) := by
  have hunnamed {step : Call × Operation} (hstep : step ∈ rest) :=
    hfresh.unnamed _ List.mem_cons_self step (List.mem_cons_of_mem _ hstep)
  have hsubset {other : Operation} (hother : other ∈ rest.map (·.2)) :
      other.orders t ⊆ other.orders s := by
    obtain ⟨step, hstep, rfl⟩ := List.mem_map.mp hother
    exact Operation.orders_subset htells (hunnamed hstep)
  obtain ⟨-, hapart⟩ := List.pairwise_cons.mp hind.apart
  have hdistinct := hind.distinct
  rw [List.flatMap_cons, List.nodup_append] at hdistinct
  refine ⟨fun other hother => hind.plain other (List.mem_cons_of_mem _ hother), ?_,
    hdistinct.2.1, fun id hid hstored => ?_, ?_⟩
  · refine hapart.imp_of_mem fun ha hb h id hid hother => ?_
    exact h id (hsubset ha hid) (hsubset hb hother)
  · rcases htells.entryIds id hstored with hstored | hfirst | ⟨n, rfl⟩
    · exact hind.unused id (List.mem_flatMap.mpr
        (List.mem_flatMap.mp hid |>.imp fun other h => ⟨List.mem_cons_of_mem _ h.1, h.2⟩)) hstored
    · exact hdistinct.2.2 id hfirst id hid rfl
    · obtain ⟨other, hother, hnamed⟩ := List.mem_flatMap.mp hid
      obtain ⟨step, hstep, rfl⟩ := List.mem_map.mp hother
      exact hunnamed hstep n (step.2.entryIds_subset hnamed)
  · have hvolume := hind.volume
    rw [List.flatMap_cons, ← List.append_assoc, ← htells.changes] at hvolume
    rwa [List.flatMap_congr fun other hother => ?_]
    obtain ⟨step, hstep, rfl⟩ := List.mem_map.mp hother
    rw [deed_after htells hs hfresh hind hstep]

theorem deedsOf_after : deedsOf settings t rest = deedsOf settings s rest :=
  List.map_congr_left fun _ hstep => by rw [deed_after htells hs hfresh hind hstep]

omit hs in
/-- The others do not touch the order that the first one places or moves. -/
theorem Deed.TellAll.cons {answers : List Answer} {u : Store}
    (hrest : TellAll (deedsOf settings s rest) t answers u) :
    TellAll (deedsOf settings s ((call, operation) :: rest)) s (answer :: answers) u := by
  have hlater {done : Call × Deed} (hdone : done ∈ deedsOf settings s rest) :
      ∃ step ∈ rest, done = (step.1, step.2.deed settings s) := by
    obtain ⟨step, hstep, rfl⟩ := List.mem_map.mp hdone
    exact ⟨step, hstep, rfl⟩
  have hnew := hfresh.new _ List.mem_cons_self
  have hdrawn := (List.pairwise_cons.mp hfresh.apart).1
  have hunnamed := hfresh.unnamed (call, operation) List.mem_cons_self
  refine ⟨?_, ?_, ?_, fun id hid => ?_, ?_, ?_, ?_⟩
  · rw [List.map_cons, htells.verdict, hrest.verdicts]
    rfl
  · refine List.forall_mem_cons.mpr ⟨?_, hrest.placed⟩
    rw [hrest.kept (call.ids 0)]
    · split
      · next hplaces => exact htells.placed hplaces
      · next hplaces =>
          have hkept := htells.kept (call.ids 0)
            (fun target hmove => hunnamed _ List.mem_cons_self 0 (Operation.move_deed hmove).1)
            fun htrue => absurd htrue hplaces
          rw [hkept.1, Store.statusOf_eq_none]
          exact hnew.isFresh.orders 0
    · intro done hdone
      obtain ⟨step, hstep, rfl⟩ := hlater hdone
      refine ⟨hdrawn step hstep 0 0, fun target hmove => ?_⟩
      exact hunnamed step (List.mem_cons_of_mem _ hstep) 0 (Operation.move_deed hmove).1
  · refine List.forall_mem_cons.mpr ⟨fun id target hmove => ?_, hrest.moved⟩
    obtain ⟨hnamed, horder⟩ := Operation.move_deed hmove
    rw [hrest.kept id, htells.moved id target hmove]
    intro done hdone
    obtain ⟨step, hstep, rfl⟩ := hlater hdone
    constructor
    · rintro rfl
      exact hfresh.unnamed step (List.mem_cons_of_mem _ hstep) _ List.mem_cons_self 0 hnamed
    · intro target' hmoves
      exact (List.pairwise_cons.mp hind.apart).1 step.2 (List.mem_map_of_mem hstep) id horder
        (Operation.move_deed hmoves).2
  · obtain ⟨⟨hid, hstays⟩, hothers⟩ := List.forall_mem_cons.mp hid
    rw [hrest.kept id hothers, (htells.kept id hstays fun _ => hid).1]
  · rw [hrest.terms, htells.terms, List.append_assoc]
    rfl
  · rw [hrest.handedOver, htells.handedOver, List.append_assoc]
    rfl
  · rw [hrest.changes, htells.changes, List.append_assoc]
    rfl

end First

/-! ## All of them -/

/-- Independent operations do the deeds that each of them would do alone. -/
theorem Run.performAll_tells (hrun : Run settings turns shop)
    (hind : Independent settings shop.store (steps.map (·.2))) (hfresh : Fresh shop.store steps) :
    Deed.TellAll (deedsOf settings shop.store steps) shop.store (shop.performAll steps).1
      (shop.performAll steps).2.store ∧
    ∃ more, Run settings more (shop.performAll steps).2 := by
  induction steps generalizing turns shop with
  | nil =>
      refine ⟨⟨rfl, List.forall_mem_nil _, List.forall_mem_nil _, fun _ _ => rfl, ?_, ?_, ?_⟩,
        turns, hrun⟩
      all_goals exact (List.append_nil _).symm
  | cons step rest ih =>
      obtain ⟨call, operation⟩ := step
      rw [List.map_cons] at hind
      have hvolume := hind.volume
      rw [List.flatMap_cons, ← List.append_assoc, Tally.volume_append] at hvolume
      have hdistinct := hind.distinct
      rw [List.flatMap_cons, List.nodup_append] at hdistinct
      have htells := Operation.tells hrun (hind.plain operation List.mem_cons_self)
        (hfresh.new _ List.mem_cons_self) hdistinct.1
        (fun id hid => hind.unused id (List.mem_append_left _ hid))
        (lt_of_le_of_lt (Nat.le_add_right _ _) hvolume)
      have hnext := hrun.act call (.operate operation)
      obtain ⟨hrest, hlast⟩ := ih hnext (Independent.after htells hrun.intact hfresh hind)
        (Fresh.after htells hfresh)
      refine ⟨?_, hlast⟩
      have hdeeds := deedsOf_after htells hrun.intact hfresh hind
      exact Deed.TellAll.cons htells hfresh hind (hdeeds ▸ hrest)

/-- Operations stay independent in any order. -/
theorem Independent.perm {operations more : List Operation}
    (h : Independent settings s operations) (hperm : more.Perm operations) :
    Independent settings s more where
  plain operation hoperation := h.plain operation (hperm.mem_iff.mp hoperation)
  apart := (hperm.pairwise_iff fun hab id hb ha => hab id ha hb).mpr h.apart
  distinct := (hperm.flatMap_right _).nodup_iff.mpr h.distinct
  unused id hid := h.unused id ((hperm.flatMap_right _).mem_iff.mp hid)
  volume := by
    rw [Tally.volume_perm ((hperm.flatMap_right _).append_left s.changes)]
    exact h.volume

/-- What the deeds add to a table, read off the operations. -/
theorem flatMap_deedsOf {α : Type} (f : Deed → List α) (steps : List (Call × Operation)) :
    ((deedsOf settings s steps).flatMap fun done => f done.2) =
      (steps.map (·.2)).flatMap fun operation => f (operation.deed settings s) := by
  rw [deedsOf, List.flatMap_map, List.flatMap_map]

namespace Deed.TellAll

/-- The outcome of an operation is told by its deed. -/
theorem outcomes_eq (h : TellAll (deedsOf settings shop.store steps) shop.store
      (shop.performAll steps).1 (shop.performAll steps).2.store) :
    shop.outcomes steps = (steps.map (·.2)).map fun operation =>
      (operation, (operation.deed settings shop.store).verdict,
        if (operation.deed settings shop.store).places then some .pending else none) := by
  have hverdicts := h.verdicts
  rw [deedsOf, List.map_map] at hverdicts
  have hzip : ((steps.zip (shop.performAll steps).1).map fun (step, answer) =>
        (step, answer.map Reply.number?)) =
      steps.map fun step => (step, (step.2.deed settings shop.store).verdict) := by
    change (steps.zip _).map (Prod.map id (Except.map Reply.number?)) = _
    rw [← List.zip_map_right, hverdicts]
    nth_rewrite 1 [← List.map_id steps]
    exact List.zip_map'
  have houtcomes : shop.outcomes steps =
      ((steps.zip (shop.performAll steps).1).map fun (step, answer) =>
        (step, answer.map Reply.number?)).map fun (step, verdict) =>
          (step.2, verdict, (shop.performAll steps).2.store.statusOf (step.1.ids 0)) := by
    rw [List.map_map]
    rfl
  rw [houtcomes, hzip, List.map_map, List.map_map]
  refine List.map_congr_left fun step hstep => ?_
  have hplaced := h.placed _ (List.mem_map_of_mem hstep)
  simp only [Function.comp_apply, hplaced]

/-- In whatever order the same deeds are done, they leave the same statuses. -/
theorem statusOf_eq {answers answers' : List Answer} {u : Store}
    (h : TellAll (deedsOf settings s steps) s answers t)
    (h' : TellAll (deedsOf settings s again) s answers' u)
    (hperm : (again.map (·.2)).Perm (steps.map (·.2))) {id : String}
    (hid : ∀ step ∈ steps ++ again, id ≠ step.1.ids 0) : u.statusOf id = t.statusOf id := by
  by_cases hmoved : ∃ operation ∈ steps.map (·.2), ∃ target,
      (operation.deed settings s).move = some (id, target)
  · obtain ⟨operation, hmem, target, hmove⟩ := hmoved
    obtain ⟨step, hstep, rfl⟩ := List.mem_map.mp hmem
    obtain ⟨other, hother, hsame⟩ := List.mem_map.mp (hperm.mem_iff.mpr hmem)
    rw [h.moved _ (List.mem_map_of_mem hstep) id target hmove,
      h'.moved _ (List.mem_map_of_mem hother) id target (hsame ▸ hmove)]
  · have hstays {operation : Operation} (hmem : operation ∈ steps.map (·.2))
        (target : Option Status) : (operation.deed settings s).move ≠ some (id, target) :=
      fun hmove => hmoved ⟨operation, hmem, target, hmove⟩
    rw [h.kept id, h'.kept id]
    · intro done hdone
      obtain ⟨step, hstep, rfl⟩ := List.mem_map.mp hdone
      refine ⟨hid step (List.mem_append_right _ hstep), hstays ?_⟩
      exact hperm.mem_iff.mp (List.mem_map_of_mem hstep)
    · intro done hdone
      obtain ⟨step, hstep, rfl⟩ := List.mem_map.mp hdone
      exact ⟨hid step (List.mem_append_left _ hstep), hstays (List.mem_map_of_mem hstep)⟩

end Deed.TellAll

namespace Store

/-- The payments of an order, apart from their ids and times. -/
theorem terms_paymentsOf (s : Store) (orderId : String) :
    ((s.paymentsOf orderId).map (·.terms)).Perm
      (s.terms.filter fun terms => terms.orderId == orderId) := by
  have hsorted := (chronological_perm (·.paidAt)
    (s.payments.filter fun p => p.orderId == orderId)).map (·.terms)
  rwa [terms, List.filter_map]

theorem sum_deltasOf_perm (h : t.changes.Perm s.changes) (productId : String) :
    (StockEntry.deltasOf t.entries productId).sum =
      (StockEntry.deltasOf s.entries productId).sum := by
  rw [← StockEntry.amountsOf_changes, ← StockEntry.amountsOf_changes]
  exact ((h.filter _).map _).sum_eq

end Store

/-- Independent operations commute. However a list of them is ordered, and whichever fresh ids
and times their calls draw, each succeeds or fails as in any other order, and the orders have the
same statuses and payments in the end, the same lines are handed over and every product has the
same stock. -/
theorem Run.independent_operations_commute (hrun : Run settings turns shop)
    (hind : Independent settings shop.store (steps.map (·.2)))
    (hperm : (again.map (·.2)).Perm (steps.map (·.2)))
    (hfresh : Fresh shop.store steps) (hagain : Fresh shop.store again) :
    let first := (shop.performAll steps).2.store
    let second := (shop.performAll again).2.store
    (shop.outcomes again).Perm (shop.outcomes steps) ∧
      (∀ id, (∀ step ∈ steps ++ again, id ≠ step.1.ids 0) →
        second.statusOf id = first.statusOf id) ∧
      (∀ id, ((second.paymentsOf id).map (·.terms)).Perm
        ((first.paymentsOf id).map (·.terms))) ∧
      second.handedOver.Perm first.handedOver ∧
      ∀ productId, ∃ stock, first.stockOf productId = .ok stock ∧
        second.stockOf productId = .ok stock := by
  intro first second
  obtain ⟨htells, turns', hfirst⟩ := hrun.performAll_tells hind hfresh
  obtain ⟨htells', turns'', hsecond⟩ := hrun.performAll_tells (hind.perm hperm) hagain
  have hadded {α : Type} (f : Deed → List α) :
      ((deedsOf settings shop.store again).flatMap fun done => f done.2).Perm
        ((deedsOf settings shop.store steps).flatMap fun done => f done.2) := by
    rw [flatMap_deedsOf, flatMap_deedsOf]
    exact hperm.flatMap_right _
  have hterms : second.terms.Perm first.terms := by
    rw [htells.terms, htells'.terms]
    exact (hadded _).append_left _
  refine ⟨?_, fun id hid => htells.statusOf_eq htells' hperm hid, fun id => ?_, ?_,
    fun productId => ?_⟩
  · rw [htells.outcomes_eq, htells'.outcomes_eq]
    exact hperm.map _
  · exact (second.terms_paymentsOf id).trans
      ((hterms.filter _).trans (first.terms_paymentsOf id).symm)
  · rw [htells.handedOver, htells'.handedOver]
    exact (hadded _).append_left _
  · have hchanges : second.changes.Perm first.changes := by
      rw [htells.changes, htells'.changes]
      exact (hadded _).append_left _
    refine ⟨_, hfirst.readable.stockOf_eq productId, ?_⟩
    rw [hsecond.readable.stockOf_eq productId, Store.sum_deltasOf_perm hchanges productId]

/-! ## A morning in two orders -/

namespace Fresh

/-- Calls of a day with letters of their own are fresh where nothing begins with one of the
letters. -/
theorem on (day : Int) (letters used : List Char)
    (hcalls : steps.map (·.1) = letters.map (Call.on day))
    (hused : (s.ids ++ s.entryIds ++ steps.flatMap (·.2.names)).all
      fun id => id.toList.head?.all used.contains)
    (hletters : (letters ++ used).Nodup) : Fresh s steps := by
  obtain ⟨hletters, -, hapart⟩ := List.nodup_append.mp hletters
  rw [List.all_eq_true] at hused
  have hletter {step : Call × Operation} (hstep : step ∈ steps) :
      ∃ letter ∈ letters, step.1 = Call.on day letter := by
    have hmem : step.1 ∈ steps.map (·.1) := List.mem_map_of_mem hstep
    rw [hcalls] at hmem
    obtain ⟨letter, hletter, heq⟩ := List.mem_map.mp hmem
    exact ⟨letter, hletter, heq.symm⟩
  have hunused {step : Call × Operation} (hstep : step ∈ steps) (n : Nat) :
      step.1.ids n ∉ s.ids ++ s.entryIds ++ steps.flatMap (·.2.names) := by
    obtain ⟨letter, hmem, heq⟩ := hletter hstep
    intro hid
    have hfirst := hused _ hid
    rw [heq] at hfirst
    have hboth : letter ∈ used := by simpa [Call.on] using hfirst
    exact hapart letter hmem letter hboth rfl
  simp only [List.mem_append, not_or] at hunused
  refine ⟨fun step hstep => ⟨?_, fun n => (hunused hstep n).1.1, fun n => (hunused hstep n).1.2⟩,
    ?_, fun step hstep other hother n hnamed => ?_⟩
  · obtain ⟨letter, -, heq⟩ := hletter hstep
    rw [heq]
    exact Call.ids_on_injective day letter
  · rw [← List.pairwise_map (f := Prod.fst) (R := fun a b : Call => ∀ m n, a.ids m ≠ b.ids n)]
    change (steps.map (·.1)).Pairwise _
    rw [hcalls, List.pairwise_map]
    exact hletters.imp fun hne => Call.ids_on_ne hne day day
  · exact (hunused hstep n).2 (List.mem_flatMap.mpr ⟨other, hother, hnamed⟩)

end Fresh

namespace Run

/-- Soup is ordered three times, and one of the orders is paid. -/
def morning : List (Call × Action) :=
  let soup : Operation := .place ⟨some "c-7", none, .pos, none, [⟨"soup", 2, []⟩]⟩
  [(Call.on 20000 'a',
      .addProduct ⟨"soup", "Soup", .simple, ⟨850⟩, true, ⟨20000, 0, 0⟩, ⟨20000, 0, 0⟩⟩),
   (Call.on 20000 'b', .operate soup), (Call.on 20000 'c', .operate soup),
   (Call.on 20000 'd', .operate soup),
   (Call.on 20000 'e', .operate (.pay "d" [⟨.cash, ⟨1700⟩⟩] none))]

/-- One order is cancelled, one is paid and one is handed over; soup is ordered again, and some is
counted. A refund of an order that is not there fails. -/
def noon : List (Call × Operation) :=
  [(Call.on 20000 'f', .cancel "b"), (Call.on 20000 'g', .pay "c" [⟨.card, ⟨1700⟩⟩] none),
   (Call.on 20000 'h', .handOverLines ["d."]), (Call.on 20000 'i', .refund "z"),
   (Call.on 20000 'j', .place ⟨some "c-8", none, .pos, none, [⟨"soup", 1, []⟩]⟩),
   (Call.on 20000 'k', .append
      [⟨"x", "soup", 40, .openingBalance, .unknown, ⟨20000, 0, 0⟩⟩]),
   (Call.on 20000 'l', .enter "soup" (-1) .manualAdjust "till-1")]

/-- The same the other way round, by calls of their own. -/
def noonBackwards : List (Call × Operation) :=
  (noon.map (·.2)).reverse.zipWith (fun operation letter => (Call.on 20000 letter, operation))
    ['p', 'q', 'r', 's', 't', 'u', 'v']

theorem stock_of_noonBackwards :
    ((play Settings.standard morning).2.outcomes noonBackwards).Perm
        ((play Settings.standard morning).2.outcomes noon) ∧
      ((play Settings.standard morning).2.performAll noonBackwards).2.store.stockOf "soup" =
        .ok 34 := by
  have hind : Independent Settings.standard (play Settings.standard morning).2.store
      (noon.map (·.2)) :=
    ⟨by decide +kernel, by decide +kernel, by decide +kernel, by decide +kernel, by decide +kernel⟩
  have hfresh : Fresh (play Settings.standard morning).2.store noon :=
    .on 20000 ['f', 'g', 'h', 'i', 'j', 'k', 'l'] ['b', 'c', 'd', 'e', 'x', 'z'] rfl
      (by decide +kernel) (by decide)
  have hagain : Fresh (play Settings.standard morning).2.store noonBackwards :=
    .on 20000 ['p', 'q', 'r', 's', 't', 'u', 'v'] ['b', 'c', 'd', 'e', 'x', 'z'] rfl
      (by decide +kernel) (by decide)
  have hback : noonBackwards.map (·.2) = (noon.map (·.2)).reverse := rfl
  have hperm : (noonBackwards.map (·.2)).Perm (noon.map (·.2)) := hback ▸ List.reverse_perm _
  obtain ⟨houtcomes, -, -, -, hstock⟩ := independent_operations_commute
    (run_play Settings.standard morning) hind hperm hfresh hagain
  obtain ⟨stock, hfirst, hsecond⟩ := hstock "soup"
  have hsum : ((play Settings.standard morning).2.performAll noon).2.store.stockOf "soup" =
      .ok 34 := by decide +kernel
  rw [hsum] at hfirst
  exact ⟨houtcomes, hfirst ▸ hsecond⟩

end Run

end OrderLedger
