import Mathlib.Data.List.Induction
import OrderLedger.Proofs.Run.Actions

/-!
Runs of a shop from its opening with an empty store. A run is the list of its turns, each
with its call, its action and the shop before it, and the shop that they lead to.
-/

namespace OrderLedger

/-- Whether a caller appends entries of its own making. -/
def Action.isBatch : Action → Bool
  | .operate (.append _) => true
  | _ => false

structure Turn where
  call : Call
  action : Action
  before : Shop

namespace Turn

def answer (turn : Turn) : Answer := (turn.before.act turn.call turn.action).1

def after (turn : Turn) : Shop := (turn.before.act turn.call turn.action).2

/-- The entries that the caller has committed by hand. -/
def entered (turn : Turn) : List StockEntry :=
  turn.action.entered turn.before.settings turn.call turn.answer

/-- The entries that the ledger has gained, unless they are the caller's own. -/
def ownEntries (turn : Turn) : List StockEntry :=
  if turn.action.isBatch then []
  else turn.after.store.entries.drop turn.before.store.entries.length

end Turn

inductive Run (settings : Settings) : List Turn → Shop → Prop where
  | opened : Run settings [] (Shop.opened settings)
  | act {turns : List Turn} {shop : Shop} (call : Call) (action : Action)
      (hrun : Run settings turns shop) :
      Run settings (turns ++ [⟨call, action, shop⟩]) (shop.act call action).2

/-- No two calls have an id in common. -/
def FreshIds (turns : List Turn) : Prop :=
  turns.Pairwise fun a b => ∀ m n, a.call.ids m ≠ b.call.ids n

namespace Run

variable {settings : Settings} {turns : List Turn} {shop : Shop}

theorem settings_eq (hrun : Run settings turns shop) : shop.settings = settings := by
  induction hrun with
  | opened => rfl
  | act call action _ ih => rw [(Shop.act_effect call action _).1, ih]

/-- The last action of a run has its effect under the settings of the run. -/
theorem effect (hrun : Run settings turns shop) (call : Call) (action : Action) :
    Shop.Effect settings call shop.store action (shop.act call action).1
      (shop.act call action).2.store := by
  rw [← hrun.settings_eq]
  exact (Shop.act_effect call action shop).2

/-- What the empty store has and every effect keeps holds after every run. -/
theorem invariant {property : Store → Prop} (hempty : property Store.empty)
    (hkeep : ∀ call s action answer t, property s →
      Shop.Effect settings call s action answer t → property t)
    (hrun : Run settings turns shop) : property shop.store := by
  induction hrun with
  | opened => exact hempty
  | act call action hrun ih => exact hkeep _ _ _ _ _ ih (hrun.effect call action)

/-- The turns before a turn are a run to the shop from which it starts. -/
theorem before_of_append (hrun : Run settings turns shop) {earlier later : List Turn}
    {turn : Turn} (h : turns = earlier ++ turn :: later) : Run settings earlier turn.before := by
  induction hrun generalizing later with
  | opened => simp at h
  | act call action hrun ih =>
      rcases List.eq_nil_or_concat later with rfl | ⟨later, last, rfl⟩
      · obtain ⟨rfl, hturn⟩ := List.append_inj' h rfl
        cases hturn
        exact hrun
      · rw [List.concat_eq_append, ← List.cons_append, ← List.append_assoc] at h
        exact ih (List.append_inj' h rfl).1

/-- Every turn starts from a shop that a shorter run leads to. -/
theorem before (hrun : Run settings turns shop) {turn : Turn} (hturn : turn ∈ turns) :
    ∃ earlier, Run settings earlier turn.before := by
  obtain ⟨earlier, later, hsplit⟩ := List.append_of_mem hturn
  exact ⟨earlier, hrun.before_of_append hsplit⟩

/-- The run of given calls with their actions, one after another. -/
def play (settings : Settings) (steps : List (Call × Action)) : List Turn × Shop :=
  steps.foldl
    (fun (turns, shop) (call, action) =>
      (turns ++ [⟨call, action, shop⟩], (shop.act call action).2))
    ([], Shop.opened settings)

theorem play_append (settings : Settings) (steps : List (Call × Action)) (call : Call)
    (action : Action) :
    play settings (steps ++ [(call, action)]) =
      ((play settings steps).1 ++ [⟨call, action, (play settings steps).2⟩],
       ((play settings steps).2.act call action).2) := by
  rw [play, List.foldl_append]
  rfl

theorem run_play (settings : Settings) (steps : List (Call × Action)) :
    Run settings (play settings steps).1 (play settings steps).2 := by
  induction steps using List.reverseRecOn with
  | nil => exact .opened
  | append_singleton steps step ih =>
      rw [play_append]
      exact ih.act step.1 step.2

theorem steps_play (settings : Settings) (steps : List (Call × Action)) :
    (play settings steps).1.map (fun turn => (turn.call, turn.action)) = steps := by
  induction steps using List.reverseRecOn with
  | nil => rfl
  | append_singleton steps step ih => rw [play_append, List.map_append, ih, List.map_singleton]

theorem freshIds_play (settings : Settings) {steps : List (Call × Action)}
    (h : steps.Pairwise fun a b => ∀ m n, a.1.ids m ≠ b.1.ids n) :
    FreshIds (play settings steps).1 := by
  rw [← steps_play settings steps, List.pairwise_map] at h
  exact h

end Run

/-- A call at the start of a day, with ids that begin with a letter of its own. -/
def Call.on (day : Int) (letter : Char) : Call :=
  ⟨⟨day, 0, 0⟩, ⟨day, 0, 0⟩, ⟨day, 0, 0⟩, fun n => String.ofList (letter :: List.replicate n '.')⟩

theorem Call.ids_on_ne {a b : Char} (h : a ≠ b) (day later : Int) (m n : Nat) :
    (Call.on day a).ids m ≠ (Call.on later b).ids n := by
  intro heq
  have hchars := String.ofList_injective heq
  exact h (List.cons.inj hchars).1

theorem Call.ids_on_injective (day : Int) (letter : Char) :
    Function.Injective (Call.on day letter).ids := by
  intro m n h
  simpa using congrArg List.length (String.ofList_injective h)

/-- Calls at the start of a day with different letters have no id in common. -/
theorem Run.freshIds_on (settings : Settings) {steps : List (Call × Action)} {day : Int}
    {letters : List Char} (hcalls : steps.map (·.1) = letters.map (Call.on day))
    (hletters : letters.Nodup) : FreshIds (Run.play settings steps).1 := by
  have hfresh : (steps.map (·.1)).Pairwise fun a b => ∀ m n, a.ids m ≠ b.ids n := by
    rw [hcalls, List.pairwise_map]
    exact hletters.imp fun hne => Call.ids_on_ne hne day day
  exact Run.freshIds_play settings (List.pairwise_map.mp hfresh)

/-- The ids of a call at the start of a day are new where no row has an id that begins with
their letter. -/
theorem Call.isFresh_on {s : Store} {day : Int} {letter : Char}
    (horders : ∀ o ∈ s.orders, o.id.toList.head? ≠ some letter)
    (hlines : ∀ l ∈ s.lines, l.id.toList.head? ≠ some letter)
    (hpayments : ∀ p ∈ s.payments, p.id.toList.head? ≠ some letter)
    (hentries : ∀ e ∈ s.entries, e.id.toList.head? ≠ some letter) :
    (Call.on day letter).IsFresh s := by
  have hfirst (n : Nat) : ((Call.on day letter).ids n).toList.head? = some letter := by
    simp [Call.on]
  refine ⟨ids_on_injective day letter, fun n => ?_, fun n => ?_, fun n p hp hid => ?_,
    fun n e he hid => ?_⟩
  · refine Store.hasOrder_eq_false.mpr fun o ho hid => horders o ho ?_
    rw [hid, hfirst]
  · refine Store.hasLine_eq_false.mpr fun hmem => ?_
    obtain ⟨l, hl, hid⟩ := List.mem_map.mp hmem
    refine hlines l hl ?_
    rw [hid, hfirst]
  · refine hpayments p hp ?_
    rw [hid, hfirst]
  · refine hentries e he ?_
    rw [hid, hfirst]

end OrderLedger
