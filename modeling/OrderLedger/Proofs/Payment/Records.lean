import OrderLedger.Proofs.Remembered.Claims
import OrderLedger.Proofs.Run.Values

/-!
The answers that payments leave under their keys. A key is claimed with an empty payload
and gets the receipt in the same transaction, so every record that a run leaves behind is
that of a payment and gives back its receipt.
-/

namespace OrderLedger

open Remembered

/-- The action of a turn was a payment that has claimed the key of a record for its
receipt. -/
structure Turn.Keeps (turn : Turn) (r : Remembered) (receipt : PaymentReceipt) : Prop where
  action : ∃ id tenders, turn.action = .operate (.pay id tenders (some r.key))
  answer : turn.answer = (Shop.report ⟨receipt, false⟩).map .paid
  free : turn.before.store.live? payingScope r.key turn.call.now = none
  kept : turn.after.store.remembered? payingScope r.key = some r
  payload : r.payload = payloadOf receipt

namespace Run

variable {settings : Settings} {turns : List Turn} {shop : Shop}

/-- Every record of a payment was left by a turn of the run, under a valid key, and its
receipt survives the wire. -/
theorem keeps (hrun : Run settings turns shop) (hranged : Ranged turns) :
    ∀ r ∈ shop.store.remembered, r.scope = payingScope →
      Shop.checkKey (some r.key) = .ok () ∧
      ∃ turn ∈ turns, ∃ receipt, turn.Keeps r receipt ∧ Wire.Survives receipt := by
  induction hrun with
  | opened =>
      intro r hr
      cases hr
  | act call action hrun ih =>
      have hbefore : Ranged _ := fun turn hturn => hranged turn (List.mem_append_left _ hturn)
      intro r hr hscope
      rcases (hrun.effect call action).mem_remembered hr with
        hold | ⟨hplacing, -⟩ | ⟨-, id, tenders, receipt, rfl, hanswer, hkey, hpaid, hpayload, hfree⟩
      · obtain ⟨hkey, turn, hturn, hkeeps⟩ := ih hbefore r hold hscope
        exact ⟨hkey, turn, List.mem_append_left _ hturn, hkeeps⟩
      · rw [hscope] at hplacing
        exact absurd hplacing (by decide)
      · have hlast := hranged _ (List.mem_append_right _ List.mem_cons_self)
        refine ⟨hkey, _, List.mem_append_right _ List.mem_cons_self, receipt, ?_,
          hpaid.survives hlast.1 hlast.2 (hrun.isSound hbefore)⟩
        have hkeys := (hrun.act call (.operate (.pay id tenders (some r.key)))).intact.keys
        refine ⟨⟨id, tenders, rfl⟩, hanswer, hfree, ?_, hpayload⟩
        rw [← hscope]
        exact hkeys.remembered?_of_mem hr

end Run

end OrderLedger
