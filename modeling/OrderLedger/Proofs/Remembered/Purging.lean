import OrderLedger.Proofs.Remembered.Purged
import OrderLedger.Proofs.Run.Basic

/-!
Purging is not seen. A run and the same run with more purges in it give the same answers and leave
the same rows; their records differ by some that are over.
-/

namespace OrderLedger

open Work Calculation Remembered

/-- The shop with other records. -/
def Shop.remembering (shop : Shop) (records : List Remembered) : Shop :=
  { shop with store := { shop.store with remembered := records } }

def Action.isPurge : Action → Bool
  | .operate .purge => true
  | _ => false

namespace Shop

variable {α β : Type} {shop : Shop} {call : Call} {now : Time.Instant} {left : List Remembered}

/-- One answer, and shops that differ by records that were purged. -/
def Result.Alike (now : Time.Instant) (x y : Result α) : Prop :=
  ∃ left, y = (x.1, x.2.remembering left) ∧ Purged now x.2.store.remembered left

theorem Result.Alike.reply {x y : Result α} (h : x.Alike now y) (f : α → Reply) :
    (x.reply f).Alike now (y.reply f) := by
  obtain ⟨left, rfl, hleft⟩ := h
  exact ⟨left, rfl, hleft⟩

/-- What answers without touching the shop. -/
theorem alike_unchanged (hleft : Purged now shop.store.remembered left)
    (answer : Except (Fault ShopError) α) :
    Result.Alike now (answer, shop) (answer, shop.remembering left) := ⟨left, rfl, hleft⟩

theorem commit_alike {work : Work ShopError (Closing (α × List StockEvent))}
    (h : work.Agrees (Store.SameBut (Purged now)) fun _ => Store.SameBut (Purged now))
    (hleft : Purged now shop.store.remembered left) :
    (shop.commit work).Alike now ((shop.remembering left).commit work) := by
  have hsame : Store.SameBut (Purged now) shop.store (shop.remembering left).store := ⟨rfl, hleft⟩
  obtain ⟨hanswer, htables, hrecords⟩ := transact_agrees h hsame
  unfold commit
  rcases hs : transact work shop.store with ⟨r, s'⟩
  rcases ht : transact work (shop.remembering left).store with ⟨r', t'⟩
  rw [hs, ht] at hanswer htables hrecords
  obtain rfl : r' = r := hanswer
  refine ⟨t'.remembered, ?_, ?_⟩
  · dsimp only at htables
    rw [htables]
    cases r' <;> rfl
  · cases r' <;> exact hrecords

theorem commit_alike_of_heedless {work : Work ShopError (Closing (α × List StockEvent))}
    (h : Heedless work) (hleft : Purged now shop.store.remembered left) :
    (shop.commit work).Alike now ((shop.remembering left).commit work) :=
  commit_alike (h.agrees _) hleft

theorem change_alike {work : Work StorageError Unit} (h : Heedless work)
    (hleft : Purged now shop.store.remembered left) :
    (shop.change (transactAll work)).Alike now
      ((shop.remembering left).change (transactAll work)) := by
  have hall : Heedless (do return .commit (← work) : Work StorageError (Closing Unit)) :=
    heedless_bind h fun _ => heedless_pure _
  have hsame : Store.SameBut (Purged now) shop.store (shop.remembering left).store := ⟨rfl, hleft⟩
  obtain ⟨hanswer, htables, hrecords⟩ := transact_agrees (hall.agrees (Purged now)) hsame
  refine ⟨_, ?_, hrecords⟩
  refine Prod.ext ?_ (congrArg (fun store => { shop with store }) htables)
  exact congrArg (fun answer => (answer.mapError (Fault.map ShopError.ofStorage)).map
    fun _ => Reply.flag true) hanswer

theorem earlier?_purged [Wire α] {s : Store} (scope : String) (key : Option String)
    (h : Purged now s.remembered left) :
    earlier? (α := α) { s with remembered := left } scope key now = earlier? s scope key now := by
  cases key with
  | none => rfl
  | some k =>
      simp only [earlier?]
      rw [Store.live?_purged h]

theorem place_alike (r : OrderRequest)
    (hlookup : Purged call.lookedUpAt shop.store.remembered left)
    (hleft : Purged call.now shop.store.remembered left) :
    (shop.place call r).Alike call.now ((shop.remembering left).place call r) := by
  have hearlier : earlierPlacing (shop.remembering left).store call r =
      earlierPlacing shop.store call r :=
    congrArg (checkKey r.attemptId >>= fun _ => ·)
      (earlier?_purged placingScope r.attemptId hlookup)
  unfold place
  rw [hearlier]
  cases earlierPlacing shop.store call r with
  | error e => exact alike_unchanged hleft _
  | ok found =>
      cases found with
      | some o => exact alike_unchanged hleft _
      | none =>
          dsimp only
          rw [show priceDraft (shop.remembering left).store call r = priceDraft shop.store call r
            from rfl]
          cases priceDraft shop.store call r with
          | error e => exact alike_unchanged hleft _
          | ok d => exact commit_alike (agrees_placeWork shop.settings call d) hleft

theorem pay_alike (orderId : String) (tenders : List Tender) (key : Option String)
    (hlookup : Purged call.lookedUpAt shop.store.remembered left)
    (hleft : Purged call.now shop.store.remembered left) :
    (shop.pay call orderId tenders key).Alike call.now
      ((shop.remembering left).pay call orderId tenders key) := by
  have hearlier : earlierPaying (shop.remembering left).store call tenders key =
      earlierPaying shop.store call tenders key :=
    congrArg (checkTenders tenders >>= fun _ => checkKey key >>= fun _ => ·)
      (earlier?_purged payingScope key hlookup)
  unfold pay
  rw [hearlier]
  cases earlierPaying shop.store call tenders key with
  | error e => exact alike_unchanged hleft _
  | ok found =>
      cases found with
      | some o => exact alike_unchanged hleft _
      | none =>
          have hagrees : (silently (payWork shop.settings call orderId tenders key)).Agrees
              (Store.SameBut (Purged call.now)) fun _ => Store.SameBut (Purged call.now) := by
            refine agrees_bind (agrees_payWork shop.settings call orderId tenders key)
              fun closing => ?_
            cases closing <;> exact agrees_pure fun _ _ h => h
          obtain ⟨records, hsame, hrecords⟩ := commit_alike hagrees hleft
          dsimp only
          rw [show (shop.remembering left).settings = shop.settings from rfl, hsame]
          rcases hcommit : shop.commit _ with ⟨answer, after⟩
          rw [hcommit] at hrecords
          cases answer <;> exact ⟨records, rfl, hrecords⟩

theorem append_alike (entries : List StockEntry)
    (hleft : Purged call.now shop.store.remembered left) :
    (shop.append call entries).Alike call.now ((shop.remembering left).append call entries) := by
  unfold append
  split
  · exact alike_unchanged hleft _
  · exact commit_alike_of_heedless (heedless_bind (heedless_appendWork entries call.now) fun _ =>
      heedless_pure _) hleft

theorem enter_alike (productId : String) (delta : Int) (reason : Reason) (actor : String)
    (hleft : Purged call.now shop.store.remembered left) :
    (shop.enter call productId delta reason actor).Alike call.now
      ((shop.remembering left).enter call productId delta reason actor) := by
  obtain ⟨records, hsame, hrecords⟩ := append_alike
    [manualEntry shop.settings call productId delta reason actor] hleft
  unfold enter
  cases checkManual delta reason actor with
  | error e => exact alike_unchanged hleft _
  | ok checked =>
      dsimp only
      rw [show (shop.remembering left).store.product? productId = shop.store.product? productId
        from rfl, show (shop.remembering left).settings = shop.settings from rfl, hsame]
      split
      · exact alike_unchanged hleft _
      · rcases happend : shop.append call _ with ⟨answer, after⟩
        rw [happend] at hrecords
        cases answer with
        | error e => exact ⟨records, rfl, hrecords⟩
        | ok events => cases events <;> exact ⟨records, rfl, hrecords⟩

/-- Every action but a purge does the same whatever was purged. -/
theorem act_alike {action : Action} (haction : action.isPurge = false)
    (hlookup : Purged call.lookedUpAt shop.store.remembered left)
    (hleft : Purged call.now shop.store.remembered left) :
    (shop.act call action).Alike call.now ((shop.remembering left).act call action) := by
  cases action with
  | operate operation =>
      cases operation with
      | place r => exact (place_alike r hlookup hleft).reply _
      | pay orderId tenders key => exact (pay_alike orderId tenders key hlookup hleft).reply _
      | cancel orderId =>
          exact (commit_alike_of_heedless (heedless_reverseWork shop.settings call orderId
            .cancelled .correction) hleft).reply _
      | refund orderId =>
          exact (commit_alike_of_heedless (heedless_reverseWork shop.settings call orderId
            .refunded .refund) hleft).reply _
      | discard orderId =>
          exact (commit_alike_of_heedless
            (heedless_discardWork shop.settings call orderId) hleft).reply _
      | reap attemptId keptId =>
          exact (commit_alike_of_heedless
            (heedless_reapWork shop.settings call attemptId keptId) hleft).reply _
      | handOverLines lineIds =>
          exact (commit_alike_of_heedless (heedless_silently (heedless_bind
            (heedless_handOverLines call lineIds) fun _ => heedless_pure _)) hleft).reply _
      | handOverOrder orderId =>
          exact (commit_alike_of_heedless (heedless_silently
            (heedless_handOverOrderWork call orderId)) hleft).reply _
      | append entries => exact (append_alike entries hleft).reply _
      | enter productId delta reason actor =>
          exact (enter_alike productId delta reason actor hleft).reply _
      | purge => cases haction
  | addProduct p => exact change_alike (Store.heedless_insertProduct p) hleft
  | addSlot slot => exact change_alike (Store.heedless_insertSlotWork slot) hleft
  | setActive id isActive =>
      exact change_alike (Store.heedless_updateActive id isActive call.now) hleft
  | attend change => exact ⟨left, rfl, hleft⟩

end Shop

/-- The readings that a call takes of the clock, in their order. -/
def Call.readings (call : Call) : List Time.Instant := [call.lookedUpAt, call.pricedAt, call.now]

/-- Calls at moments of years with four digits, and a clock that never goes back. -/
structure Clocked (steps : List (Call × Action)) : Prop where
  plain : ∀ step ∈ steps, ∀ t ∈ step.1.readings, t.IsPlain
  ordered : (steps.flatMap fun step => step.1.readings).Pairwise (· ≤ ·)

/-- The second run has the steps of the first, and anywhere between them more purges. -/
inductive WithPurges : List (Call × Action) → List (Call × Action) → Prop where
  | nil : WithPurges [] []
  | step {steps more : List (Call × Action)} (step : Call × Action) (h : WithPurges steps more) :
      WithPurges (steps ++ [step]) (more ++ [step])
  | purge {steps more : List (Call × Action)} (call : Call) (h : WithPurges steps more) :
      WithPurges steps (more ++ [(call, .operate .purge)])

namespace Clocked

variable {earlier later steps : List (Call × Action)} {step : Call × Action}

theorem left (h : Clocked (earlier ++ later)) : Clocked earlier where
  plain := fun step hstep => h.plain step (List.mem_append_left _ hstep)
  ordered := by
    have hordered := h.ordered
    rw [List.flatMap_append, List.pairwise_append] at hordered
    exact hordered.1

theorem last_plain (h : Clocked (steps ++ [step])) : ∀ t ∈ step.1.readings, t.IsPlain :=
  h.plain step (List.mem_append_right _ List.mem_cons_self)

theorem last_ordered (h : Clocked (steps ++ [step])) : step.1.readings.Pairwise (· ≤ ·) := by
  have hordered := h.ordered
  rw [List.flatMap_append, List.pairwise_append, List.flatMap_singleton] at hordered
  exact hordered.2.1

/-- No reading of the last call comes before one of an earlier call. -/
theorem le_last (h : Clocked (steps ++ [step])) {t : Time.Instant} (ht : t ∈ step.1.readings) :
    ∀ other ∈ steps, ∀ u ∈ other.1.readings, u ≤ t := by
  intro other hother u hu
  have hordered := h.ordered
  rw [List.flatMap_append, List.pairwise_append, List.flatMap_singleton] at hordered
  exact hordered.2.2 u (List.mem_flatMap.mpr ⟨other, hother, hu⟩) t ht

/-- There is a plain moment after all calls. -/
theorem exists_end (h : Clocked steps) :
    ∃ now : Time.Instant, now.IsPlain ∧ ∀ step ∈ steps, ∀ t ∈ step.1.readings, t ≤ now := by
  rcases List.eq_nil_or_concat steps with rfl | ⟨init, last, rfl⟩
  · exact ⟨.epoch, by decide, List.forall_mem_nil _⟩
  · rw [List.concat_eq_append] at h ⊢
    have hnow : last.1.now ∈ last.1.readings := by simp [Call.readings]
    refine ⟨last.1.now, h.last_plain _ hnow, ?_⟩
    rw [List.forall_mem_append, List.forall_mem_singleton]
    refine ⟨h.le_last hnow, ?_⟩
    have hordered := h.last_ordered
    simp only [Call.readings, List.pairwise_cons, List.forall_mem_cons] at hordered ⊢
    exact ⟨hordered.1.2.1, hordered.2.1.1, Time.Instant.le_refl _, List.forall_mem_nil _⟩

end Clocked

/-- A point of the run with more purges is one of the run without them. -/
theorem WithPurges.split {steps more : List (Call × Action)} (h : WithPurges steps more)
    {earlier later : List (Call × Action)} (hmore : more = earlier ++ later) :
    ∃ kept rest, steps = kept ++ rest ∧ WithPurges kept earlier ∧ WithPurges rest later := by
  induction h generalizing later with
  | nil =>
      obtain ⟨rfl, rfl⟩ := List.append_eq_nil_iff.mp hmore.symm
      exact ⟨[], [], rfl, .nil, .nil⟩
  | @step steps more step h ih =>
      rcases List.eq_nil_or_concat later with rfl | ⟨later, last, rfl⟩
      · rw [List.append_nil] at hmore
        exact ⟨steps ++ [step], [], (List.append_nil _).symm, hmore ▸ h.step step, .nil⟩
      · rw [List.concat_eq_append] at hmore ⊢
        rw [← List.append_assoc] at hmore
        obtain ⟨hinit, hlast⟩ := List.append_inj' hmore rfl
        cases hlast
        obtain ⟨kept, rest, rfl, hkept, hrest⟩ := ih hinit
        exact ⟨kept, rest ++ [step], List.append_assoc .., hkept, hrest.step step⟩
  | @purge steps more call h ih =>
      rcases List.eq_nil_or_concat later with rfl | ⟨later, last, rfl⟩
      · rw [List.append_nil] at hmore
        exact ⟨steps, [], (List.append_nil _).symm, hmore ▸ h.purge call, .nil⟩
      · rw [List.concat_eq_append] at hmore ⊢
        rw [← List.append_assoc] at hmore
        obtain ⟨hinit, hlast⟩ := List.append_inj' hmore rfl
        cases hlast
        obtain ⟨kept, rest, rfl, hkept, hrest⟩ := ih hinit
        exact ⟨kept, rest, rfl, hkept, hrest.purge call⟩

/-- At `now` the second shop is told from the first by no lookup and no claim: it has the same
rows, and its records are those of the first but for some that have expired. -/
structure Shop.PassesFor (now : Time.Instant) (a b : Shop) : Prop where
  rows : b = a.remembering b.store.remembered
  found : ∀ scope key, b.store.live? scope key now = a.store.live? scope key now
  claimed : ∀ scope key payload expiresAt,
    ((Store.claim scope key payload now expiresAt : Work StorageError _).runOn b.store).1 =
      ((Store.claim scope key payload now expiresAt : Work StorageError _).runOn a.store).1
  records : ∃ gone, a.store.remembered.Perm (b.store.remembered ++ gone) ∧
    ∀ r ∈ gone, r.isLive now = false ∧ (r.expiresAt.IsPlain → r.isExpired now = true)

theorem Purged.passesFor {now : Time.Instant} {shop : Shop} {left : List Remembered}
    (h : Purged now shop.store.remembered left) (hnow : now.IsPlain) :
    shop.PassesFor now (shop.remembering left) where
  rows := rfl
  found := fun _ _ => Store.live?_purged h
  claimed := fun scope key payload expiresAt =>
    (Store.agrees_claim payload expiresAt shop.store (shop.remembering left).store ⟨rfl, h⟩).1
  records := by
    obtain ⟨kept, hkept, hsublist⟩ := List.subperm_of_subset (.of_map _ h.leftDistinct) h.subset
    obtain ⟨gone, hgone⟩ := hsublist.exists_perm_append
    have hperm := hgone.trans (hkept.append_right gone)
    refine ⟨gone, hperm, fun r hr => ?_⟩
    have hdistinct := hperm.nodup_iff.mp (.of_map _ h.distinct)
    have hover := h.ended r (hperm.mem_iff.mpr (List.mem_append_right _ hr)) fun hleft =>
      (List.nodup_append.mp hdistinct).2.2 r hleft r hr rfl
    refine ⟨hover, fun hplain => decide_eq_true fun hbefore => ?_⟩
    rw [(Remembered.isLive_iff hplain hnow).mpr hbefore] at hover
    cases hover

namespace Run

variable {settings : Settings} {steps more : List (Call × Action)}

/-- What the actions of a run were answered, the purges aside. -/
def answers (turns : List Turn) : List Answer :=
  (turns.filter fun turn => !turn.action.isPurge).map Turn.answer

theorem answers_append (turns : List Turn) (turn : Turn) :
    answers (turns ++ [turn]) =
      answers turns ++ if turn.action.isPurge then [] else [turn.answer] := by
  unfold answers
  rw [List.filter_append, List.map_append]
  cases hpurge : turn.action.isPurge <;> simp [hpurge]

/-- One more turn of both runs, the second of which starts without some records that are over. -/
theorem step_purged {shop : Shop} {left : List Remembered} {call : Call} (action : Action)
    (hlookup : Purged call.lookedUpAt shop.store.remembered left)
    (hleft : Purged call.now shop.store.remembered left) :
    (action.isPurge = false →
      ((shop.remembering left).act call action).1 = (shop.act call action).1) ∧
    ∃ records, ((shop.remembering left).act call action).2 =
        (shop.act call action).2.remembering records ∧
      Purged call.now (shop.act call action).2.store.remembered records := by
  cases hpurge : action.isPurge with
  | false =>
      obtain ⟨records, hsame, hrecords⟩ := Shop.act_alike hpurge hlookup hleft
      rw [hsame]
      exact ⟨fun _ => rfl, records, rfl, hrecords⟩
  | true =>
      obtain rfl : action = .operate .purge := by
        unfold Action.isPurge at hpurge
        split at hpurge
        · rfl
        · cases hpurge
      exact ⟨nofun, _, rfl, hleft.purge_both⟩

/-- At every plain moment from the last reading of the clock on, the run with more purges lacks
only records that are over. -/
theorem purged_at (settings : Settings) (h : WithPurges steps more) (hclock : Clocked more) {now : Time.Instant}
    (hnow : now.IsPlain) (hlast : ∀ step ∈ more, ∀ t ∈ step.1.readings, t ≤ now) :
    answers (play settings more).1 = answers (play settings steps).1 ∧
      ∃ left, (play settings more).2 = (play settings steps).2.remembering left ∧
        Purged now (play settings steps).2.store.remembered left := by
  induction h generalizing now with
  | nil => exact ⟨rfl, [], rfl, .refl List.nodup_nil⟩
  | @step steps more step h ih =>
      obtain ⟨call, action⟩ := step
      have hreadings : call.lookedUpAt ∈ call.readings ∧ call.now ∈ call.readings := by
        simp [Call.readings]
      have hplain := hclock.last_plain
      have hwithin : call.lookedUpAt ≤ call.now := by
        have hordered := hclock.last_ordered
        simp only [Call.readings, List.pairwise_cons, List.forall_mem_cons] at hordered
        exact hordered.1.2.1
      obtain ⟨hanswers, left, hshop, hlookup⟩ := ih hclock.left (hplain _ hreadings.1)
        (hclock.le_last hreadings.1)
      have hleft := hlookup.mono (hplain _ hreadings.1) (hplain _ hreadings.2) hwithin
      obtain ⟨hanswer, records, hafter, hrecords⟩ := step_purged action hlookup hleft
      rw [play_append, play_append, hshop]
      refine ⟨?_, records, hafter, hrecords.mono (hplain _ hreadings.2) hnow
        (hlast _ (List.mem_append_right _ List.mem_cons_self) _ hreadings.2)⟩
      rw [answers_append, answers_append, hanswers]
      cases hpurge : action.isPurge with
      | false => simp [Turn.answer, hanswer hpurge]
      | true => simp
  | @purge steps more call h ih =>
      have hreading : call.now ∈ call.readings := by simp [Call.readings]
      obtain ⟨hanswers, left, hshop, hleft⟩ := ih hclock.left (hclock.last_plain _ hreading)
        (hclock.le_last hreading)
      rw [play_append, hshop]
      refine ⟨?_, _, rfl, hleft.purge.mono (hclock.last_plain _ hreading) hnow
        (hlast _ (List.mem_append_right _ List.mem_cons_self) _ hreading)⟩
      rw [answers_append, hanswers]
      exact List.append_nil _

/-- Purging is not seen. Put purges anywhere into a run whose clock never goes back: every other
action is answered the same, and at every point of the run and every moment from then on no lookup
and no claim tells the two shops apart. They have the same rows, and their records differ by some
that have expired. -/
theorem purging_is_invisible (h : WithPurges steps more) (hclock : Clocked more) :
    answers (play settings more).1 = answers (play settings steps).1 ∧
      ∀ earlier later, more = earlier ++ later → ∃ kept rest, steps = kept ++ rest ∧
        WithPurges kept earlier ∧ WithPurges rest later ∧
        ∀ now : Time.Instant, now.IsPlain →
          (∀ step ∈ earlier, ∀ t ∈ step.1.readings, t ≤ now) →
          Shop.PassesFor now (play settings kept).2 (play settings earlier).2 := by
  constructor
  · obtain ⟨now, hnow, hlast⟩ := hclock.exists_end
    exact (purged_at settings h hclock hnow hlast).1
  · intro earlier later hmore
    obtain ⟨kept, rest, hsteps, hkept, hrest⟩ := h.split hmore
    refine ⟨kept, rest, hsteps, hkept, hrest, fun now hnow hlast => ?_⟩
    rw [hmore] at hclock
    obtain ⟨-, left, hshop, hleft⟩ := purged_at settings hkept hclock.left hnow hlast
    rw [hshop]
    exact hleft.passesFor hnow

/-- Soup is ordered for one attempt on two days. -/
def soupOrderedTwice : List (Call × Action) :=
  soupOffered ++ [(soupOrdered.call, soupOrdered.action)] ++
    [(Call.on 20001 'd', soupOrdered.action)]

/-- On the second day the records are purged first. -/
def soupPurgedBetween : List (Call × Action) :=
  soupOffered ++ [(soupOrdered.call, soupOrdered.action)] ++
    [(Call.on 20001 'c', .operate .purge)] ++ [(Call.on 20001 'd', soupOrdered.action)]

/-- The purge deletes the answer of the first day, which the second order would have written
over, and both orders are answered as without the purge. -/
theorem answers_soupPurgedBetween :
    ((play Settings.standard (soupPurgedBetween.take 3)).2.store.remembered = [] ∧
      (play Settings.standard (soupOrderedTwice.take 2)).2.store.remembered ≠ []) ∧
    answers (play Settings.standard soupPurgedBetween).1 =
      answers (play Settings.standard soupOrderedTwice).1 := by
  have hpurges : WithPurges soupOrderedTwice soupPurgedBetween :=
    .step _ (.purge _ (.step _ (@WithPurges.step [] [] _ .nil)))
  have hclock : Clocked soupPurgedBetween := ⟨by decide, by decide⟩
  exact ⟨by decide +kernel, (purging_is_invisible hpurges hclock).1⟩

end Run

end OrderLedger
