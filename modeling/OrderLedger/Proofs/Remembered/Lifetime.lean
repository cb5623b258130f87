import OrderLedger.Proofs.Remembered.Calls
import OrderLedger.Proofs.Time.Order

/-!
How long an answer lasts. A call with a key that answers afresh leaves its answer under the key.
Until the lifetime is over every call with the key gets that answer and changes nothing; from
then on the key is free. The tables tell this by the text of the time, which sorts as time does
up to the year 9999. An answer whose lifetime ends later is lost at once, and a call whose
lifetime ends outside the calendar overflows.
-/

namespace OrderLedger

open Calculation Remembered

namespace Time.Instant

/-- Two moments of the calendar are less than its length apart. -/
theorem le_of_addSeconds? {t u : Instant} {seconds : Nat} (ht : t.IsInCalendar)
    (h : t.addSeconds? seconds = some u) : (seconds : Int) ≤ 191491529 * 86400 := by
  have hday {v : Instant} (hv : inCalendar? v = some u) : v.day ≤ 95026236 := by
    unfold inCalendar? at hv
    split at hv
    · next hcalendar => exact (isInCalendar_iff.mp hcalendar).2
    · cases hv
  have hstart := (isInCalendar_iff.mp ht).1
  have hlast := hday h
  dsimp only [ofSeconds, Instant.seconds, secondsPerDay] at hlast
  split at hlast
  · dsimp only at hlast
    omega
  · split at hlast
    · dsimp only at hlast
      omega
    · omega

end Time.Instant

/-- The expiry of a record can be told exactly where the lifetime ends within the calendar. -/
theorem Settings.expiry_eq_ok {settings : Settings} {now expiresAt : Time.Instant}
    (hnow : now.IsValid) : settings.lifetime >>= Remembered.expiry now = .ok expiresAt ↔
      now.addSeconds? settings.lifetimeSeconds = some expiresAt := by
  have hexpiry : Remembered.expiry now settings.lifetimeSeconds = .ok expiresAt ↔
      now.addSeconds? settings.lifetimeSeconds = some expiresAt := require_eq_ok
  rw [← hexpiry, bind_eq_ok, Settings.lifetime, Remembered.lifetime]
  constructor
  · rintro ⟨lifetime, hlifetime, h⟩
    split at hlifetime
    · cases hlifetime
      exact h
    · cases hlifetime
  · intro h
    have hshort := Time.Instant.le_of_addSeconds? hnow.1 (hexpiry.mp h)
    refine ⟨_, if_pos ?_, h⟩
    unfold longestLifetime
    omega

theorem Remembered.isLive_iff {r : Remembered} {now : Time.Instant} (hr : r.expiresAt.IsPlain)
    (hnow : now.IsPlain) : r.isLive now = true ↔ now < r.expiresAt := by
  rw [isLive, Bool.not_eq_true', ← Bool.not_eq_true, Store.notAfter_iff hr hnow, not_not]

/-- A record whose lifetime ends after the year 9999 is never live. -/
theorem Remembered.isLive_of_late {r : Remembered} {now : Time.Instant}
    (hr : 9999 < (Time.Date.ofDay r.expiresAt.day).year) (hnow : now.IsPlain) :
    r.isLive now = false := by
  rw [isLive, Store.notAfter_of_late hr hnow, Bool.not_true]

/-- A key has no live record where its only record is not live. -/
theorem Store.KeysDistinct.live?_eq_none {s : Store} {scope key : String} {x : Remembered}
    {now : Time.Instant} (hs : s.KeysDistinct)
    (h : s.remembered? scope key = some x ∨ s.remembered? scope key = none)
    (hover : x.isLive now = false) : s.live? scope key now = none := by
  rcases h with hfound | hnone
  · rw [Store.live?_eq_none]
    intro r hr hunder
    obtain ⟨rfl, rfl⟩ := Remembered.isUnder_iff.mp hunder
    rw [hs.remembered?_of_mem hr, Option.some.injEq] at hfound
    rw [hfound]
    exact hover
  · exact Store.live?_of_remembered?_none hnone

namespace Shop

/-- A key is free for a call: if the call would succeed without the key, it answers afresh,
unless the lifetime of the answer ends outside the calendar. -/
def IsFreeFor (shop : Shop) (call : Call) (action : Action) : Prop :=
  ∀ reply, (shop.act call action.unkeyed).1 = .ok reply →
    call.now.addSeconds? shop.settings.lifetimeSeconds ≠ none →
    ∃ own, (shop.act call action).1 = .ok own ∧ own.isFresh = true

variable {shop : Shop} {call : Call} {action : Action} {scope key : String}

/-- A key that has no live record is free. -/
theorem isFreeFor_of_live? (hkey : action.key? = some (scope, key))
    (hvalid : checkKey (some key) = .ok ()) (hnow : call.now.IsValid)
    (hunanswered : shop.store.live? scope key call.lookedUpAt = none)
    (hunclaimed : shop.store.live? scope key call.now = none) : shop.IsFreeFor call action := by
  intro reply hunkeyed hends
  obtain ⟨expiresAt, hexpires⟩ := Option.ne_none_iff_exists'.mp hends
  refine act_first hunkeyed hkey hvalid ⟨?_, ?_, fun _ _ => ⟨expiresAt, ?_⟩⟩
  · rintro _ ⟨⟩
    exact hunanswered
  · rintro _ ⟨⟩
    exact hunclaimed
  · exact (Settings.expiry_eq_ok hnow).mpr hexpires

/-- A key does not make a call overflow where the lifetime ends within the calendar. -/
theorem act_ne_overflow {reply : Reply} (hunkeyed : (shop.act call action.unkeyed).1 = .ok reply)
    (hnow : call.now.IsValid)
    (hends : call.now.addSeconds? shop.settings.lifetimeSeconds ≠ none) (cause : Overflow) :
    (shop.act call action).1 ≠ .error (.overflow cause) := by
  obtain ⟨expiresAt, hexpires⟩ := Option.ne_none_iff_exists'.mp hends
  exact act_no_overflow hunkeyed ((Settings.expiry_eq_ok hnow).mpr hexpires) cause

/-- A free key makes a call overflow where the lifetime ends outside the calendar. -/
theorem act_eq_overflow {reply : Reply} (hunkeyed : (shop.act call action.unkeyed).1 = .ok reply)
    (hkey : action.key? = some (scope, key)) (hvalid : checkKey (some key) = .ok ())
    (hnow : call.now.IsValid) (hlive : shop.store.live? scope key call.lookedUpAt = none)
    (hends : call.now.addSeconds? shop.settings.lifetimeSeconds = none) :
    ∃ cause, shop.act call action = (.error (.overflow cause), shop) := by
  cases hexpiry : shop.settings.lifetime >>= Remembered.expiry call.now with
  | ok expiresAt =>
      rw [(Settings.expiry_eq_ok hnow).mp hexpiry] at hends
      cases hends
  | error cause => exact ⟨cause, act_overflows hunkeyed hkey hvalid hlive hexpiry⟩

end Shop

namespace Turn

/-- A turn has answered afresh under a key, and the lifetime of its answer ends at a moment. -/
structure Leaves (settings : Settings) (turn : Turn) (scope key : String) (reply : Reply)
    (expiresAt : Time.Instant) : Prop where
  key : turn.action.key? = some (scope, key)
  answer : turn.answer = .ok reply
  fresh : reply.isFresh = true
  ends : turn.call.now.addSeconds? settings.lifetimeSeconds = some expiresAt

/-- A turn has taken a key: it was a call with the key and has written. -/
def Takes (turn : Turn) (scope key : String) : Prop :=
  turn.action.key? = some (scope, key) ∧ turn.after.store ≠ turn.before.store

end Turn

namespace Run

variable {settings : Settings} {turns first since : List Turn} {shop : Shop} {writer : Turn}
  {scope key : String} {reply : Reply} {expiresAt : Time.Instant} {x : Remembered}

/-- What a turn leaves and every later turn keeps is there after the run. -/
theorem kept_since (hrun : Run settings turns shop) (property : Store → Prop)
    (hsplit : turns = first ++ writer :: since) (hwriter : property writer.after.store)
    (hkeep : ∀ turn ∈ since, ∀ earlier, Run settings earlier turn.before →
      property turn.before.store → property turn.after.store) : property shop.store := by
  induction hrun generalizing since with
  | opened => simp at hsplit
  | act call action hrun ih =>
      rcases List.eq_nil_or_concat since with rfl | ⟨since, last, rfl⟩
      · obtain ⟨-, hlast⟩ := List.append_inj' hsplit rfl
        cases hlast
        exact hwriter
      · rw [List.concat_eq_append, ← List.cons_append, ← List.append_assoc] at hsplit
        obtain ⟨hturns, hlast⟩ := List.append_inj' hsplit rfl
        cases hlast
        rw [List.concat_eq_append] at hkeep
        have hbefore := ih hturns fun turn hturn => hkeep turn (List.mem_append_left _ hturn)
        exact hkeep _ (List.mem_append_right _ List.mem_cons_self) _ hrun hbefore

/-- A record stays while it is live for every purge and every call with its key. -/
theorem record_stays (hrun : Run settings turns shop) (hsplit : turns = first ++ writer :: since)
    (hx : writer.after.store.remembered? scope key = some x)
    (hlive : ∀ turn ∈ since,
      turn.action = .operate .purge ∨ turn.action.key? = some (scope, key) →
        x.isLive turn.call.now = true) :
    shop.store.remembered? scope key = some x :=
  hrun.kept_since (fun s => s.remembered? scope key = some x) hsplit hx
    fun turn hturn _ hbefore hfound =>
      (hbefore.effect turn.call turn.action).keeps_live hbefore.intact.keys hfound
        (hlive turn hturn)

/-- A record stays or is deleted until its key is taken again. -/
theorem record_or_none (hrun : Run settings turns shop)
    (hsplit : turns = first ++ writer :: since)
    (hx : writer.after.store.remembered? scope key = some x)
    (hidle : ∀ turn ∈ since, ¬ turn.Takes scope key) :
    shop.store.remembered? scope key = some x ∨ shop.store.remembered? scope key = none := by
  refine hrun.kept_since
    (fun s => s.remembered? scope key = some x ∨ s.remembered? scope key = none) hsplit
    (Or.inl hx) fun turn hturn _ hbefore hfound => ?_
  rcases (hbefore.effect turn.call turn.action).remembered?_cases hbefore.intact.keys
    scope key with hsame | ⟨-, ⟨-, hnone⟩ | hkey⟩
  · rw [show turn.after.store.remembered? scope key = _ from hsame]
    exact hfound
  · exact Or.inr hnone
  · have hsame : turn.after.store = turn.before.store :=
      not_not.mp fun hne => hidle turn hturn ⟨hkey, hne⟩
    rwa [hsame]

/-- A turn that has answered afresh has left its answer under its key. -/
theorem leaves (hrun : Run settings turns shop) (hranged : Ranged turns)
    (hsplit : turns = first ++ writer :: since)
    (hleaves : writer.Leaves settings scope key reply expiresAt) :
    reply.Survives ∧ Shop.checkKey (some key) = .ok () ∧
      ∃ payload, reply.kept? = some (scope, payload) ∧
        writer.after.store.remembered? scope key =
          some ⟨scope, key, payload, writer.call.now, expiresAt⟩ := by
  have hbefore := hrun.before_of_append hsplit
  have hearlier : Ranged first := by
    intro turn hturn
    exact hranged turn (hsplit ▸ List.mem_append_left _ hturn)
  obtain ⟨htimed, hfits⟩ := hranged writer (hsplit ▸ List.mem_append_right _ List.mem_cons_self)
  obtain ⟨hsurvives, payload, expiresAt', hkept, hexpiry, hfound⟩ :=
    (hbefore.effect writer.call writer.action).leaves hbefore.intact.keys
      (hbefore.isSound hearlier) htimed hfits hleaves.key hleaves.answer hleaves.fresh
  rw [Settings.expiry_eq_ok htimed.now, hleaves.ends, Option.some.injEq] at hexpiry
  subst hexpiry
  exact ⟨hsurvives, Shop.checkKey_of_answer hleaves.answer hleaves.key, payload, hkept, hfound⟩

/-- Until its lifetime is over, an answer is given to every call with its key, and nothing is
written. -/
theorem replayed_until (hrun : Run settings turns shop) (hranged : Ranged turns)
    (hsplit : turns = first ++ writer :: since)
    (hleaves : writer.Leaves settings scope key reply expiresAt) (hplain : expiresAt.IsPlain)
    (hsince : ∀ turn ∈ since,
      turn.action = .operate .purge ∨ turn.action.key? = some (scope, key) →
        turn.call.now.IsPlain ∧ turn.call.now < expiresAt)
    {call : Call} {action : Action} (hkey : action.key? = some (scope, key))
    (htime : call.lookedUpAt.IsPlain) (hearly : call.lookedUpAt < expiresAt)
    (htenders : action.checkTenders = .ok ()) :
    shop.act call action = (.ok reply.again, shop) := by
  obtain ⟨hsurvives, hvalid, payload, hkept, hleft⟩ := hrun.leaves hranged hsplit hleaves
  have hstays := hrun.record_stays hsplit hleft fun turn hturn haction =>
    (Remembered.isLive_iff hplain (hsince turn hturn haction).1).mpr (hsince turn hturn haction).2
  have hlive := Store.live?_of_remembered? hstays
    ((Remembered.isLive_iff hplain htime).mpr hearly)
  exact Shop.act_live hkey hvalid htenders hlive hkept hsurvives

/-- A key is free at the moments at which its last answer is not live. -/
theorem free_after (hrun : Run settings turns shop) (hranged : Ranged turns)
    (hsplit : turns = first ++ writer :: since)
    (hleaves : writer.Leaves settings scope key reply expiresAt)
    (hidle : ∀ turn ∈ since, ¬ turn.Takes scope key) {call : Call} {action : Action}
    (hkey : action.key? = some (scope, key)) (hnow : call.now.IsValid)
    (hover : ∀ r : Remembered, r.expiresAt = expiresAt →
      r.isLive call.lookedUpAt = false ∧ r.isLive call.now = false) :
    shop.IsFreeFor call action := by
  obtain ⟨-, hvalid, payload, -, hleft⟩ := hrun.leaves hranged hsplit hleaves
  have hrecord := hrun.record_or_none hsplit hleft hidle
  obtain ⟨hlookup, hwrite⟩ := hover ⟨scope, key, payload, writer.call.now, expiresAt⟩ rfl
  exact Shop.isFreeFor_of_live? hkey hvalid hnow
    (hrun.intact.keys.live?_eq_none hrecord hlookup)
    (hrun.intact.keys.live?_eq_none hrecord hwrite)

/-- The answers of calls with a key, over every run. A call that would succeed without its key
overflows with it exactly where the lifetime of its answer would end outside the calendar, unless
a live record holds the key. After a call has answered afresh under a key, every call with the
key gets the answer as a replay and changes nothing, only that tenders which may not be taken are
refused first, until the lifetime is over for the call, or was over for an earlier call with the
key or a purge. Once it is over the key is free, until it is taken again. All this holds for
lifetimes that end by the year 9999. An answer whose lifetime ends later does not hold its key at
all. -/
theorem answers_last_their_lifetime (hrun : Run settings turns shop) (hranged : Ranged turns) :
    (∀ call action reply, call.now.IsValid → (shop.act call action.unkeyed).1 = .ok reply →
      (call.now.addSeconds? settings.lifetimeSeconds ≠ none →
        ∀ cause, (shop.act call action).1 ≠ .error (.overflow cause)) ∧
      (call.now.addSeconds? settings.lifetimeSeconds = none →
        ∀ scope key, action.key? = some (scope, key) → Shop.checkKey (some key) = .ok () →
        shop.store.live? scope key call.lookedUpAt = none →
        ∃ cause, shop.act call action = (.error (.overflow cause), shop))) ∧
    ∀ first writer since scope key reply expiresAt, turns = first ++ writer :: since →
      writer.Leaves settings scope key reply expiresAt →
      ∀ call action, action.key? = some (scope, key) → call.lookedUpAt.IsPlain →
      (expiresAt.IsPlain →
        (∀ turn ∈ since, turn.action = .operate .purge ∨ turn.action.key? = some (scope, key) →
          turn.call.now.IsPlain ∧ turn.call.now < expiresAt) →
        call.lookedUpAt < expiresAt →
        (action.checkTenders = .ok () → shop.act call action = (.ok reply.again, shop)) ∧
        ∀ e, action.checkTenders = .error e → shop.act call action = (.error (.error e), shop)) ∧
      ((∀ turn ∈ since, ¬ turn.Takes scope key) → call.now.IsPlain →
        (expiresAt.IsPlain ∧ expiresAt ≤ call.lookedUpAt ∧ expiresAt ≤ call.now ∨
          9999 < (Time.Date.ofDay expiresAt.day).year) →
        shop.IsFreeFor call action) := by
  refine ⟨fun call action reply hnow hunkeyed => ⟨?_, ?_⟩, ?_⟩
  · rw [← hrun.settings_eq]
    exact Shop.act_ne_overflow hunkeyed hnow
  · rw [← hrun.settings_eq]
    intro hends scope key hkey hvalid hlive
    exact Shop.act_eq_overflow hunkeyed hkey hvalid hnow hlive hends
  intro first writer since scope key reply expiresAt hsplit hleaves call action hkey htime
  refine ⟨fun hplain hsince hearly => ⟨?_, fun e => Shop.act_refused⟩, ?_⟩
  · exact hrun.replayed_until hranged hsplit hleaves hplain hsince hkey htime hearly
  · intro hidle hnow hover
    refine hrun.free_after hranged hsplit hleaves hidle hkey hnow.1 ?_
    rintro r rfl
    rcases hover with ⟨hplain, hlookup, hwrite⟩ | hlate
    · rw [← Bool.not_eq_true, ← Bool.not_eq_true, Remembered.isLive_iff hplain htime,
        Remembered.isLive_iff hplain hnow]
      exact ⟨hlookup, hwrite⟩
    · exact ⟨Remembered.isLive_of_late hlate htime, Remembered.isLive_of_late hlate hnow⟩

/-- Soup is offered, and ordered for an attempt. -/
def soupOffered : List (Call × Action) :=
  [(Call.on 20000 'a',
      .addProduct ⟨"soup", "Soup", .simple, ⟨850⟩, true, ⟨20000, 0, 0⟩, ⟨20000, 0, 0⟩⟩)]

def soupOrdered : Turn where
  call := Call.on 20000 'b'
  action := .operate (.place ⟨some "c-7", none, .pos, some "till-1", [⟨"soup", 2, []⟩]⟩)
  before := (play Settings.standard soupOffered).2

/-- The attempt gets its answer again on the same day, and orders once more on the next one. -/
theorem answer_of_soupOrdered :
    ∃ reply : Reply, soupOrdered.answer = .ok reply ∧
      soupOrdered.after.act (Call.on 20000 'c') soupOrdered.action =
        (.ok reply.again, soupOrdered.after) ∧
      ∃ own : Reply, (soupOrdered.after.act (Call.on 20001 'd') soupOrdered.action).1 = .ok own ∧
        own.isFresh = true := by
  have hcalendar : (⟨20000, 0, 0⟩ : Time.Instant).IsInCalendar := by decide
  have hranged : Ranged ((play Settings.standard soupOffered).1 ++ [soupOrdered]) := by
    intro turn hturn
    rcases List.mem_append.mp hturn with hturn | hturn
    · refine ranged_play Settings.standard ?_ turn hturn
      simp only [soupOffered, List.forall_mem_cons, Action.Fits]
      exact ⟨⟨Call.isTimed_on 'a' hcalendar, by decide⟩, List.forall_mem_nil _⟩
    · rw [List.mem_singleton.mp hturn]
      exact ⟨Call.isTimed_on 'b' hcalendar, trivial⟩
  have hrun := (run_play Settings.standard soupOffered).act soupOrdered.call soupOrdered.action
  obtain ⟨-, hlast⟩ := answers_last_their_lifetime hrun hranged
  have hok {answer : Answer} (h : answer.toOption.isSome = true) : ∃ reply, answer = .ok reply := by
    cases answer with
    | ok reply => exact ⟨reply, rfl⟩
    | error fault => cases h
  obtain ⟨reply, hanswer⟩ : ∃ reply, soupOrdered.answer = .ok reply := hok (by decide +kernel)
  have hfresh : soupOrdered.answer.toOption.any Reply.isFresh = true := by decide +kernel
  rw [hanswer] at hfresh
  have hleaves : soupOrdered.Leaves Settings.standard placingScope "till-1" reply ⟨20001, 0, 0⟩ :=
    ⟨rfl, hanswer, hfresh, by decide⟩
  have hcall := hlast _ soupOrdered [] placingScope "till-1" reply ⟨20001, 0, 0⟩ rfl hleaves
  refine ⟨reply, hanswer, ?_, ?_⟩
  · exact ((hcall (Call.on 20000 'c') soupOrdered.action rfl (by decide)).1 (by decide)
      (List.forall_mem_nil _) (by decide)).1 rfl
  · obtain ⟨unkeyed, hunkeyed⟩ : ∃ unkeyed, (soupOrdered.after.act (Call.on 20001 'd')
        soupOrdered.action.unkeyed).1 = .ok unkeyed := hok (by decide +kernel)
    exact (hcall (Call.on 20001 'd') soupOrdered.action rfl (by decide)).2
      (List.forall_mem_nil _) (by decide) (Or.inl (by decide)) unkeyed hunkeyed (by decide)

end Run

end OrderLedger
