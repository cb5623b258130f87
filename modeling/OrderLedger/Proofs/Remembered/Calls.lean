import OrderLedger.Proofs.Payment.Once
import OrderLedger.Proofs.Placing.Receipts
import OrderLedger.Proofs.Shop.Keys

/-!
What calls with a key are answered. A call that answers afresh leaves its answer under its key.
While that is live a call with the key is answered from it; where the key is free, a call does
what it would do without the key, unless the expiry of its answer cannot be told.
-/

namespace OrderLedger

open Work Calculation Remembered

namespace Action

/-- The same action, its answer not to be kept. -/
def unkeyed : Action → Action
  | .operate (.place r) => .operate (.place { r with attemptId := none })
  | .operate (.pay id tenders _) => .operate (.pay id tenders none)
  | action => action

/-- The check of the tenders, which comes before the key is looked up. -/
def checkTenders : Action → Except ShopError Unit
  | .operate (.pay _ tenders _) => Shop.checkTenders tenders
  | _ => .ok ()

end Action

namespace Reply

/-- The call itself has placed or paid what it answers. -/
def isFresh : Reply → Bool
  | .placed o => !o.replayed
  | .paid o => !o.replayed
  | _ => false

/-- What the call is answered when it is made again. -/
def again : Reply → Reply
  | .placed o => .placed ⟨o.receipt, true⟩
  | .paid o => .paid ⟨o.receipt, true⟩
  | reply => reply

/-- The scope in which an answer is kept, and the payload that is kept of it. -/
def kept? : Reply → Option (String × List UInt8)
  | .placed o => some (placingScope, payloadOf o.receipt)
  | .paid o => some (payingScope, payloadOf o.receipt)
  | _ => none

/-- The receipt of an answer is read back as it was kept. -/
def Survives : Reply → Prop
  | .placed o => Wire.Survives o.receipt
  | .paid o => Wire.Survives o.receipt
  | _ => True

theorem told_of_isFresh {reply : Reply} (h : reply.isFresh = true) :
    Answer.placed? (.ok reply) ≠ none ∨ Answer.paid? (.ok reply) ≠ none := by
  cases reply with
  | placed o => exact Or.inl (by simp_all [isFresh, Answer.placed?])
  | paid o => exact Or.inr (by simp_all [isFresh, Answer.paid?])
  | _ => cases h

end Reply

namespace Shop

variable {settings : Settings} {call : Call} {s t : Store} {scope key : String}

/-- A call that has answered afresh under a key has left its answer there. -/
theorem Effect.leaves {action : Action} {answer : Answer} {reply : Reply}
    (heffect : Effect settings call s action answer t) (hs : s.KeysDistinct)
    (hvalues : s.IsSound) (hcall : call.IsTimed) (haction : action.Fits)
    (hkey : action.key? = some (scope, key)) (hanswer : answer = .ok reply)
    (hfresh : reply.isFresh = true) :
    reply.Survives ∧ ∃ payload expiresAt, reply.kept? = some (scope, payload) ∧
      settings.lifetime >>= Remembered.expiry call.now = .ok expiresAt ∧
      t.remembered? scope key = some ⟨scope, key, payload, call.now, expiresAt⟩ := by
  have htold := Reply.told_of_isFresh hfresh
  cases heffect with
  | aside marks hplaced hpaid =>
      rw [← hanswer] at htold
      exact absurd htold (by simp [hplaced, hpaid])
  | entered hplaced hpaid =>
      rw [← hanswer] at htold
      exact absurd htold (by simp [hplaced, hpaid])
  | placed hsound hplaced =>
      obtain ⟨hattempt, rfl⟩ := Action.key?_place.mp hkey
      cases hanswer
      obtain ⟨records, hclaims, ht⟩ := hplaced.after
      rw [hsound.attempt, hattempt] at hclaims
      obtain ⟨expiresAt, hexpiry, hfound⟩ :=
        hclaims.remembered?_claimed hs (congrArg Store.remembered ht)
      exact ⟨hsound.survives hcall.pricedAt fun p hp => hvalues.prices p (Store.mem_catalogOf hp),
        _, expiresAt, rfl, hexpiry, hfound⟩
  | @paid id tenders own receipt _ hchecked hpaid =>
      obtain ⟨rfl, rfl⟩ := Action.key?_pay.mp hkey
      obtain ⟨o, hreport, rfl⟩ := map_eq_ok.mp hanswer
      obtain rfl := eq_of_report hreport
      obtain ⟨records, hclaims, ht⟩ := hpaid.after
      obtain ⟨expiresAt, hexpiry, hfound⟩ :=
        hclaims.remembered?_claimed hs (congrArg Store.remembered ht)
      exact ⟨hpaid.survives hcall haction hvalues, _, expiresAt, rfl, hexpiry, hfound⟩
  | catalogued | cancelled | refunded | discarded | reaped | purged =>
      cases hanswer
      cases hfresh

/-- A key under which a call has been answered is valid. -/
theorem checkKey_of_answer {shop : Shop} {action : Action} {reply : Reply}
    (hanswer : (shop.act call action).1 = .ok reply) (hkey : action.key? = some (scope, key)) :
    checkKey (some key) = .ok () := by
  rcases Action.exists_of_key? hkey with ⟨-, r, hattempt, rfl⟩ | ⟨-, id, tenders, rfl⟩
  · obtain ⟨o, hplace, -⟩ := map_eq_ok.mp hanswer
    cases hearlier : earlierPlacing shop.store call r with
    | error e =>
        rw [place, hearlier] at hplace
        cases hplace
    | ok found =>
        obtain ⟨_, hchecked, -⟩ := bind_eq_ok.mp hearlier
        rwa [hattempt] at hchecked
  · obtain ⟨o, hpay, -⟩ := map_eq_ok.mp hanswer
    cases hearlier : earlierPaying shop.store call tenders (some key) with
    | error e =>
        rw [pay, hearlier] at hpay
        cases hpay
    | ok found =>
        simp only [earlierPaying, bind_eq_ok] at hearlier
        obtain ⟨_, -, _, hchecked, -⟩ := hearlier
        exact hchecked

/-- A call whose key has a live record is answered from it and changes nothing. -/
theorem act_live {shop : Shop} {action : Action} {reply : Reply} {x : Remembered}
    (hkey : action.key? = some (scope, key)) (hvalid : checkKey (some key) = .ok ())
    (htenders : action.checkTenders = .ok ())
    (hlive : shop.store.live? scope key call.lookedUpAt = some x)
    (hkept : reply.kept? = some (scope, x.payload)) (hsurvives : reply.Survives) :
    shop.act call action = (.ok reply.again, shop) := by
  have hscopes : placingScope ≠ payingScope := by decide
  cases reply with
  | placed o =>
      obtain ⟨rfl, hpayload⟩ := Prod.mk.inj (Option.some.inj hkept)
      have hvalue : valueOf? x.payload = some o.receipt := by
        rw [← hpayload]
        exact valueOf?_payloadOf hsurvives
      rcases Action.exists_of_key? hkey with ⟨-, r, hattempt, rfl⟩ | ⟨hpaying, -⟩
      · change (shop.place call r).reply .placed = _
        rw [place_live (hattempt ▸ hvalid) hattempt hlive hvalue]
        rfl
      · exact absurd hpaying hscopes
  | paid o =>
      obtain ⟨rfl, hpayload⟩ := Prod.mk.inj (Option.some.inj hkept)
      have hvalue : valueOf? x.payload = some o.receipt := by
        rw [← hpayload]
        exact valueOf?_payloadOf hsurvives
      rcases Action.exists_of_key? hkey with ⟨hplacing, -⟩ | ⟨-, id, tenders, rfl⟩
      · exact absurd hplacing hscopes.symm
      · change (shop.pay call id tenders (some key)).reply .paid = _
        rw [pay_live htenders hvalid hlive hvalue]
        rfl
  | _ => cases hkept

/-- A call with tenders that may not be taken is refused before its key is looked up. -/
theorem act_refused {shop : Shop} {action : Action} {e : ShopError}
    (h : action.checkTenders = .error e) : shop.act call action = (.error (.error e), shop) := by
  cases action with
  | operate operation =>
      cases operation with
      | pay id tenders own =>
          change Shop.checkTenders tenders = .error e at h
          have hearlier : earlierPaying shop.store call tenders own = .error e := by
            rw [earlierPaying, h]
            rfl
          change (shop.pay call id tenders own).reply .paid = _
          rw [pay, hearlier]
          rfl
      | _ => cases h
  | _ => cases h

/-- A key does not make a call overflow that would succeed without it. -/
theorem act_no_overflow {shop : Shop} {action : Action} {reply : Reply}
    {expiresAt : Time.Instant} (h : (shop.act call action.unkeyed).1 = .ok reply)
    (hexpiry : shop.settings.lifetime >>= Remembered.expiry call.now = .ok expiresAt)
    (cause : Overflow) : (shop.act call action).1 ≠ .error (.overflow cause) := by
  have hmap {α : Type} {f : α → Reply} {answer : Except (Fault ShopError) α}
      (hanswer : answer ≠ .error (.overflow cause)) :
      answer.map f ≠ .error (.overflow cause) := by
    cases answer with
    | ok a => nofun
    | error fault => exact fun hfault => hanswer (congrArg _ (Except.error.inj hfault))
  cases action with
  | operate operation =>
      cases operation with
      | place r =>
          obtain ⟨o, hok, -⟩ := map_eq_ok.mp h
          exact hmap (place_no_overflow hok hexpiry cause)
      | pay id tenders own =>
          obtain ⟨o, hok, -⟩ := map_eq_ok.mp h
          exact hmap (pay_no_overflow hok hexpiry cause)
      | _ => exact fun hfault => nomatch h.symm.trans hfault
  | _ => exact fun hfault => nomatch h.symm.trans hfault

/-- A call that would succeed without its key answers afresh if it is the first with it. -/
theorem act_first {shop : Shop} {action : Action} {reply : Reply}
    (h : (shop.act call action.unkeyed).1 = .ok reply)
    (hkey : action.key? = some (scope, key)) (hvalid : checkKey (some key) = .ok ())
    (hfirst : IsFirst shop.settings call shop.store scope (some key)) :
    ∃ own, (shop.act call action).1 = .ok own ∧ own.isFresh = true := by
  rcases Action.exists_of_key? hkey with ⟨rfl, r, hattempt, rfl⟩ | ⟨rfl, id, tenders, rfl⟩
  · obtain ⟨o, hok, -⟩ := map_eq_ok.mp h
    obtain ⟨receipt, hplace⟩ := place_first hok (hattempt ▸ hvalid) (hattempt ▸ hfirst)
    exact ⟨_, map_eq_ok.mpr ⟨_, hplace, rfl⟩, rfl⟩
  · obtain ⟨o, hok, -⟩ := map_eq_ok.mp h
    obtain ⟨receipt, hpay⟩ := pay_first hok hvalid hfirst
    exact ⟨_, map_eq_ok.mpr ⟨_, hpay, rfl⟩, rfl⟩

/-- A call overflows where the expiry of its record cannot be told, though it would succeed
without its key. -/
theorem act_overflows {shop : Shop} {action : Action} {reply : Reply} {cause : Overflow}
    (h : (shop.act call action.unkeyed).1 = .ok reply)
    (hkey : action.key? = some (scope, key)) (hvalid : checkKey (some key) = .ok ())
    (hlive : shop.store.live? scope key call.lookedUpAt = none)
    (hexpiry : shop.settings.lifetime >>= Remembered.expiry call.now = .error cause) :
    shop.act call action = (.error (.overflow cause), shop) := by
  rcases Action.exists_of_key? hkey with ⟨rfl, r, hattempt, rfl⟩ | ⟨rfl, id, tenders, rfl⟩
  · obtain ⟨o, hok, -⟩ := map_eq_ok.mp h
    change (shop.place call r).reply .placed = _
    rw [place_overflows hok hattempt hvalid hlive hexpiry]
    rfl
  · obtain ⟨o, hok, -⟩ := map_eq_ok.mp h
    change (shop.pay call id tenders (some key)).reply .paid = _
    rw [pay_overflows hok hvalid hlive hexpiry]
    rfl

end Shop

end OrderLedger
