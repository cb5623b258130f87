import Mathlib.Tactic.Ring
import OrderLedger.Proofs.Calculations
import OrderLedger.Shop.GivingBack
import OrderLedger.Shop.Placing

/-!
The ledger entries of an order's lines. A sale takes the quantity of every line that
moves stock, and giving the stock back returns it; both are one list of entries with a
sign. Summed up by product the entries come to what the lines take, and under the order
and a line they hold the one entry of that line.
-/

namespace OrderLedger

def Line.taken (lines : List Line) (productId : String) : Int :=
  (((Line.moving lines).filter fun l => l.productId == productId).map (·.quantity)).sum

namespace StockEntry

/-- The entries that name an order and a line. -/
def about (entries : List StockEntry) (orderId lineId : String) : List StockEntry :=
  entries.filter fun e =>
    e.provenance.orderId == some orderId && e.provenance.lineId == some lineId

/-- What an entry does, apart from its id, its device and its time. -/
def told (e : StockEntry) : String × Int × Reason := (e.productId, e.delta, e.reason)

theorem deltasOf_append (es more : List StockEntry) (productId : String) :
    deltasOf (es ++ more) productId = deltasOf es productId ++ deltasOf more productId := by
  simp [deltasOf]

theorem about_append (es more : List StockEntry) (orderId lineId : String) :
    about (es ++ more) orderId lineId = about es orderId lineId ++ about more orderId lineId := by
  simp [about]

end StockEntry

namespace Line

theorem taken_append (ls more : List Line) (productId : String) :
    taken (ls ++ more) productId = taken ls productId + taken more productId := by
  simp [taken, moving]

theorem taken_cons (l : Line) (rest : List Line) (productId : String) :
    taken (l :: rest) productId =
      (if l.type.movesStock ∧ l.productId = productId then l.quantity else 0) +
        taken rest productId := by
  by_cases hmoves : l.type.movesStock = true
  · by_cases hproduct : l.productId = productId <;> simp [taken, moving, hmoves, hproduct]
  · simp [taken, moving, hmoves]

end Line

namespace Shop

open Calculation

def lineEntry (settings : Settings) (now : Time.Instant) (id orderId : String) (reason : Reason)
    (sign : Int) (l : Line) : StockEntry :=
  { id
    productId := l.productId
    delta := sign * l.quantity
    reason
    provenance := (Provenance.ofLine orderId l.id).onDevice settings.deviceId
    createdAt := now }

def lineEntries (settings : Settings) (now : Time.Instant) (ids : Nat → String)
    (orderId : String) (reason : Reason) (sign : Int) (lines : List Line) : List StockEntry :=
  (Line.moving lines).zipIdx.map fun (l, n) =>
    lineEntry settings now (ids n) orderId reason sign l

variable {settings : Settings} {now : Time.Instant} {ids : Nat → String} {orderId : String}
  {reason : Reason} {sign : Int} {lines : List Line} {es : List StockEntry}

theorem ofLines_eq_ok {movements : List Movement} (h : Movement.ofLines lines = .ok movements) :
    movements = (Line.moving lines).map fun l => ⟨l.productId, l.id, -l.quantity⟩ := by
  apply mapM_eq_map _ _ h
  intro l _ m hm
  obtain ⟨delta, hdelta, rfl⟩ := map_eq_ok.mp hm
  rw [(negate_eq_ok.mp hdelta).2]

theorem entriesFor_eq_ok {delta : Movement → Except Overflow Int}
    (hdelta : ∀ m n, delta m = .ok n → n = -sign * m.delta)
    (h : entriesFor settings now ids orderId reason delta
      ((Line.moving lines).map fun l => ⟨l.productId, l.id, -l.quantity⟩) = .ok es) :
    es = lineEntries settings now ids orderId reason sign lines := by
  have hvalues := mapM_eq_map
    (fun p : Movement × Nat =>
      ({ id := ids p.2
         productId := p.1.productId
         delta := -sign * p.1.delta
         reason
         provenance := (Provenance.ofLine orderId p.1.lineId).onDevice settings.deviceId
         createdAt := now } : StockEntry)) ?_ h
  · rw [hvalues, List.zipIdx_map, List.map_map]
    apply List.map_congr_left
    rintro ⟨l, n⟩ _
    simp [lineEntry]
  · rintro ⟨m, n⟩ _ e he
    rw [bind_eq_ok] at he
    obtain ⟨d, hd, he⟩ := he
    rw [hdelta m d hd] at he
    exact pure_eq_ok.mp he

theorem sales_eq_ok {call : Call} {d : Draft} (h : sales settings call d = .ok es) :
    es = lineEntries settings call.now (fun n => call.ids (d.lines.length + 1 + n)) d.order.id
      .sale (-1) d.lines := by
  rw [sales, bind_eq_ok] at h
  obtain ⟨movements, hmovements, h⟩ := h
  rw [ofLines_eq_ok hmovements] at h
  apply entriesFor_eq_ok _ h
  intro m n hn
  cases hn
  ring

/-- What is given back for lines is what they had taken. -/
theorem restocks_eq_ok (h : restocks settings now ids orderId lines reason = .ok es) :
    es = lineEntries settings now ids orderId reason 1 lines := by
  rw [restocks, bind_eq_ok] at h
  obtain ⟨movements, hmovements, h⟩ := h
  rw [ofLines_eq_ok hmovements] at h
  apply entriesFor_eq_ok _ h
  intro m n hn
  rw [(negate_eq_ok.mp hn).2]
  ring

/-- Quantities that a cart may ask for can be turned into movements. -/
theorem ofLines_of_quantities (h : ∀ l ∈ lines, 0 < l.quantity ∧ l.quantity ≤ 999) :
    Movement.ofLines lines =
      .ok ((Line.moving lines).map fun l => ⟨l.productId, l.id, -l.quantity⟩) := by
  apply mapM_of_eq_ok
  intro l hl
  have hquantity := h l (List.mem_of_mem_filter hl)
  have hfits : Word.Fits (-l.quantity) := by
    simp only [Word.Fits, Word.least, Word.greatest]
    omega
  rw [Movement.ofLine, negate_eq_ok.mpr ⟨hfits, rfl⟩]
  rfl

theorem entriesFor_of_eq_ok {delta : Movement → Except Overflow Int}
    (hdelta : ∀ l ∈ lines, delta ⟨l.productId, l.id, -l.quantity⟩ = .ok (sign * l.quantity)) :
    entriesFor settings now ids orderId reason delta
      ((Line.moving lines).map fun l => ⟨l.productId, l.id, -l.quantity⟩) =
      .ok (lineEntries settings now ids orderId reason sign lines) := by
  rw [entriesFor, lineEntries, List.zipIdx_map, List.mapM_map]
  apply mapM_of_eq_ok
  rintro ⟨l, n⟩ hl
  have hmem := List.mem_of_mem_filter (List.fst_mem_of_mem_zipIdx hl)
  simp only [Function.comp_apply, Prod.map_apply, id_eq, hdelta l hmem]
  rfl

theorem restocks_of_quantities (h : ∀ l ∈ lines, 0 < l.quantity ∧ l.quantity ≤ 999) :
    restocks settings now ids orderId lines reason =
      .ok (lineEntries settings now ids orderId reason 1 lines) := by
  rw [restocks, bind_eq_ok]
  refine ⟨_, ofLines_of_quantities h, ?_⟩
  apply entriesFor_of_eq_ok
  intro l hl
  have hquantity := h l hl
  rw [negate_eq_ok, one_mul, neg_neg]
  simp only [Word.Fits, Word.least, Word.greatest, and_true]
  omega

theorem sales_of_quantities {call : Call} {d : Draft}
    (h : ∀ l ∈ d.lines, 0 < l.quantity ∧ l.quantity ≤ 999) :
    sales settings call d = .ok (lineEntries settings call.now
      (fun n => call.ids (d.lines.length + 1 + n)) d.order.id .sale (-1) d.lines) := by
  rw [sales, bind_eq_ok]
  refine ⟨_, ofLines_of_quantities h, ?_⟩
  apply entriesFor_of_eq_ok
  intro l _
  rw [neg_one_mul]

theorem ids_lineEntries :
    (lineEntries settings now ids orderId reason sign lines).map (·.id) =
      (List.range (Line.moving lines).length).map ids := by
  rw [lineEntries, List.map_map, List.range_eq_range', ← List.zipIdx_map_snd, List.map_map]
  rfl

private theorem sum_deltas_zipIdx (ls : List Line) (start : Nat) (productId : String) :
    (StockEntry.deltasOf ((ls.zipIdx start).map fun (l, n) =>
        lineEntry settings now (ids n) orderId reason sign l) productId).sum =
      sign * ((ls.filter fun l => l.productId == productId).map (·.quantity)).sum := by
  induction ls generalizing start with
  | nil => simp [StockEntry.deltasOf]
  | cons l rest ih =>
      have hrest := ih (start + 1)
      simp only [StockEntry.deltasOf] at hrest ⊢
      by_cases hproduct : l.productId = productId
      · simp [lineEntry, hproduct, mul_add, ← hrest]
      · simp [lineEntry, hproduct, ← hrest]

/-- By product, the entries come to what the lines take, times the sign. -/
theorem sum_deltas_lineEntries (productId : String) :
    (StockEntry.deltasOf (lineEntries settings now ids orderId reason sign lines) productId).sum =
      sign * Line.taken lines productId :=
  sum_deltas_zipIdx (Line.moving lines) 0 productId

private theorem told_about_zipIdx (ls : List Line) (start : Nat) (lineId : String) :
    (StockEntry.about ((ls.zipIdx start).map fun (l, n) =>
        lineEntry settings now (ids n) orderId reason sign l) orderId lineId).map
        StockEntry.told =
      (ls.filter fun l => l.id == lineId).map fun l =>
        (l.productId, sign * l.quantity, reason) := by
  induction ls generalizing start with
  | nil => simp [StockEntry.about]
  | cons l rest ih =>
      have hrest := ih (start + 1)
      simp only [StockEntry.about] at hrest ⊢
      by_cases hid : l.id = lineId
      · simp [lineEntry, Provenance.ofLine, Provenance.onDevice, StockEntry.told, hid, ← hrest]
      · simp [lineEntry, Provenance.ofLine, Provenance.onDevice, hid, ← hrest]

theorem filter_id_eq_singleton {ls : List Line} {l : Line} (hids : (ls.map (·.id)).Nodup)
    (hl : l ∈ ls) : (ls.filter fun m => m.id == l.id) = [l] := by
  induction ls with
  | nil => cases hl
  | cons m rest ih =>
      rw [List.map_cons, List.nodup_cons] at hids
      rcases List.mem_cons.mp hl with rfl | hl
      · have hnone : rest.filter (fun m => m.id == l.id) = [] := by
          rw [List.filter_eq_nil_iff]
          intro m hm
          rw [beq_iff_eq]
          intro hid
          exact hids.1 (hid ▸ List.mem_map_of_mem hm)
        simp [hnone]
      · have hne : m.id ≠ l.id := by
          intro hid
          exact hids.1 (hid ▸ List.mem_map_of_mem hl)
        simp [hne, ih hids.2 hl]

/-- Under its order and itself, a line that moves stock has one entry and any other line
has none. -/
theorem told_about_lineEntries {l : Line} (hids : (lines.map (·.id)).Nodup) (hl : l ∈ lines) :
    (StockEntry.about (lineEntries settings now ids orderId reason sign lines) orderId l.id).map
        StockEntry.told =
      if l.type.movesStock then [(l.productId, sign * l.quantity, reason)] else [] := by
  rw [lineEntries, told_about_zipIdx, Line.moving, List.filter_filter]
  have hcomm : (lines.filter fun m => m.id == l.id && m.type.movesStock) =
      (lines.filter fun m => m.id == l.id).filter fun m => m.type.movesStock := by
    rw [List.filter_filter]
    apply List.filter_congr
    intro m _
    exact Bool.and_comm _ _
  rw [hcomm, filter_id_eq_singleton hids hl]
  by_cases hmoves : l.type.movesStock = true <;> simp [hmoves]

/-- Every entry of lines names their order. -/
theorem orderId_of_mem_lineEntries {e : StockEntry}
    (he : e ∈ lineEntries settings now ids orderId reason sign lines) :
    e.provenance.orderId = some orderId := by
  obtain ⟨⟨l, n⟩, -, rfl⟩ := List.mem_map.mp he
  rfl

end Shop

end OrderLedger
