import OrderLedger.Proofs.Calculations
import OrderLedger.Proofs.Toml.Documents
import OrderLedger.Settings.File

/-!
Settings that are saved and loaded again. What is saved says everything, so a file brings back
the settings that were saved; a variable of the environment then replaces its own setting, if it
can be understood; and what comes of it must be valid, or is not loaded at all.
-/

namespace OrderLedger

open Text Calculation

namespace Settings

variable {α : Type} {s r : Settings} {env : Environment} {e : SettingsError} {text : String}

/-- The numbers of the settings are no greater than their fields and a file can hold. -/
structure IsKept (s : Settings) : Prop where
  maxConnections : (s.maxConnections : Int) ≤ Word.unsigned32
  busySeconds : (s.busySeconds : Int) ≤ Word.greatest
  lifetimeSeconds : (s.lifetimeSeconds : Int) ≤ Word.greatest
  buffer : (s.buffer : Int) ≤ Word.greatest

/-! ## The file -/

theorem IsKept.connections_le (h : s.IsKept) : (s.maxConnections : Int) ≤ Word.greatest :=
  Int.le_trans h.maxConnections (by decide)

theorem isWritable_of_isKept (h : s.IsKept) : s.isWritable = true := by
  simp [isWritable, h.connections_le, h.busySeconds, h.lifetimeSeconds, h.buffer]

def tableNames : List String := ["database", "idempotency", "stock", "hub", "device"]

def memberNames : List String :=
  ["path", "max_connections", "busy_timeout_secs", "ttl_secs", "policy", "buffer", "id"]

theorem isPlain_of_names {name : String} {members : List (String × Toml.Scalar)}
    (hname : name ∈ tableNames) (hkeys : members.map (·.1) ⊆ memberNames)
    (hdistinct : (members.map (·.1)).Nodup) (hvalues : ∀ m ∈ members, m.2.Fits) :
    Toml.IsPlain (name, members) := by
  have htables : ∀ name ∈ tableNames, Toml.IsBare name := by decide
  have hmembers : ∀ key ∈ memberNames, Toml.IsBare key := by decide
  exact ⟨htables name hname, fun key hkey => hmembers key (hkeys hkey), hdistinct, hvalues⟩

/-- What is saved are tables with plain names and with numbers that are read again. -/
theorem isPlain_tables (h : s.IsKept) : ∀ table ∈ s.tables, Toml.IsPlain table := by
  have hfits {n : Nat} (hn : (n : Int) ≤ Word.greatest) : (Toml.Scalar.number n).Fits :=
    ⟨Int.le_trans (by decide) (Int.natCast_nonneg n), hn⟩
  have hdatabase : ∀ m ∈ [("path", Toml.Scalar.text s.path),
      ("max_connections", .number s.maxConnections),
      ("busy_timeout_secs", .number s.busySeconds)], m.2.Fits :=
    List.forall_mem_cons.mpr ⟨trivial, List.forall_mem_cons.mpr
      ⟨hfits h.connections_le, List.forall_mem_singleton.mpr (hfits h.busySeconds)⟩⟩
  have hdevice : Toml.IsPlain
      ("device", (s.deviceId.map fun id => ("id", Toml.Scalar.text id)).toList) := by
    cases s.deviceId with
    | none => exact isPlain_of_names (by decide) (by simp) (by simp) (by simp)
    | some id =>
        exact isPlain_of_names (by decide) (by simp [memberNames]) (by simp)
          (List.forall_mem_singleton.mpr trivial)
  unfold tables
  simp only [List.forall_mem_cons, List.not_mem_nil, false_implies, implies_true, and_true]
  refine ⟨isPlain_of_names (by decide) ?_ ?_ hdatabase,
    isPlain_of_names (by decide) ?_ ?_ (List.forall_mem_singleton.mpr (hfits h.lifetimeSeconds)),
    isPlain_of_names (by decide) ?_ ?_ (List.forall_mem_singleton.mpr trivial),
    isPlain_of_names (by decide) ?_ ?_ (List.forall_mem_singleton.mpr (hfits h.buffer)), hdevice⟩
  all_goals simp [memberNames]

theorem decodeNat?_int {greatest : Int} {n : Nat} (h : (n : Int) ≤ greatest) :
    decodeNat? greatest (.int n) = some n := by
  rw [decodeNat?, Wire.decodeInt?, if_pos ⟨Int.natCast_nonneg n, h⟩, Option.map_some,
    Int.toNat_natCast]

/-- Settings are read from their sections, one member after another. -/
theorem Format.settings?_of_sections {format : Format} {j : Json}
    {members database idempotency stock hub device : Members}
    (hmembers : format.members? ["database", "idempotency", "stock", "hub", "device"] j =
      some members)
    (hdatabase : format.section? members "database"
      ["path", "max_connections", "busy_timeout_secs"] = some database)
    (hidempotency : format.section? members "idempotency" ["ttl_secs"] = some idempotency)
    (hstock : format.section? members "stock" ["policy"] = some stock)
    (hhub : format.section? members "hub" ["buffer"] = some hub)
    (hdevice : format.section? members "device" ["id"] = some device)
    (hpolicy : (stock.lookup "policy").elim (some standard.policy) format.policy? = some s.policy)
    (hpath : database.defaulted? "path" standard.path = some s.path)
    (hconnections : numberOr? Word.unsigned32 database "max_connections" standard.maxConnections =
      some s.maxConnections)
    (hbusy : numberOr? Word.unsigned64 database "busy_timeout_secs" standard.busySeconds =
      some s.busySeconds)
    (hlifetime : numberOr? Word.unsigned64 idempotency "ttl_secs" standard.lifetimeSeconds =
      some s.lifetimeSeconds)
    (hbuffer : numberOr? Word.unsigned64 hub "buffer" standard.buffer = some s.buffer)
    (hid : device.optional? "id" = some s.deviceId) : format.settings? j = some s := by
  refine Option.bind_eq_some_iff.mpr ⟨members, hmembers, ?_⟩
  refine Option.bind_eq_some_iff.mpr ⟨database, hdatabase, ?_⟩
  refine Option.bind_eq_some_iff.mpr ⟨idempotency, hidempotency, ?_⟩
  refine Option.bind_eq_some_iff.mpr ⟨stock, hstock, ?_⟩
  refine Option.bind_eq_some_iff.mpr ⟨hub, hhub, ?_⟩
  refine Option.bind_eq_some_iff.mpr ⟨device, hdevice, ?_⟩
  cases hlookup : stock.lookup "policy"
  all_goals
    rw [hlookup] at hpolicy
    refine Option.bind_eq_some_iff.mpr ⟨s.policy, hpolicy, ?_⟩
    refine Option.bind_eq_some_iff.mpr ⟨s.path, hpath, ?_⟩
    refine Option.bind_eq_some_iff.mpr ⟨s.maxConnections, hconnections, ?_⟩
    refine Option.bind_eq_some_iff.mpr ⟨s.busySeconds, hbusy, ?_⟩
    refine Option.bind_eq_some_iff.mpr ⟨s.lifetimeSeconds, hlifetime, ?_⟩
    refine Option.bind_eq_some_iff.mpr ⟨s.buffer, hbuffer, ?_⟩
    exact Option.bind_eq_some_iff.mpr ⟨s.deviceId, hid, rfl⟩

theorem ofFile?_documentChars (h : s.IsKept) :
    ofFile? (String.ofList (Toml.documentChars s.tables)) = some s := by
  have hnames : (s.tables.map (·.1)).Nodup := by
    change tableNames.Nodup
    decide
  have hwide {n : Nat} (hn : (n : Int) ≤ Word.greatest) : (n : Int) ≤ Word.unsigned64 :=
    Int.le_trans hn (by decide)
  rw [ofFile?, Toml.ofText?_document (isPlain_tables h) hnames, Option.bind_some]
  refine Format.settings?_of_sections rfl rfl rfl rfl rfl rfl ?_ rfl
    (decodeNat?_int h.maxConnections) (decodeNat?_int (hwide h.busySeconds))
    (decodeNat?_int (hwide h.lifetimeSeconds)) (decodeNat?_int (hwide h.buffer)) ?_
  · change Named.ofName? (Named.name s.policy) = some s.policy
    cases s.policy <;> rfl
  · cases s.deviceId <;> rfl

theorem save_eq_ok (h : s.IsKept) :
    s.save = .ok (String.ofList (Toml.documentChars s.tables)) := by
  rw [save, if_pos (isWritable_of_isKept h)]

/-! ## The environment -/

/-- Digits after a plus or none, for a number of at most `greatest`. -/
def Denotes (greatest : Int) (text : String) (n : Nat) : Prop :=
  (n : Int) ≤ greatest ∧ ∃ ds, (text.toList = ds ∨ text.toList = '+' :: ds) ∧ ds ≠ [] ∧
    ds.all Decimal.isDigit = true ∧ Decimal.value ds = n

/-- A variable replaces a setting by what its text is read as. A variable that is not set, or has
a text that is read as nothing, leaves the setting. -/
def Replaces (reads : String → α → Prop) (given : Option String) (old new : α) : Prop :=
  (∃ text, given = some text ∧ reads text new) ∨
    (∀ text, given = some text → ∀ a, ¬ reads text a) ∧ new = old

/-- Settings under an environment: each variable may replace its own setting, and nothing replaces
the time that a statement waits. -/
structure OverriddenBy (env : Environment) (s r : Settings) : Prop where
  path : Replaces (fun text path => path = text) (env .path) s.path r.path
  maxConnections : Replaces (Denotes Word.unsigned32) (env .maxConnections) s.maxConnections
    r.maxConnections
  busySeconds : r.busySeconds = s.busySeconds
  lifetimeSeconds : Replaces (Denotes Word.unsigned64) (env .lifetime) s.lifetimeSeconds
    r.lifetimeSeconds
  policy : Replaces (fun text policy => OversellPolicy.ofText text = .ok policy) (env .policy)
    s.policy r.policy
  buffer : Replaces (Denotes Word.unsigned64) (env .buffer) s.buffer r.buffer
  deviceId : Replaces (fun text id => id = some text) (env .device) s.deviceId r.deviceId

theorem number?_eq_some_iff {greatest : Int} {n : Nat} :
    number? greatest text = some n ↔ Denotes greatest text n := by
  rw [number?, Option.filter_eq_some_iff, Decimal.unsigned?_eq_some_iff, decide_eq_true_eq,
    and_comm]
  rfl

theorem replaces_iff {reads : String → α → Prop} {read? : String → Option α}
    (hreads : ∀ text a, read? text = some a ↔ reads text a) {given : Option String} {old new : α} :
    Replaces reads given old new ↔ new = (given.bind read?).getD old := by
  unfold Replaces
  simp only [← hreads]
  cases given with
  | none => simp
  | some text =>
      cases hread : read? text with
      | none => simp [hread]
      | some a => simp [hread, eq_comm]

/-- There is one way to apply an environment to settings. -/
theorem overriddenBy_iff : OverriddenBy env s r ↔ r = s.override env := by
  have hnumber {greatest : Int} {given : Option String} {old new : Nat} :
      Replaces (Denotes greatest) given old new ↔
        new = (given.bind (number? greatest)).getD old :=
    replaces_iff fun _ _ => number?_eq_some_iff
  have hpath : Replaces (fun text path => path = text) (env .path) s.path r.path ↔
      r.path = (env .path).getD s.path := by
    have hread (text path : String) : some text = some path ↔ path = text := by
      rw [Option.some.injEq, eq_comm]
    rw [replaces_iff hread, Option.bind_fun_some]
  have hpolicy : Replaces (fun text policy => OversellPolicy.ofText text = .ok policy)
      (env .policy) s.policy r.policy ↔
      r.policy = ((env .policy).bind fun text => (OversellPolicy.ofText text).toOption).getD
        s.policy := by
    refine replaces_iff fun text policy => ?_
    cases OversellPolicy.ofText text <;> simp [Except.toOption]
  have hdevice : Replaces (fun text id => id = some text) (env .device) s.deviceId r.deviceId ↔
      r.deviceId = (env .device).or s.deviceId := by
    have hread (text : String) (id : Option String) :
        some (some text) = some id ↔ id = some text := by
      rw [Option.some.injEq, eq_comm]
    rw [replaces_iff hread]
    cases env .device <;> rfl
  constructor
  · intro h
    cases r
    exact (Settings.mk.injEq ..).mpr ⟨hpath.mp h.path, hnumber.mp h.maxConnections, h.busySeconds,
      hnumber.mp h.lifetimeSeconds, hpolicy.mp h.policy, hnumber.mp h.buffer,
      hdevice.mp h.deviceId⟩
  · rintro rfl
    exact ⟨hpath.mpr rfl, hnumber.mpr rfl, rfl, hnumber.mpr rfl,
      hpolicy.mpr rfl, hnumber.mpr rfl, hdevice.mpr rfl⟩

/-! ## Loading -/

/-- What may be wrong with the values of settings. -/
def invalidities : List SettingsError :=
  [.emptyPath, .noConnections, .noLifetime, .noBuffer, .blankDevice]

/-- Settings that a shop can be opened with. -/
structure IsValid (s : Settings) : Prop where
  path : s.path ≠ ""
  maxConnections : 0 < s.maxConnections
  lifetimeSeconds : 0 < s.lifetimeSeconds
  buffer : 0 < s.buffer
  deviceId : ∀ id, s.deviceId = some id → isBlank id = false

theorem validate_eq_ok : s.validate = .ok () ↔ s.IsValid := by
  have hid : ¬ s.deviceId.any isBlank = true ↔ ∀ id, s.deviceId = some id → isBlank id = false := by
    cases s.deviceId with
    | none => simp
    | some id => simp
  rw [validate, refuse_eq_ok, refuse_eq_ok, refuse_eq_ok, refuse_eq_ok, refuse_eq_ok,
    and_iff_left rfl, String.isEmpty_iff, hid]
  constructor
  · rintro ⟨hpath, hmax, hlifetime, hbuffer, hdevice⟩
    exact ⟨hpath, Nat.pos_of_ne_zero hmax, Nat.pos_of_ne_zero hlifetime,
      Nat.pos_of_ne_zero hbuffer, hdevice⟩
  · intro h
    exact ⟨h.path, Nat.ne_of_gt h.maxConnections, Nat.ne_of_gt h.lifetimeSeconds,
      Nat.ne_of_gt h.buffer, h.deviceId⟩

theorem validate_eq_error (h : s.validate = .error e) : e ∈ invalidities := by
  unfold validate at h
  split at h
  · cases h
    decide
  split at h
  · cases h
    decide
  split at h
  · cases h
    decide
  split at h
  · cases h
    decide
  split at h
  · cases h
    decide
  · cases h

/-- What is saved is loaded as it was, under the environment, if that leaves it valid. -/
theorem load_saved (h : s.IsKept) (env : Environment) :
    load (.file (String.ofList (Toml.documentChars s.tables))) env =
      (s.override env).validate.map fun _ => s.override env := by
  rw [load, ofSource, ofFile?_documentChars h]
  change ((s.override env).validate >>= fun _ => .ok (s.override env)) = _
  cases (s.override env).validate <;> rfl

/-- Settings that a file and the numbers of their fields can hold are saved, and loaded again under
any environment. Each variable has replaced its own setting, if its text is understood, and the
result is loaded if it is valid. If not, it is said what is wrong with it, and the standard
settings stand in for it. -/
theorem saved_settings_load (h : s.IsKept) (env : Environment) :
    ∃ text r, s.save = .ok text ∧ (∀ other, OverriddenBy env s other ↔ other = r) ∧
      (r.IsValid → load (.file text) env = .ok r ∧ loadOrStandard (.file text) env = r) ∧
      (¬ r.IsValid → (∃ e ∈ invalidities, load (.file text) env = .error e) ∧
        loadOrStandard (.file text) env = standard) ∧
      (s.IsValid → load (.file text) (fun _ => none) = .ok s) := by
  refine ⟨_, s.override env, save_eq_ok h, fun other => overriddenBy_iff, ?_, ?_, ?_⟩
  · intro hvalid
    have hload := load_saved h env
    rw [validate_eq_ok.mpr hvalid] at hload
    exact ⟨hload, by rw [loadOrStandard, hload]; rfl⟩
  · intro hinvalid
    have hload := load_saved h env
    cases hvalidate : (s.override env).validate with
    | ok u => exact absurd (validate_eq_ok.mp hvalidate) hinvalid
    | error e =>
        rw [hvalidate] at hload
        exact ⟨⟨e, validate_eq_error hvalidate, hload⟩, by rw [loadOrStandard, hload]; rfl⟩
  · intro hvalid
    have hload := load_saved h fun _ => none
    have hsame : s.override (fun _ => none) = s := rfl
    rw [hsame, validate_eq_ok.mpr hvalid] at hload
    exact hload

/-- Settings of a till that has a path with quotes, line ends and a control character, and a name
that is blank. -/
def tillSettings : Settings :=
  { standard with path := "to \"the\"\n\"\"\"bar's\"\x07\\", deviceId := some "\t" }

/-- The environment gives the till its name and more connections, and a lifetime that is not
understood. -/
def tillEnvironment : Environment
  | .maxConnections => some "+07"
  | .lifetime => some "1 day"
  | .policy => some "Reject-Insufficient"
  | .device => some "till '1'"
  | _ => none

/-- The settings of the till are loaded under its environment, and not without it. -/
theorem load_tillSettings :
    tillSettings.IsKept ∧ ∃ text, tillSettings.save = .ok text ∧
      load (.file text) tillEnvironment = .ok
        { tillSettings with maxConnections := 7, policy := .refuse, deviceId := some "till '1'" } ∧
      loadOrStandard (.file text) (fun _ => none) = standard := by
  have hkept : tillSettings.IsKept := ⟨by decide, by decide, by decide, by decide⟩
  have hrepaired : OverriddenBy tillEnvironment tillSettings
      { tillSettings with
        maxConnections := 7, policy := .refuse, deviceId := some "till '1'" } :=
    overriddenBy_iff.mpr (by decide +kernel)
  have hsame : OverriddenBy (fun _ => none) tillSettings tillSettings := overriddenBy_iff.mpr rfl
  have hblank : ¬ tillSettings.IsValid := fun h => by
    cases h.deviceId "\t" rfl
  obtain ⟨text, r, hsave, hunique, hload, -, -⟩ := saved_settings_load hkept tillEnvironment
  obtain ⟨text', r', hsave', hunique', -, hrefused, -⟩ := saved_settings_load hkept fun _ => none
  have htext : text' = text := by
    rw [hsave] at hsave'
    exact (Except.ok.inj hsave').symm
  subst htext
  rw [← (hunique _).mp hrepaired] at hload
  rw [← (hunique' _).mp hsame] at hrefused
  have hvalid : IsValid { tillSettings with
      maxConnections := 7, policy := .refuse, deviceId := some "till '1'" } :=
    validate_eq_ok.mp (by decide +kernel)
  exact ⟨hkept, text', hsave, (hload hvalid).1, (hrefused hblank).2⟩

end Settings

end OrderLedger
