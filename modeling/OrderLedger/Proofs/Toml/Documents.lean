import OrderLedger.Proofs.Toml.Lines

/-!
A document of tables is read back as the object of these tables. Its lines are read one after
another, and each statement adds to the tables that are there: a header opens a table behind the
others, and a key is set in the table that was opened last.
-/

namespace OrderLedger.Toml

open OrderLedger.Text

variable {name key : String} {members : List (String × Scalar)} {line rest : List Char}
  {statement : Statement} {fuel : Nat} {earlier below : Entries} {node : Node}

/-- A table that is written with its header and its members, each on one line. -/
structure IsPlain (table : String × List (String × Scalar)) : Prop where
  name : IsBare table.1
  keys : ∀ key ∈ table.2.map (·.1), IsBare key
  distinct : (table.2.map (·.1)).Nodup
  values : ∀ m ∈ table.2, m.2.Fits

/-- The statements of a table. -/
def statementsOf (table : String × List (String × Scalar)) : List Statement :=
  .table [] table.1 :: table.2.map fun m => .set m.1 [] m.2.toJson

/-! ## Reading the lines -/

theorem statements?_blank (fuel : Nat) (cs : List Char) :
    statements? fuel ('\n' :: cs) = statements? fuel cs := by
  cases fuel <;> rfl

/-- One line is read, and then the lines that follow. -/
theorem statements?_line (h : Says line statement) (fuel : Nat) (rest : List Char) :
    statements? (fuel + 1) (line ++ '\n' :: rest) =
      (statements? fuel rest).map (statement :: ·) := by
  obtain ⟨c, tail, rfl, hblank, hline, hreturn, hcomment⟩ := h.begins
  have hread := h.read rest
  have hskip : skipLines false (c :: (tail ++ '\n' :: rest)) = c :: (tail ++ '\n' :: rest) := by
    rw [skipLines]
    · simp [hblank, hcomment]
    all_goals
      intros
      contradiction
  have hafter : afterLine? ('\n' :: rest) = some rest := rfl
  rw [List.cons_append] at hread ⊢
  rw [statements?, hskip]
  simp only [hread, hafter, Option.bind_eq_bind, Option.bind_some]
  cases statements? fuel rest <;> rfl

theorem statements?_members (hkeys : ∀ m ∈ members, IsBare m.1) (hvalues : ∀ m ∈ members, m.2.Fits)
    (fuel : Nat) (rest : List Char) :
    statements? (fuel + members.length) ((members.flatMap fun m => memberLine m.1 m.2) ++ rest) =
      (statements? fuel rest).map
        ((members.map fun m => Statement.set m.1 [] m.2.toJson) ++ ·) := by
  induction members with
  | nil => cases h : statements? fuel rest <;> simp [h]
  | cons m more ih =>
      obtain ⟨hkey, hkeys⟩ := List.forall_mem_cons.mp hkeys
      obtain ⟨hvalue, hvalues⟩ := List.forall_mem_cons.mp hvalues
      have hwritten : ((m :: more).flatMap fun m => memberLine m.1 m.2) ++ rest =
          m.1.toList ++ " = ".toList ++ m.2.chars ++ '\n' ::
            ((more.flatMap fun m => memberLine m.1 m.2) ++ rest) := by
        simp [memberLine]
      rw [hwritten, List.length_cons, ← Nat.add_assoc, statements?_line (says_member hkey hvalue),
        ih hkeys hvalues, Option.map_map]
      rfl

theorem statements?_table {table : String × List (String × Scalar)} (h : IsPlain table)
    (fuel : Nat) (rest : List Char) :
    statements? (fuel + (statementsOf table).length) (tableChars table.1 table.2 ++ rest) =
      (statements? fuel rest).map (statementsOf table ++ ·) := by
  have hwritten : tableChars table.1 table.2 ++ rest = '[' :: table.1.toList ++ [']'] ++ '\n' ::
      ((table.2.flatMap fun m => memberLine m.1 m.2) ++ rest) := by
    simp [tableChars]
  have hlength : (statementsOf table).length = table.2.length + 1 := by
    simp [statementsOf]
  rw [hwritten, hlength, ← Nat.add_assoc, statements?_line (says_header h.name),
    statements?_members (List.forall_mem_map.mp h.keys) h.values, Option.map_map]
  rfl

theorem statements?_document {tables : List (String × List (String × Scalar))}
    (h : ∀ table ∈ tables, IsPlain table) (fuel : Nat) :
    statements? (fuel + 1 + (tables.flatMap statementsOf).length) (documentChars tables) =
      some (tables.flatMap statementsOf) := by
  induction tables with
  | nil => rfl
  | cons table more ih =>
      obtain ⟨htable, hmore⟩ := List.forall_mem_cons.mp h
      -- Behind the last table there is nothing, and behind another one an empty line.
      have hrest : ∃ rest, documentChars (table :: more) = tableChars table.1 table.2 ++ rest ∧
          statements? (fuel + 1 + (more.flatMap statementsOf).length) rest =
            some (more.flatMap statementsOf) := by
        cases more with
        | nil => exact ⟨[], (List.append_nil _).symm, rfl⟩
        | cons next others => exact ⟨_, rfl, (statements?_blank _ _).trans (ih hmore)⟩
      obtain ⟨rest, hwritten, hread⟩ := hrest
      rw [hwritten, List.flatMap_cons, List.length_append, Nat.add_comm (statementsOf table).length,
        ← Nat.add_assoc, statements?_table htable, hread, Option.map_some]

/-- A statement is written in one character at least, so a document is long enough to be read. -/
theorem length_statementsOf_le (table : String × List (String × Scalar)) :
    (statementsOf table).length ≤ (tableChars table.1 table.2).length := by
  have hmembers (members : List (String × Scalar)) :
      members.length ≤ (members.flatMap fun m => memberLine m.1 m.2).length := by
    induction members with
    | nil => exact Nat.le_refl 0
    | cons m more ih =>
        rw [List.flatMap_cons, List.length_append, List.length_cons, memberLine, List.length_append,
          List.length_singleton]
        omega
  have := hmembers table.2
  rw [statementsOf, tableChars]
  simp only [List.length_cons, List.length_map, List.length_append]
  omega

theorem length_flatMap_statementsOf_le (tables : List (String × List (String × Scalar))) :
    (tables.flatMap statementsOf).length ≤ (documentChars tables).length := by
  induction tables with
  | nil => exact Nat.le_refl 0
  | cons table more ih =>
      have htable := length_statementsOf_le table
      rw [List.flatMap_cons, List.length_append]
      cases more with
      | nil => simpa [documentChars] using htable
      | cons next others =>
          change _ ≤ (tableChars table.1 table.2 ++ '\n' :: documentChars (next :: others)).length
          rw [List.length_append, List.length_cons]
          omega

/-! ## Building the tables -/

theorem lookup_new (h : name ∉ earlier.map (·.1)) : earlier.lookup name = none := by
  rw [List.lookup_eq_none_iff]
  intro entry hentry
  exact bne_iff_ne.mpr fun heq => h (heq ▸ List.mem_map_of_mem hentry)

theorem lookup_last (h : name ∉ earlier.map (·.1)) :
    (earlier ++ [(name, node)]).lookup name = some node := by
  rw [List.lookup_append, lookup_new h, Option.none_or, List.lookup_cons_self]

theorem any_new (h : name ∉ earlier.map (·.1)) : earlier.any (·.1 == name) = false := by
  rw [List.any_eq_false]
  intro entry hentry heq
  exact h (beq_iff_eq.mp heq ▸ List.mem_map_of_mem hentry)

theorem put_new (h : name ∉ earlier.map (·.1)) :
    Entries.put earlier name node = earlier ++ [(name, node)] := by
  rw [Entries.put, any_new h, if_neg Bool.false_ne_true]

theorem put_last (h : name ∉ earlier.map (·.1)) (other : Node) :
    Entries.put (earlier ++ [(name, node)]) name other = earlier ++ [(name, other)] := by
  have hlast : (earlier ++ [(name, node)]).any (·.1 == name) = true := by simp
  have hothers : (earlier.map fun entry => if entry.1 == name then (name, other) else entry) =
      earlier := by
    refine (List.map_congr_left fun entry hentry => ?_).trans (List.map_id earlier)
    have hne : entry.1 ≠ name := fun heq => h (heq ▸ List.mem_map_of_mem hentry)
    exact if_neg (by simpa using hne)
  rw [Entries.put, if_pos hlast, List.map_append, hothers, List.map_singleton,
    if_pos (beq_self_eq_true name)]

/-- A header opens a table behind the others. -/
theorem step?_table (h : name ∉ earlier.map (·.1)) (opened : List String) :
    Progress.step? ⟨earlier, opened⟩ (.table [] name) =
      some ⟨earlier ++ [(name, .table .header [])], [name]⟩ := by
  rw [Progress.step?, Entries.within?, Entries.openTable?, lookup_new h]
  simp only [put_new h]
  rfl

/-- A key is set in the last table, if that is open. -/
theorem step?_set (h : name ∉ earlier.map (·.1)) (hkey : key ∉ below.map (·.1)) (j : Json) :
    Progress.step? ⟨earlier ++ [(name, .table .header below)], [name]⟩ (.set key [] j) =
      some ⟨earlier ++ [(name, .table .header (below ++ [(key, .value j)]))], [name]⟩ := by
  rw [Progress.step?, Entries.within?, lookup_last h]
  simp only [Entries.within?, Entries.set?, any_new hkey, Bool.not_false, Bool.and_self, if_true,
    Option.map_some, put_last h]

/-- The entries of a table. -/
def entriesOf (members : List (String × Scalar)) : Entries :=
  members.map fun m => (m.1, .value m.2.toJson)

theorem steps_members (h : name ∉ earlier.map (·.1))
    (hdistinct : (below.map (·.1) ++ members.map (·.1)).Nodup) :
    (members.map fun m => Statement.set m.1 [] m.2.toJson).foldlM Progress.step?
        ⟨earlier ++ [(name, .table .header below)], [name]⟩ =
      some ⟨earlier ++ [(name, .table .header (below ++ entriesOf members))], [name]⟩ := by
  induction members generalizing below with
  | nil => simp [entriesOf]
  | cons m more ih =>
      rw [List.map_cons] at hdistinct
      have hkey : m.1 ∉ below.map (·.1) := fun hmem =>
        (List.nodup_append.mp hdistinct).2.2 _ hmem _ List.mem_cons_self rfl
      have hmore : ((below ++ [(m.1, Node.value m.2.toJson)]).map (·.1) ++
          more.map (·.1)).Nodup := by
        simpa using hdistinct
      rw [List.map_cons, List.foldlM_cons, step?_set h hkey]
      change List.foldlM Progress.step? _ _ = _
      rw [ih hmore, List.append_assoc]
      rfl

/-- The tables of a document as entries. -/
def rootOf (tables : List (String × List (String × Scalar))) : Entries :=
  tables.map fun table => (table.1, .table .header (entriesOf table.2))

theorem steps_document {tables : List (String × List (String × Scalar))}
    (h : ∀ table ∈ tables, IsPlain table) (opened : List String)
    (hdistinct : (earlier.map (·.1) ++ tables.map (·.1)).Nodup) :
    ∃ last, (tables.flatMap statementsOf).foldlM Progress.step? ⟨earlier, opened⟩ =
      some ⟨earlier ++ rootOf tables, last⟩ := by
  induction tables generalizing earlier opened with
  | nil => exact ⟨opened, by simp [rootOf]⟩
  | cons table more ih =>
      obtain ⟨htable, hmore⟩ := List.forall_mem_cons.mp h
      rw [List.map_cons] at hdistinct
      have hname : table.1 ∉ earlier.map (·.1) := fun hmem =>
        (List.nodup_append.mp hdistinct).2.2 _ hmem _ List.mem_cons_self rfl
      have hothers : ((earlier ++ [(table.1, Node.table .header (entriesOf table.2))]).map (·.1) ++
          more.map (·.1)).Nodup := by
        simpa using hdistinct
      obtain ⟨last, hlast⟩ := ih hmore [table.1] hothers
      refine ⟨last, ?_⟩
      rw [List.flatMap_cons, List.foldlM_append, statementsOf, List.foldlM_cons,
        step?_table hname]
      change (List.foldlM Progress.step? _ _ >>= fun p => List.foldlM Progress.step? p _) = _
      rw [steps_members hname (by simpa using htable.distinct)]
      change List.foldlM Progress.step? _ _ = _
      rw [List.nil_append, hlast, List.append_assoc]
      rfl

theorem membersOf_eq_map (entries : Entries) :
    Node.membersOf entries = entries.map fun entry => (entry.1, entry.2.toJson) := by
  induction entries with
  | nil => rfl
  | cons entry rest ih =>
      rw [Node.membersOf, ih]
      rfl

theorem toJson_rootOf (tables : List (String × List (String × Scalar))) :
    (rootOf tables).toJson =
      .obj (tables.map fun table => (table.1, .obj (table.2.map fun m => (m.1, m.2.toJson)))) := by
  rw [Entries.toJson, membersOf_eq_map, rootOf, List.map_map]
  refine congrArg Json.obj (List.map_congr_left fun table _ => ?_)
  change (table.1, Node.toJson (.table .header (entriesOf table.2))) = _
  rw [Node.toJson, membersOf_eq_map, entriesOf, List.map_map]
  refine congrArg (fun members => (table.1, Json.obj members)) (List.map_congr_left fun m _ => ?_)
  change (m.1, Node.toJson (.value m.2.toJson)) = _
  rw [Node.toJson]

/-- A document begins with a header, if with anything. -/
theorem head?_documentChars (tables : List (String × List (String × Scalar))) :
    ∀ c ∈ (documentChars tables).head?, c = '[' := by
  rcases tables with - | ⟨table, - | ⟨next, others⟩⟩
  · intro c hc
    cases hc
  all_goals
    rintro _ ⟨⟩
    rfl

/-- A document of tables with different names is read as the object of its tables. -/
theorem ofText?_document {tables : List (String × List (String × Scalar))}
    (h : ∀ table ∈ tables, IsPlain table) (hdistinct : (tables.map (·.1)).Nodup) :
    ofText? (String.ofList (documentChars tables)) =
      some (.obj (tables.map fun table =>
        (table.1, .obj (table.2.map fun m => (m.1, m.2.toJson))))) := by
  have hmark : (documentChars tables).head? ≠ some '\ufeff' := fun heq => by
    cases head?_documentChars tables _ heq
  have hnames : (([] : Entries).map (·.1) ++ tables.map (·.1)).Nodup := by simpa using hdistinct
  obtain ⟨last, hsteps⟩ := steps_document h [] hnames
  obtain ⟨fuel, hfuel⟩ := Nat.exists_eq_add_of_le (length_flatMap_statementsOf_le tables)
  have hread : statements? ((documentChars tables).length + 1) (documentChars tables) =
      some (tables.flatMap statementsOf) := by
    rw [hfuel, Nat.add_assoc, Nat.add_comm]
    exact statements?_document h fuel
  rw [ofText?, String.toList_ofList, ofChars?]
  simp only [hmark, if_false, hread, Option.bind_eq_bind, Option.bind_some, ofStatements?, hsteps,
    Option.map_some, List.nil_append, toJson_rootOf]

end OrderLedger.Toml
