import Dqx.Tables.Patterns
import Mathlib.Data.List.Lemmas

/-! The listing of tables by wildcard patterns. The catalog and schema parts of all patterns are
merged into one filter for what is read from the workspace, before full names are matched; the
listing is exact when every table that matches passes that filter. -/

namespace Dqx.Tables

/-- The calls of the workspace client: names of catalogs, of the schemas of a catalog, and full names
of the tables of a catalog whose schema name matches a pattern. -/
structure WorkspaceClient where
  catalogs : List (Option Text)
  schemas : Text → List (Option Text)
  tableSummaries : Text → Text → List (Option Text)

/-- `_split_pattern`: catalog, schema and table, each `*` where the pattern is short. -/
def splitPattern (pattern : Text) : Text × Text × Text :=
  let parts := pattern.splitOn '.'
  (parts[0]?.getD ['*'], parts[1]?.getD ['*'],
    if 2 < parts.length then ['.'].intercalate (parts.drop 2) else ['*'])

abbrev catalogOf (pattern : Text) : Text := (splitPattern pattern).1

abbrev schemaOf (pattern : Text) : Text := (splitPattern pattern).2.1

/-- `allowed_schemas.setdefault(catalog, set()).add(schema)`. -/
def addSchema (catalog schema : Text) : List (Text × List Text) → List (Text × List Text)
  | [] => [(catalog, [schema])]
  | (key, schemas) :: rest =>
    if catalog = key then (key, schemas.insert schema) :: rest
    else (key, schemas) :: addSchema catalog schema rest

/-- The catalogs and schemas collected, after one more pattern. -/
def addScope (scope : List Text × List (Text × List Text)) (part : Text × Text × Text) :
    List Text × List (Text × List Text) :=
  let (catalog, schema, _) := part
  if catalog ≠ ['*'] then
    (scope.1.insert catalog,
      if schema ≠ ['*'] then addSchema catalog schema scope.2 else scope.2)
  else scope

/-- `_build_include_scope_for_patterns`. -/
def buildIncludeScopeForPatterns (patterns : List Text) :
    Option (List Text) × Option (List (Text × List Text)) :=
  let parts := patterns.map splitPattern
  if parts.any fun part => part.1 = ['*'] then (none, none)
  else
    let (allowedCatalogs, allowedSchemas) := parts.foldl addScope ([], [])
    (if allowedCatalogs = [] then none else some allowedCatalogs,
      if allowedSchemas = [] then none else some allowedSchemas)

/-- `_get_allowed_catalogs_and_schemas`. -/
def getAllowedCatalogsAndSchemas (patterns : Option (List Text)) (excludeMatched : Bool) :
    Option (List Text) × Option (List (Text × List Text)) :=
  match patterns with
  | some (pattern :: rest) =>
    if excludeMatched then (none, none) else buildIncludeScopeForPatterns (pattern :: rest)
  | _ => (none, none)

/-- A set constrains a name unless it is absent or empty. -/
def allows (names : Option (List Text)) (name : Text) : Bool :=
  match names with
  | none => true
  | some [] => true
  | some (first :: rest) => name ∈ first :: rest

/-- The name, unless it is missing or empty. -/
def present (name : Option Text) : Option Text := name.filter (· ≠ [])

/-- `_get_tables_from_schemas`. -/
def getTablesFromSchemas (client : WorkspaceClient) (catalogName : Text)
    (schemaFilter : Option (List Text)) : List Text :=
  (client.schemas catalogName).flatMap fun schema =>
    match present schema with
    | none => []
    | some schemaName =>
      if allows schemaFilter schemaName then
        (client.tableSummaries catalogName schemaName).filterMap present
      else []

/-- `_get_tables_from_catalogs`. -/
def getTablesFromCatalogs (client : WorkspaceClient) (allowedCatalogs : Option (List Text))
    (allowedSchemas : Option (List (Text × List Text))) : List Text :=
  client.catalogs.flatMap fun catalog =>
    match present catalog with
    | none => []
    | some catalogName =>
      if allows allowedCatalogs catalogName then
        getTablesFromSchemas client catalogName (allowedSchemas.bind fun s => s.lookup catalogName)
      else []

/-- `_match_table_patterns`. -/
def matchTablePatterns (table : Text) (patterns : List Text) : Bool :=
  patterns.any fun pattern => fnmatch table pattern

/-- `_filter_tables_by_patterns`. -/
def filterTablesByPatterns (tables patterns : List Text) (excludeMatched : Bool) : List Text :=
  tables.filter fun table =>
    if excludeMatched then !matchTablePatterns table patterns
    else matchTablePatterns table patterns

/-- `list_tables`; the error is the message of `NotFound`. -/
def listTables (client : WorkspaceClient) (patterns : Option (List Text))
    (excludeMatched : Bool := false) (excludePatterns : Option (List Text) := none) :
    Except String (List Text) :=
  let (allowedCatalogs, allowedSchemas) := getAllowedCatalogsAndSchemas patterns excludeMatched
  let tables := getTablesFromCatalogs client allowedCatalogs allowedSchemas
  let tables := match patterns with
    | some (p :: ps) => filterTablesByPatterns tables (p :: ps) excludeMatched
    | _ => tables
  let tables := match excludePatterns with
    | some (p :: ps) => filterTablesByPatterns tables (p :: ps) true
    | _ => tables
  match tables with
  | [] => .error "No tables found matching include or exclude criteria"
  | table :: rest => .ok (table :: rest)

/-- A name of a catalog, schema or table: not empty, without dots or wildcards. -/
structure Identifier where
  text : Text
  text_ne : text ≠ []
  plain : ∀ c ∈ text, c ∉ ['.', '*', '?', '[', ']']

/-- The catalogs of a workspace, with their schemas and these with their tables. -/
abbrev Tree := List (Identifier × List (Identifier × List Identifier))

def fullName (catalog schema table : Identifier) : Text :=
  catalog.text ++ '.' :: (schema.text ++ '.' :: table.text)

namespace Tree

/-- Catalog `c` has schema `s`. -/
def HasSchema (tree : Tree) (c s : Text) : Prop :=
  ∃ entry ∈ tree, entry.1.text = c ∧ ∃ schema ∈ entry.2, schema.1.text = s

/-- Schema `s` of catalog `c` has table `t`. -/
def HasTable (tree : Tree) (c s t : Identifier) : Prop :=
  ∃ schemas, (c, schemas) ∈ tree ∧ ∃ tables, (s, tables) ∈ schemas ∧ t ∈ tables

end Tree

/-- The client answers from a tree, with `likes name pattern` telling which schema names match a
schema name pattern. -/
structure Serves (client : WorkspaceClient) (tree : Tree) (likes : Text → Text → Bool) : Prop where
  catalogs : client.catalogs = tree.map fun entry => some entry.1.text
  schemas : ∀ catalog, client.schemas catalog = tree.flatMap fun entry =>
    if entry.1.text = catalog then entry.2.map fun schema => some schema.1.text else []
  tables : ∀ catalog pattern, client.tableSummaries catalog pattern = tree.flatMap fun entry =>
    if entry.1.text = catalog then
      entry.2.flatMap fun schema =>
        if likes schema.1.text pattern then
          schema.2.map fun table => some (fullName entry.1 schema.1 table)
        else []
    else []

/-- The workspace filter lets the tables of schema `s` of catalog `c` through: some pattern leaves
catalogs open, or names `c` literally, and then either no pattern for `c` has a schema part or a
schema of `c` that such a part names literally lists `s` under its pattern. -/
def Visible (tree : Tree) (likes : Text → Text → Bool) (patterns : List Text) (c s : Text) : Prop :=
  (∃ p ∈ patterns, catalogOf p = ['*']) ∨
    (∃ p ∈ patterns, catalogOf p = c) ∧
      ((∀ p ∈ patterns, catalogOf p = c → schemaOf p = ['*']) ∨
        ∃ p ∈ patterns, catalogOf p = c ∧ tree.HasSchema c (schemaOf p) ∧ likes s (schemaOf p))

/-- The listing is exact: it holds the full names of the tables that match a pattern and no others,
and fails when there are none. -/
def ListsExactly (client : WorkspaceClient) (tree : Tree) (patterns : List Text) : Prop :=
  match listTables client (some patterns) with
  | .ok names => ∀ name, name ∈ names ↔
      ∃ c s t, tree.HasTable c s t ∧ name = fullName c s t ∧ matchTablePatterns name patterns
  | .error _ => ∀ c s t, tree.HasTable c s t → ¬matchTablePatterns (fullName c s t) patterns

theorem Identifier.text_ne_star (name : Identifier) : name.text ≠ ['*'] := fun h =>
  name.plain '*' (by simp [h]) (by decide)

theorem Identifier.present_text (name : Identifier) : present (some name.text) = some name.text := by
  simp [present, Option.filter, name.text_ne]

theorem present_fullName (c s t : Identifier) :
    present (some (fullName c s t)) = some (fullName c s t) := by
  simp [present, Option.filter, fullName]

theorem allows_iff {names : Option (List Text)} {name : Text} :
    allows names name = true ↔ names.getD [] = [] ∨ name ∈ names.getD [] := by
  match names with
  | none => simp [allows]
  | some [] => simp [allows]
  | some (first :: rest) => simp [allows]

section Scope

theorem mem_lookup_addSchema {catalog schema c s : Text} {d : List (Text × List Text)} :
    s ∈ ((addSchema catalog schema d).lookup c).getD [] ↔
      c = catalog ∧ s = schema ∨ s ∈ (d.lookup c).getD [] := by
  induction d with
  | nil =>
    simp only [addSchema, List.lookup_cons, List.lookup_nil, Option.getD_none, List.not_mem_nil,
      or_false]
    by_cases hc : c = catalog
    · simp [hc]
    · have : (c == catalog) = false := by simpa using hc
      simp [this, hc]
  | cons entry rest ih =>
    obtain ⟨key, schemas⟩ := entry
    rw [addSchema]
    split
    · rename_i hkey
      subst hkey
      by_cases hc : c = catalog
      · simp [hc, List.mem_insert_iff]
      · have : (c == catalog) = false := by simpa using hc
        simp [this, hc, List.lookup_cons]
    · rename_i hkey
      by_cases hc : c = key
      · have hne : c ≠ catalog := fun h => hkey (h.symm.trans hc)
        subst hc
        simp [hne]
      · have : (c == key) = false := by simpa using hc
        simp only [List.lookup_cons, this]
        exact ih

/-- What the patterns add to the catalogs and schemas collected before them. -/
theorem mem_foldl_addScope {parts : List (Text × Text × Text)}
    (scope : List Text × List (Text × List Text)) (hparts : ∀ part ∈ parts, part.1 ≠ ['*']) :
    (∀ c, c ∈ (parts.foldl addScope scope).1 ↔ c ∈ scope.1 ∨ ∃ part ∈ parts, part.1 = c) ∧
      ∀ c s, s ∈ ((parts.foldl addScope scope).2.lookup c).getD [] ↔
        s ∈ (scope.2.lookup c).getD [] ∨
          ∃ part ∈ parts, part.1 = c ∧ part.2.1 = s ∧ s ≠ ['*'] := by
  induction parts generalizing scope with
  | nil => simp
  | cons part rest ih =>
    obtain ⟨catalog, schema, table⟩ := part
    have hcatalog : catalog ≠ ['*'] := hparts _ List.mem_cons_self
    obtain ⟨ihc, ihs⟩ := ih (addScope scope (catalog, schema, table))
      fun p hp => hparts p (List.mem_cons_of_mem _ hp)
    rw [List.foldl_cons]
    constructor
    · intro c
      rw [ihc]
      simp only [addScope, ne_eq, hcatalog, not_false_eq_true, if_true, List.mem_insert_iff,
        List.mem_cons, exists_eq_or_imp, eq_comm (a := c)]
      tauto
    · intro c s
      rw [ihs]
      simp only [addScope, ne_eq, hcatalog, not_false_eq_true, if_true, List.mem_cons,
        exists_eq_or_imp]
      by_cases hschema : schema = ['*']
      · subst hschema
        simp only [not_true_eq_false, if_false]
        constructor
        · rintro (h | h)
          · exact .inl h
          · exact .inr (.inr h)
        · rintro (h | ⟨-, rfl, hs⟩ | h)
          · exact .inl h
          · exact absurd rfl hs
          · exact .inr h
      · simp only [hschema, not_false_eq_true, if_true, mem_lookup_addSchema]
        constructor
        · rintro ((⟨rfl, rfl⟩ | h) | h)
          · exact .inr (.inl ⟨rfl, rfl, hschema⟩)
          · exact .inl h
          · exact .inr (.inr h)
        · rintro (h | ⟨rfl, rfl, -⟩ | h)
          · exact .inl (.inr h)
          · exact .inl (.inl ⟨rfl, rfl⟩)
          · exact .inr h

/-- Without a pattern that leaves catalogs open, the scope holds the catalog parts of the patterns,
and for each catalog the schema parts other than `*`. -/
theorem buildIncludeScope_closed {patterns : List Text}
    (hclosed : ∀ p ∈ patterns, catalogOf p ≠ ['*']) :
    (∀ c, c ∈ (buildIncludeScopeForPatterns patterns).1.getD [] ↔
        ∃ p ∈ patterns, catalogOf p = c) ∧
      ∀ c s, s ∈ ((buildIncludeScopeForPatterns patterns).2.bind fun d => d.lookup c).getD [] ↔
        ∃ p ∈ patterns, catalogOf p = c ∧ schemaOf p = s ∧ s ≠ ['*'] := by
  have hparts : ∀ part ∈ patterns.map splitPattern, part.1 ≠ ['*'] := by
    intro part hpart
    obtain ⟨p, hp, rfl⟩ := List.mem_map.mp hpart
    exact hclosed p hp
  obtain ⟨hcatalogs, hschemas⟩ := mem_foldl_addScope ([], []) hparts
  have hany : ((patterns.map splitPattern).any fun part => part.1 = ['*']) = false := by
    simpa using hclosed
  rw [buildIncludeScopeForPatterns, hany]
  simp only [Bool.false_eq_true, if_false]
  constructor
  · intro c
    have hget : ∀ cs : List Text, (if cs = [] then none else some cs).getD [] = cs := by
      intro cs
      split
      · rename_i h
        exact h.symm
      · rfl
    rw [hget, hcatalogs]
    simp
  · intro c s
    have hget : ∀ d : List (Text × List Text),
        (if d = [] then none else some d).bind (fun d => d.lookup c) = d.lookup c := by
      intro d
      split
      · rename_i h
        rw [h]
        rfl
      · rfl
    rw [hget, hschemas]
    simp

end Scope

section Listing

variable {client : WorkspaceClient} {tree : Tree} {likes : Text → Text → Bool}

theorem mem_getTablesFromSchemas (hserves : Serves client tree likes) {catalog name : Text}
    {schemaFilter : Option (List Text)} :
    name ∈ getTablesFromSchemas client catalog schemaFilter ↔
      ∃ c s t, tree.HasTable c s t ∧ c.text = catalog ∧ name = fullName c s t ∧
        ∃ listed, tree.HasSchema catalog listed ∧ allows schemaFilter listed = true ∧
          likes s.text listed = true := by
  rw [getTablesFromSchemas, List.mem_flatMap]
  constructor
  · rintro ⟨schema, hschema, hname⟩
    rw [hserves.schemas, List.mem_flatMap] at hschema
    obtain ⟨entry, hentry, hschema⟩ := hschema
    split at hschema
    · rename_i hcatalog
      obtain ⟨listed, hlisted, rfl⟩ := List.mem_map.mp hschema
      simp only [listed.1.present_text] at hname
      split at hname
      · rename_i hallows
        rw [hserves.tables, List.mem_filterMap] at hname
        obtain ⟨table, htable, hname⟩ := hname
        rw [List.mem_flatMap] at htable
        obtain ⟨entry', hentry', htable⟩ := htable
        split at htable
        · rename_i hcatalog'
          rw [List.mem_flatMap] at htable
          obtain ⟨schema', hschema', htable⟩ := htable
          split at htable
          · rename_i hlikes
            obtain ⟨t, ht, rfl⟩ := List.mem_map.mp htable
            rw [present_fullName] at hname
            cases hname
            exact ⟨entry'.1, schema'.1, t, ⟨entry'.2, hentry', schema'.2, hschema', ht⟩, hcatalog',
              rfl, listed.1.text, ⟨entry, hentry, hcatalog, listed, hlisted, rfl⟩, hallows, hlikes⟩
          · simp at htable
        · simp at htable
      · simp at hname
    · simp at hschema
  · rintro ⟨c, s, t, ⟨schemas, hc, tables, hs, ht⟩, rfl, rfl, listed,
      ⟨entry, hentry, hcatalog, schema, hschema, rfl⟩, hallows, hlikes⟩
    refine ⟨some schema.1.text, ?_, ?_⟩
    · rw [hserves.schemas, List.mem_flatMap]
      refine ⟨entry, hentry, ?_⟩
      rw [if_pos hcatalog]
      exact List.mem_map.mpr ⟨schema, hschema, rfl⟩
    · simp only [schema.1.present_text, hallows, if_true]
      rw [hserves.tables, List.mem_filterMap]
      refine ⟨some (fullName c s t), ?_, present_fullName c s t⟩
      rw [List.mem_flatMap]
      refine ⟨(c, schemas), hc, ?_⟩
      rw [if_pos rfl, List.mem_flatMap]
      refine ⟨(s, tables), hs, ?_⟩
      rw [if_pos hlikes]
      exact List.mem_map.mpr ⟨t, ht, rfl⟩

theorem mem_getTablesFromCatalogs (hserves : Serves client tree likes) {name : Text}
    {allowedCatalogs : Option (List Text)} {allowedSchemas : Option (List (Text × List Text))} :
    name ∈ getTablesFromCatalogs client allowedCatalogs allowedSchemas ↔
      ∃ c s t, tree.HasTable c s t ∧ name = fullName c s t ∧ allows allowedCatalogs c.text = true ∧
        ∃ listed, tree.HasSchema c.text listed ∧
          allows (allowedSchemas.bind fun s => s.lookup c.text) listed = true ∧
          likes s.text listed = true := by
  rw [getTablesFromCatalogs, List.mem_flatMap]
  constructor
  · rintro ⟨catalog, hcatalog, hname⟩
    rw [hserves.catalogs] at hcatalog
    obtain ⟨entry, hentry, rfl⟩ := List.mem_map.mp hcatalog
    simp only [entry.1.present_text] at hname
    split at hname
    · rename_i hallows
      obtain ⟨c, s, t, htable, hc, rfl, listed, hlisted⟩ :=
        (mem_getTablesFromSchemas hserves).mp hname
      rw [← hc] at hallows hlisted
      exact ⟨c, s, t, htable, rfl, hallows, listed, hlisted⟩
    · simp at hname
  · rintro ⟨c, s, t, htable, rfl, hallows, listed, hlisted⟩
    obtain ⟨schemas, hc, -⟩ := id htable
    refine ⟨some c.text, ?_, ?_⟩
    · rw [hserves.catalogs]
      exact List.mem_map.mpr ⟨(c, schemas), hc, rfl⟩
    · simp only [c.present_text, hallows, if_true]
      exact (mem_getTablesFromSchemas hserves).mpr ⟨c, s, t, htable, rfl, rfl, listed, hlisted⟩

theorem Tree.HasTable.hasSchema {c s t : Identifier} (h : tree.HasTable c s t) :
    tree.HasSchema c.text s.text := by
  obtain ⟨schemas, hc, tables, hs, -⟩ := h
  exact ⟨(c, schemas), hc, rfl, (s, tables), hs, rfl⟩

/-- The workspace filter of the patterns lets through exactly the tables that are visible. -/
theorem mem_tables_iff_visible (hserves : Serves client tree likes)
    (hlikes : ∀ name, likes name name = true) {patterns : List Text} (hne : patterns ≠ [])
    {name : Text} :
    name ∈ getTablesFromCatalogs client (buildIncludeScopeForPatterns patterns).1
        (buildIncludeScopeForPatterns patterns).2 ↔
      ∃ c s t, tree.HasTable c s t ∧ name = fullName c s t ∧
        Visible tree likes patterns c.text s.text := by
  rw [mem_getTablesFromCatalogs hserves]
  refine exists_congr fun c => exists_congr fun s => exists_congr fun t =>
    and_congr_right fun htable => and_congr_right fun _ => ?_
  have hself : ∃ listed, tree.HasSchema c.text listed ∧ likes s.text listed = true :=
    ⟨s.text, htable.hasSchema, hlikes _⟩
  by_cases hopen : ∃ p ∈ patterns, catalogOf p = ['*']
  · have hscope : buildIncludeScopeForPatterns patterns = (none, none) := by
      rw [buildIncludeScopeForPatterns, if_pos]
      simpa using hopen
    rw [hscope]
    obtain ⟨listed, hlisted, hlike⟩ := hself
    exact ⟨fun _ => .inl hopen, fun _ => ⟨rfl, listed, hlisted, rfl, hlike⟩⟩
  · have hclosed : ∀ p ∈ patterns, catalogOf p ≠ ['*'] := fun p hp h => hopen ⟨p, hp, h⟩
    obtain ⟨hcatalogs, hschemas⟩ := buildIncludeScope_closed hclosed
    obtain ⟨first, hfirst⟩ := List.exists_mem_of_ne_nil patterns hne
    have hnonempty : (buildIncludeScopeForPatterns patterns).1.getD [] ≠ [] :=
      List.ne_nil_of_mem ((hcatalogs _).mpr ⟨first, hfirst, rfl⟩)
    rw [allows_iff, hcatalogs]
    simp only [allows_iff, hschemas, Visible, hopen, false_or, hnonempty]
    refine and_congr_right fun _ => ?_
    constructor
    · rintro ⟨listed, hlisted, hnil | ⟨p, hp, hpc, hps, -⟩, hlike⟩
      · refine .inl fun p hp hpc => ?_
        by_contra hps
        have := (hschemas c.text (schemaOf p)).mpr ⟨p, hp, hpc, rfl, hps⟩
        rw [hnil] at this
        simp at this
      · exact .inr ⟨p, hp, hpc, hps ▸ hlisted, hps ▸ hlike⟩
    · rintro (hall | ⟨p, hp, hpc, hlisted, hlike⟩)
      · obtain ⟨listed, hlisted, hlike⟩ := hself
        refine ⟨listed, hlisted, .inl ?_, hlike⟩
        rw [List.eq_nil_iff_forall_not_mem]
        intro schema hschema
        obtain ⟨p, hp, hpc, hps, hne⟩ := (hschemas c.text schema).mp hschema
        exact hne (hps.symm.trans (hall p hp hpc))
      · refine ⟨schemaOf p, hlisted, .inr ⟨p, hp, hpc, rfl, ?_⟩, hlike⟩
        obtain ⟨_, -, -, schema, -, hschema⟩ := hlisted
        rw [← hschema]
        exact schema.1.text_ne_star

/-- A name is split at its dots in one way. -/
theorem append_dot_inj {xs ys us vs : Text} (hx : '.' ∉ xs) (hu : '.' ∉ us)
    (h : xs ++ '.' :: ys = us ++ '.' :: vs) : xs = us ∧ ys = vs := by
  induction xs generalizing us with
  | nil =>
    cases us with
    | nil => simpa using h
    | cons u us =>
      simp only [List.nil_append, List.cons_append, List.cons.injEq] at h
      exact absurd h.1 fun hd => hu (hd ▸ List.mem_cons_self)
  | cons x xs ih =>
    cases us with
    | nil =>
      simp only [List.nil_append, List.cons_append, List.cons.injEq] at h
      exact absurd h.1 fun hd => hx (hd ▸ List.mem_cons_self)
    | cons u us =>
      simp only [List.cons_append, List.cons.injEq] at h
      obtain ⟨rfl, rfl⟩ := ih (fun hm => hx (List.mem_cons_of_mem _ hm))
        (fun hm => hu (List.mem_cons_of_mem _ hm)) h.2
      exact ⟨by rw [h.1], rfl⟩

/-- A full name is that of one table. -/
theorem fullName_inj {c s t c' s' t' : Identifier} (h : fullName c s t = fullName c' s' t') :
    c.text = c'.text ∧ s.text = s'.text := by
  have hdot : ∀ name : Identifier, '.' ∉ name.text := fun name hmem =>
    name.plain '.' hmem (by decide)
  obtain ⟨hc, hrest⟩ := append_dot_inj (hdot c) (hdot c') h
  exact ⟨hc, (append_dot_inj (hdot s) (hdot s') hrest).1⟩

/-- What is listed: the full names of the visible tables that match. -/
theorem listTables_eq (patterns : List Text) (hne : patterns ≠ []) :
    listTables client (some patterns) =
      match filterTablesByPatterns (getTablesFromCatalogs client
          (buildIncludeScopeForPatterns patterns).1 (buildIncludeScopeForPatterns patterns).2)
          patterns false with
      | [] => .error "No tables found matching include or exclude criteria"
      | table :: rest => .ok (table :: rest) := by
  cases patterns with
  | nil => exact absurd rfl hne
  | cons p ps => rfl

/-- The listing by patterns is exact if and only if every table that matches a pattern is visible
through the workspace filter. -/
theorem listsExactly_iff_visible (hserves : Serves client tree likes)
    (hlikes : ∀ name, likes name name = true) (patterns : List Text) (hne : patterns ≠ []) :
    ListsExactly client tree patterns ↔
      ∀ c s t, tree.HasTable c s t → matchTablePatterns (fullName c s t) patterns = true →
        Visible tree likes patterns c.text s.text := by
  have hmem : ∀ name, name ∈ filterTablesByPatterns (getTablesFromCatalogs client
        (buildIncludeScopeForPatterns patterns).1 (buildIncludeScopeForPatterns patterns).2)
        patterns false ↔
      (∃ c s t, tree.HasTable c s t ∧ name = fullName c s t ∧
        Visible tree likes patterns c.text s.text) ∧ matchTablePatterns name patterns = true := by
    intro name
    rw [filterTablesByPatterns, List.mem_filter, mem_tables_iff_visible hserves hlikes hne]
    simp
  have hvisible : ∀ c s t, (∃ c' s' t', tree.HasTable c' s' t' ∧
        fullName c s t = fullName c' s' t' ∧ Visible tree likes patterns c'.text s'.text) →
      Visible tree likes patterns c.text s.text := by
    rintro c s t ⟨c', s', t', -, hname, hv⟩
    obtain ⟨hc, hs⟩ := fullName_inj hname
    rw [hc, hs]
    exact hv
  rw [ListsExactly, listTables_eq patterns hne]
  cases hlist : filterTablesByPatterns (getTablesFromCatalogs client
      (buildIncludeScopeForPatterns patterns).1 (buildIncludeScopeForPatterns patterns).2)
      patterns false with
  | nil =>
    rw [hlist] at hmem
    constructor
    · intro hnone c s t htable hmatch
      exact absurd hmatch (hnone c s t htable)
    · intro hall c s t htable hmatch
      exact absurd ((hmem (fullName c s t)).mpr
        ⟨⟨c, s, t, htable, rfl, hall c s t htable hmatch⟩, hmatch⟩) (by simp)
  | cons table rest =>
    rw [hlist] at hmem
    simp only [hmem]
    constructor
    · intro hall c s t htable hmatch
      exact hvisible c s t ((hall (fullName c s t)).mpr ⟨c, s, t, htable, rfl, hmatch⟩).1
    · intro hall name
      constructor
      · rintro ⟨⟨c, s, t, htable, hname, -⟩, hmatch⟩
        exact ⟨c, s, t, htable, hname, hmatch⟩
      · rintro ⟨c, s, t, htable, rfl, hmatch⟩
        exact ⟨⟨c, s, t, htable, rfl, hall c s t htable hmatch⟩, hmatch⟩

end Listing

/-- The client that answers from a tree. -/
def Tree.client (tree : Tree) (likes : Text → Text → Bool) : WorkspaceClient where
  catalogs := tree.map fun entry => some entry.1.text
  schemas catalog := tree.flatMap fun entry =>
    if entry.1.text = catalog then entry.2.map fun schema => some schema.1.text else []
  tableSummaries catalog pattern := tree.flatMap fun entry =>
    if entry.1.text = catalog then
      entry.2.flatMap fun schema =>
        if likes schema.1.text pattern then
          schema.2.map fun table => some (fullName entry.1 schema.1 table)
        else []
    else []

theorem Tree.client_serves (tree : Tree) (likes : Text → Text → Bool) :
    Serves (tree.client likes) tree likes := ⟨rfl, fun _ => rfl, fun _ _ => rfl⟩

def mainCatalog : Identifier := ⟨['m', 'a', 'i', 'n'], by simp, by simp⟩
def sSchema : Identifier := ⟨['s'], by simp, by simp⟩
def tTable : Identifier := ⟨['t'], by simp, by simp⟩

/-- One table, `main.s.t`. -/
def mainTree : Tree := [(mainCatalog, [(sSchema, [tTable])])]

theorem mainTree_hasTable : mainTree.HasTable mainCatalog sSchema tTable :=
  ⟨_, List.mem_singleton.mpr rfl, _, List.mem_singleton.mpr rfl, List.mem_singleton.mpr rfl⟩

/-- The pattern `ma*.s.t` matches `main.s.t`, whose catalog the workspace filter leaves out. -/
theorem wildcard_catalog_hides_table :
    ¬∀ (client : WorkspaceClient) (tree : Tree) (likes : Text → Text → Bool)
      (patterns : List Text), Serves client tree likes → (∀ name, likes name name = true) →
      patterns ≠ [] → ListsExactly client tree patterns := by
  intro h
  have hexact := h (mainTree.client like) mainTree like ["ma*.s.t".toList]
    (mainTree.client_serves like) like_self (by simp)
  have herror : listTables (mainTree.client like) (some ["ma*.s.t".toList]) =
      .error "No tables found matching include or exclude criteria" := by rfl
  rw [ListsExactly, herror] at hexact
  apply hexact _ _ _ mainTree_hasTable
  rfl

/-- The pattern `main.s.*` names catalog and schema, and lists the table. -/
theorem listsExactly_literal : ListsExactly (mainTree.client like) mainTree ["main.s.*".toList] := by
  refine (listsExactly_iff_visible (mainTree.client_serves like) like_self _ (by simp)).mpr ?_
  rintro c s t ⟨schemas, hc, tables, hs, ht⟩ -
  cases List.mem_singleton.mp hc
  cases List.mem_singleton.mp hs
  have hcatalog : catalogOf "main.s.*".toList = mainCatalog.text := by rfl
  have hschema : schemaOf "main.s.*".toList = sSchema.text := by rfl
  refine .inr ⟨⟨_, List.mem_singleton.mpr rfl, hcatalog⟩,
    .inr ⟨_, List.mem_singleton.mpr rfl, hcatalog, ?_, ?_⟩⟩
  · rw [hschema]
    exact ⟨_, List.mem_singleton.mpr rfl, rfl, _, List.mem_singleton.mpr rfl, rfl⟩
  · rw [hschema]
    exact like_self _

end Dqx.Tables
