import Dqx.Contracts.TypeValidation
import Dqx.SqlUtils

/-! The DDL of a schema object, and which of its columns can be read back from it. -/

namespace Dqx.Contracts

open Lib Lib.Sql
open Actions (isSpace strip)

/-- What is read of a property of a schema object. -/
structure SchemaProperty where
  name : Option Text
  physicalType : Option Text

/-- Why a schema object has no DDL. -/
inductive SchemaError where
  | typeRequired (schema property : Text)
  | invalidType (schema property : Text) (error : InvalidPhysicalType)
  deriving DecidableEq, Repr

def SchemaError.message : SchemaError → String
  | .typeRequired schema property =>
    s!"Schema '{String.ofList schema}', property '{String.ofList property}': " ++
      "physicalType is required. " ++
      "Set physicalType to a Unity Catalog data type (e.g. STRING, INT). " ++ referenceHint
  | .invalidType schema property error =>
    s!"Schema '{String.ofList schema}', property '{String.ofList property}': {error.message}"

/-- The properties that have a name; the others are left out with a warning. -/
def namedProperties (properties : List SchemaProperty) : List (Text × Option Text) :=
  properties.filterMap fun p => (p.name.filter (!·.isEmpty)).map (·, p.physicalType)

/-- The name of a column, in backticks unless it is a plain identifier. -/
def columnName (name : Text) : Text :=
  if SqlUtils.isSimpleIdent name then name else '`' :: (name ++ ['`'])

/-- A column with its type. -/
def columnText (name type : Text) : Text := columnName name ++ ' ' :: type

def columnOf (letters : Letters) (schema name : Text) (physicalType : Option Text) :
    Except SchemaError Text :=
  match physicalType.filter (!·.isEmpty) with
  | none => .error (.typeRequired schema name)
  | some type =>
    match validatePhysicalType letters type with
    | .error error => .error (.invalidType schema name error)
    | .ok unityType => .ok (columnText name unityType)

/-- `_schema_object_to_ddl` -/
def schemaObjectToDdl (letters : Letters) (schema : Text) (properties : List SchemaProperty) :
    Except SchemaError Text := do
  let parts ← (namedProperties properties).mapM fun p => columnOf letters schema p.1 p.2
  pure ([',', ' '].intercalate parts)

/-! ### Reading columns -/

def isNameChar (c : Char) : Bool := c.isAlphanum || c = '_'

/-- A name up to its closing backtick, the doubled ones being part of it, and what follows. -/
def readQuoted : Text → Option (Text × Text)
  | [] => none
  | [c] => if c = '`' then some ([], []) else none
  | c :: d :: rest =>
    if c = '`' then
      if d = '`' then (readQuoted rest).map (Prod.map ('`' :: ·) id) else some ([], d :: rest)
    else (readQuoted (d :: rest)).map (Prod.map (c :: ·) id)

/-- The name of a column, bare or in backticks, and what follows. -/
def readName (text : Text) : Option (Text × Text) :=
  match text.dropWhile isSpace with
  | [] => none
  | c :: rest =>
    if c = '`' then readQuoted rest
    else if isNameChar c then some ((c :: rest).takeWhile isNameChar, (c :: rest).dropWhile isNameChar)
    else none

/-- Columns with commas between them: a name, and a type that goes on to the next comma outside of
brackets. -/
def readColumns : Nat → Text → Option (List (Text × Text))
  | 0, _ => none
  | n + 1, text =>
    (readName text).bind fun name =>
      match Nesting.breakTop bracket (· = ',') 0 name.2 with
      | none => some [(name.1, strip name.2)]
      | some (type, rest) => (readColumns n rest).map ((name.1, strip type) :: ·)

/-- The columns of a DDL, with the texts of their types. -/
def readDdl (text : Text) : Option (List (Text × Text)) :=
  if text.isEmpty then some [] else readColumns text.length text

/-- A name that stands for itself: it has no backtick, and no line break that the pattern of plain
identifiers lets through. -/
structure SelfNamed (name : Text) : Prop where
  backtick : '`' ∉ name
  lineBreak : SqlUtils.isSimpleIdent name = true → '\n' ∉ name

section Names

variable {name rest : Text}

theorem readQuoted_cons {c : Char} (hc : c ≠ '`') (text : Text) :
    readQuoted (c :: text) = (readQuoted text).map (Prod.map (c :: ·) id) := by
  cases text with
  | nil => simp [readQuoted, hc]
  | cons d rest => rw [readQuoted, if_neg hc]

theorem readQuoted_close (rest : Text) :
    readQuoted ('`' :: ' ' :: rest) = some ([], ' ' :: rest) := by
  rw [readQuoted, if_pos rfl, if_neg (by decide)]

theorem readQuoted_self (h : '`' ∉ name) :
    readQuoted (name ++ '`' :: ' ' :: rest) = some (name, ' ' :: rest) := by
  induction name with
  | nil => exact readQuoted_close rest
  | cons c name ih =>
    have hc : c ≠ '`' := fun heq => h (heq ▸ List.mem_cons_self)
    rw [List.cons_append, readQuoted_cons hc, ih fun hmem => h (List.mem_cons_of_mem _ hmem)]
    rfl

/-- A name that is read where the text has it in backticks, with some more backticks before it: there
are none, neither before it nor in it. -/
theorem of_readQuoted (n : Nat) : ∀ {name after : Text} (more : Nat), name.length ≤ n →
    readQuoted (name ++ '`' :: ' ' :: rest) = some (List.replicate more '`' ++ name, after) →
      more = 0 ∧ '`' ∉ name := by
  induction n using Nat.strong_induction_on with
  | _ n ih =>
    intro name after more hlength h
    cases name with
    | nil =>
      rw [List.nil_append, readQuoted_close] at h
      have hread := congrArg Prod.fst (Option.some.inj h)
      cases more with
      | zero => exact ⟨rfl, List.not_mem_nil⟩
      | succ more => cases hread
    | cons c name =>
      by_cases hc : c = '`'
      · subst hc
        exfalso
        cases name with
        | nil =>
          -- the closing backtick is taken for the second of two
          rw [List.cons_append, List.nil_append, readQuoted, if_pos rfl, if_pos rfl] at h
          obtain ⟨read, hread, heq⟩ := Option.map_eq_some_iff.mp h
          rw [readQuoted_cons (by decide)] at hread
          obtain ⟨read', -, rfl⟩ := Option.map_eq_some_iff.mp hread
          have hfirst : '`' :: ' ' :: read'.1 = List.replicate more '`' ++ ['`'] :=
            congrArg Prod.fst heq
          have hmem : ' ' ∈ List.replicate more '`' ++ ['`'] := by
            rw [← hfirst]
            exact List.mem_cons_of_mem _ List.mem_cons_self
          rcases List.mem_append.mp hmem with hmem | hmem
          · exact absurd (List.eq_of_mem_replicate hmem) (by decide)
          · exact absurd (List.mem_singleton.mp hmem) (by decide)
        | cons d name =>
          by_cases hd : d = '`'
          · subst hd
            rw [List.cons_append, List.cons_append, readQuoted, if_pos rfl, if_pos rfl] at h
            obtain ⟨read, hread, heq⟩ := Option.map_eq_some_iff.mp h
            have hfirst : '`' :: read.1 = List.replicate more '`' ++ '`' :: '`' :: name :=
              congrArg Prod.fst heq
            have hshift : List.replicate more '`' ++ '`' :: '`' :: name =
                '`' :: (List.replicate (more + 1) '`' ++ name) := by
              rw [List.append_cons, ← List.replicate_succ', List.append_cons, ← List.replicate_succ',
                List.replicate_succ, List.cons_append]
            rw [hshift] at hfirst
            have hrest : read = (List.replicate (more + 1) '`' ++ name, read.2) :=
              Prod.ext (List.cons.inj hfirst).2 rfl
            rw [hrest] at hread
            have hless : name.length < n := by
              simp only [List.length_cons] at hlength
              omega
            exact absurd (ih _ hless (more + 1) le_rfl hread).1 (Nat.succ_ne_zero more)
          · rw [List.cons_append, List.cons_append, readQuoted, if_pos rfl, if_neg hd] at h
            have hread := congrArg Prod.fst (Option.some.inj h)
            cases more with
            | zero => cases hread
            | succ more => cases hread
      · rw [List.cons_append, readQuoted_cons hc] at h
        obtain ⟨read, hread, heq⟩ := Option.map_eq_some_iff.mp h
        have hfirst : c :: read.1 = List.replicate more '`' ++ c :: name := congrArg Prod.fst heq
        cases more with
        | succ more => exact absurd (List.cons.inj hfirst).1 hc
        | zero =>
          have hrest : read = (List.replicate 0 '`' ++ name, read.2) :=
            Prod.ext (List.cons.inj hfirst).2 rfl
          rw [hrest] at hread
          simp only [List.length_cons] at hlength
          obtain ⟨-, hnot⟩ := ih name.length (by omega) 0 le_rfl hread
          exact ⟨rfl, fun hmem => (List.mem_cons.mp hmem).elim (fun heq => hc heq.symm) hnot⟩

theorem isSpace_of_isNameChar {c : Char} (h : isNameChar c = true) : isSpace c = false := by
  simp only [isNameChar, Char.isAlphanum, Char.isAlpha, Char.isUpper, Char.isLower, Char.isDigit,
    Bool.or_eq_true, Bool.and_eq_true, decide_eq_true_eq, UInt32.le_iff_toNat_le, ge_iff_le] at h
  have hrange : 48 ≤ c.toNat ∧ c.toNat ≤ 122 := by
    rcases h with ((⟨hlow, hhigh⟩ | ⟨hlow, hhigh⟩) | ⟨hlow, hhigh⟩) | rfl
    · exact ⟨le_trans (by decide) hlow, le_trans hhigh (by decide)⟩
    · exact ⟨le_trans (by decide) hlow, le_trans hhigh (by decide)⟩
    · exact ⟨le_trans (by decide) hlow, le_trans hhigh (by decide)⟩
    · decide
  simp only [isSpace, Bool.or_eq_false_iff, Bool.and_eq_false_iff, decide_eq_false_iff_not,
    beq_eq_false_iff_ne]
  omega

/-- A plain identifier begins with one of its characters. -/
theorem exists_head_of_isSimpleIdent (h : SqlUtils.isSimpleIdent name = true) :
    ∃ c tail, name = c :: tail ∧ isNameChar c = true := by
  cases name with
  | nil => cases h
  | cons c tail =>
    refine ⟨c, tail, rfl, ?_⟩
    have hbody : SqlUtils.patternBody (c :: tail) = [] ∨
        ∃ rest, SqlUtils.patternBody (c :: tail) = c :: rest := by
      rw [SqlUtils.patternBody]
      split
      · cases tail with
        | nil => exact .inl rfl
        | cons d tail => exact .inr ⟨_, rfl⟩
      · exact .inr ⟨tail, rfl⟩
    rw [SqlUtils.isSimpleIdent] at h
    rcases hbody with hbody | ⟨rest, hbody⟩
    · rw [hbody] at h
      cases h
    · rw [hbody] at h
      simp only [Bool.and_eq_true, Bool.or_eq_true] at h
      rw [isNameChar, Char.isAlphanum, Bool.or_eq_true, Bool.or_eq_true]
      exact h.1.imp_left .inl

/-- The characters of a plain identifier, where no line break ends it. -/
theorem nameChars_of_isSimpleIdent (h : SqlUtils.isSimpleIdent name = true) (hline : '\n' ∉ name) :
    ∀ c ∈ name, isNameChar c = true := by
  obtain ⟨c, tail, rfl, hc⟩ := exists_head_of_isSimpleIdent h
  have hbody : SqlUtils.patternBody (c :: tail) = c :: tail := by
    rw [SqlUtils.patternBody, if_neg]
    exact fun hlast => hline (List.mem_of_getLast? hlast)
  rw [SqlUtils.isSimpleIdent, hbody] at h
  simp only [Bool.and_eq_true, List.all_eq_true] at h
  exact List.forall_mem_cons.mpr ⟨hc, h.2⟩

/-- A bare name is read up to the first character that is none of a name. -/
theorem readName_bare {c : Char} (hc : isNameChar c = true) {left : Text} (hleft : Blank left)
    (text : Text) : readName (left ++ c :: text) =
      some ((c :: text).takeWhile isNameChar, (c :: text).dropWhile isNameChar) := by
  have hquote : c ≠ '`' := by
    rintro rfl
    exact absurd hc (by decide)
  have hspace : ¬isSpace c = true := by rw [isSpace_of_isNameChar hc]; exact Bool.false_ne_true
  rw [readName, List.dropWhile_append_of_pos hleft, List.dropWhile_cons_of_neg hspace]
  dsimp only
  rw [if_neg hquote, if_pos hc]

theorem readName_quoted {left : Text} (hleft : Blank left) (text : Text) :
    readName (left ++ '`' :: text) = readQuoted text := by
  rw [readName, List.dropWhile_append_of_pos hleft, List.dropWhile_cons_of_neg (by decide)]
  dsimp only
  rw [if_pos rfl]

/-- A name that stands for itself is read, whatever white space stands before it. -/
theorem readName_self {left : Text} (h : SelfNamed name) (hleft : Blank left) :
    readName (left ++ columnText name rest) = some (name, ' ' :: rest) := by
  rw [columnText, columnName]
  by_cases hident : SqlUtils.isSimpleIdent name = true
  · have hchars := nameChars_of_isSimpleIdent hident (h.lineBreak hident)
    rw [if_pos hident]
    obtain ⟨c, tail, rfl, hc⟩ := exists_head_of_isSimpleIdent hident
    rw [List.cons_append, readName_bare hc hleft, ← List.cons_append,
      List.takeWhile_append_of_pos hchars, List.dropWhile_append_of_pos hchars,
      List.takeWhile_cons_of_neg (by decide), List.dropWhile_cons_of_neg (by decide),
      List.append_nil]
  · rw [if_neg hident, List.cons_append, readName_quoted hleft, List.append_assoc,
      List.singleton_append, readQuoted_self h.backtick]

/-- A name that is read as it was written stands for itself. -/
theorem SelfNamed.of_readName {left after : Text} (hleft : Blank left)
    (h : readName (left ++ columnText name rest) = some (name, after)) : SelfNamed name := by
  rw [columnText, columnName] at h
  by_cases hident : SqlUtils.isSimpleIdent name = true
  · rw [if_pos hident] at h
    obtain ⟨c, tail, hname, hc⟩ := exists_head_of_isSimpleIdent hident
    have hread : (name ++ ' ' :: rest).takeWhile isNameChar = name := by
      rw [hname] at h ⊢
      rw [List.cons_append, readName_bare hc hleft] at h
      exact congrArg Prod.fst (Option.some.inj h)
    have hchars : ∀ c ∈ name, isNameChar c = true := fun c hmem => by
      rw [← hread] at hmem
      exact List.mem_takeWhile_imp hmem
    exact ⟨fun hmem => absurd (hchars _ hmem) (by decide),
      fun _ hmem => absurd (hchars _ hmem) (by decide)⟩
  · rw [if_neg hident, List.cons_append, readName_quoted hleft, List.append_assoc,
      List.singleton_append] at h
    exact ⟨(of_readQuoted name.length 0 le_rfl h).2, fun htrue => absurd htrue hident⟩

end Names

section Columns

variable {letters : Letters} {columns : List (Text × Text)}

/-- A type that goes on to a comma, or to the end. -/
theorem breakTop_type {type : Text} (h : Shaped .type type) (rest : Text) :
    Nesting.breakTop bracket (· = ',') 0 (' ' :: (type ++ ',' :: rest)) = some (' ' :: type, rest) ∧
      Nesting.breakTop bracket (· = ',') 0 (' ' :: type) = none := by
  have hpasses : Nesting.Passes bracket (fun c => decide (c = ',')) 0 (' ' :: type) :=
    ⟨fun hspace => absurd hspace (by decide), h.passes_comma⟩
  have hdepth : Nesting.depth bracket (' ' :: type) = 0 := by
    rw [Nesting.depth, h.brackets.depth_eq]
    rfl
  refine ⟨Nesting.breakTop_eq_some hpasses hdepth (decide_eq_true rfl), ?_⟩
  have happend := @Nesting.breakTop_append _ bracket _ (' ' :: type) [] 0 hpasses
  rw [List.append_nil] at happend
  rw [happend, Nesting.breakTop, Option.map_none]

theorem columnText_append (name type rest : Text) :
    columnText name type ++ rest = columnText name (type ++ rest) := by
  rw [columnText, columnText, List.append_assoc, List.cons_append]

/-- What is read as the columns names the first of them as it is written. -/
theorem SelfNamed.of_readColumns {n : Nat} {column : Text × Text} {left text : Text}
    (hleft : Blank left)
    (h : readColumns n (left ++ columnText column.1 text) = some (column :: columns)) :
    SelfNamed column.1 := by
  cases n with
  | zero => cases h
  | succ n =>
    rw [readColumns] at h
    obtain ⟨read, hread, h⟩ := Option.bind_eq_some_iff.mp h
    have hname : read.1 = column.1 := by
      split at h
      · rw [← (List.cons.inj (Option.some.inj h)).1]
      · obtain ⟨rest, -, hcons⟩ := Option.map_eq_some_iff.mp h
        rw [← (List.cons.inj hcons).1]
    have hpair : read = (column.1, read.2) := Prod.ext hname rfl
    rw [hpair] at hread
    exact .of_readName hleft hread

theorem readColumns_iff {n : Nat} {left : Text} (hne : columns ≠ [])
    (htypes : ∀ column ∈ columns, Shaped .type column.2) (hn : columns.length ≤ n)
    (hleft : Blank left) :
    readColumns n (left ++ [',', ' '].intercalate (columns.map fun c => columnText c.1 c.2)) =
      some columns ↔ ∀ column ∈ columns, SelfNamed column.1 := by
  induction columns generalizing n left with
  | nil => exact absurd rfl hne
  | cons column columns ih =>
    obtain ⟨htype, htypes⟩ := List.forall_mem_cons.mp htypes
    rw [List.length_cons] at hn
    obtain ⟨n, rfl⟩ : ∃ m, n = m + 1 := ⟨n - 1, by omega⟩
    have hstrip : strip (' ' :: column.2) = column.2 := by
      have hblank : Blank [' '] := fun c hc => by
        rw [List.mem_singleton.mp hc]
        rfl
      have hpad := htype.strip_pad hblank (r := []) fun _ hc => absurd hc List.not_mem_nil
      rwa [List.append_nil] at hpad
    cases columns with
    | nil =>
      rw [List.map_singleton, List.intercalate_singleton, List.forall_mem_singleton]
      refine ⟨fun h => .of_readColumns hleft h, fun hself => ?_⟩
      rw [readColumns, readName_self hself hleft, Option.bind_some]
      dsimp only
      rw [(breakTop_type htype []).2]
      dsimp only
      rw [hstrip]
    | cons next columns =>
      rw [List.map_cons, List.map_cons, List.intercalate_cons_cons, List.append_assoc,
        columnText_append, List.forall_mem_cons]
      have hrest := @ih n [' '] (List.cons_ne_nil _ _) htypes (by omega) fun c hc => by
        rw [List.mem_singleton.mp hc]
        rfl
      have hread (hself : SelfNamed column.1) (text : Text) :
          readColumns (n + 1) (left ++ columnText column.1 (column.2 ++ ([',', ' '] ++ text))) =
            (readColumns n ([' '] ++ text)).map (column :: ·) := by
        rw [readColumns, readName_self hself hleft, Option.bind_some]
        dsimp only
        rw [List.cons_append, (breakTop_type htype _).1]
        dsimp only
        rw [hstrip]
      refine ⟨fun h => ?_, fun hself => ?_⟩
      · have hself : SelfNamed column.1 := .of_readColumns hleft h
        rw [hread hself] at h
        obtain ⟨read, hread, hcons⟩ := Option.map_eq_some_iff.mp h
        rw [(List.cons.inj hcons).2] at hread
        exact ⟨hself, hrest.mp hread⟩
      · rw [hread hself.1]
        have hmap := hrest.mpr hself.2
        rw [List.map_cons] at hmap
        rw [hmap, Option.map_some]

/-- Every column takes at least a character. -/
theorem length_le_intercalate (columns : List (Text × Text)) : columns.length ≤
    ([',', ' '].intercalate (columns.map fun c => columnText c.1 c.2)).length := by
  induction columns with
  | nil => exact Nat.zero_le _
  | cons column columns ih =>
    have hone : 1 ≤ (columnText column.1 column.2).length := by
      rw [columnText, List.length_append, List.length_cons]
      omega
    cases columns with
    | nil =>
      rw [List.map_singleton, List.intercalate_singleton]
      exact hone
    | cons next columns =>
      rw [List.map_cons, List.map_cons, List.intercalate_cons_cons, List.length_append,
        List.length_append, List.length_cons]
      rw [List.map_cons] at ih
      omega

theorem readDdl_iff (htypes : ∀ column ∈ columns, Shaped .type column.2) :
    readDdl ([',', ' '].intercalate (columns.map fun c => columnText c.1 c.2)) = some columns ↔
      ∀ column ∈ columns, SelfNamed column.1 := by
  by_cases hne : columns = []
  · rw [hne]
    exact iff_of_true rfl fun _ hc => absurd hc List.not_mem_nil
  · have hpos := List.length_pos_iff.mpr hne
    have hlength := length_le_intercalate columns
    rw [readDdl, if_neg fun hempty => ?_]
    · exact @readColumns_iff _ _ [] hne htypes hlength fun _ hc => absurd hc List.not_mem_nil
    · rw [List.isEmpty_iff.mp hempty, List.length_nil] at hlength
      omega

/-- The columns that a schema object declares: its named properties, with their types. -/
def Declares (letters : Letters) (properties : List SchemaProperty)
    (columns : List (Text × UnityType .type)) : Prop :=
  List.Forall₂ (fun property column => property.1 = column.1 ∧
    ∃ type ∈ property.2, validatePhysicalType letters type = .ok column.2.render)
    (namedProperties properties) columns

theorem columnOf_eq {schema name type : Text} {t : UnityType .type}
    (h : validatePhysicalType letters type = .ok t.render) :
    columnOf letters schema name (some type) = .ok (columnText name t.render) := by
  have hne : type.isEmpty = false := by
    cases type with
    | nil => cases h
    | cons c rest => rfl
  have hfilter : (some type).filter (!·.isEmpty) = some type := by simp [hne]
  rw [columnOf, hfilter]
  dsimp only
  rw [h]

/-- The DDL of a schema object whose types are all accepted. -/
theorem schemaObjectToDdl_eq {properties : List SchemaProperty}
    {declared : List (Text × UnityType .type)} (h : Declares letters properties declared)
    (schema : Text) : schemaObjectToDdl letters schema properties =
      .ok ([',', ' '].intercalate (declared.map fun c => columnText c.1 c.2.render)) := by
  have hparts : (namedProperties properties).mapM (fun p => columnOf letters schema p.1 p.2) =
      .ok (declared.map fun c => columnText c.1 c.2.render) := by
    rw [mapM_eq_ok_iff_forall₂, List.forall₂_map_right_iff]
    refine List.Forall₂.imp (fun property column hcolumn => ?_) h
    obtain ⟨hname, type, htype, hvalid⟩ := hcolumn
    rw [hname, Option.mem_def.mp htype]
    exact columnOf_eq hvalid
  rw [schemaObjectToDdl, hparts]
  rfl

/-- Where the declared types are plain, the DDL stands for the declared columns exactly where every
name stands for itself: the names are not escaped. -/
theorem schemaObjectToDdl_reads {properties : List SchemaProperty}
    {declared : List (Text × UnityType .type)} (h : Declares letters properties declared)
    (hplain : ∀ column ∈ declared, column.2.Plain letters) (schema : Text) :
    ∃ ddl, schemaObjectToDdl letters schema properties = .ok ddl ∧
      (readDdl ddl = some (declared.map fun c => (c.1, c.2.render)) ↔
        ∀ column ∈ declared, SelfNamed column.1) := by
  refine ⟨_, schemaObjectToDdl_eq h schema, ?_⟩
  have htypes : ∀ column ∈ declared.map fun c => (c.1, c.2.render), Shaped .type column.2 := by
    intro column hcolumn
    obtain ⟨c, hc, rfl⟩ := List.mem_map.mp hcolumn
    exact (spells_render (hplain c hc)).shaped
  have hread := readDdl_iff htypes
  rw [List.map_map] at hread
  refine Iff.trans hread ⟨fun hself c hc => hself _ (List.mem_map_of_mem hc), fun hself c hc => ?_⟩
  obtain ⟨column, hcolumn, rfl⟩ := List.mem_map.mp hc
  exact hself column hcolumn

/-- A name that ends in a backtick takes the closing one for the second of a pair. -/
theorem schemaObjectToDdl_injected :
    ∃ ddl, schemaObjectToDdl asciiLetters ['s'] [⟨some ['a', '`'], some ['i', 'n', 't']⟩] = .ok ddl ∧
      (readDdl ddl = some [(['a', '`'], ['I', 'N', 'T'])] ↔
        ∀ column ∈ [((['a', '`'] : Text), UnityType.simple .int)], SelfNamed column.1) :=
  @schemaObjectToDdl_reads asciiLetters [⟨some ['a', '`'], some ['i', 'n', 't']⟩]
    [(['a', '`'], .simple .int)]
    (.cons ⟨rfl, _, rfl, rfl⟩ .nil) (fun column hcolumn => by
      rw [List.mem_singleton.mp hcolumn]
      trivial) ['s']

end Columns

end Dqx.Contracts
