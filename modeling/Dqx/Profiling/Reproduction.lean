import Dqx.Lib.Entries
import Dqx.Lib.Trim
import Dqx.Profiling.Candidate

/-! When the candidate for a check of the profiler renders to the check again. -/

namespace Dqx.Profiling

open Lib Lib.Markers
open Lib.Sql (Text)
open Materializer
open Scheduler (strip)

variable {ν : Type}

/-! ### What a candidate is for -/

/-- An argument that is `None` counts as absent. -/
def present : Option (Argument ν) → Option (Argument ν)
  | some (.scalar .none) => none
  | value => value

def given (arguments : Dict ν) (name : Text) : Option (Argument ν) :=
  present (arguments.lookup name)

/-- The row filter of a check: an empty one is none. -/
def rowFilter (check : Dict ν) : Option (Argument ν) :=
  match given check "filter".toList with
  | some (.str []) => none
  | value => value

/-- The candidate renders to the function and the arguments of the check, which has no filter that
the candidate does not have. -/
def Reproduces (check : Dict ν) (candidate : ProfilingRuleCandidate ν) : Prop :=
  ∃ function arguments rendered, extractCheck check = some (function, arguments) ∧
    candidate.function = function ∧ rowFilter check = none ∧ candidate.render = some rendered ∧
    ∀ name, given rendered name = given arguments name

/-! ### What a candidate can represent -/

/-- The columns that the arguments give to the slots. -/
def columnsOf (cfd : CheckFunctionDef) (arguments : Dict ν) : ColumnMappingGroup := fun name =>
  (cfd.slots.find? fun slot => slot.name = name).bind fun slot =>
    mappingValue slot (arguments.lookup slot.name)

/-- The columns of a slot come back from their text. A column with a comma or with blanks around it
does not, and a single column has to outlive the passes of the slots after it. -/
def SlotKept (group : ColumnMappingGroup) (later : List RuleSlot) (slot : RuleSlot)
    (raw : Option (Argument ν)) : Prop :=
  match slot.cardinality with
  | .many => ∃ columns : List Text, raw = some (.list (columns.map .str)) ∧
      ∀ column ∈ columns, ',' ∉ column ∧ strip column = column
  | .one => ∀ text, raw = some (.str text) →
      (substituteString group later text : Option (Argument ν)) = some (.str text)

/-- The signature of the function has a parameter for each argument, each column comes back, and each
other value is one that a parameter can hold. -/
structure Representable (cfd : CheckFunctionDef) (arguments : Dict ν) : Prop where
  known : ∀ name, given arguments name ≠ none → name ∈ cfd.params.map CheckFunctionParam.name
  slots : ∀ before slot later, cfd.slots = before ++ slot :: later →
    SlotKept (columnsOf cfd arguments) later slot (arguments.lookup slot.name)
  values : ∀ param ∈ cfd.otherParams, ∀ value, given arguments param.name = some value →
    frozen value ≠ none

/-! ### Columns -/

theorem strip_strip (text : Text) : strip (strip text) = strip text :=
  rdropWhile_dropWhile_idempotent _ text

theorem not_mem_strip {text : Text} {c : Char} (h : c ∉ text) : c ∉ strip text := by
  intro hc
  have hsublist : (strip text).Sublist text :=
    ((List.rdropWhile_prefix _ _).sublist).trans (List.dropWhile_sublist _)
  exact h (hsublist.subset hc)

theorem mem_splitColumns {mapped column : Text} (h : column ∈ splitColumns mapped) :
    ',' ∉ column ∧ strip column = column := by
  obtain ⟨part, hpart, rfl⟩ := List.mem_map.mp (List.mem_of_mem_filter h)
  exact ⟨not_mem_strip (not_mem_of_mem_splitOn hpart), strip_strip part⟩

/-- Columns come back from their text if and only if none has a comma or blanks around it. -/
theorem splitColumns_intercalate {columns : List Text} (hne : columns ≠ [])
    (hcolumns : ∀ column ∈ columns, column ≠ []) :
    splitColumns ([','].intercalate columns) = columns ↔
      ∀ column ∈ columns, ',' ∉ column ∧ strip column = column := by
  constructor
  · intro h column hcolumn
    exact mem_splitColumns (h ▸ hcolumn)
  · intro h
    rw [splitColumns, List.splitOn_intercalate _ (fun column hcolumn => (h column hcolumn).1) hne]
    have hmap : columns.map strip = columns :=
      (List.map_congr_left fun column hcolumn => (h column hcolumn).2).trans (List.map_id _)
    rw [hmap, List.filter_eq_self]
    exact fun column hcolumn => by simpa using hcolumns column hcolumn

/-! ### Placeholders -/

/-- The name of a slot is an identifier. -/
def Identifier (slot : RuleSlot) : Prop := '\x7b' ∉ slot.name ∧ '\x7d' ∉ slot.name

theorem placeholder_within {slot slot' : RuleSlot} (h : Identifier slot) (h' : Identifier slot')
    (hwithin : slot.placeholder <:+: slot'.placeholder) : slot.name = slot'.name := by
  obtain ⟨before, after, heq⟩ := hwithin
  have hopen : ∀ slot : RuleSlot, Identifier slot → slot.placeholder.count '\x7b' = 2 := by
    intro slot hslot
    rw [RuleSlot.placeholder, List.count_append, List.count_append, List.count_eq_zero.mpr hslot.1]
    decide
  have hclose : ∀ slot : RuleSlot, Identifier slot → slot.placeholder.count '\x7d' = 2 := by
    intro slot hslot
    rw [RuleSlot.placeholder, List.count_append, List.count_append, List.count_eq_zero.mpr hslot.2]
    decide
  have hbefore : before = [] := by
    have hcount := congrArg (List.count '\x7b') heq
    rw [List.count_append, List.count_append, hopen slot h, hopen slot' h'] at hcount
    have hnone : '\x7b' ∉ before := List.count_eq_zero.mp (by omega)
    cases before with
    | nil => rfl
    | cons c before => exact absurd (by rw [(List.cons.inj heq).1]; exact .head _) hnone
  have hafter : after = [] := by
    have hcount := congrArg (List.count '\x7d') heq
    rw [List.count_append, List.count_append, hclose slot h, hclose slot' h'] at hcount
    have hnone : '\x7d' ∉ after := List.count_eq_zero.mp (by omega)
    by_contra hne
    have hlast : slot'.placeholder.getLast? = some '\x7d' := by
      rw [RuleSlot.placeholder, List.getLast?_append]
      rfl
    rw [← heq, List.getLast?_append, List.getLast?_eq_some_getLast hne] at hlast
    exact hnone (Option.some.inj hlast ▸ List.getLast_mem hne)
  rw [hbefore, hafter, List.nil_append, List.append_nil] at heq
  exact placeholder_inj.mp heq

/-- A text that is nothing but the placeholder becomes the columns. -/
theorem replace_placeholder (slot : RuleSlot) (new : Text) :
    replace slot.placeholder new slot.placeholder = new := by
  have hscan := scan_append_of_marker (placeholder_ne_nil slot) []
  rw [List.append_nil] at hscan
  rw [replace, hscan, fill_marker]
  exact List.append_nil new

variable {group : ColumnMappingGroup}

/-- What the placeholder of a slot becomes: earlier slots pass it by, and a single column goes
through the passes of the slots after it. -/
theorem substituteString_placeholder {before later : List RuleSlot} {slot : RuleSlot} {mapped : Text}
    (hdistinct : ((before ++ slot :: later).map RuleSlot.name).Nodup)
    (hidentifiers : ∀ s ∈ before ++ slot :: later, Identifier s)
    (hmapped : group slot.name = some mapped) :
    (substituteString group (before ++ slot :: later) slot.placeholder : Option (Argument ν)) =
      match slot.cardinality with
      | .many => some (.list ((splitColumns mapped).map .str))
      | .one => substituteString group later mapped := by
  induction before with
  | nil =>
    rw [List.nil_append, substituteString, if_pos (List.infix_refl _), hmapped]
    cases hcardinality : slot.cardinality with
    | many => simp
    | one =>
      have hreplacement : slot.replacement mapped = mapped := by
        rw [RuleSlot.replacement, hcardinality]
      simp [hreplacement, replace_placeholder]
  | cons s before ih =>
    have hne : s.name ≠ slot.name := by
      intro heq
      rw [List.cons_append, List.map_cons, List.nodup_cons] at hdistinct
      exact hdistinct.1 (by rw [heq]; exact List.mem_map_of_mem (by simp))
    have hpassed : ¬s.placeholder <:+: slot.placeholder := fun hwithin =>
      hne (placeholder_within (hidentifiers s (by simp)) (hidentifiers slot (by simp)) hwithin)
    rw [List.cons_append, substituteString, if_neg hpassed]
    exact ih (List.nodup_cons.mp hdistinct).2
      fun t ht => hidentifiers t (List.mem_cons_of_mem _ ht)

/-- A text in which no placeholder stands is left as it is. -/
theorem substituteString_of_not_infix {slots : List RuleSlot} {text : Text}
    (h : ∀ slot ∈ slots, ¬slot.placeholder <:+: text) :
    (substituteString group slots text : Option (Argument ν)) = some (.str text) := by
  induction slots with
  | nil => rfl
  | cons slot slots ih =>
    rw [substituteString, if_neg (h slot List.mem_cons_self)]
    exact ih fun s hs => h s (List.mem_cons_of_mem _ hs)

/-! ### The mapping of a candidate -/

theorem mem_params_iff {cfd : CheckFunctionDef} {name : Text} :
    name ∈ cfd.params.map CheckFunctionParam.name ↔
      name ∈ cfd.slots.map RuleSlot.name ∨ name ∈ cfd.otherParams.map CheckFunctionParam.name := by
  have hslot : ∀ {param : CheckFunctionParam} {slot}, param.slot? = some slot →
      slot.name = param.name := by
    intro param slot h
    unfold CheckFunctionParam.slot? at h
    split at h <;> cases h <;> rfl
  simp only [CheckFunctionDef.slots, CheckFunctionDef.otherParams, List.mem_map, List.mem_filterMap,
    List.mem_filter, Option.isNone_iff_eq_none]
  constructor
  · rintro ⟨param, hparam, rfl⟩
    cases hcase : param.slot? with
    | none => exact .inr ⟨param, ⟨hparam, hcase⟩, rfl⟩
    | some slot => exact .inl ⟨slot, ⟨param, hparam, hcase⟩, hslot hcase⟩
  · rintro (⟨slot, ⟨param, hparam, hcase⟩, rfl⟩ | ⟨param, ⟨hparam, -⟩, rfl⟩)
    · exact ⟨param, hparam, (hslot hcase).symm⟩
    · exact ⟨param, hparam, rfl⟩

/-- The candidate for a check. -/
theorem buildProfilingRule_eq_some {unicode : Utils.Unicode} {functions : List CheckFunctionDef}
    {check : Dict ν} {candidate : ProfilingRuleCandidate ν}
    (h : buildProfilingRule unicode functions check = some candidate) :
    ∃ function arguments cfd mapping, extractCheck check = some (function, arguments) ∧
      functionDef functions function = some cfd ∧ mappingFor cfd arguments = some mapping ∧
      candidate = ⟨function, definitionFor cfd arguments, mapping⟩ := by
  rw [buildProfilingRule, Option.bind_eq_bind, Option.bind_eq_some_iff] at h
  obtain ⟨⟨function, arguments⟩, hextract, h⟩ := h
  dsimp only at h
  rw [Option.bind_eq_bind, Option.bind_eq_some_iff] at h
  obtain ⟨cfd, hcfd, h⟩ := h
  split at h
  · cases h
  rw [Option.bind_eq_bind, Option.bind_eq_some_iff] at h
  obtain ⟨mapping, hmapping, h⟩ := h
  split at h
  · cases h
  exact ⟨function, arguments, cfd, mapping, hextract, hcfd, hmapping, (Option.some.inj h).symm⟩

section Mapping

variable {cfd : CheckFunctionDef} {arguments : Dict ν} {mapping : List (Text × Text)}

theorem columnsOf_slot {slot : RuleSlot} (hslot : slot ∈ cfd.slots) :
    columnsOf cfd arguments slot.name = mappingValue slot (arguments.lookup slot.name) := by
  have hfind : (cfd.slots.find? fun s => s.name = slot.name) = some slot := by
    have hsome : (cfd.slots.find? fun s => s.name = slot.name).isSome := by
      rw [List.find?_isSome]
      exact ⟨slot, hslot, decide_eq_true rfl⟩
    obtain ⟨found, hfound⟩ := Option.isSome_iff_exists.mp hsome
    have hname := List.find?_some hfound
    have hsame := List.inj_on_of_nodup_map cfd.slots_distinct (List.mem_of_find?_eq_some hfound)
      hslot (of_decide_eq_true hname)
    rw [hfound, hsame]
  rw [columnsOf, hfind]
  rfl

theorem lookup_mapping (h : mappingFor cfd arguments = some mapping) (name : Text) :
    mapping.lookup name = columnsOf cfd arguments name := by
  by_cases hname : name ∈ cfd.slots.map RuleSlot.name
  · obtain ⟨slot, hslot, rfl⟩ := List.mem_map.mp hname
    rw [columnsOf_slot hslot]
    exact lookup_mapM cfd.slots_distinct h hslot
  · have hfind : (cfd.slots.find? fun s => s.name = name) = none := by
      rw [List.find?_eq_none]
      intro slot hslot heq
      exact hname (List.mem_map.mpr ⟨slot, hslot, of_decide_eq_true heq⟩)
    rw [columnsOf, hfind, lookup_mapM_of_not_mem h hname]
    rfl

theorem mapped (h : mappingFor cfd arguments = some mapping) {slot : RuleSlot}
    (hslot : slot ∈ cfd.slots) :
    ∃ columns, mappingValue slot (arguments.lookup slot.name) = some columns := by
  obtain ⟨entry, -, hentry⟩ := exists_of_forall₂_left (mapM_eq_some_iff_forall₂.mp h) hslot
  obtain ⟨columns, hcolumns, -⟩ := Option.map_eq_some_iff.mp hentry
  exact ⟨columns, hcolumns⟩

theorem identifier_of_slot {slot : RuleSlot} (hslot : slot ∈ cfd.slots) : Identifier slot := by
  have hname : slot.name ∈ cfd.params.map CheckFunctionParam.name :=
    mem_params_iff.mpr (.inl (List.mem_map_of_mem hslot))
  obtain ⟨param, hparam, heq⟩ := List.mem_map.mp hname
  have hidentifier := cfd.identifiers param hparam
  rwa [heq] at hidentifier

/-! ### The arguments of a candidate -/

/-- What the argument of a slot becomes. -/
def slotValue (cfd : CheckFunctionDef) (arguments : Dict ν) (slot : RuleSlot) :
    Option (Argument ν) :=
  substituteString (columnsOf cfd arguments) cfd.slots slot.placeholder

theorem columnText_eq_some {value : Argument ν} {text : Text} :
    columnText value = some text ↔ value = .str text ∧ text ≠ [] := by
  cases value with
  | str text' =>
    rw [columnText]
    split
    · next hempty =>
      refine ⟨nofun, ?_⟩
      rintro ⟨heq, hne⟩
      obtain rfl := Value.str.inj heq
      exact absurd (List.isEmpty_iff.mp hempty) hne
    · next hne =>
      refine ⟨fun h => ?_, fun h => by rw [Value.str.inj h.1]⟩
      obtain rfl := Option.some.inj h
      exact ⟨rfl, by simpa using hne⟩
  | list items => exact ⟨nofun, fun h => nomatch h.1⟩
  | dict entries => exact ⟨nofun, fun h => nomatch h.1⟩
  | scalar s => exact ⟨nofun, fun h => nomatch h.1⟩

/-- The columns of a list, none of them empty. -/
theorem mapM_columnText {items : List (Argument ν)} {texts : List Text}
    (h : items.mapM columnText = some texts) :
    items = texts.map .str ∧ ∀ text ∈ texts, text ≠ [] := by
  induction mapM_eq_some_iff_forall₂.mp h with
  | nil => exact ⟨rfl, nofun⟩
  | @cons item text items texts hitem hrest ih =>
    obtain ⟨rfl, hne⟩ := columnText_eq_some.mp hitem
    obtain ⟨rfl, hall⟩ := ih (mapM_eq_some_iff_forall₂.mpr hrest)
    exact ⟨rfl, List.forall_mem_cons.mpr ⟨hne, hall⟩⟩

theorem str_map_injective {texts texts' : List Text}
    (h : texts.map (Value.str (σ := Scalar ν)) = texts'.map .str) : texts = texts' :=
  List.map_injective_iff.mpr (fun _ _ => Value.str.inj) h

/-- A list of columns for a slot of many, or a text. -/
theorem mappingValue_eq_some {slot : RuleSlot} {raw : Option (Argument ν)} {columns : Text}
    (h : mappingValue slot raw = some columns) :
    (∃ texts : List Text, slot.cardinality = .many ∧ raw = some (.list (texts.map .str)) ∧
      texts ≠ [] ∧ (∀ text ∈ texts, text ≠ []) ∧ columns = [','].intercalate texts) ∨
    raw = some (.str columns) := by
  unfold mappingValue at h
  split at h
  · split at h
    · next items hmany =>
      obtain ⟨texts, htexts, rfl⟩ := Option.map_eq_some_iff.mp h
      obtain ⟨rfl, hall⟩ := mapM_columnText htexts
      exact .inl ⟨texts, hmany.1, rfl, by simpa using hmany.2, hall, rfl⟩
    · cases h
  · exact .inr (congrArg some (columnText_eq_some.mp h).1)
  · cases h

/-- A slot gets its argument back if and only if its columns are kept. -/
theorem slotValue_eq_iff (h : mappingFor cfd arguments = some mapping)
    {before later : List RuleSlot} {slot : RuleSlot} (hslots : cfd.slots = before ++ slot :: later) :
    slotValue cfd arguments slot = arguments.lookup slot.name ↔
      SlotKept (columnsOf cfd arguments) later slot (arguments.lookup slot.name) := by
  have hslot : slot ∈ cfd.slots := by rw [hslots]; simp
  obtain ⟨columns, hcolumns⟩ := mapped h hslot
  have hvalue := @substituteString_placeholder ν (columnsOf cfd arguments) before later slot columns
    (hslots ▸ cfd.slots_distinct) (fun s hs => identifier_of_slot (hslots ▸ hs))
    ((columnsOf_slot hslot).trans hcolumns)
  rw [slotValue, hslots, hvalue, SlotKept]
  cases hcardinality : slot.cardinality with
  | many =>
    dsimp only
    rcases mappingValue_eq_some hcolumns with ⟨texts, -, hraw, hne, hall, rfl⟩ | hraw
    · rw [hraw, Option.some.injEq, Value.list.injEq]
      have hkept := splitColumns_intercalate hne hall
      constructor
      · intro heq
        exact ⟨texts, rfl, hkept.mp (str_map_injective heq)⟩
      · rintro ⟨texts', heq, hgood⟩
        obtain rfl := str_map_injective (Value.list.inj (Option.some.inj heq))
        rw [hkept.mpr hgood]
    · rw [hraw]
      exact ⟨nofun, fun ⟨_, heq, _⟩ => nomatch heq⟩
  | one =>
    dsimp only
    rcases mappingValue_eq_some hcolumns with ⟨texts, hmany, -⟩ | hraw
    · rw [hcardinality] at hmany
      cases hmany
    · rw [hraw]
      refine ⟨fun heq text htext => ?_, fun hkept => hkept columns rfl⟩
      obtain rfl := Value.str.inj (Option.some.inj htext)
      exact heq

theorem render_eq_some_iff (h : mappingFor cfd arguments = some mapping) (function : Text)
    {rendered : Dict ν} :
    (⟨function, definitionFor cfd arguments, mapping⟩ : ProfilingRuleCandidate ν).render =
        some rendered ↔
      ∃ entries, cfd.slots.mapM (fun slot =>
          (slotValue cfd arguments slot).map fun value => (slot.name, value)) = some entries ∧
        rendered = setParameters id (definitionFor cfd arguments).parameters entries := by
  have hgroup : (fun name => mapping.lookup name) = columnsOf cfd arguments :=
    funext (lookup_mapping h)
  have hany : (cfd.slots.any fun slot => (columnsOf cfd arguments slot.name).isNone) = false := by
    rw [List.any_eq_false]
    intro slot hslot
    obtain ⟨columns, hcolumns⟩ := mapped h hslot
    rw [columnsOf_slot hslot, hcolumns]
    exact Bool.false_ne_true
  have hvalues : (definitionFor cfd arguments).arguments.mapM (fun entry =>
      (substituteValue (columnsOf cfd arguments) cfd.slots entry.2).map fun value =>
        (entry.1, value)) = cfd.slots.mapM fun slot =>
          (slotValue cfd arguments slot).map fun value => (slot.name, value) := by
    rw [definitionFor, List.mapM_map]
    rfl
  have hfilter : filterOnlyColumns (columnsOf cfd arguments) cfd.slots none = [] := by
    simp [filterOnlyColumns, filterOnlySlotNames]
  rw [ProfilingRuleCandidate.render, hgroup, substituteArguments, Option.bind_eq_bind,
    Option.bind_eq_some_iff]
  refine exists_congr fun entries => ?_
  show ((definitionFor cfd arguments).arguments.mapM _ = some entries ∧
    (if (cfd.slots.any fun slot => (columnsOf cfd arguments slot.name).isNone) = true then none
      else if (filterOnlyColumns (columnsOf cfd arguments) cfd.slots none).isEmpty = true then
        some (setParameters id (definitionFor cfd arguments).parameters entries)
      else _) = _) ↔ _
  refine and_congr (by rw [← hvalues]; rfl) ?_
  rw [hany, hfilter, if_neg Bool.false_ne_true, List.isEmpty_nil, if_pos rfl, Option.some.injEq,
    eq_comm]

end Mapping

/-! ### Lookups -/

theorem lookup_setArgument {β : Type} (key name : Text) (value : β) (entries : List (Text × β)) :
    (setArgument key value entries).lookup name =
      if name = key then some value else entries.lookup name := by
  induction entries with
  | nil =>
    rw [setArgument, List.lookup_cons, List.lookup_nil]
    by_cases hname : name = key
    · rw [if_pos hname, beq_iff_eq.mpr hname]
    · rw [if_neg hname, beq_false_of_ne hname]
  | cons entry entries ih =>
    obtain ⟨k, v⟩ := entry
    rw [setArgument]
    by_cases hkey : k = key
    · rw [if_pos hkey, List.lookup_cons, List.lookup_cons, hkey]
      by_cases hname : name = key
      · rw [if_pos hname, beq_iff_eq.mpr hname]
      · rw [if_neg hname, beq_false_of_ne hname]
    · rw [if_neg hkey, List.lookup_cons, List.lookup_cons, ih]
      by_cases hname : name = k
      · have hne : name ≠ key := fun heq => hkey (hname.symm.trans heq)
        rw [beq_iff_eq.mpr hname]
        simp only [if_neg hne]
      · rw [beq_false_of_ne hname]

theorem lookup_setParameters_of_not_mem {σ : Type} {parameters : List (RuleParameter σ)}
    {name : Text} (h : name ∉ parameters.map RuleParameter.name) (entries : List (Text × Value σ)) :
    (setParameters id parameters entries).lookup name = entries.lookup name := by
  induction parameters generalizing entries with
  | nil => rfl
  | cons parameter parameters ih =>
    rw [List.map_cons, List.mem_cons, not_or] at h
    rw [setParameters, List.foldl_cons, ← setParameters, ih h.2]
    cases parameter.value with
    | none => rfl
    | some value => exact (lookup_setArgument _ _ _ _).trans (if_neg h.1)

/-- A parameter with a value sets its argument. -/
theorem lookup_setParameters {σ : Type} {parameters : List (RuleParameter σ)}
    (hdistinct : (parameters.map RuleParameter.name).Nodup) {parameter : RuleParameter σ}
    (h : parameter ∈ parameters) (entries : List (Text × Value σ)) :
    (setParameters id parameters entries).lookup parameter.name =
      parameter.value.or (entries.lookup parameter.name) := by
  induction parameters generalizing entries with
  | nil => cases h
  | cons first parameters ih =>
    obtain ⟨hfirst, hrest⟩ := List.nodup_cons.mp hdistinct
    rw [setParameters, List.foldl_cons, ← setParameters]
    rcases List.mem_cons.mp h with rfl | h
    · rw [lookup_setParameters_of_not_mem hfirst]
      cases parameter.value with
      | none => rfl
      | some value => exact (lookup_setArgument _ _ _ _).trans (if_pos rfl)
    · rw [ih hrest h]
      congr 1
      cases first.value with
      | none => rfl
      | some value =>
        refine (lookup_setArgument _ _ _ _).trans (if_neg fun heq => ?_)
        exact hfirst (heq ▸ List.mem_map_of_mem h)

/-! ### The candidate and the check -/

section Check

variable {cfd : CheckFunctionDef} {arguments : Dict ν} {mapping : List (Text × Text)}

theorem parameters_names (cfd : CheckFunctionDef) (arguments : Dict ν) :
    (definitionFor cfd arguments).parameters.map RuleParameter.name =
      cfd.otherParams.map CheckFunctionParam.name := by
  rw [definitionFor, List.map_map]
  rfl

theorem otherParams_distinct (cfd : CheckFunctionDef) :
    (cfd.otherParams.map CheckFunctionParam.name).Nodup :=
  cfd.distinct.sublist (List.filter_sublist.map _)

/-- No parameter has the name of a slot. -/
theorem not_slot {param : CheckFunctionParam} (h : param ∈ cfd.otherParams) :
    param.name ∉ cfd.slots.map RuleSlot.name := by
  intro hmem
  obtain ⟨slot, hslot, hname⟩ := List.mem_map.mp hmem
  obtain ⟨param', hparam', hcase⟩ := List.mem_filterMap.mp hslot
  obtain ⟨hparam, hnone⟩ := List.mem_filter.mp h
  have hname' : slot.name = param'.name := by
    unfold CheckFunctionParam.slot? at hcase
    split at hcase <;> cases hcase <;> rfl
  have hsame := List.inj_on_of_nodup_map cfd.distinct hparam' hparam (hname'.symm.trans hname)
  rw [hsame] at hcase
  rw [hcase] at hnone
  cases hnone

/-- The rendered arguments: those of the slots, and the parameters that hold a value. -/
theorem given_rendered {entries : Dict ν}
    (hentries : cfd.slots.mapM (fun slot =>
      (slotValue cfd arguments slot).map fun value => (slot.name, value)) = some entries) :
    (∀ slot ∈ cfd.slots,
      (setParameters id (definitionFor cfd arguments).parameters entries).lookup slot.name =
        slotValue cfd arguments slot) ∧
    (∀ param ∈ cfd.otherParams,
      (setParameters id (definitionFor cfd arguments).parameters entries).lookup param.name =
        (arguments.lookup param.name).bind frozen) ∧
    ∀ name, name ∉ cfd.params.map CheckFunctionParam.name →
      (setParameters id (definitionFor cfd arguments).parameters entries).lookup name = none := by
  refine ⟨fun slot hslot => ?_, fun param hparam => ?_, fun name hname => ?_⟩
  · rw [lookup_setParameters_of_not_mem]
    · exact lookup_mapM cfd.slots_distinct hentries hslot
    · rw [parameters_names]
      intro hmem
      obtain ⟨param, hparam, hname⟩ := List.mem_map.mp hmem
      exact not_slot hparam (hname ▸ List.mem_map_of_mem hslot)
  · have hset := lookup_setParameters (parameters_names cfd arguments ▸ otherParams_distinct cfd)
      (List.mem_map_of_mem hparam : freezeParameter param (arguments.lookup param.name) ∈
        (definitionFor cfd arguments).parameters) entries
    refine hset.trans ?_
    rw [show (freezeParameter param (arguments.lookup param.name)).name = param.name from rfl,
      lookup_mapM_of_not_mem hentries (not_slot hparam), Option.or_none]
    rfl
  · rw [mem_params_iff, not_or] at hname
    rw [lookup_setParameters_of_not_mem (parameters_names cfd arguments ▸ hname.2)]
    exact lookup_mapM_of_not_mem hentries hname.1

/-- A text or a list of columns. -/
theorem present_substituteString {group : ColumnMappingGroup} {slots : List RuleSlot} {text : Text} :
    present (substituteString group slots text : Option (Argument ν)) =
      substituteString group slots text := by
  induction slots generalizing text with
  | nil => rfl
  | cons slot slots ih =>
    rw [substituteString]
    split
    · split
      · rfl
      · split
        · rfl
        · exact ih
    · exact ih

theorem present_mapped (h : mappingFor cfd arguments = some mapping) {slot : RuleSlot}
    (hslot : slot ∈ cfd.slots) :
    present (arguments.lookup slot.name) = arguments.lookup slot.name := by
  obtain ⟨columns, hcolumns⟩ := mapped h hslot
  rcases mappingValue_eq_some hcolumns with ⟨texts, -, hraw, -⟩ | hraw
  · rw [hraw]
    rfl
  · rw [hraw]
    rfl

/-- A parameter gives the argument back if and only if it can hold it. -/
theorem present_frozen_iff (raw : Option (Argument ν)) :
    present (raw.bind frozen) = present raw ↔
      ∀ value, present raw = some value → frozen value ≠ none := by
  rcases raw with - | (text | items | entries | (- | b | n | text))
  all_goals simp [present, frozen]

theorem name_mem_params {slot : RuleSlot} (hslot : slot ∈ cfd.slots) :
    slot.name ∈ cfd.params.map CheckFunctionParam.name :=
  mem_params_iff.mpr (.inl (List.mem_map_of_mem hslot))

/-- A candidate that renders the arguments of the check can represent them. -/
theorem representable_of_given {entries : Dict ν} (h : mappingFor cfd arguments = some mapping)
    (hentries : cfd.slots.mapM (fun slot =>
      (slotValue cfd arguments slot).map fun value => (slot.name, value)) = some entries)
    (hgiven : ∀ name,
      given (setParameters id (definitionFor cfd arguments).parameters entries) name =
        given arguments name) : Representable cfd arguments := by
  obtain ⟨hslots, hparams, hothers⟩ := given_rendered hentries
  refine ⟨fun name hname => ?_, fun before slot later hsplit => ?_, fun param hparam => ?_⟩
  · by_contra hunknown
    have hrendered := hgiven name
    rw [given, hothers name hunknown] at hrendered
    exact hname hrendered.symm
  · have hslot : slot ∈ cfd.slots := by rw [hsplit]; simp
    have hrendered := hgiven slot.name
    rw [given, hslots slot hslot, slotValue, present_substituteString, given,
      present_mapped h hslot] at hrendered
    exact (slotValue_eq_iff h hsplit).mp hrendered
  · have hrendered := hgiven param.name
    rw [given, hparams param hparam] at hrendered
    exact (present_frozen_iff _).mp hrendered

/-- A candidate that can represent the arguments of the check renders them. -/
theorem given_of_representable (h : mappingFor cfd arguments = some mapping)
    (hrep : Representable cfd arguments) : ∃ entries, cfd.slots.mapM (fun slot =>
      (slotValue cfd arguments slot).map fun value => (slot.name, value)) = some entries ∧
    ∀ name, given (setParameters id (definitionFor cfd arguments).parameters entries) name =
      given arguments name := by
  have hvalue : ∀ slot ∈ cfd.slots, slotValue cfd arguments slot = arguments.lookup slot.name := by
    intro slot hslot
    obtain ⟨before, later, hsplit⟩ := List.append_of_mem hslot
    exact (slotValue_eq_iff h hsplit).mpr (hrep.slots before slot later hsplit)
  have hsome : ∀ slot ∈ cfd.slots, ∃ entry,
      (slotValue cfd arguments slot).map (fun value => (slot.name, value)) = some entry := by
    intro slot hslot
    obtain ⟨columns, hcolumns⟩ := mapped h hslot
    rw [hvalue slot hslot]
    rcases mappingValue_eq_some hcolumns with ⟨texts, -, hraw, -⟩ | hraw
    · exact ⟨_, by rw [hraw]; rfl⟩
    · exact ⟨_, by rw [hraw]; rfl⟩
  obtain ⟨entries, hentries⟩ := exists_mapM_eq_some hsome
  obtain ⟨hslots, hparams, hothers⟩ := given_rendered hentries
  refine ⟨entries, hentries, fun name => ?_⟩
  by_cases hknown : name ∈ cfd.params.map CheckFunctionParam.name
  · rcases mem_params_iff.mp hknown with hmem | hmem
    · obtain ⟨slot, hslot, rfl⟩ := List.mem_map.mp hmem
      rw [given, hslots slot hslot, hvalue slot hslot, given]
    · obtain ⟨param, hparam, rfl⟩ := List.mem_map.mp hmem
      rw [given, hparams param hparam]
      exact (present_frozen_iff _).mpr (hrep.values param hparam)
  · have hgiven : given arguments name = none := by
      by_contra hne
      exact hknown (hrep.known name hne)
    rw [given, hothers name hknown, hgiven]
    rfl

end Check

/-! ### All checks -/

section Checks

variable {unicode : Utils.Unicode} {functions : List CheckFunctionDef} {check : Dict ν}
  {candidate : ProfilingRuleCandidate ν}

/-- The check has no row filter, and the arguments of its function can be represented. -/
def CanReproduce (functions : List CheckFunctionDef) (check : Dict ν) : Prop :=
  rowFilter check = none ∧ ∀ function arguments cfd,
    extractCheck check = some (function, arguments) → functionDef functions function = some cfd →
      Representable cfd arguments

theorem reproduces_of_canReproduce (h : buildProfilingRule unicode functions check = some candidate)
    (hcan : CanReproduce functions check) : Reproduces check candidate := by
  obtain ⟨function, arguments, cfd, mapping, hextract, hcfd, hmapping, rfl⟩ :=
    buildProfilingRule_eq_some h
  obtain ⟨entries, hentries, hgiven⟩ :=
    given_of_representable hmapping (hcan.2 function arguments cfd hextract hcfd)
  exact ⟨function, arguments, _, hextract, rfl, hcan.1,
    (render_eq_some_iff hmapping function).mpr ⟨entries, hentries, rfl⟩, hgiven⟩

theorem canReproduce_of_reproduces (h : buildProfilingRule unicode functions check = some candidate)
    (hreproduces : Reproduces check candidate) : CanReproduce functions check := by
  obtain ⟨function, arguments, cfd, mapping, hextract, hcfd, hmapping, rfl⟩ :=
    buildProfilingRule_eq_some h
  obtain ⟨function', arguments', rendered, hextract', -, hfilter, hrender, hgiven⟩ := hreproduces
  obtain ⟨rfl, rfl⟩ := Prod.mk.inj (Option.some.inj (hextract.symm.trans hextract'))
  obtain ⟨entries, hentries, rfl⟩ := (render_eq_some_iff hmapping function).mp hrender
  refine ⟨hfilter, fun function' arguments' cfd' hextract'' hcfd' => ?_⟩
  obtain ⟨rfl, rfl⟩ := Prod.mk.inj (Option.some.inj (hextract.symm.trans hextract''))
  obtain rfl := Option.some.inj (hcfd.symm.trans hcfd')
  exact representable_of_given hmapping hentries hgiven

/-- The candidate of a check renders to the check if and only if the check has no row filter, all its
arguments are parameters of the function, all columns come back from their texts, and all other
values are such as a parameter holds. -/
theorem reproduces_iff (h : buildProfilingRule unicode functions check = some candidate) :
    Reproduces check candidate ↔ CanReproduce functions check :=
  ⟨canReproduce_of_reproduces h, reproduces_of_canReproduce h⟩

end Checks

/-! ### A check that comes back, and one that does not -/

/-- `is_unique`, with its columns and whether nulls are distinct. -/
def isUnique : CheckFunctionDef where
  name := "is_unique".toList
  params := [⟨"columns".toList, .columns⟩, ⟨"nulls_distinct".toList, .boolean⟩]
  distinct := by decide
  identifiers param hparam := by
    simp only [List.mem_cons, List.not_mem_nil, or_false] at hparam
    rcases hparam with rfl | rfl <;> decide

def uniqueCheck (columns : List String) : Dict Int :=
  [("check".toList, .dict [("function".toList, .str "is_unique".toList),
    ("arguments".toList, .dict [("columns".toList, .list (columns.map fun c => .str c.toList)),
      ("nulls_distinct".toList, .scalar (.bool true))])])]

def asciiUnicode : Utils.Unicode := ⟨Char.isAlphanum, fun c => [c]⟩

/-- The candidate for the check with these columns. -/
def uniqueCandidate (columns : List String) (mapping : String) : ProfilingRuleCandidate Int where
  function := "is_unique".toList
  definition := definitionFor isUnique
    [("columns".toList, .list (columns.map fun c => .str c.toList)),
      ("nulls_distinct".toList, .scalar (.bool true))]
  mapping := [("columns".toList, mapping.toList)]

theorem reproduces_two_columns :
    Reproduces (uniqueCheck ["a", "b"]) (uniqueCandidate ["a", "b"] "a,b") ↔
      CanReproduce [isUnique] (uniqueCheck ["a", "b"]) :=
  @reproduces_iff Int asciiUnicode [isUnique] (uniqueCheck ["a", "b"])
    (uniqueCandidate ["a", "b"] "a,b") rfl

/-- A column with a comma in its name comes back as two. -/
theorem not_all_candidates_reproduce :
    ¬∀ (unicode : Utils.Unicode) (functions : List CheckFunctionDef) (check : Dict Int)
      (candidate : ProfilingRuleCandidate Int),
      buildProfilingRule unicode functions check = some candidate → Reproduces check candidate := by
  intro hall
  have hbuilt : buildProfilingRule asciiUnicode [isUnique] (uniqueCheck ["a,b"]) =
      some (uniqueCandidate ["a,b"] "a,b") := rfl
  have hcan := canReproduce_of_reproduces hbuilt (hall _ _ _ _ hbuilt)
  have hrepresentable := hcan.2 _ _ isUnique rfl rfl
  obtain ⟨columns, heq, hkept⟩ := hrepresentable.slots [] ⟨"columns".toList, .many⟩ [] rfl
  have hcolumns := @str_map_injective Int ["a,b".toList] columns
    (Value.list.inj (Option.some.inj heq))
  have hcomma := (hkept "a,b".toList (hcolumns ▸ List.mem_cons_self)).1
  exact hcomma (by decide)

end Dqx.Profiling
