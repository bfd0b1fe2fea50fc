import Dqx.Lib.Markers
import Dqx.Lib.Traverse
import Dqx.Scheduler.TmpViews

/-! The arguments and texts of a rule with its slots replaced by the columns of a mapping group: what
the materializer does pass by pass, and the replacement of all slots at once. -/

namespace Dqx.Materializer

open Lib Lib.Markers
open Lib.Sql (Text)
open Scheduler (strip)

inductive SlotCardinality where
  | one
  | many
  deriving DecidableEq

structure RuleSlot where
  name : Text
  cardinality : SlotCardinality
  deriving DecidableEq

/-- The slot's placeholder: its name in two pairs of braces. -/
def RuleSlot.placeholder (slot : RuleSlot) : Text :=
  "\x7b\x7b".toList ++ slot.name ++ "\x7d\x7d".toList

/-- A JSON value; numbers, booleans and null are scalars. -/
inductive Value (σ : Type) where
  | str (text : Text)
  | list (items : List (Value σ))
  | dict (entries : List (Text × Value σ))
  | scalar (s : σ)

structure RuleParameter (σ : Type) where
  name : Text
  value : Option (Value σ)

/-- The columns of each slot by its name, as one text. -/
abbrev ColumnMappingGroup := Text → Option Text

/-- `[c.strip() for c in mapped.split(",") if c.strip()]` -/
def splitColumns (mapped : Text) : List Text :=
  ((mapped.splitOn ',').map strip).filter fun column => !column.isEmpty

def RuleSlot.replacement (slot : RuleSlot) (mapped : Text) : Text :=
  match slot.cardinality with
  | .many => List.intercalate ", ".toList (splitColumns mapped)
  | .one => mapped

section Substitution

variable {σ : Type}

/-- `_substitute_text`; a slot that is not mapped raises. -/
def substituteText (group : ColumnMappingGroup) : List RuleSlot → Text → Option Text
  | [], text => some text
  | slot :: slots, text =>
    match group slot.name with
    | none => none
    | some mapped =>
      substituteText group slots (replace slot.placeholder (slot.replacement mapped) text)

/-- `_substitute_value` of a string. -/
def substituteString (group : ColumnMappingGroup) : List RuleSlot → Text → Option (Value σ)
  | [], text => some (.str text)
  | slot :: slots, text =>
    if slot.placeholder <:+: text then
      match group slot.name with
      | none => none
      | some mapped =>
        if slot.cardinality = .many ∧ text = slot.placeholder then
          some (.list ((splitColumns mapped).map .str))
        else
          substituteString group slots (replace slot.placeholder (slot.replacement mapped) text)
    else
      substituteString group slots text

mutual

def substituteValue (group : ColumnMappingGroup) (slots : List RuleSlot) :
    Value σ → Option (Value σ)
  | .str text => substituteString group slots text
  | .list items => (substituteItems group slots items).map .list
  | .dict entries => some (.dict entries)
  | .scalar s => some (.scalar s)

def substituteItems (group : ColumnMappingGroup) (slots : List RuleSlot) :
    List (Value σ) → Option (List (Value σ))
  | [] => some []
  | item :: items =>
    match substituteValue group slots item with
    | none => none
    | some item => (substituteItems group slots items).map (item :: ·)

end

def filterOnlySlotNames (slots : List RuleSlot) (definitionFilter : Option Text) : List Text :=
  match definitionFilter with
  | none => []
  | some text => (slots.filter fun slot => slot.placeholder <:+: text).map RuleSlot.name

def filterOnlyColumns (group : ColumnMappingGroup) (slots : List RuleSlot)
    (definitionFilter : Option Text) : List Text :=
  (slots.filter fun slot => slot.name ∈ filterOnlySlotNames slots definitionFilter).flatMap
    fun slot =>
      let mapped := (group slot.name).getD []
      match slot.cardinality with
      | .many => splitColumns mapped
      | .one => if (strip mapped).isEmpty then [] else [strip mapped]

/-- `arguments[key] = value` -/
def setArgument {β : Type} (key : Text) (value : β) : List (Text × β) → List (Text × β)
  | [] => [(key, value)]
  | entry :: entries =>
    if entry.1 = key then (key, value) :: entries else entry :: setArgument key value entries

def Value.isColumn (columns : List Text) : Value σ → Bool
  | .str text => columns.contains text
  | _ => false

/-- Lists and dictionaries have no hash: to look for one in a set raises. -/
def Value.isHashable : Value σ → Bool
  | .list _ | .dict _ => false
  | .str _ | .scalar _ => true

/-- `[item for item in value if item not in filter_only_columns]` for a value that is a list. -/
def Value.withoutColumns (columns : List Text) : Value σ → Option (Value σ)
  | .list items =>
    if items.all isHashable then
      some (.list (items.filter fun item => !item.isColumn columns))
    else
      none
  | value => some value

/-- The declared values of the parameters, each in the place of an argument of its name. -/
def setParameters {β : Type} (value : Value σ → β) (parameters : List (RuleParameter σ))
    (arguments : List (Text × β)) : List (Text × β) :=
  parameters.foldl (fun arguments parameter =>
    match parameter.value with
    | some set => setArgument parameter.name (value set) arguments
    | none => arguments) arguments

def substituteArguments (bodyArguments : List (Text × Value σ)) (group : ColumnMappingGroup)
    (slots : List RuleSlot) (parameters : List (RuleParameter σ)) (definitionFilter : Option Text) :
    Option (List (Text × Value σ)) := do
  let arguments ← bodyArguments.mapM fun entry =>
    (substituteValue group slots entry.2).map fun value => (entry.1, value)
  if slots.any fun slot => (group slot.name).isNone then none else
  let arguments := setParameters id parameters arguments
  let columns := filterOnlyColumns group slots definitionFilter
  if columns.isEmpty then
    return arguments
  else
    arguments.mapM fun entry =>
      (entry.2.withoutColumns columns).map fun value => (entry.1, value)

end Substitution

/-! ### All slots at once -/

/-- A definition's slots have different names. -/
structure RuleDefinition (σ : Type) where
  slots : List RuleSlot
  arguments : List (Text × Value σ)
  parameters : List (RuleParameter σ)
  filter : Option Text
  distinct : (slots.map RuleSlot.name).Nodup

/-- A mapping group that has columns for each slot. -/
structure CompleteGroup (slots : List RuleSlot) where
  columns : ColumnMappingGroup
  complete : ∀ slot ∈ slots, ∃ mapped, columns slot.name = some mapped

section Simultaneous

variable {σ : Type} (slots : List RuleSlot) (group : ColumnMappingGroup)

/-- The template as characters and placeholders. -/
def tokens (text : Text) : List (Fragment Char) := scan (slots.map RuleSlot.placeholder) text

/-- The columns of a slot, as they stand in a text. -/
def RuleSlot.inserted (slot : RuleSlot) : Text := slot.replacement ((group slot.name).getD [])

/-- The columns of the slots that are filled in. -/
def filled (done : List RuleSlot) : Text → Option Text := fun text =>
  (done.find? fun slot => slot.placeholder = text).map fun slot => slot.inserted group

def simultaneousText (done : List RuleSlot) (text : Text) : Text :=
  fill (filled group done) (tokens slots text)

/-- A template that is nothing but the placeholder of a slot of many columns. -/
def Lone (text : Text) (slot : RuleSlot) : Prop :=
  slot.cardinality = .many ∧ tokens slots text = [.marker slot.placeholder]

instance (text : Text) (slot : RuleSlot) : Decidable (Lone slots text slot) :=
  inferInstanceAs (Decidable (_ ∧ _))

/-- The template of a string with these slots filled in: a list of columns, or a text. -/
def simultaneousString (done : List RuleSlot) (text : Text) : Value σ :=
  match done.find? fun slot => Lone slots text slot with
  | some slot => .list ((splitColumns ((group slot.name).getD [])).map .str)
  | none => .str (simultaneousText slots group done text)

mutual

def simultaneous (done : List RuleSlot) : Value σ → Value σ
  | .str text => simultaneousString slots group done text
  | .list items => .list (simultaneousItems done items)
  | .dict entries => .dict (simultaneousEntries done entries)
  | .scalar s => .scalar s

def simultaneousItems (done : List RuleSlot) : List (Value σ) → List (Value σ)
  | [] => []
  | item :: items => simultaneous done item :: simultaneousItems done items

def simultaneousEntries (done : List RuleSlot) : List (Text × Value σ) → List (Text × Value σ)
  | [] => []
  | (key, value) :: entries => (key, simultaneous done value) :: simultaneousEntries done entries

end

end Simultaneous

section Passes

variable {σ : Type} {slots : List RuleSlot} {group : ColumnMappingGroup} {done : List RuleSlot}
  {slot : RuleSlot} {text mapped : Text}

theorem placeholder_ne_nil (slot : RuleSlot) : slot.placeholder ≠ [] := List.cons_ne_nil _ _

theorem placeholder_inj {slot slot' : RuleSlot} :
    slot.placeholder = slot'.placeholder ↔ slot.name = slot'.name := by
  rw [RuleSlot.placeholder, RuleSlot.placeholder, List.append_left_inj, List.append_right_inj]

theorem placeholders_ne_nil (slots : List RuleSlot) :
    ∀ marker ∈ slots.map RuleSlot.placeholder, marker ≠ [] := by
  intro marker hmarker
  obtain ⟨slot, -, rfl⟩ := List.mem_map.mp hmarker
  exact placeholder_ne_nil slot

/-- The characters and placeholders of a template spell it. -/
theorem simultaneousText_nil (text : Text) : simultaneousText slots group [] text = text :=
  fill_scan (placeholders_ne_nil slots) text

theorem filled_of_forall_ne (group : ColumnMappingGroup) (h : ∀ d ∈ done, d.name ≠ slot.name) :
    filled group done slot.placeholder = none := by
  rw [filled, Option.map_eq_none_iff, List.find?_eq_none]
  intro d hd hplaceholder
  exact h d hd (placeholder_inj.mp (of_decide_eq_true hplaceholder))

theorem filled_append (h : ∀ d ∈ done, d.name ≠ slot.name) :
    filled group (done ++ [slot]) =
      withValue (filled group done) slot.placeholder (slot.inserted group) := by
  funext marker
  by_cases hmarker : marker = slot.placeholder
  · have hnone := Option.map_eq_none_iff.mp (filled_of_forall_ne group h)
    rw [withValue, if_pos hmarker, hmarker, filled, List.find?_append, hnone]
    simp
  · rw [withValue, if_neg hmarker, filled, filled, List.find?_append]
    have hne : ¬ slot.placeholder = marker := fun heq => hmarker heq.symm
    simp [hne]

theorem name_ne_of_append {rest : List RuleSlot} (hslots : slots = done ++ slot :: rest)
    (hdistinct : (slots.map RuleSlot.name).Nodup) : ∀ d ∈ done, d.name ≠ slot.name := by
  intro d hd heq
  rw [hslots, List.map_append, List.nodup_append] at hdistinct
  exact hdistinct.2.2 _ (List.mem_map_of_mem hd) _ (by rw [heq]; simp) rfl

/-- A slot's pass over a text: the placeholder stands only where the template has it, or its columns
are the placeholder. -/
def OwnPlaces (slots : List RuleSlot) (group : ColumnMappingGroup) (done : List RuleSlot)
    (slot : RuleSlot) (text : Text) : Prop :=
  slot.inserted group = slot.placeholder ∨
    scan [slot.placeholder] (simultaneousText slots group done text) =
      placesOf slot.placeholder (filled group done) (tokens slots text)

theorem replace_simultaneousText (hname : ∀ d ∈ done, d.name ≠ slot.name)
    (h : OwnPlaces slots group done slot text) :
    replace slot.placeholder (slot.inserted group) (simultaneousText slots group done text) =
      simultaneousText slots group (done ++ [slot]) text := by
  rw [simultaneousText, simultaneousText, filled_append hname]
  exact replace_fill (placeholder_ne_nil slot) (filled_of_forall_ne group hname) h

/-- A name without a closing brace makes a placeholder that does not overlap itself. -/
theorem placeholder_borderFree (hname : '\x7d' ∉ slot.name) : BorderFree slot.placeholder := by
  refine ⟨placeholder_ne_nil slot, fun border hne ⟨after, hafter⟩ ⟨before, hbefore⟩ => ?_⟩
  by_contra hproper
  rcases List.append_eq_append_iff.mp hbefore with ⟨inner, -, hborder⟩ | ⟨inner, -, hborder⟩
  · -- the border is longer than the closing braces: another brace would have to follow it
    have hcount : slot.placeholder.count '\x7d' = 2 := by
      rw [RuleSlot.placeholder, List.count_append, List.count_append,
        List.count_eq_zero.mpr hname]
      decide
    have hlast : '\x7d' ∈ after := by
      have hend : slot.placeholder.getLast? = some '\x7d' := by
        rw [RuleSlot.placeholder, List.getLast?_append]
        rfl
      have hnonempty : after ≠ [] := by
        rintro rfl
        exact hproper (by rw [← hafter, List.append_nil])
      rw [← hafter, List.getLast?_append, List.getLast?_eq_some_getLast hnonempty] at hend
      exact Option.some.inj hend ▸ List.getLast_mem hnonempty
    have hpos := List.count_pos_iff.mpr hlast
    have htwo : ("\x7d\x7d".toList).count '\x7d' = 2 := by decide
    rw [← hafter, hborder, List.count_append, List.count_append, htwo] at hcount
    omega
  · -- the border is one or two closing braces, which begin no placeholder
    obtain ⟨c, rest, rfl⟩ := List.exists_cons_of_ne_nil hne
    have hopening : c = '\x7b' := (List.cons.inj hafter).1
    have hclosing : c ∈ "\x7d\x7d".toList := by
      rw [hborder]
      exact List.mem_append_right _ (.head _)
    rw [hopening] at hclosing
    revert hclosing
    decide

theorem replace_simultaneousText_iff (hname : ∀ d ∈ done, d.name ≠ slot.name)
    (hborder : BorderFree slot.placeholder) :
    replace slot.placeholder (slot.inserted group) (simultaneousText slots group done text) =
      simultaneousText slots group (done ++ [slot]) text ↔ OwnPlaces slots group done slot text := by
  rw [simultaneousText, simultaneousText, filled_append hname]
  exact replace_fill_iff hborder (filled_of_forall_ne group hname)

end Passes

section Texts

variable {slots : List RuleSlot} {group : ColumnMappingGroup} {text : Text}

/-- Each pass over the text finds the placeholder where the template has it. -/
def TextSound (slots : List RuleSlot) (group : ColumnMappingGroup) (text : Text) : Prop :=
  ∀ done slot rest, slots = done ++ slot :: rest → OwnPlaces slots group done slot text

theorem substituteText_append (done rest : List RuleSlot) (text : Text) :
    substituteText group (done ++ rest) text =
      (substituteText group done text).bind (substituteText group rest) := by
  induction done generalizing text with
  | nil => rfl
  | cons slot done ih =>
    rw [List.cons_append, substituteText, substituteText]
    cases group slot.name with
    | none => rfl
    | some mapped => exact ih _

theorem substituteText_singleton {slot : RuleSlot}
    (hmapped : ∃ mapped, group slot.name = some mapped) (text : Text) :
    substituteText group [slot] text =
      some (replace slot.placeholder (slot.inserted group) text) := by
  obtain ⟨mapped, hmapped⟩ := hmapped
  rw [substituteText, RuleSlot.inserted, hmapped]
  rfl

/-- With sound passes, the text is at every point the template with the slots so far filled in. -/
theorem substituteText_of_sound (hdistinct : (slots.map RuleSlot.name).Nodup)
    (hcomplete : ∀ slot ∈ slots, ∃ mapped, group slot.name = some mapped)
    (h : TextSound slots group text) {done : List RuleSlot} (hdone : done <+: slots) :
    substituteText group done text = some (simultaneousText slots group done text) := by
  induction done using List.reverseRecOn with
  | nil => rw [simultaneousText_nil, substituteText]
  | append_singleton done slot ih =>
    obtain ⟨rest, hslots⟩ := hdone
    rw [List.append_assoc, List.singleton_append] at hslots
    have hslot : slot ∈ slots := by simp [← hslots]
    rw [substituteText_append, ih ⟨_, hslots⟩, Option.bind_some,
      substituteText_singleton (hcomplete slot hslot),
      replace_simultaneousText (name_ne_of_append hslots.symm hdistinct) (h _ _ _ hslots.symm)]

theorem textSound_of_forall (hdistinct : (slots.map RuleSlot.name).Nodup)
    (hcomplete : ∀ slot ∈ slots, ∃ mapped, group slot.name = some mapped)
    (hborder : ∀ slot ∈ slots, BorderFree slot.placeholder)
    (h : ∀ done, done <+: slots →
      substituteText group done text = some (simultaneousText slots group done text)) :
    TextSound slots group text := by
  intro done slot rest hslots
  have hslot : slot ∈ slots := by simp [hslots]
  have hbefore := h done ⟨_, hslots.symm⟩
  have hafter := h (done ++ [slot]) ⟨rest, by rw [hslots, List.append_assoc]; rfl⟩
  rw [substituteText_append, hbefore, Option.bind_some,
    substituteText_singleton (hcomplete slot hslot), Option.some.injEq] at hafter
  exact (replace_simultaneousText_iff (name_ne_of_append hslots hdistinct)
    (hborder slot hslot)).mp hafter

end Texts

section Strings

variable {σ : Type} {slots : List RuleSlot} {group : ColumnMappingGroup} {text : Text}
  {done : List RuleSlot} {slot : RuleSlot}

/-- The pass of a slot over a string: its placeholder is not left alone unless the template is just
the placeholder, and stands only where the template has it. -/
structure PassSound (slots : List RuleSlot) (group : ColumnMappingGroup) (done : List RuleSlot)
    (slot : RuleSlot) (text : Text) : Prop where
  alone : slot.cardinality = .many → simultaneousText slots group done text = slot.placeholder →
    Lone slots text slot
  own : ¬ Lone slots text slot → OwnPlaces slots group done slot text

/-- Each pass over the string is sound, up to the one that makes a list of it. -/
def StringSound (slots : List RuleSlot) (group : ColumnMappingGroup) (text : Text) : Prop :=
  ∀ done slot rest, slots = done ++ slot :: rest → (∀ d ∈ done, ¬ Lone slots text d) →
    PassSound slots group done slot text

theorem substituteString_append (done rest : List RuleSlot) (text : Text) :
    @substituteString σ group (done ++ rest) text =
      match @substituteString σ group done text with
      | some (.str text) => substituteString group rest text
      | result => result := by
  induction done generalizing text with
  | nil => rfl
  | cons slot done ih =>
    rw [List.cons_append, substituteString, substituteString]
    split
    · split
      · rfl
      · split
        · rfl
        · exact ih _
    · exact ih _

theorem substituteString_singleton (hmapped : ∃ mapped, group slot.name = some mapped)
    (text : Text) : @substituteString σ group [slot] text =
      if slot.cardinality = .many ∧ text = slot.placeholder then
        some (.list ((splitColumns ((group slot.name).getD [])).map .str))
      else
        some (.str (replace slot.placeholder (slot.inserted group) text)) := by
  obtain ⟨mapped, hmapped⟩ := hmapped
  rw [substituteString, RuleSlot.inserted, hmapped]
  split
  · rfl
  · rename_i hinfix
    have halone : ¬ (slot.cardinality = .many ∧ text = slot.placeholder) := by
      rintro ⟨-, rfl⟩
      exact hinfix List.infix_rfl
    rw [if_neg halone, replace_of_not_infix _ (placeholder_ne_nil slot) hinfix, substituteString]

theorem simultaneousString_of_not_lone (h : ∀ d ∈ done, ¬ Lone slots text d) :
    @simultaneousString σ slots group done text =
      .str (simultaneousText slots group done text) := by
  rw [simultaneousString, List.find?_eq_none.mpr fun d hd => by simpa using h d hd]

variable (σ) in
theorem simultaneousString_append_of_lone (group : ColumnMappingGroup) {d : RuleSlot}
    (hd : d ∈ done) (h : Lone slots text d) (rest : List RuleSlot) :
    ∃ columns, @simultaneousString σ slots group done text = .list columns ∧
      @simultaneousString σ slots group (done ++ rest) text = .list columns := by
  obtain ⟨first, hfirst⟩ := Option.isSome_iff_exists.mp
    (List.find?_isSome.mpr ⟨d, hd, decide_eq_true h⟩ :
      (done.find? fun slot => decide (Lone slots text slot)).isSome = true)
  refine ⟨_, by rw [simultaneousString, hfirst], ?_⟩
  rw [simultaneousString, List.find?_append, hfirst, Option.some_or]

theorem simultaneousString_append_lone (h : ∀ d ∈ done, ¬ Lone slots text d)
    (hlone : Lone slots text slot) : @simultaneousString σ slots group (done ++ [slot]) text =
      .list ((splitColumns ((group slot.name).getD [])).map .str) := by
  rw [simultaneousString, List.find?_append,
    List.find?_eq_none.mpr fun d hd => by simpa using h d hd]
  simp [hlone]

theorem simultaneousText_of_lone (hname : ∀ d ∈ done, d.name ≠ slot.name)
    (hlone : Lone slots text slot) :
    simultaneousText slots group done text = slot.placeholder := by
  rw [simultaneousText, hlone.2, fill_marker, filled_of_forall_ne group hname]
  exact List.append_nil _

theorem forall_not_lone_append (h : ∀ d ∈ done, ¬ Lone slots text d)
    (hlone : ¬ Lone slots text slot) : ∀ d ∈ done ++ [slot], ¬ Lone slots text d := by
  intro d hd
  rcases List.mem_append.mp hd with hd | hd
  · exact h d hd
  · rwa [List.mem_singleton.mp hd]

/-- A sound pass fills the slot in. -/
theorem substituteString_singleton_of_sound (hname : ∀ d ∈ done, d.name ≠ slot.name)
    (hmapped : ∃ mapped, group slot.name = some mapped) (hdone : ∀ d ∈ done, ¬ Lone slots text d)
    (h : PassSound slots group done slot text) :
    @substituteString σ group [slot] (simultaneousText slots group done text) =
      some (simultaneousString slots group (done ++ [slot]) text) := by
  rw [substituteString_singleton hmapped]
  by_cases hlone : Lone slots text slot
  · rw [simultaneousString_append_lone hdone hlone,
      if_pos ⟨hlone.1, simultaneousText_of_lone hname hlone⟩]
  · rw [if_neg fun halone => hlone (h.alone halone.1 halone.2),
      replace_simultaneousText hname (h.own hlone),
      simultaneousString_of_not_lone (forall_not_lone_append hdone hlone)]

theorem passSound_of_substituteString (hname : ∀ d ∈ done, d.name ≠ slot.name)
    (hborder : BorderFree slot.placeholder) (hmapped : ∃ mapped, group slot.name = some mapped)
    (hdone : ∀ d ∈ done, ¬ Lone slots text d)
    (h : @substituteString σ group [slot] (simultaneousText slots group done text) =
      some (simultaneousString slots group (done ++ [slot]) text)) :
    PassSound slots group done slot text := by
  by_cases hlone : Lone slots text slot
  · exact ⟨fun _ _ => hlone, fun hnot => absurd hlone hnot⟩
  · rw [substituteString_singleton hmapped,
      simultaneousString_of_not_lone (forall_not_lone_append hdone hlone)] at h
    split at h
    · cases h
    · rename_i halone
      have htext := Value.str.inj (Option.some.inj h)
      exact ⟨fun hmany heq => absurd ⟨hmany, heq⟩ halone,
        fun _ => (replace_simultaneousText_iff hname hborder).mp htext⟩

theorem substituteString_of_sound (hdistinct : (slots.map RuleSlot.name).Nodup)
    (hcomplete : ∀ slot ∈ slots, ∃ mapped, group slot.name = some mapped)
    (h : StringSound slots group text) (hdone : done <+: slots) :
    @substituteString σ group done text =
      some (simultaneousString slots group done text) := by
  induction done using List.reverseRecOn with
  | nil => rw [substituteString, simultaneousString, List.find?_nil, simultaneousText_nil]
  | append_singleton done slot ih =>
    obtain ⟨rest, hslots⟩ := hdone
    rw [List.append_assoc, List.singleton_append] at hslots
    have hslot : slot ∈ slots := by simp [← hslots]
    have hbefore := ih ⟨_, hslots⟩
    rw [substituteString_append, hbefore]
    by_cases hlone : ∃ d ∈ done, Lone slots text d
    · obtain ⟨d, hd, hlone⟩ := hlone
      obtain ⟨columns, hlist, hlist'⟩ :=
        simultaneousString_append_of_lone σ group hd hlone [slot]
      rw [hlist, hlist']
    · push Not at hlone
      rw [simultaneousString_of_not_lone hlone]
      exact substituteString_singleton_of_sound (name_ne_of_append hslots.symm hdistinct)
        (hcomplete slot hslot) hlone (h done slot rest hslots.symm hlone)

theorem stringSound_of_forall (hdistinct : (slots.map RuleSlot.name).Nodup)
    (hcomplete : ∀ slot ∈ slots, ∃ mapped, group slot.name = some mapped)
    (hborder : ∀ slot ∈ slots, BorderFree slot.placeholder)
    (h : ∀ done, done <+: slots → @substituteString σ group done text =
      some (simultaneousString slots group done text)) : StringSound slots group text := by
  intro done slot rest hslots hlone
  have hslot : slot ∈ slots := by simp [hslots]
  have hafter := h (done ++ [slot]) ⟨rest, by rw [hslots, List.append_assoc]; rfl⟩
  rw [substituteString_append, h done ⟨_, hslots.symm⟩, simultaneousString_of_not_lone hlone]
    at hafter
  exact passSound_of_substituteString (name_ne_of_append hslots hdistinct) (hborder slot hslot)
    (hcomplete slot hslot) hlone hafter

end Strings

end Dqx.Materializer
