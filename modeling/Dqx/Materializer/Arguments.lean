import Dqx.Materializer.Simultaneous

/-! The arguments of a rule: which elements of a list come from a slot, what is left out for the
filter, and the condition under which a group renders the rule as it should. -/

namespace Dqx.Materializer

open Lib Lib.Markers
open Lib.Sql (Text)

/-- An argument is the template of the rule's body, or the declared value of a parameter. -/
inductive Source (σ : Type) where
  | template (value : Value σ)
  | parameter (value : Value σ)

section Sources

variable {σ : Type} (slots : List RuleSlot) (group : ColumnMappingGroup) (columns : List Text)

/-- An element that comes from a slot's placeholder, not from the text of the template alone. -/
def comesFromSlot : Value σ → Bool
  | .str text => (tokens slots text).any fun
    | .marker _ => true
    | .lit _ => false
  | _ => false

/-- A list, a dictionary, or the placeholder of a slot of many columns, which becomes a list. -/
def nests : Value σ → Bool
  | .str text => slots.any fun slot => Lone slots text slot
  | .list _ | .dict _ => true
  | .scalar _ => false

namespace Source

/-- The argument with all slots filled in. -/
def value : Source σ → Value σ
  | template argument => simultaneous slots group slots argument
  | parameter value => value

/-- The argument without the elements that come from a slot and are columns to be left out. -/
def stripped : Source σ → Value σ
  | template (.list items) =>
    .list ((items.filter fun item => !(comesFromSlot slots item &&
      (simultaneous slots group slots item).isColumn columns)).map (simultaneous slots group slots))
  | template argument =>
    match simultaneous slots group slots argument with
    | .list items => .list (items.filter fun item => !item.isColumn columns)
    | value => value
  | parameter value => value

/-- An element that could be one of the columns can be looked up among them, and comes from a slot if
it is one. -/
def Keeps : Source σ → Prop
  | template (.list items) => ∀ item ∈ items, nests slots item = false ∧
      (comesFromSlot slots item = false → item.isColumn columns = false)
  | template _ => True
  | parameter (.list items) =>
    ∀ item ∈ items, item.isHashable = true ∧ item.isColumn columns = false
  | parameter _ => True

end Source

variable {slots group columns}

theorem simultaneousItems_eq_map (done : List RuleSlot) (items : List (Value σ)) :
    simultaneousItems slots group done items = items.map (simultaneous slots group done) := by
  induction items with
  | nil => rw [simultaneousItems, List.map_nil]
  | cons item items ih => rw [simultaneousItems, ih, List.map_cons]

theorem isHashable_simultaneous (item : Value σ) :
    (simultaneous slots group slots item).isHashable = !nests slots item := by
  cases item with
  | str text =>
    rw [simultaneous, nests]
    by_cases h : ∃ slot ∈ slots, Lone slots text slot
    · obtain ⟨slot, hslot, hlone⟩ := h
      obtain ⟨cells, hlist, -⟩ :=
        simultaneousString_append_of_lone σ group hslot hlone []
      have hany : (slots.any fun slot => decide (Lone slots text slot)) = true :=
        List.any_eq_true.mpr ⟨slot, hslot, decide_eq_true hlone⟩
      rw [hlist, hany]
      rfl
    · push Not at h
      have hany : (slots.any fun slot => decide (Lone slots text slot)) = false :=
        List.any_eq_false.mpr fun slot hslot => by simpa using h slot hslot
      rw [simultaneousString_of_not_lone h, hany]
      rfl
  | list items => rw [simultaneous, nests, Value.isHashable, Bool.not_true]
  | dict entries => rw [simultaneous, nests, Value.isHashable, Bool.not_true]
  | scalar s => rw [simultaneous, nests, Value.isHashable, Bool.not_false]

/-- What does not come from a slot is left as it is. -/
theorem simultaneous_of_not_comesFromSlot {item : Value σ} (hnests : nests slots item = false)
    (h : comesFromSlot slots item = false) : simultaneous slots group slots item = item := by
  cases item with
  | str text =>
    have hmarker : ∀ marker, Fragment.marker marker ∉ tokens slots text := by
      intro marker hmarker
      have hany := List.any_eq_false.mp h _ hmarker
      exact hany rfl
    have hlone : ∀ slot ∈ slots, ¬ Lone slots text slot := by
      intro slot _ hlone
      exact hmarker slot.placeholder (by rw [hlone.2]; exact .head _)
    have hfill : simultaneousText slots group slots text = simultaneousText slots group [] text :=
      fill_congr fun marker hmem => absurd hmem (hmarker marker)
    rw [simultaneous, simultaneousString_of_not_lone hlone, hfill, simultaneousText_nil]
  | list items => cases hnests
  | dict entries => cases hnests
  | scalar s => rw [simultaneous]

/-- Two filters of a list keep the same if the stronger one drops nothing more. -/
theorem map_filter_eq_iff {α β : Type} {p q : α → Bool} {f : α → β} {l : List α}
    (hpq : ∀ a ∈ l, p a = true → q a = true) :
    (l.filter p).map f = (l.filter q).map f ↔ ∀ a ∈ l, q a = true → p a = true := by
  constructor
  · intro h
    have hlength := congrArg List.length h
    rw [List.length_map, List.length_map, ← List.countP_eq_length_filter,
      ← List.countP_eq_length_filter] at hlength
    have hfilter : (l.filter q).countP p = (l.filter q).length := by
      rw [List.countP_filter, ← List.countP_eq_length_filter, ← hlength]
      refine List.countP_congr fun a ha => ?_
      rw [Bool.and_eq_true]
      exact ⟨fun hboth => hboth.1, fun hp => ⟨hp, hpq a ha hp⟩⟩
    intro a ha hq
    exact List.countP_eq_length.mp hfilter a (List.mem_filter.mpr ⟨ha, hq⟩)
  · intro h
    rw [List.filter_congr fun a ha => Bool.eq_iff_iff.mpr ⟨hpq a ha, h a ha⟩]

/-- The columns are stripped from an argument as they should be if and only if it keeps the rest. -/
theorem withoutColumns_eq_iff (source : Source σ) :
    (source.value slots group).withoutColumns columns = some (source.stripped slots group columns) ↔
      source.Keeps slots columns := by
  cases source with
  | parameter value =>
    cases value with
    | str text => exact ⟨fun _ => trivial, fun _ => rfl⟩
    | dict entries => exact ⟨fun _ => trivial, fun _ => rfl⟩
    | scalar s => exact ⟨fun _ => trivial, fun _ => rfl⟩
    | list items =>
      rw [Source.value, Source.stripped, Source.Keeps, Value.withoutColumns, forall₂_and,
        ← List.all_eq_true]
      split
      · rename_i hall
        rw [and_iff_right hall, Option.some.injEq, Value.list.injEq, List.filter_eq_self]
        exact forall₂_congr fun item _ => by rw [Bool.not_eq_true']
      · rename_i hall
        exact ⟨fun h => (by cases h), fun h => absurd h.1 hall⟩
  | template argument =>
    cases argument with
    | str text =>
      refine ⟨fun _ => trivial, fun _ => ?_⟩
      rw [Source.value, Source.stripped, simultaneous]
      · unfold simultaneousString
        split
        · rename_i slot hslot
          have hall : (((splitColumns ((group slot.name).getD [])).map Value.str).all
              (@Value.isHashable σ)) = true := by simp [Value.isHashable]
          rw [Value.withoutColumns, if_pos hall]
        · rfl
      · rintro _ ⟨⟩
    | dict entries =>
      refine ⟨fun _ => trivial, fun _ => ?_⟩
      rw [Source.value, Source.stripped, simultaneous, Value.withoutColumns]
      all_goals rintro _ ⟨⟩
    | scalar s =>
      refine ⟨fun _ => trivial, fun _ => ?_⟩
      rw [Source.value, Source.stripped, simultaneous, Value.withoutColumns]
      all_goals rintro _ ⟨⟩
    | list items =>
      rw [Source.value, Source.stripped, Source.Keeps, simultaneous, simultaneousItems_eq_map,
        Value.withoutColumns, List.all_map, forall₂_and]
      have hnests : (items.all (Value.isHashable ∘ simultaneous slots group slots)) = true ↔
          ∀ item ∈ items, nests slots item = false := by
        rw [List.all_eq_true]
        exact forall₂_congr fun item _ => by
          rw [Function.comp_apply, isHashable_simultaneous, Bool.not_eq_true']
      split
      · rename_i hall
        have hitems := hnests.mp hall
        rw [and_iff_right hitems, Option.some.injEq, Value.list.injEq, List.filter_map]
        have hkept := map_filter_eq_iff (l := items) (f := simultaneous slots group slots)
          (p := fun item => !(simultaneous slots group slots item).isColumn columns)
          (q := fun item => !(comesFromSlot slots item &&
            (simultaneous slots group slots item).isColumn columns))
          (fun item _ h => by rw [Bool.not_eq_true'] at h; rw [h, Bool.and_false, Bool.not_false])
        refine hkept.trans (forall₂_congr fun item hitem => ?_)
        cases hcomes : comesFromSlot slots item with
        | true => simp
        | false =>
          rw [simultaneous_of_not_comesFromSlot (hitems item hitem) hcomes]
          simp
      · rename_i hall
        exact ⟨fun h => (by cases h), fun h => absurd (hnests.mpr h.1) hall⟩

end Sources

section Arguments

variable {σ : Type}

theorem setArgument_map {β γ : Type} (f : β → γ) (key : Text) (value : β)
    (entries : List (Text × β)) :
    (setArgument key value entries).map (fun entry => (entry.1, f entry.2)) =
      setArgument key (f value) (entries.map fun entry => (entry.1, f entry.2)) := by
  induction entries with
  | nil => rfl
  | cons entry entries ih =>
    rw [setArgument, List.map_cons, setArgument]
    split
    · rw [List.map_cons]
    · rw [List.map_cons, ih]

theorem setParameters_map {β γ : Type} (f : β → γ) (value : Value σ → β)
    (parameters : List (RuleParameter σ)) (entries : List (Text × β)) :
    (setParameters value parameters entries).map (fun entry => (entry.1, f entry.2)) =
      setParameters (f ∘ value) parameters (entries.map fun entry => (entry.1, f entry.2)) := by
  induction parameters generalizing entries with
  | nil => rfl
  | cons parameter parameters ih =>
    rw [setParameters, setParameters, List.foldl_cons, List.foldl_cons, ← setParameters,
      ← setParameters, ih]
    cases parameter.value with
    | none => rfl
    | some set =>
      rw [setArgument_map]
      rfl

namespace RuleDefinition

variable (rule : RuleDefinition σ) (group : ColumnMappingGroup)

/-- The arguments of the rule with where each comes from. -/
def sources : List (Text × Source σ) :=
  setParameters .parameter rule.parameters
    (rule.arguments.map fun entry => (entry.1, .template entry.2))

/-- The columns that the rule leaves out of its arguments. -/
def leftOut : List Text := filterOnlyColumns group rule.slots rule.filter

/-- The arguments with all slots filled in at once, where the elements of lists that come from a slot
are left out as the filter has it. -/
def expectedArguments : List (Text × Value σ) :=
  rule.sources.map fun entry =>
    (entry.1, entry.2.stripped rule.slots group (rule.leftOut group))

/-- What the materializer is for: after each slot's pass, arguments and text are the template with
the slots so far filled in, and in the end the arguments are as expected. -/
structure Renders (text : Text) : Prop where
  values : ∀ entry ∈ rule.arguments, ∀ done, done <+: rule.slots →
    substituteValue group done entry.2 = some (simultaneous rule.slots group done entry.2)
  arguments : substituteArguments rule.arguments group rule.slots rule.parameters rule.filter =
    some (rule.expectedArguments group)
  text : ∀ done, done <+: rule.slots →
    substituteText group done text = some (simultaneousText rule.slots group done text)

/-- The passes over arguments and text are sound, and the stripping takes elements of slots only. -/
structure Sound (text : Text) : Prop where
  values : ∀ entry ∈ rule.arguments, ValueSound rule.slots group entry.2
  strips : rule.leftOut group ≠ [] → ∀ entry ∈ rule.sources,
    entry.2.Keeps rule.slots (rule.leftOut group)
  text : TextSound rule.slots group text

variable {rule group}

theorem sources_value : rule.sources.map (fun entry => (entry.1, entry.2.value rule.slots group)) =
    setParameters id rule.parameters (rule.arguments.map fun entry =>
      (entry.1, simultaneous rule.slots group rule.slots entry.2)) := by
  rw [sources, setParameters_map, List.map_map]
  rfl

theorem stripped_of_leftOut_eq_nil (h : rule.leftOut group = []) :
    rule.expectedArguments group =
      rule.sources.map fun entry => (entry.1, entry.2.value rule.slots group) := by
  refine List.map_congr_left fun entry _ => ?_
  rw [h]
  have hcolumn : ∀ item : Value σ, item.isColumn [] = false := fun item => by cases item <;> rfl
  congr 1
  cases entry.2 with
  | parameter value => rfl
  | template argument =>
    cases argument with
    | list items =>
      rw [Source.stripped, Source.value, simultaneous, simultaneousItems_eq_map]
      simp [hcolumn]
    | str text =>
      rw [Source.stripped, Source.value]
      · split
        · rename_i heq
          rw [heq]
          simp [hcolumn]
        · rfl
      · nofun
    | dict entries =>
      rw [Source.stripped, Source.value, simultaneous]
      all_goals nofun
    | scalar s =>
      rw [Source.stripped, Source.value, simultaneous]
      all_goals nofun

/-- With all values substituted, the rest of the rendering is to set the parameters and to strip. -/
theorem substituteArguments_of_values
    (hcomplete : ∀ slot ∈ rule.slots, ∃ mapped, group slot.name = some mapped)
    (h : ∀ entry ∈ rule.arguments, substituteValue group rule.slots entry.2 =
      some (simultaneous rule.slots group rule.slots entry.2)) :
    substituteArguments rule.arguments group rule.slots rule.parameters rule.filter =
      if (rule.leftOut group).isEmpty then
        some (rule.sources.map fun entry => (entry.1, entry.2.value rule.slots group))
      else
        (rule.sources.map fun entry => (entry.1, entry.2.value rule.slots group)).mapM fun entry =>
          (entry.2.withoutColumns (rule.leftOut group)).map fun value => (entry.1, value) := by
  have hvalues : rule.arguments.mapM (fun entry =>
      (substituteValue group rule.slots entry.2).map fun value => (entry.1, value)) =
        some (rule.arguments.map fun entry =>
          (entry.1, simultaneous rule.slots group rule.slots entry.2)) := by
    rw [mapM_eq_some_iff_forall₂, List.forall₂_map_right_iff, List.forall₂_same]
    intro entry hentry
    rw [h entry hentry]
    rfl
  have hmissing : (rule.slots.any fun slot => (group slot.name).isNone) = false := by
    rw [List.any_eq_false]
    intro slot hslot
    obtain ⟨mapped, hmapped⟩ := hcomplete slot hslot
    rw [hmapped]
    exact Bool.false_ne_true
  rw [substituteArguments, hvalues, sources_value]
  show (if (rule.slots.any fun slot => (group slot.name).isNone) = true then none else _) = _
  rw [hmissing]
  rfl

theorem arguments_iff (hcomplete : ∀ slot ∈ rule.slots, ∃ mapped, group slot.name = some mapped)
    (h : ∀ entry ∈ rule.arguments, substituteValue group rule.slots entry.2 =
      some (simultaneous rule.slots group rule.slots entry.2)) :
    substituteArguments rule.arguments group rule.slots rule.parameters rule.filter =
        some (rule.expectedArguments group) ↔
      (rule.leftOut group ≠ [] → ∀ entry ∈ rule.sources,
        entry.2.Keeps rule.slots (rule.leftOut group)) := by
  rw [substituteArguments_of_values hcomplete h]
  split
  · rename_i hempty
    have hnil := List.isEmpty_iff.mp hempty
    rw [stripped_of_leftOut_eq_nil hnil]
    exact ⟨fun _ hne => absurd hnil hne, fun _ => rfl⟩
  · rename_i hempty
    have hne : rule.leftOut group ≠ [] := fun hnil => hempty (List.isEmpty_iff.mpr hnil)
    rw [expectedArguments, mapM_eq_some_iff_forall₂, List.forall₂_map_left_iff,
      List.forall₂_map_right_iff, List.forall₂_same]
    constructor
    · intro hstrips _ entry hentry
      obtain ⟨value, hvalue, heq⟩ := Option.map_eq_some_iff.mp (hstrips entry hentry)
      rw [(Prod.mk.inj heq).2] at hvalue
      exact (withoutColumns_eq_iff entry.2).mp hvalue
    · intro hkeeps entry hentry
      dsimp only
      rw [(withoutColumns_eq_iff entry.2).mpr (hkeeps hne entry hentry)]
      rfl

end RuleDefinition

/-- A complete group renders a rule as it should if the passes and the stripping are sound, and, for
placeholders that do not overlap themselves, only then. -/
theorem renders_of_sound_and_conversely (rule : RuleDefinition σ) (group : CompleteGroup rule.slots)
    (text : Text) :
    (rule.Sound group.columns text → rule.Renders group.columns text) ∧
      ((∀ slot ∈ rule.slots, BorderFree slot.placeholder) → rule.Renders group.columns text →
        rule.Sound group.columns text) := by
  constructor
  · intro h
    have hvalues : ∀ entry ∈ rule.arguments, ∀ done, done <+: rule.slots →
        substituteValue group.columns done entry.2 =
          some (simultaneous rule.slots group.columns done entry.2) :=
      fun entry hentry done hdone =>
        substituteValue_of_sound rule.distinct group.complete (h.values entry hentry) hdone
    exact {
      values := hvalues
      arguments := (RuleDefinition.arguments_iff group.complete fun entry hentry =>
        hvalues entry hentry _ (List.prefix_refl _)).mpr h.strips
      text := fun done hdone => substituteText_of_sound rule.distinct group.complete h.text hdone }
  · intro hborder h
    exact {
      values := fun entry hentry =>
        valueSound_of_forall rule.distinct group.complete hborder (h.values entry hentry)
      strips := (RuleDefinition.arguments_iff group.complete fun entry hentry =>
        h.values entry hentry _ (List.prefix_refl _)).mp h.arguments
      text := textSound_of_forall rule.distinct group.complete hborder h.text }

end Arguments

section Failures

/-- Slots *a*, mapped to a column whose name is the placeholder of *b*, and *b*. -/
def chained : RuleDefinition Unit where
  slots := [⟨"a".toList, .one⟩, ⟨"b".toList, .one⟩]
  arguments := [("column".toList, .str "\x7b\x7ba\x7d\x7d".toList)]
  parameters := []
  filter := none
  distinct := by decide

def chainedGroup : ColumnMappingGroup := fun name =>
  if name = "a".toList then some "\x7b\x7bb\x7d\x7d".toList
  else if name = "b".toList then some "y".toList else none

/-- A list of a placeholder and a column that is not templated. -/
def partlyTemplated : RuleDefinition Unit where
  slots := [⟨"a".toList, .one⟩, ⟨"f".toList, .one⟩]
  arguments := [("columns".toList,
    .list [.str "\x7b\x7ba\x7d\x7d".toList, .str "region".toList])]
  parameters := []
  filter := some "\x7b\x7bf\x7d\x7d = 1".toList
  distinct := by decide

/-- A list with the placeholder of a slot of many columns. -/
def nested : RuleDefinition Unit where
  slots := [⟨"a".toList, .many⟩, ⟨"f".toList, .one⟩]
  arguments := [("columns".toList, .list [.str "\x7b\x7ba\x7d\x7d".toList])]
  parameters := []
  filter := some "\x7b\x7bf\x7d\x7d = 1".toList
  distinct := by decide

def filterGroup : ColumnMappingGroup := fun name =>
  if name = "a".toList then some "x".toList
  else if name = "f".toList then some "region".toList else none

/-- The number of elements of each argument. -/
def sizes (arguments : List (Text × Value Unit)) : List Nat :=
  arguments.map fun entry =>
    match entry.2 with
    | .list items => items.length
    | .str text => text.length
    | _ => 0

/-- The column of *a* is replaced by that of *b*; the column that no slot has is left out for that of
the filter; and the list of columns within the list has no hash. -/
theorem not_all_rules_render :
    ¬ chained.Renders chainedGroup [] ∧ ¬ partlyTemplated.Renders filterGroup [] ∧
      ¬ nested.Renders filterGroup [] := by
  refine ⟨fun h => ?_, fun h => ?_, fun h => ?_⟩
  · have hsizes := congrArg (Option.map sizes) h.arguments
    revert hsizes
    decide
  · have hsizes := congrArg (Option.map sizes) h.arguments
    revert hsizes
    decide
  · have hsizes := congrArg (Option.map sizes) h.arguments
    revert hsizes
    decide

end Failures

end Dqx.Materializer
