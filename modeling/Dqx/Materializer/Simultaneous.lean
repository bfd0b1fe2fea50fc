import Dqx.Lib.Join
import Dqx.Materializer.Substitution

/-! Argument values with their slots filled in: the passes over nested lists, the dictionaries that
have no passes, and the order of the slots. -/

namespace Dqx.Materializer

open Lib Lib.Markers
open Lib.Sql (Text)

section Values

variable {σ : Type} (slots : List RuleSlot) (group : ColumnMappingGroup)

/-- A string without a placeholder, other than one whose columns are the placeholder itself. -/
def StringUntouched (text : Text) : Prop :=
  ∀ slot ∈ slots, .marker slot.placeholder ∈ tokens slots text →
    slot.inserted group = slot.placeholder ∧ ¬ Lone slots text slot

mutual

def Untouched : Value σ → Prop
  | .str text => StringUntouched slots group text
  | .list items => UntouchedItems items
  | .dict entries => UntouchedEntries entries
  | .scalar _ => True

def UntouchedItems : List (Value σ) → Prop
  | [] => True
  | item :: items => Untouched item ∧ UntouchedItems items

def UntouchedEntries : List (Text × Value σ) → Prop
  | [] => True
  | (_, value) :: entries => Untouched value ∧ UntouchedEntries entries

end

mutual

/-- The passes over the strings of an argument are sound; the strings of a dictionary, which has no
passes, are untouched. -/
def ValueSound : Value σ → Prop
  | .str text => StringSound slots group text
  | .list items => ItemsSound items
  | .dict entries => UntouchedEntries slots group entries
  | .scalar _ => True

def ItemsSound : List (Value σ) → Prop
  | [] => True
  | item :: items => ValueSound item ∧ ItemsSound items

end

variable {slots group} {text : Text} {done : List RuleSlot}

theorem not_lone_of_simultaneousString_eq
    (h : @simultaneousString σ slots group done text = .str text) :
    ∀ d ∈ done, ¬ Lone slots text d := by
  intro d hd hlone
  obtain ⟨columns, hlist, -⟩ := simultaneousString_append_of_lone σ group hd hlone []
  rw [hlist] at h
  cases h

theorem simultaneousString_eq_iff (hdistinct : (slots.map RuleSlot.name).Nodup) :
    (∀ done, done <+: slots → @simultaneousString σ slots group done text = .str text) ↔
      StringUntouched slots group text := by
  constructor
  · intro h slot hslot hmarker
    obtain ⟨done, rest, hslots⟩ := List.append_of_mem hslot
    have hname := name_ne_of_append hslots hdistinct
    have hbefore := h done ⟨_, hslots.symm⟩
    have hafter := h (done ++ [slot]) ⟨rest, by rw [hslots, List.append_assoc]; rfl⟩
    have hlone := not_lone_of_simultaneousString_eq hafter
    rw [simultaneousString_of_not_lone (not_lone_of_simultaneousString_eq hbefore)] at hbefore
    rw [simultaneousString_of_not_lone hlone, ← hbefore, Value.str.injEq, simultaneousText,
      simultaneousText, filled_append hname,
      fill_withValue_eq_iff (filled_of_forall_ne group hname)] at hafter
    exact ⟨hafter.resolve_right (not_not.mpr hmarker), hlone slot (by simp)⟩
  · intro h done hdone
    have hlone : ∀ d ∈ done, ¬ Lone slots text d := by
      intro d hd hlone
      exact (h d (hdone.subset hd) (by rw [hlone.2]; exact .head _)).2 hlone
    rw [simultaneousString_of_not_lone hlone]
    have hfill : simultaneousText slots group done text = simultaneousText slots group [] text := by
      refine fill_congr fun marker hmarker => ?_
      rw [filled]
      cases hfind : done.find? fun slot => slot.placeholder = marker with
      | none => rfl
      | some slot =>
        have hfound := List.find?_some hfind
        have hplaceholder : slot.placeholder = marker := of_decide_eq_true hfound
        have hslot := hdone.subset (List.mem_of_find?_eq_some hfind)
        subst hplaceholder
        exact (h slot hslot hmarker).1
    rw [hfill, simultaneousText_nil]

mutual

theorem simultaneous_eq_iff (hdistinct : (slots.map RuleSlot.name).Nodup) (value : Value σ) :
    (∀ done, done <+: slots → simultaneous slots group done value = value) ↔
      Untouched slots group value := by
  cases value with
  | str text => exact simultaneousString_eq_iff hdistinct
  | list items =>
    rw [Untouched, ← simultaneousItems_eq_iff hdistinct items]
    exact forall₂_congr fun done _ => by rw [simultaneous, Value.list.injEq]
  | dict entries =>
    rw [Untouched, ← simultaneousEntries_eq_iff hdistinct entries]
    exact forall₂_congr fun done _ => by rw [simultaneous, Value.dict.injEq]
  | scalar s => exact ⟨fun _ => trivial, fun _ done _ => rfl⟩

theorem simultaneousItems_eq_iff (hdistinct : (slots.map RuleSlot.name).Nodup)
    (items : List (Value σ)) :
    (∀ done, done <+: slots → simultaneousItems slots group done items = items) ↔
      UntouchedItems slots group items := by
  cases items with
  | nil => exact ⟨fun _ => trivial, fun _ done _ => rfl⟩
  | cons item items =>
    rw [UntouchedItems, ← simultaneous_eq_iff hdistinct item,
      ← simultaneousItems_eq_iff hdistinct items, ← forall₂_and]
    exact forall₂_congr fun done _ => by rw [simultaneousItems, List.cons.injEq]

theorem simultaneousEntries_eq_iff (hdistinct : (slots.map RuleSlot.name).Nodup)
    (entries : List (Text × Value σ)) :
    (∀ done, done <+: slots → simultaneousEntries slots group done entries = entries) ↔
      UntouchedEntries slots group entries := by
  cases entries with
  | nil => exact ⟨fun _ => trivial, fun _ done _ => rfl⟩
  | cons entry entries =>
    obtain ⟨key, value⟩ := entry
    rw [UntouchedEntries, ← simultaneous_eq_iff hdistinct value,
      ← simultaneousEntries_eq_iff hdistinct entries, ← forall₂_and]
    exact forall₂_congr fun done _ => by
      rw [simultaneousEntries, List.cons.injEq, Prod.mk.injEq, and_iff_right rfl]

end

mutual

theorem substituteValue_of_sound (hdistinct : (slots.map RuleSlot.name).Nodup)
    (hcomplete : ∀ slot ∈ slots, ∃ mapped, group slot.name = some mapped) {value : Value σ}
    (h : ValueSound slots group value) (hdone : done <+: slots) :
    substituteValue group done value = some (simultaneous slots group done value) := by
  cases value with
  | str text => exact substituteString_of_sound hdistinct hcomplete h hdone
  | list items =>
    rw [substituteValue, simultaneous, substituteItems_of_sound hdistinct hcomplete h hdone]
    rfl
  | dict entries =>
    rw [substituteValue, simultaneous,
      (simultaneousEntries_eq_iff hdistinct entries).mpr h done hdone]
  | scalar s => rw [substituteValue, simultaneous]

theorem substituteItems_of_sound (hdistinct : (slots.map RuleSlot.name).Nodup)
    (hcomplete : ∀ slot ∈ slots, ∃ mapped, group slot.name = some mapped) {items : List (Value σ)}
    (h : ItemsSound slots group items) (hdone : done <+: slots) :
    substituteItems group done items = some (simultaneousItems slots group done items) := by
  cases items with
  | nil => rw [substituteItems, simultaneousItems]
  | cons item items =>
    rw [substituteItems, simultaneousItems, substituteValue_of_sound hdistinct hcomplete h.1 hdone,
      substituteItems_of_sound hdistinct hcomplete h.2 hdone]
    rfl

end

mutual

theorem valueSound_of_forall (hdistinct : (slots.map RuleSlot.name).Nodup)
    (hcomplete : ∀ slot ∈ slots, ∃ mapped, group slot.name = some mapped)
    (hborder : ∀ slot ∈ slots, BorderFree slot.placeholder) {value : Value σ}
    (h : ∀ done, done <+: slots →
      substituteValue group done value = some (simultaneous slots group done value)) :
    ValueSound slots group value := by
  cases value with
  | str text => exact stringSound_of_forall hdistinct hcomplete hborder h
  | list items =>
    refine itemsSound_of_forall hdistinct hcomplete hborder fun done hdone => ?_
    have hlist := h done hdone
    rw [substituteValue, simultaneous, Option.map_eq_some_iff] at hlist
    obtain ⟨items', hitems, heq⟩ := hlist
    rw [hitems, Value.list.inj heq]
  | dict entries =>
    refine (simultaneousEntries_eq_iff hdistinct entries).mp fun done hdone => ?_
    have hdict := h done hdone
    rw [substituteValue, simultaneous] at hdict
    exact (Value.dict.inj (Option.some.inj hdict)).symm
  | scalar s => trivial

theorem itemsSound_of_forall (hdistinct : (slots.map RuleSlot.name).Nodup)
    (hcomplete : ∀ slot ∈ slots, ∃ mapped, group slot.name = some mapped)
    (hborder : ∀ slot ∈ slots, BorderFree slot.placeholder) {items : List (Value σ)}
    (h : ∀ done, done <+: slots →
      substituteItems group done items = some (simultaneousItems slots group done items)) :
    ItemsSound slots group items := by
  cases items with
  | nil => trivial
  | cons item items =>
    have hboth : ∀ done, done <+: slots →
        substituteValue group done item = some (simultaneous slots group done item) ∧
          substituteItems group done items = some (simultaneousItems slots group done items) := by
      intro done hdone
      have hcons := h done hdone
      rw [substituteItems, simultaneousItems] at hcons
      split at hcons
      · cases hcons
      · rename_i value hvalue
        obtain ⟨items', hitems, heq⟩ := Option.map_eq_some_iff.mp hcons
        obtain ⟨rfl, rfl⟩ := List.cons.inj heq
        exact ⟨hvalue, hitems⟩
    exact ⟨valueSound_of_forall hdistinct hcomplete hborder fun done hdone => (hboth done hdone).1,
      itemsSound_of_forall hdistinct hcomplete hborder fun done hdone => (hboth done hdone).2⟩

end

end Values

/-! ### The order of the slots -/

section Order

variable {σ : Type} {slots slots' : List RuleSlot} {group : ColumnMappingGroup}

theorem placeholder_eq_of_prefix {slot slot' : RuleSlot} (hslot : '\x7d' ∉ slot.name)
    (hslot' : '\x7d' ∉ slot'.name) (h : slot.placeholder <+: slot'.placeholder) :
    slot.placeholder = slot'.placeholder := by
  obtain ⟨rest, hrest⟩ := h
  rw [RuleSlot.placeholder, RuleSlot.placeholder, List.append_assoc, List.append_assoc,
    List.append_assoc, List.append_right_inj] at hrest
  have hname : ∀ name : Text, '\x7d' ∉ name → ∀ text,
      (name ++ ("\x7d\x7d".toList ++ text)).takeWhile (· ≠ '\x7d') = name := by
    intro name hbrace text
    rw [List.takeWhile_append_of_pos]
    · exact List.append_nil name
    · intro c hc
      exact decide_eq_true fun heq => hbrace (heq ▸ hc)
  have hnames := congrArg (List.takeWhile (· ≠ '\x7d')) hrest
  rw [hname _ hslot, ← List.append_nil "\x7d\x7d".toList, hname _ hslot'] at hnames
  exact placeholder_inj.mpr hnames

theorem tokens_eq_of_perm (hbrace : ∀ slot ∈ slots, '\x7d' ∉ slot.name) (hperm : slots.Perm slots')
    (text : Text) : tokens slots text = tokens slots' text := by
  refine scan_eq_of_perm (placeholders_ne_nil slots) ?_ (hperm.map _) text
  intro marker hmarker marker' hmarker' hbegins
  obtain ⟨slot, hslot, rfl⟩ := List.mem_map.mp hmarker
  obtain ⟨slot', hslot', rfl⟩ := List.mem_map.mp hmarker'
  exact placeholder_eq_of_prefix (hbrace slot hslot) (hbrace slot' hslot') hbegins

/-- A lookup that finds slots of one placeholder only does not depend on their order. -/
theorem find?_slot_eq_of_perm (hdistinct : (slots.map RuleSlot.name).Nodup)
    (hperm : slots.Perm slots') {p : RuleSlot → Bool}
    (hp : ∀ d d', p d = true → p d' = true → d.placeholder = d'.placeholder) :
    slots.find? p = slots'.find? p := by
  refine find?_eq_of_perm hperm ?_
  rw [length_filter_le_one_iff hdistinct.of_map]
  intro d hd d' hd' hfound hfound'
  exact List.inj_on_of_nodup_map hdistinct hd hd' (placeholder_inj.mp (hp d d' hfound hfound'))

theorem simultaneousText_eq_of_perm (hdistinct : (slots.map RuleSlot.name).Nodup)
    (hbrace : ∀ slot ∈ slots, '\x7d' ∉ slot.name) (hperm : slots.Perm slots') (text : Text) :
    simultaneousText slots group slots text = simultaneousText slots' group slots' text := by
  rw [simultaneousText, simultaneousText, tokens_eq_of_perm hbrace hperm]
  refine fill_congr fun marker _ => ?_
  have hfind : (slots.find? fun slot => decide (slot.placeholder = marker)) =
      slots'.find? fun slot => decide (slot.placeholder = marker) :=
    find?_slot_eq_of_perm hdistinct hperm fun d d' hd hd' =>
      (of_decide_eq_true hd).trans (of_decide_eq_true hd').symm
  rw [filled, filled, hfind]

theorem simultaneousString_eq_of_perm (hdistinct : (slots.map RuleSlot.name).Nodup)
    (hbrace : ∀ slot ∈ slots, '\x7d' ∉ slot.name) (hperm : slots.Perm slots') (text : Text) :
    @simultaneousString σ slots group slots text =
      simultaneousString slots' group slots' text := by
  have htokens := tokens_eq_of_perm hbrace hperm text
  have hlone : (slots.find? fun slot => decide (Lone slots text slot)) =
      slots'.find? fun slot => decide (Lone slots' text slot) := by
    have hsame : (fun slot => decide (Lone slots' text slot)) =
        fun slot => decide (Lone slots text slot) := by
      funext slot
      exact decide_eq_decide.mpr (by rw [Lone, Lone, htokens])
    rw [hsame]
    refine find?_slot_eq_of_perm hdistinct hperm fun d d' hd hd' => ?_
    have hmarkers := (of_decide_eq_true hd).2.symm.trans (of_decide_eq_true hd').2
    exact Fragment.marker.inj (List.cons.inj hmarkers).1
  rw [simultaneousString, simultaneousString, hlone,
    simultaneousText_eq_of_perm hdistinct hbrace hperm]

mutual

/-- All slots at once, in any order. -/
theorem simultaneous_eq_of_perm (hdistinct : (slots.map RuleSlot.name).Nodup)
    (hbrace : ∀ slot ∈ slots, '\x7d' ∉ slot.name) (hperm : slots.Perm slots') (value : Value σ) :
    simultaneous slots group slots value = simultaneous slots' group slots' value := by
  cases value with
  | str text => exact simultaneousString_eq_of_perm hdistinct hbrace hperm text
  | list items =>
    rw [simultaneous, simultaneous, simultaneousItems_eq_of_perm hdistinct hbrace hperm items]
  | dict entries =>
    rw [simultaneous, simultaneous, simultaneousEntries_eq_of_perm hdistinct hbrace hperm entries]
  | scalar s => rw [simultaneous, simultaneous]

theorem simultaneousItems_eq_of_perm (hdistinct : (slots.map RuleSlot.name).Nodup)
    (hbrace : ∀ slot ∈ slots, '\x7d' ∉ slot.name) (hperm : slots.Perm slots')
    (items : List (Value σ)) :
    simultaneousItems slots group slots items = simultaneousItems slots' group slots' items := by
  cases items with
  | nil => rw [simultaneousItems, simultaneousItems]
  | cons item items =>
    rw [simultaneousItems, simultaneousItems, simultaneous_eq_of_perm hdistinct hbrace hperm item,
      simultaneousItems_eq_of_perm hdistinct hbrace hperm items]

theorem simultaneousEntries_eq_of_perm (hdistinct : (slots.map RuleSlot.name).Nodup)
    (hbrace : ∀ slot ∈ slots, '\x7d' ∉ slot.name) (hperm : slots.Perm slots')
    (entries : List (Text × Value σ)) :
    simultaneousEntries slots group slots entries =
      simultaneousEntries slots' group slots' entries := by
  cases entries with
  | nil => rw [simultaneousEntries, simultaneousEntries]
  | cons entry entries =>
    obtain ⟨key, value⟩ := entry
    rw [simultaneousEntries, simultaneousEntries,
      simultaneous_eq_of_perm hdistinct hbrace hperm value,
      simultaneousEntries_eq_of_perm hdistinct hbrace hperm entries]

end

end Order

end Dqx.Materializer
