import Dqx.Lib.Traverse
import Mathlib.Data.List.Forall2
import Mathlib.Data.List.Nodup
import Mathlib.Data.Option.Basic

/-! Dictionaries as lists of entries, compared key by key: two of them with the same keys in the same
order, and related values. -/

namespace Dqx.Lib

universe u

variable {α β κ : Type u}

/-- The same keys in the same order, with related values. -/
abbrev Entries (r : α → β → Prop) (xs : List (κ × α)) (ys : List (κ × β)) : Prop :=
  List.Forall₂ (fun x y => x.1 = y.1 ∧ r x.2 y.2) xs ys

namespace Entries

variable {r : α → β → Prop} {xs : List (κ × α)} {ys : List (κ × β)}

theorem keys_eq (h : Entries r xs ys) : xs.map Prod.fst = ys.map Prod.fst := by
  induction h with
  | nil => rfl
  | cons hxy _ ih => rw [List.map_cons, List.map_cons, hxy.1, ih]

theorem exists_of_forall (h : ∀ x ∈ xs, ∃ y, r x.2 y) : ∃ ys : List (κ × β), Entries r xs ys := by
  induction xs with
  | nil => exact ⟨[], .nil⟩
  | cons x xs ih =>
    obtain ⟨y, hy⟩ := h x List.mem_cons_self
    obtain ⟨ys, hys⟩ := ih fun x' hx' => h x' (List.mem_cons_of_mem _ hx')
    exact ⟨(x.1, y) :: ys, .cons ⟨rfl, hy⟩ hys⟩

theorem any_key (h : Entries r xs ys) (p : κ → Bool) :
    (xs.any fun x => p x.1) = ys.any fun y => p y.1 := by
  induction h with
  | nil => rfl
  | cons hxy _ ih => rw [List.any_cons, List.any_cons, hxy.1, ih]

theorem filter_key (h : Entries r xs ys) (p : κ → Bool) :
    Entries r (xs.filter fun x => p x.1) (ys.filter fun y => p y.1) := by
  apply List.rel_filter _ h
  rintro x y ⟨hkey, -⟩
  show p x.1 = true ↔ p y.1 = true
  rw [hkey]

theorem append {xs' : List (κ × α)} {ys' : List (κ × β)} (h : Entries r xs ys)
    (h' : Entries r xs' ys') : Entries r (xs ++ xs') (ys ++ ys') := List.rel_append h h'

theorem zip {values : List α} {values' : List β} (names : List κ)
    (h : List.Forall₂ r values values') : Entries r (names.zip values) (names.zip values') := by
  induction h generalizing names with
  | nil => simp [Entries]
  | cons hxy _ ih =>
    cases names with
    | nil => exact .nil
    | cons name names => exact .cons ⟨rfl, hxy⟩ (ih names)

variable [BEq κ]

/-- A lookup finds related values, or nothing in both. -/
theorem lookup (h : Entries r xs ys) (key : κ) :
    (xs.lookup key = none ∧ ys.lookup key = none) ∨
      ∃ x y, xs.lookup key = some x ∧ ys.lookup key = some y ∧ r x y := by
  induction h with
  | nil => exact .inl ⟨rfl, rfl⟩
  | @cons x y xs ys hxy _ ih =>
    obtain ⟨k, x⟩ := x
    obtain ⟨k', y⟩ := y
    obtain ⟨rfl, hr⟩ : k = k' ∧ r x y := hxy
    rw [List.lookup_cons, List.lookup_cons]
    cases key == k with
    | true => exact .inr ⟨x, y, rfl, rfl, hr⟩
    | false => exact ih

/-- The entries under some names, in the order of the names. -/
theorem filterMap_lookup {ν : Type u} (h : Entries r xs ys) (names : List ν) (key : ν → κ) :
    Entries r
      (names.filterMap fun name => (xs.lookup (key name)).map fun value => (key name, value))
      (names.filterMap fun name => (ys.lookup (key name)).map fun value => (key name, value)) := by
  induction names with
  | nil => exact .nil
  | cons name names ih =>
    rw [List.filterMap_cons, List.filterMap_cons]
    rcases h.lookup (key name) with ⟨hx, hy⟩ | ⟨x, y, hx, hy, hr⟩
    · rw [hx, hy]
      exact ih
    · rw [hx, hy]
      exact .cons ⟨rfl, hr⟩ ih

end Entries

section Lookup

variable [BEq κ] [LawfulBEq κ] {xs : List (κ × α)}

theorem lookup_filter_key (p : κ → Bool) (key : κ) :
    (xs.filter fun x => p x.1).lookup key = if p key then xs.lookup key else none := by
  induction xs with
  | nil => simp
  | cons x xs ih =>
    obtain ⟨k, value⟩ := x
    by_cases hkey : key = k
    · subst hkey
      cases hp : p key with
      | true => simp [hp]
      | false => simpa [hp] using ih
    · have hne : (key == k) = false := beq_false_of_ne hkey
      cases hp : p k with
      | true => simpa [List.filter_cons, hp, List.lookup_cons, hne] using ih
      | false => simpa [List.filter_cons, hp, List.lookup_cons, hne] using ih

/-- The entries given for some names, as a dictionary. -/
theorem lookup_filterMap {ν : Type u} (names : List ν) (key : ν → κ) (f : κ → Option α) (name : κ) :
    (names.filterMap fun n => (f (key n)).map fun value => (key n, value)).lookup name =
      if names.any (key · == name) then f name else none := by
  induction names with
  | nil => simp
  | cons n names ih =>
    rw [List.filterMap_cons, List.any_cons]
    by_cases hname : key n = name
    · subst hname
      cases hvalue : f (key n) with
      | none => simpa [hvalue] using ih
      | some value => simp
    · have hne : (name == key n) = false := beq_false_of_ne (Ne.symm hname)
      have hne' : (key n == name) = false := beq_false_of_ne hname
      rw [hne', Bool.false_or, ← ih]
      cases f (key n) with
      | none => rfl
      | some value => simp [List.lookup_cons, hne]

end Lookup

theorem mem_of_lookup {κ α : Type u} [BEq κ] [LawfulBEq κ] {key : κ} {value : α}
    {entries : List (κ × α)} (h : entries.lookup key = some value) : (key, value) ∈ entries := by
  obtain ⟨before, rest, rfl, -⟩ := List.lookup_eq_some_iff.mp h
  simp

/-- Where no key is twice, a lookup finds the entry with the key. -/
theorem lookup_eq_some_iff_mem {κ α : Type u} [BEq κ] [LawfulBEq κ] {key : κ} {value : α}
    {entries : List (κ × α)} (h : (entries.map Prod.fst).Nodup) :
    entries.lookup key = some value ↔ (key, value) ∈ entries := by
  refine ⟨mem_of_lookup, fun hmem => ?_⟩
  obtain ⟨found, hfound⟩ := Option.isSome_iff_exists.mp
    (List.lookup_isSome_iff.mpr ⟨(key, value), hmem, beq_self_eq_true key⟩)
  have heq := List.inj_on_of_nodup_map h (mem_of_lookup hfound) hmem rfl
  rw [hfound, (Prod.mk.inj heq).2]

/-- Dictionaries with the same lookups have the same entries. -/
theorem perm_iff_lookup {κ α : Type u} [BEq κ] [LawfulBEq κ] {xs ys : List (κ × α)}
    (hxs : (xs.map Prod.fst).Nodup) (hys : (ys.map Prod.fst).Nodup) :
    xs.Perm ys ↔ ∀ key, xs.lookup key = ys.lookup key := by
  rw [List.perm_ext_iff_of_nodup (List.Nodup.of_map _ hxs) (List.Nodup.of_map _ hys)]
  constructor
  · intro h key
    apply Option.ext
    intro value
    rw [lookup_eq_some_iff_mem hxs, lookup_eq_some_iff_mem hys, h]
  · rintro h ⟨key, value⟩
    rw [← lookup_eq_some_iff_mem hxs, ← lookup_eq_some_iff_mem hys, h]

theorem lookup_map {κ α β : Type u} [BEq κ] (f : α → β) (entries : List (κ × α)) (key : κ) :
    (entries.map fun entry => (entry.1, f entry.2)).lookup key = (entries.lookup key).map f := by
  induction entries with
  | nil => rfl
  | cons entry entries ih =>
    rw [List.map_cons, List.lookup_cons, List.lookup_cons, ih]
    cases key == entry.1 <;> rfl

section LookupMapM

variable {α β κ : Type u} [BEq κ] [LawfulBEq κ] {key : α → κ} {f : α → Option β} {xs : List α}
  {entries : List (κ × β)}

/-- The entries computed from some elements have the keys of the elements. -/
theorem keys_of_mapM (h : xs.mapM (fun x => (f x).map fun value => (key x, value)) = some entries) :
    entries.map Prod.fst = xs.map key := by
  induction mapM_eq_some_iff_forall₂.mp h with
  | nil => rfl
  | @cons x entry xs entries hentry hrest ih =>
    obtain ⟨value, -, rfl⟩ := Option.map_eq_some_iff.mp hentry
    rw [List.map_cons, List.map_cons, ih (mapM_eq_some_iff_forall₂.mpr hrest)]

theorem lookup_mapM (hkeys : (xs.map key).Nodup)
    (h : xs.mapM (fun x => (f x).map fun value => (key x, value)) = some entries) {x : α}
    (hx : x ∈ xs) : entries.lookup (key x) = f x := by
  have hnodup : (entries.map Prod.fst).Nodup := by rwa [keys_of_mapM h]
  obtain ⟨entry, hentry, hfound⟩ := exists_of_forall₂_left (mapM_eq_some_iff_forall₂.mp h) hx
  obtain ⟨value, hvalue, rfl⟩ := Option.map_eq_some_iff.mp hfound
  rw [hvalue]
  exact (lookup_eq_some_iff_mem hnodup).mpr hentry

theorem lookup_mapM_of_not_mem {name : κ}
    (h : xs.mapM (fun x => (f x).map fun value => (key x, value)) = some entries)
    (hname : name ∉ xs.map key) : entries.lookup name = none := by
  rw [List.lookup_eq_none_iff]
  intro entry hentry
  have hmem : entry.1 ∈ xs.map key := keys_of_mapM h ▸ List.mem_map_of_mem hentry
  exact bne_iff_ne.mpr fun heq => hname (heq ▸ hmem)

end LookupMapM

end Dqx.Lib
