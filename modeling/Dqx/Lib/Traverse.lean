import Mathlib.Data.List.Forall2
import Mathlib.Data.List.Nodup
import Mathlib.Data.List.Perm.Basic
import Mathlib.Data.List.Sort
import Mathlib.Order.Defs.LinearOrder

/-! Traversals that may fail, read as relations between what goes in and what comes out, and the
sorting of fields by their keys. -/

namespace Dqx.Lib

universe u

section Traverse

variable {ε α β γ κ : Type u}

/-- A sequence of two fallible steps succeeds when both do. -/
theorem bind_eq_ok {x : Except ε α} {f : α → Except ε β} {b : β} :
    (x >>= f) = .ok b ↔ ∃ a, x = .ok a ∧ f a = .ok b := by
  cases x with
  | error e => simp [bind, Except.bind]
  | ok a => simp [bind, Except.bind]

theorem map_eq_ok {x : Except ε α} {f : α → β} {b : β} :
    x.map f = .ok b ↔ ∃ a, x = .ok a ∧ f a = b := by
  cases x with
  | error e => simp [Except.map]
  | ok a => simp [Except.map]

theorem mapM_cons_eq_ok {f : α → Except ε β} {x : α} {xs : List α} {ys : List β} :
    (x :: xs).mapM f = .ok ys ↔ ∃ y rest, f x = .ok y ∧ xs.mapM f = .ok rest ∧ ys = y :: rest := by
  rw [List.mapM_cons]
  cases hx : f x with
  | error e => simp [bind, Except.bind]
  | ok y =>
    cases hxs : xs.mapM f with
    | error e => simp [bind, Except.bind]
    | ok rest => simp [bind, Except.bind, pure, Except.pure, eq_comm]

theorem mapM_append_eq_ok {f : α → Except ε β} {xs xs' : List α} {ys ys' : List β}
    (h : xs.mapM f = .ok ys) (h' : xs'.mapM f = .ok ys') :
    (xs ++ xs').mapM f = .ok (ys ++ ys') := by
  rw [List.mapM_append, h, h']
  rfl

/-- A traversal succeeds with what its function gives element by element. -/
theorem mapM_eq_ok_iff_forall₂ {f : α → Except ε β} {xs : List α} {ys : List β} :
    xs.mapM f = .ok ys ↔ List.Forall₂ (fun x y => f x = .ok y) xs ys := by
  induction xs generalizing ys with
  | nil => simp [pure, Except.pure, eq_comm]
  | cons x xs ih =>
    rw [mapM_cons_eq_ok]
    constructor
    · rintro ⟨y, rest, hy, hrest, rfl⟩
      exact .cons hy (ih.mp hrest)
    · rintro (_ | ⟨hy, hrest⟩)
      exact ⟨_, _, hy, ih.mpr hrest, rfl⟩

theorem mapM_cons_eq_some {f : α → Option β} {x : α} {xs : List α} {ys : List β} :
    (x :: xs).mapM f = some ys ↔
      ∃ y rest, f x = some y ∧ xs.mapM f = some rest ∧ ys = y :: rest := by
  rw [List.mapM_cons]
  cases hx : f x with
  | none => simp
  | some y =>
    cases hxs : xs.mapM f with
    | none => simp
    | some rest => simp [eq_comm]

theorem mapM_eq_some_iff_forall₂ {f : α → Option β} {xs : List α} {ys : List β} :
    xs.mapM f = some ys ↔ List.Forall₂ (fun x y => f x = some y) xs ys := by
  induction xs generalizing ys with
  | nil => simp [eq_comm]
  | cons x xs ih =>
    rw [mapM_cons_eq_some]
    constructor
    · rintro ⟨y, rest, hy, hrest, rfl⟩
      exact .cons hy (ih.mp hrest)
    · rintro (_ | ⟨hy, hrest⟩)
      exact ⟨_, _, hy, ih.mpr hrest, rfl⟩

/-- Two traversals of related lists give related results. -/
theorem forall₂_of_mapM_eq_some {α' β' : Type u} {r : α → α' → Prop} {q : β → β' → Prop}
    {f : α → Option β} {f' : α' → Option β'} {xs : List α} {xs' : List α'} {ys : List β}
    {ys' : List β'} (hxs : List.Forall₂ r xs xs') (hf : xs.mapM f = some ys)
    (hf' : xs'.mapM f' = some ys')
    (h : ∀ x x' y y', r x x' → f x = some y → f' x' = some y' → q y y') :
    List.Forall₂ q ys ys' := by
  induction hxs generalizing ys ys' with
  | nil =>
    obtain rfl : [] = ys := Option.some.inj hf
    obtain rfl : [] = ys' := Option.some.inj hf'
    exact .nil
  | cons hx hrest ih =>
    obtain ⟨y, rest, hy, hys, rfl⟩ := mapM_cons_eq_some.mp hf
    obtain ⟨y', rest', hy', hys', rfl⟩ := mapM_cons_eq_some.mp hf'
    exact .cons (h _ _ _ _ hx hy hy') (ih hys hys')

theorem exists_of_forall₂_left {r : α → β → Prop} {xs : List α} {ys : List β}
    (h : List.Forall₂ r xs ys) {x : α} (hx : x ∈ xs) : ∃ y ∈ ys, r x y := by
  induction h with
  | nil => exact absurd hx List.not_mem_nil
  | @cons x' y xs ys hxy _ ih =>
    rcases List.mem_cons.mp hx with rfl | hx
    · exact ⟨y, List.mem_cons_self, hxy⟩
    · obtain ⟨y', hy', hr⟩ := ih hx
      exact ⟨y', List.mem_cons_of_mem _ hy', hr⟩

theorem exists_of_forall₂_right {r : α → β → Prop} {xs : List α} {ys : List β}
    (h : List.Forall₂ r xs ys) {y : β} (hy : y ∈ ys) : ∃ x ∈ xs, r x y :=
  exists_of_forall₂_left h.flip hy

theorem mem_iff_of_mapM_eq_some {f : α → Option β} {xs : List α} {ys : List β}
    (h : xs.mapM f = some ys) {y : β} : y ∈ ys ↔ ∃ x ∈ xs, f x = some y := by
  have hrelated := mapM_eq_some_iff_forall₂.mp h
  constructor
  · exact exists_of_forall₂_right hrelated
  · rintro ⟨x, hx, hy⟩
    obtain ⟨y', hy', hf⟩ := exists_of_forall₂_left hrelated hx
    rw [hf] at hy
    exact Option.some.inj hy ▸ hy'

theorem exists_mapM_eq_some {f : α → Option β} {xs : List α} (h : ∀ x ∈ xs, ∃ y, f x = some y) :
    ∃ ys, xs.mapM f = some ys := by
  induction xs with
  | nil => exact ⟨[], rfl⟩
  | cons x xs ih =>
    obtain ⟨y, hy⟩ := h x List.mem_cons_self
    obtain ⟨ys, hys⟩ := ih fun z hz => h z (List.mem_cons_of_mem _ hz)
    exact ⟨y :: ys, mapM_cons_eq_some.mpr ⟨y, ys, hy, hys, rfl⟩⟩

theorem mapM_eq_none {f : α → Option β} {xs : List α} {x : α} (hx : x ∈ xs) (h : f x = none) :
    xs.mapM f = none := by
  rw [Option.eq_none_iff_forall_not_mem]
  intro ys hys
  obtain ⟨y, -, hy⟩ := exists_of_forall₂_left (mapM_eq_some_iff_forall₂.mp hys) hx
  rw [h] at hy
  cases hy

theorem forall₂_append_right {r : α → β → Prop} {xs : List α} {ys zs : List β}
    (h : List.Forall₂ r xs (ys ++ zs)) :
    ∃ us vs, xs = us ++ vs ∧ List.Forall₂ r us ys ∧ List.Forall₂ r vs zs := by
  induction ys generalizing xs with
  | nil => exact ⟨[], xs, rfl, .nil, h⟩
  | cons y ys ih =>
    cases h with
    | cons hxy hrest =>
      obtain ⟨us, vs, rfl, hus, hvs⟩ := ih hrest
      exact ⟨_ :: us, vs, rfl, .cons hxy hus, hvs⟩

theorem mapM_ok_of_forall {f : α → Except ε β} {xs : List α} (h : ∀ x ∈ xs, ∃ y, f x = .ok y) :
    ∃ ys, xs.mapM f = .ok ys := by
  induction xs with
  | nil => exact ⟨[], rfl⟩
  | cons x xs ih =>
    obtain ⟨y, hy⟩ := h x List.mem_cons_self
    obtain ⟨ys, hys⟩ := ih fun x' hx' => h x' (List.mem_cons_of_mem _ hx')
    exact ⟨y :: ys, mapM_cons_eq_ok.mpr ⟨y, ys, hy, hys, rfl⟩⟩

theorem mapM_eq_map {f : α → Except ε β} {g : α → β} {xs : List α}
    (h : ∀ x ∈ xs, f x = .ok (g x)) : xs.mapM f = .ok (xs.map g) := by
  induction xs with
  | nil => rfl
  | cons x xs ih =>
    exact mapM_cons_eq_ok.mpr ⟨g x, xs.map g, h x List.mem_cons_self,
      ih fun y hy => h y (List.mem_cons_of_mem _ hy), rfl⟩

theorem forM_eq_ok {f : α → Except ε PUnit} {xs : List α} (h : ∀ x ∈ xs, f x = .ok ⟨⟩) :
    xs.forM f = .ok ⟨⟩ := by
  induction xs with
  | nil => rfl
  | cons x xs ih =>
    rw [List.forM, h x List.mem_cons_self]
    exact ih fun y hy => h y (List.mem_cons_of_mem _ hy)

/-- A traversal of a permutation gives a permutation of the results. -/
theorem mapM_perm {f : α → Except ε β} {xs xs' : List α} {ys : List β} (h : xs'.Perm xs)
    (hys : xs.mapM f = .ok ys) : ∃ ys', xs'.mapM f = .ok ys' ∧ ys'.Perm ys := by
  obtain ⟨ys', hys', hperm⟩ := List.perm_comp_forall₂ h (mapM_eq_ok_iff_forall₂.mp hys)
  exact ⟨ys', mapM_eq_ok_iff_forall₂.mpr hys', hperm⟩

/-- Traversals of related lists give related results, when their functions do so element by
element. -/
theorem mapM_related {α' β' : Type u} {r : α → α' → Prop} {q : β → β' → Prop}
    {f : α → Except ε β} {g : α' → Except ε β'} {xs : List α} {xs' : List α'} {ys : List β}
    (hxs : List.Forall₂ r xs xs') (hys : xs.mapM f = .ok ys)
    (h : ∀ x x' y, f x = .ok y → y ∈ ys → r x x' → ∃ y', g x' = .ok y' ∧ q y y') :
    ∃ ys', xs'.mapM g = .ok ys' ∧ List.Forall₂ q ys ys' := by
  induction hxs generalizing ys with
  | nil =>
    cases hys
    exact ⟨[], rfl, .nil⟩
  | cons hxx' _ ih =>
    obtain ⟨y, rest, hy, hrest, rfl⟩ := mapM_cons_eq_ok.mp hys
    obtain ⟨y', hy', hq⟩ := h _ _ y hy List.mem_cons_self hxx'
    obtain ⟨rest', hrest', hqs⟩ := ih hrest fun x x' z hz hmem =>
      h x x' z hz (List.mem_cons_of_mem _ hmem)
    exact ⟨y' :: rest', mapM_cons_eq_ok.mpr ⟨y', rest', hy', hrest', rfl⟩, .cons hq hqs⟩

/-- The traversal of the values of a dictionary, under the same keys. -/
def mapValuesM (f : α → Except ε β) (entries : List (κ × α)) : Except ε (List (κ × β)) :=
  entries.mapM fun (key, value) => (f value).map fun result => (key, result)

theorem mapValuesM_cons {f : α → Except ε β} {key : κ} {value : α} {rest : List (κ × α)} :
    mapValuesM f ((key, value) :: rest) =
      f value >>= fun result => (mapValuesM f rest).map ((key, result) :: ·) := by
  rw [mapValuesM, List.mapM_cons]
  dsimp only
  cases f value <;> rfl

theorem mapValuesM_eq_ok_iff_forall₂ {f : α → Except ε β} {entries : List (κ × α)}
    {results : List (κ × β)} :
    mapValuesM f entries = .ok results ↔
      List.Forall₂ (fun e r => e.1 = r.1 ∧ f e.2 = .ok r.2) entries results := by
  rw [mapValuesM, mapM_eq_ok_iff_forall₂]
  have hpoint : ∀ (e : κ × α) (r : κ × β),
      ((f e.2).map fun result => (e.1, result)) = .ok r ↔ e.1 = r.1 ∧ f e.2 = .ok r.2 := by
    rintro ⟨key, value⟩ ⟨key', result⟩
    cases hvalue : f value with
    | error e => simp [Except.map]
    | ok y => simp [Except.map]
  constructor
  · exact List.Forall₂.imp fun e r h => (hpoint e r).mp h
  · exact List.Forall₂.imp fun e r h => (hpoint e r).mpr h

theorem keys_eq_of_mapValuesM {f : α → Except ε β} {entries : List (κ × α)}
    {results : List (κ × β)} (h : mapValuesM f entries = .ok results) :
    results.map Prod.fst = entries.map Prod.fst := by
  induction mapValuesM_eq_ok_iff_forall₂.mp h with
  | nil => rfl
  | cons hkey _ ih => rw [List.map_cons, List.map_cons, ih (mapValuesM_eq_ok_iff_forall₂.mpr ‹_›), hkey.1]

theorem mapValuesM_cons_eq_ok {f : α → Except ε β} {entry : κ × α} {rest : List (κ × α)}
    {results : List (κ × β)} :
    mapValuesM f (entry :: rest) = .ok results ↔
      ∃ result others, f entry.2 = .ok result ∧ mapValuesM f rest = .ok others ∧
        results = (entry.1, result) :: others := by
  rw [mapValuesM_cons, bind_eq_ok]
  simp only [map_eq_ok]
  constructor
  · rintro ⟨result, hresult, others, hothers, rfl⟩
    exact ⟨result, others, hresult, hothers, rfl⟩
  · rintro ⟨result, others, hresult, hothers, rfl⟩
    exact ⟨result, hresult, others, hothers, rfl⟩

/-- What a function gives, where it gives something. -/
def resultOf [Inhabited β] (f : α → Except ε β) (a : α) : β :=
  match f a with
  | .ok b => b
  | .error _ => default

theorem resultOf_eq [Inhabited β] {f : α → Except ε β} {a : α} {b : β} (h : f a = .ok b) :
    resultOf f a = b := by
  rw [resultOf, h]

/-- A traversal that succeeds is a map over the values. -/
theorem mapValuesM_eq_map [Inhabited β] {f : α → Except ε β} {entries : List (κ × α)}
    {results : List (κ × β)} (h : mapValuesM f entries = .ok results) :
    results = entries.map fun entry => (entry.1, resultOf f entry.2) := by
  induction mapValuesM_eq_ok_iff_forall₂.mp h with
  | nil => rfl
  | @cons entry result entries results hentry hrest ih =>
    rw [List.map_cons, ← ih (mapValuesM_eq_ok_iff_forall₂.mpr hrest), resultOf_eq hentry.2, hentry.1]

/-- A traversal that is undone element by element is undone by the traversal back. -/
theorem mapM_roundTrip {ι : Type u} {f : α → Except ε β} {g : ι → β → Except ε α} {xs : List α}
    (h : ∀ x ∈ xs, ∃ y, f x = .ok y ∧ ∀ i, g i y = .ok x) :
    ∃ ys, xs.mapM f = .ok ys ∧ ∀ i, ys.mapM (g i) = .ok xs := by
  induction xs with
  | nil => exact ⟨[], rfl, fun _ => rfl⟩
  | cons x xs ih =>
    obtain ⟨y, hy, hback⟩ := h x List.mem_cons_self
    obtain ⟨ys, hys, hbacks⟩ := ih fun x' hx' => h x' (List.mem_cons_of_mem _ hx')
    exact ⟨y :: ys, mapM_cons_eq_ok.mpr ⟨_, _, hy, hys, rfl⟩,
      fun i => mapM_cons_eq_ok.mpr ⟨_, _, hback i, hbacks i, rfl⟩⟩

theorem mapValuesM_roundTrip {ι : Type u} {f : α → Except ε β} {g : ι → β → Except ε α}
    {entries : List (κ × α)}
    (h : ∀ entry ∈ entries, ∃ y, f entry.2 = .ok y ∧ ∀ i, g i y = .ok entry.2) :
    ∃ results, mapValuesM f entries = .ok results ∧
      ∀ i, mapValuesM (g i) results = .ok entries := by
  induction entries with
  | nil => exact ⟨[], rfl, fun _ => rfl⟩
  | cons entry rest ih =>
    obtain ⟨y, hy, hback⟩ := h entry List.mem_cons_self
    obtain ⟨results, hresults, hbacks⟩ := ih fun e he => h e (List.mem_cons_of_mem _ he)
    exact ⟨(entry.1, y) :: results, mapValuesM_cons_eq_ok.mpr ⟨_, _, hy, hresults, rfl⟩,
      fun i => mapValuesM_cons_eq_ok.mpr ⟨_, _, hback i, hbacks i, rfl⟩⟩

theorem mapM_fixed {f : α → Except ε α} {xs : List α} (h : ∀ x ∈ xs, f x = .ok x) :
    xs.mapM f = .ok xs := by
  rw [mapM_eq_ok_iff_forall₂, List.forall₂_same]
  exact h

theorem mapValuesM_fixed {f : α → Except ε α} {entries : List (κ × α)}
    (h : ∀ entry ∈ entries, f entry.2 = .ok entry.2) : mapValuesM f entries = .ok entries := by
  rw [mapValuesM_eq_ok_iff_forall₂, List.forall₂_same]
  exact fun entry hentry => ⟨rfl, h entry hentry⟩

theorem mapM_mono {f g : α → Except ε β} {xs : List α} {ys : List β}
    (h : ∀ x ∈ xs, ∀ y, f x = .ok y → g x = .ok y) (hf : xs.mapM f = .ok ys) :
    xs.mapM g = .ok ys := by
  rw [mapM_eq_ok_iff_forall₂] at hf ⊢
  induction hf with
  | nil => exact .nil
  | cons hxy _ ih =>
    exact .cons (h _ List.mem_cons_self _ hxy) (ih fun x hx => h x (List.mem_cons_of_mem _ hx))

theorem mapValuesM_mono {f g : α → Except ε β} {entries : List (κ × α)}
    {results : List (κ × β)}
    (h : ∀ entry ∈ entries, ∀ y, f entry.2 = .ok y → g entry.2 = .ok y)
    (hf : mapValuesM f entries = .ok results) : mapValuesM g entries = .ok results := by
  rw [mapValuesM_eq_ok_iff_forall₂] at hf ⊢
  induction hf with
  | nil => exact .nil
  | cons hxy _ ih =>
    exact .cons ⟨hxy.1, h _ List.mem_cons_self _ hxy.2⟩
      (ih fun e he => h e (List.mem_cons_of_mem _ he))

end Traverse

section Sorting

variable {κ α β : Type u} (le : κ → κ → Prop) [DecidableRel le]

def sortByKey (fields : List (κ × α)) : List (κ × α) :=
  fields.insertionSort fun a b => le a.1 b.1

theorem sortByKey_perm (fields : List (κ × α)) : (sortByKey le fields).Perm fields :=
  List.perm_insertionSort _ fields

/-- The keys come out as they would without the values. -/
theorem sortByKey_keys (fields : List (κ × α)) :
    (sortByKey le fields).map Prod.fst = (fields.map Prod.fst).insertionSort le :=
  List.map_insertionSort _ _ _ _ fun _ _ _ _ => Iff.rfl

/-- Sorting commutes with a change of the values. -/
theorem sortByKey_map (f : α → β) (fields : List (κ × α)) :
    (sortByKey le fields).map (fun field => (field.1, f field.2)) =
      sortByKey le (fields.map fun field => (field.1, f field.2)) :=
  List.map_insertionSort _ _ _ _ fun _ _ _ _ => Iff.rfl

end Sorting

/-- Two arrangements of the same fields, one with increasing keys and one sorted, are the same. -/
theorem eq_of_perm_of_increasing {κ α : Type u} [LinearOrder κ] {xs ys : List (κ × α)}
    (hperm : xs.Perm ys) (hxs : (xs.map Prod.fst).Pairwise (· < ·))
    (hys : (ys.map Prod.fst).Pairwise (· ≤ ·)) : xs = ys := by
  have hnodup : (xs.map Prod.fst).Nodup := hxs.imp ne_of_lt
  rw [List.pairwise_map] at hxs hys
  apply hperm.eq_of_pairwise _ (hxs.imp le_of_lt) hys
  intro a b ha hb hab hba
  exact List.inj_on_of_nodup_map hnodup ha (hperm.symm.subset hb) (le_antisymm hab hba)

end Dqx.Lib
