import Mathlib.Algebra.BigOperators.Group.List.Basic
import Mathlib.Order.Lattice

/-! Dictionaries that are filled from a list, item by item: what is found under a key depends on the
items with this key alone, and a sum over the dictionary is one over the items. -/

namespace Dqx.Lib

variable {κ α β : Type} [DecidableEq κ]

/-- The entry under a key, changed or added at the end. -/
def alter (key : κ) (f : Option β → β) : List (κ × β) → List (κ × β)
  | [] => [(key, f none)]
  | (k, b) :: rest => if k = key then (k, f (some b)) :: rest else (k, b) :: alter key f rest

def tallyFrom (f : Option β → α → β) (entries : List (κ × β)) (items : List (κ × α)) :
    List (κ × β) :=
  items.foldl (fun entries item => alter item.1 (f · item.2) entries) entries

def tally (f : Option β → α → β) (items : List (κ × α)) : List (κ × β) := tallyFrom f [] items

section Lookup

variable [BEq κ] [LawfulBEq κ]

theorem lookup_alter (key k : κ) (f : Option β → β) (entries : List (κ × β)) :
    (alter key f entries).lookup k =
      if k = key then some (f (entries.lookup key)) else entries.lookup k := by
  induction entries with
  | nil =>
    rw [alter, List.lookup_cons]
    by_cases hk : k = key
    · simp [hk]
    · have hbeq : (k == key) = false := by simpa using hk
      simp [hk, hbeq]
  | cons entry entries ih =>
    obtain ⟨k', b⟩ := entry
    rw [alter]
    by_cases hentry : k' = key
    · subst hentry
      by_cases hk : k = k'
      · simp [hk]
      · have hbeq : (k == k') = false := by simpa using hk
        simp [List.lookup_cons, hk, hbeq]
    · have hbeq : (key == k') = false := by simpa using Ne.symm hentry
      rw [if_neg hentry, List.lookup_cons, ih, List.lookup_cons, List.lookup_cons, hbeq]
      by_cases hk : k = key
      · simp [hk, hbeq]
      · simp [hk]

theorem lookup_tallyFrom (f : Option β → α → β) (items : List (κ × α)) (k : κ)
    (entries : List (κ × β)) : (tallyFrom f entries items).lookup k =
      ((items.filter (·.1 = k)).map Prod.snd).foldl (fun found a => some (f found a))
        (entries.lookup k) := by
  induction items generalizing entries with
  | nil => rfl
  | cons item items ih =>
    rw [tallyFrom, List.foldl_cons]
    refine (ih _).trans ?_
    rw [lookup_alter]
    by_cases hk : item.1 = k
    · simp [hk]
    · simp [hk, Ne.symm hk]

/-- What is found under a key. -/
theorem lookup_tally (f : Option β → α → β) (items : List (κ × α)) (k : κ) :
    (tally f items).lookup k = ((items.filter (·.1 = k)).map Prod.snd).foldl
      (fun found a => some (f found a)) none :=
  lookup_tallyFrom f items k []

end Lookup

section Sum

variable {M : Type} [AddCommMonoid M] {weight : α → M} {measure : β → M} {f : Option β → α → β}

theorem sum_alter (key : κ) (a : α)
    (hf : ∀ found, measure (f found a) = (found.map measure).getD 0 + weight a)
    (entries : List (κ × β)) : ((alter key (f · a) entries).map fun entry => measure entry.2).sum =
      (entries.map fun entry => measure entry.2).sum + weight a := by
  induction entries with
  | nil => simp [alter, hf]
  | cons entry entries ih =>
    obtain ⟨k, b⟩ := entry
    rw [alter]
    split
    · simp only [List.map_cons, List.sum_cons, hf, Option.map_some, Option.getD_some]
      rw [add_right_comm]
    · simp only [List.map_cons, List.sum_cons, ih]
      rw [add_assoc]

/-- Each item is counted under its key, once. -/
theorem sum_tally (hf : ∀ found a, measure (f found a) = (found.map measure).getD 0 + weight a)
    (items : List (κ × α)) : ((tally f items).map fun entry => measure entry.2).sum =
      (items.map fun item => weight item.2).sum := by
  have hfrom : ∀ entries, ((tallyFrom f entries items).map fun entry => measure entry.2).sum =
      (entries.map fun entry => measure entry.2).sum +
        (items.map fun item => weight item.2).sum := by
    induction items with
    | nil => simp [tallyFrom]
    | cons item items ih =>
      intro entries
      rw [tallyFrom, List.foldl_cons]
      refine (ih _).trans ?_
      rw [sum_alter item.1 item.2 (fun found => hf found item.2), List.map_cons, List.sum_cons,
        add_assoc]
  rw [tally, hfrom, List.map_nil, List.sum_nil, zero_add]

end Sum

section Greatest

variable [LinearOrder β]

def greater (found : Option β) (b : β) : β :=
  match found with
  | none => b
  | some a => if a < b then b else a

/-- The greatest value under each key. -/
def greatest (items : List (κ × β)) : List (κ × β) := tally greater items

theorem exists_foldl_greatest (values : List β) (a : β) : ∃ m,
    values.foldl (fun found b => some (greater found b)) (some a) = some m ∧
      (m = a ∨ m ∈ values) ∧ a ≤ m ∧ ∀ c ∈ values, c ≤ m := by
  induction values generalizing a with
  | nil => exact ⟨a, rfl, .inl rfl, le_refl a, nofun⟩
  | cons b values ih =>
    obtain ⟨m, hm, hmem, hle, hall⟩ := ih (greater (some a) b)
    have hbounds : a ≤ greater (some a) b ∧ b ≤ greater (some a) b := by
      rw [greater]
      split
      · next h => exact ⟨le_of_lt h, le_refl b⟩
      · next h => exact ⟨le_refl a, le_of_not_gt h⟩
    have hcases : greater (some a) b = a ∨ greater (some a) b = b := by
      rw [greater]
      split
      · exact .inr rfl
      · exact .inl rfl
    refine ⟨m, hm, ?_, hbounds.1.trans hle, List.forall_mem_cons.mpr ⟨hbounds.2.trans hle, hall⟩⟩
    rcases hmem with rfl | hmem
    · exact hcases.imp_right fun h => List.mem_cons.mpr (.inl h)
    · exact .inr (List.mem_cons_of_mem _ hmem)

/-- The greatest of the values of a key is found under it. -/
theorem lookup_greatest [BEq κ] [LawfulBEq κ] {items : List (κ × β)} {k : κ} {b : β}
    (h : (k, b) ∈ items) :
    ∃ m, (greatest items).lookup k = some m ∧ (k, m) ∈ items ∧ ∀ c, (k, c) ∈ items → c ≤ m := by
  have hvalues (c : β) : c ∈ (items.filter (·.1 = k)).map Prod.snd ↔ (k, c) ∈ items := by
    simp
  rw [greatest, lookup_tally]
  cases hlist : (items.filter (·.1 = k)).map Prod.snd with
  | nil =>
    have hmem := (hvalues b).mpr h
    rw [hlist] at hmem
    cases hmem
  | cons a values =>
    obtain ⟨m, hm, hmem, hle, hall⟩ := exists_foldl_greatest values a
    refine ⟨m, hm, (hvalues m).mp ?_, fun c hc => ?_⟩
    · rw [hlist]
      exact List.mem_cons.mpr hmem
    · have hc' := (hvalues c).mpr hc
      rw [hlist] at hc'
      rcases List.mem_cons.mp hc' with rfl | hc'
      · exact hle
      · exact hall c hc'

end Greatest

end Dqx.Lib
