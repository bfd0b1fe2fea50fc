import Mathlib.Data.Finset.Card

/-! Pages that name the next one, followed by their keys until one names none. A key that was seen
before ends the walk, so it cannot go around in a circle. -/

namespace Dqx.Lib

variable {κ π α ρ ε : Type*}

section Follow

variable [DecidableEq κ] (read : List κ → α → κ → π → Except ε (ρ ⊕ κ × α))
  (fetch : List κ → κ → Except ε π) (repeated : ε)

/-- The walk from a page on, with the keys of the pages before it. Reading a page gives the result,
or the key of the next page. The answer has the keys that were visited. -/
def follow : Nat → List κ → α → κ → π → Option (List κ × Except ε ρ)
  | 0, _, _, _, _ => none
  | fuel + 1, before, acc, key, page =>
    match read before acc key page with
    | .error e => some (before ++ [key], .error e)
    | .ok (.inl result) => some (before ++ [key], .ok result)
    | .ok (.inr (next, acc)) =>
      if next ∈ before ++ [key] then some (before ++ [key], .error repeated)
      else match fetch (before ++ [key]) next with
        | .error e => some (before ++ [key] ++ [next], .error e)
        | .ok page => follow fuel (before ++ [key]) acc next page

/-- The pages of a walk that comes to a result. -/
inductive Visits : List κ → α → κ → π → List (κ × π) → ρ → Prop
  | done {before : List κ} {acc : α} {key : κ} {page : π} {result : ρ} :
    read before acc key page = .ok (.inl result) → Visits before acc key page [(key, page)] result
  | next {before : List κ} {acc acc' : α} {key key' : κ} {page page' : π}
    {pages : List (κ × π)} {result : ρ} :
    read before acc key page = .ok (.inr (key', acc')) →
    fetch (before ++ [key]) key' = .ok page' →
    Visits (before ++ [key]) acc' key' page' pages result →
    Visits before acc key page ((key, page) :: pages) result

variable {read fetch repeated} {fuel : Nat} {before keys : List κ} {acc : α} {key : κ} {page : π}

/-- No key is visited twice. -/
theorem nodup_of_follow {result : Except ε ρ} (hnodup : (before ++ [key]).Nodup)
    (h : follow read fetch repeated fuel before acc key page = some (keys, result)) :
    keys.Nodup := by
  induction fuel generalizing before acc key page with
  | zero => cases h
  | succ fuel ih =>
    rw [follow] at h
    split at h
    · obtain ⟨rfl, -⟩ := Prod.mk.inj (Option.some.inj h)
      exact hnodup
    · obtain ⟨rfl, -⟩ := Prod.mk.inj (Option.some.inj h)
      exact hnodup
    · next next acc' hread =>
      split at h
      · obtain ⟨rfl, -⟩ := Prod.mk.inj (Option.some.inj h)
        exact hnodup
      · next hfresh =>
        have hmore : (before ++ [key] ++ [next]).Nodup := by
          rw [List.nodup_append]
          refine ⟨hnodup, List.nodup_singleton next, fun a ha b hb => ?_⟩
          obtain rfl := List.mem_singleton.mp hb
          exact fun heq => hfresh (heq ▸ ha)
        split at h
        · obtain ⟨rfl, -⟩ := Prod.mk.inj (Option.some.inj h)
          exact hmore
        · exact ih hmore h

/-- A result comes from the pages that were visited. -/
theorem visits_of_follow {result : ρ}
    (h : follow read fetch repeated fuel before acc key page = some (keys, .ok result)) :
    ∃ pages, Visits read fetch before acc key page pages result ∧
      keys = before ++ pages.map Prod.fst := by
  induction fuel generalizing before acc key page with
  | zero => cases h
  | succ fuel ih =>
    rw [follow] at h
    split at h
    · cases h
    · next hread =>
      cases h
      exact ⟨_, .done hread, rfl⟩
    · next next acc' hread =>
      split at h
      · cases h
      · split at h
        · cases h
        · next page' hfetch =>
          obtain ⟨pages, hvisits, hkeys⟩ := ih h
          exact ⟨_, .next hread hfetch hvisits, by rw [hkeys]; simp⟩

/-- Where the pages name keys of a finite set only, the walk ends within a page for each of them. -/
theorem exists_follow {p : π → Prop} {s : Finset κ}
    (hfetch : ∀ before key page, fetch before key = .ok page → p page)
    (hread : ∀ before acc key page next acc', p page →
      read before acc key page = .ok (.inr (next, acc')) → next ∈ s)
    (hpage : p page) (hfuel : (s.filter (· ∉ before ++ [key])).card < fuel) :
    ∃ answer, follow read fetch repeated fuel before acc key page = some answer := by
  induction fuel generalizing before acc key page with
  | zero => exact absurd hfuel (Nat.not_lt_zero _)
  | succ fuel ih =>
    rw [follow]
    split
    · exact ⟨_, rfl⟩
    · exact ⟨_, rfl⟩
    · next next acc' hnext =>
      split
      · exact ⟨_, rfl⟩
      · next hfresh =>
        split
        · exact ⟨_, rfl⟩
        · next page' hpage' =>
          refine ih (hfetch _ _ _ hpage') ?_
          have hmem : next ∈ s := hread _ _ _ _ _ _ hpage hnext
          have hfewer : s.filter (· ∉ before ++ [key] ++ [next]) ⊂
              s.filter (· ∉ before ++ [key]) := by
            refine Finset.ssubset_iff_subset_ne.mpr ⟨fun k hk => ?_, fun heq => ?_⟩
            · rw [Finset.mem_filter] at hk ⊢
              exact ⟨hk.1, fun h => hk.2 (List.mem_append_left _ h)⟩
            · have hin : next ∈ s.filter (· ∉ before ++ [key] ++ [next]) :=
                heq ▸ Finset.mem_filter.mpr ⟨hmem, hfresh⟩
              refine (Finset.mem_filter.mp hin).2 ?_
              exact List.mem_append_right _ (List.mem_singleton_self _)
          have hcard := Finset.card_lt_card hfewer
          omega

end Follow

end Dqx.Lib
