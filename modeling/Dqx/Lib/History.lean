import Mathlib.Data.List.Basic
import Mathlib.Data.List.Induction
import Mathlib.Data.List.Pairwise

/-! A history of versions under distinct keys, newest first. Saving a version under a key that the
history holds changes nothing; otherwise the version comes to the front, and the older ones stay or
go. -/

namespace Dqx.Lib

universe u v

/-- A version to save, under a key. -/
structure Save (κ : Type u) (ν : Type v) where
  key : κ
  version : ν
  replaces : Bool

/-- The versions of a history with their keys, newest first. -/
abbrev History (κ : Type u) (ν : Type v) := List (κ × ν)

namespace History

variable {κ : Type u} {ν : Type v} [DecidableEq κ]

abbrev Holds (h : History κ ν) (key : κ) : Prop := key ∈ h.map Prod.fst

def save (h : History κ ν) (s : Save κ ν) : History κ ν :=
  if h.Holds s.key then h
  else if s.replaces then [(s.key, s.version)]
  else (s.key, s.version) :: h

def run (h : History κ ν) (saves : List (Save κ ν)) : History κ ν := saves.foldl save h

theorem save_of_holds {h : History κ ν} {s : Save κ ν} (hs : h.Holds s.key) : h.save s = h :=
  if_pos hs

theorem run_append (h : History κ ν) (xs ys : List (Save κ ν)) :
    h.run (xs ++ ys) = (h.run xs).run ys := List.foldl_append

theorem save_nodup {h : History κ ν} (s : Save κ ν) (hnodup : (h.map Prod.fst).Nodup) :
    ((h.save s).map Prod.fst).Nodup := by
  rw [save]
  split
  · exact hnodup
  · rename_i hs
    split
    · simp
    · exact List.nodup_cons.mpr ⟨hs, hnodup⟩

/-- A version that is saved under a new key is the newest. -/
theorem save_head_of_not_holds {h : History κ ν} {s : Save κ ν} (hs : ¬h.Holds s.key) :
    (h.save s).head? = some (s.key, s.version) := by
  rw [save, if_neg hs]
  split <;> rfl

theorem run_eq_of_holds {h : History κ ν} {saves : List (Save κ ν)}
    (hsaves : ∀ s ∈ saves, h.Holds s.key) : h.run saves = h := by
  induction saves with
  | nil => rfl
  | cons s saves ih =>
    rw [run, List.foldl_cons, save_of_holds (hsaves s List.mem_cons_self)]
    exact ih fun s' hs' => hsaves s' (List.mem_cons_of_mem _ hs')

/-- Saves end with one under a new key, followed by saves under keys that the history then holds:
its version is the newest. -/
theorem run_eq_last_new {saves : List (Save κ ν)} (hne : saves ≠ []) :
    ∃ before s after, saves = before ++ s :: after ∧
      ¬(run [] before).Holds s.key ∧
      (∀ later ∈ after, (run [] (before ++ [s])).Holds later.key) ∧
      run [] saves = run [] (before ++ [s]) := by
  induction saves using List.reverseRecOn with
  | nil => exact absurd rfl hne
  | append_singleton saves last ih =>
    by_cases hlast : (run [] saves).Holds last.key
    · -- the last save is skipped, so there is one before it
      have hsaves : saves ≠ [] := by
        rintro rfl
        simp [run] at hlast
      obtain ⟨before, s, after, hsplit, hnew, hskipped, hrun⟩ := ih hsaves
      refine ⟨before, s, after ++ [last], by rw [hsplit]; simp, hnew, ?_, ?_⟩
      · intro later hlater
        rcases List.mem_append.mp hlater with hlater | hlater
        · exact hskipped later hlater
        · rw [List.mem_singleton.mp hlater, ← hrun]
          exact hlast
      · rw [run_append]
        show (run [] saves).save last = _
        rw [save_of_holds hlast, hrun]
    · exact ⟨saves, last, [], rfl, hlast, fun _ hnil => absurd hnil List.not_mem_nil, rfl⟩

end History

end Dqx.Lib
