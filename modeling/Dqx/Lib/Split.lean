import Mathlib.Data.List.Basic

/-! The parts of a list between the elements that separate them. -/

namespace Dqx.Lib

variable {α : Type}

/-- An element is a separator, or lies in a part. -/
theorem mem_splitOnP {p : α → Bool} {text : List α} {c : α} (h : c ∈ text) :
    p c = true ∨ ∃ segment ∈ text.splitOnP p, c ∈ segment := by
  induction text with
  | nil => cases h
  | cons d text ih =>
    rw [List.splitOnP_cons_eq_if_modifyHead]
    by_cases hd : p d = true
    · rw [if_pos hd]
      rcases List.mem_cons.mp h with rfl | h
      · exact .inl hd
      · exact (ih h).imp_right fun ⟨segment, hmem, hc⟩ => ⟨segment, List.mem_cons_of_mem _ hmem, hc⟩
    · rw [if_neg hd]
      cases hsplit : text.splitOnP p with
      | nil => exact absurd hsplit (List.splitOnP_ne_nil p text)
      | cons first segments =>
        rw [hsplit] at ih
        rw [List.modifyHead_cons]
        rcases List.mem_cons.mp h with rfl | h
        · exact .inr ⟨_, List.mem_cons_self, List.mem_cons_self⟩
        · refine (ih h).imp_right fun ⟨segment, hmem, hc⟩ => ?_
          rcases List.mem_cons.mp hmem with rfl | hmem
          · exact ⟨_, List.mem_cons_self, List.mem_cons_of_mem _ hc⟩
          · exact ⟨segment, List.mem_cons_of_mem _ hmem, hc⟩

/-- The elements of a part are elements of the list. -/
theorem mem_of_mem_splitOnP {p : α → Bool} {text word : List α} (h : word ∈ text.splitOnP p) :
    ∀ c ∈ word, c ∈ text := by
  induction text generalizing word with
  | nil =>
    obtain rfl : word = [] := by simpa using h
    nofun
  | cons c text ih =>
    rw [List.splitOnP_cons_eq_if_modifyHead] at h
    split at h
    · rcases List.mem_cons.mp h with rfl | h
      · nofun
      · exact fun d hd => List.mem_cons_of_mem _ (ih h d hd)
    · cases hsplit : text.splitOnP p with
      | nil => rw [hsplit] at h; cases h
      | cons first words =>
        rw [hsplit, List.modifyHead_cons] at h
        rcases List.mem_cons.mp h with rfl | h
        · exact List.forall_mem_cons.mpr ⟨List.mem_cons_self, fun d hd =>
            List.mem_cons_of_mem _ (ih (by rw [hsplit]; exact List.mem_cons_self) d hd)⟩
        · exact fun d hd => List.mem_cons_of_mem _
            (ih (by rw [hsplit]; exact List.mem_cons_of_mem _ h) d hd)

/-- Separators that agree on a list split it alike. -/
theorem splitOnP_congr {p q : α → Bool} {text : List α} (h : ∀ c ∈ text, p c = q c) :
    text.splitOnP p = text.splitOnP q := by
  induction text with
  | nil => rfl
  | cons c text ih =>
    obtain ⟨hc, htext⟩ := List.forall_mem_cons.mp h
    rw [List.splitOnP_cons_eq_if_modifyHead, List.splitOnP_cons_eq_if_modifyHead, hc, ih htext]

theorem not_mem_of_mem_splitOn [DecidableEq α] {separator : α} {text word : List α}
    (h : word ∈ text.splitOn separator) : separator ∉ word := by
  induction text generalizing word with
  | nil =>
    obtain rfl : word = [] := by simpa using h
    nofun
  | cons c text ih =>
    rw [List.splitOn_cons_eq_if_modifyHead] at h
    split at h
    · rcases List.mem_cons.mp h with rfl | h
      · nofun
      · exact ih h
    · next hc =>
      cases hsplit : text.splitOn separator with
      | nil => rw [hsplit] at h; cases h
      | cons first words =>
        rw [hsplit, List.modifyHead_cons] at h
        rcases List.mem_cons.mp h with rfl | h
        · have hfirst : separator ∉ first := ih (hsplit ▸ List.mem_cons_self)
          have hne : separator ≠ c := fun heq => hc (by simp [heq])
          simp [hne, hfirst]
        · exact ih (hsplit ▸ List.mem_cons_of_mem _ h)

end Dqx.Lib
