import Dqx.Lib.Split
import Dqx.SqlUtils

/-! What a validated name of a table is in a statement: three quoted identifiers, or a string. -/

namespace Dqx.SqlUtils

open Lib.Sql LowCode

/-- `value.replace("'", "''")` -/
def escapeSqlString (value : Text) : Text :=
  double '\'' value

/-- A name that no statement reads as anything else. -/
structure Embeds (fqn : Text) : Prop where
  control : ∀ c ∈ fqn, ¬c.toNat < 32
  backslash : '\\' ∉ fqn
  backtick : ∀ identifier ∈ identifiers fqn, '`' ∉ identifier
  parts : (identifiers fqn).length = 3
  name : nameParts (lex (quoteFqn fqn)) = some (identifiers fqn)
  quoteFqn : SqlUtils.quoteFqn (SqlUtils.quoteFqn fqn) = SqlUtils.quoteFqn fqn
  literal : ∃ content, lex ('\'' :: (escapeSqlString fqn ++ ['\''])) = [.string '\'' content] ∧
    denotes content = fqn

variable {fqn part : Text}

theorem mem_unquoted_or {c : Char} (h : c ∈ part) : c ∈ Python.unquoted part ∨ c = '`' := by
  unfold Python.unquoted
  split
  · next hquoted =>
    obtain ⟨hlength, hhead, hlast⟩ := hquoted
    obtain ⟨rest, rfl⟩ := List.head?_eq_some_iff.mp hhead
    obtain ⟨body, hbody⟩ := List.getLast?_eq_some_iff.mp hlast
    rw [hbody] at h
    rcases List.mem_append.mp h with h | h
    · cases body with
      | nil => cases h
      | cons d body =>
        obtain ⟨rfl, rfl⟩ := List.cons.inj hbody
        rcases List.mem_cons.mp h with rfl | h
        · exact .inr rfl
        · exact .inl (by simpa using h)
    · exact .inr (List.mem_singleton.mp h)
  · exact .inl h

theorem mem_of_mem_unquoted {c : Char} (h : c ∈ Python.unquoted part) : c ∈ part := by
  unfold Python.unquoted at h
  split at h
  · exact List.mem_of_mem_drop (List.dropLast_subset _ h)
  · exact h

theorem unquoted_quoted (text : Text) : Python.unquoted ('`' :: (text ++ ['`'])) = text := by
  rw [Python.unquoted, if_pos ⟨by simp, rfl, by simp [List.getLast?_cons]⟩]
  simp

/-- The characters of a valid identifier, but for a newline at its end. -/
theorem validIdentifier_iff : Python.validIdentifier part = true ↔
    (SqlUtils.patternBody part ≠ [] ∧ part.length ≤ 255) ∧
      ∀ c ∈ SqlUtils.patternBody part, c ≠ '`' ∧ c ≠ '\\' ∧ Python.isControl c = false := by
  simp [Python.validIdentifier, SqlUtils.patternBody, and_assoc]

theorem mem_patternBody {c : Char} (h : c ∈ part) : c ∈ patternBody part ∨ c = '\n' := by
  unfold patternBody
  split
  · next hlast =>
    obtain ⟨body, rfl⟩ := List.getLast?_eq_some_iff.mp hlast
    simpa using h
  · exact .inl h

/-- A character of a valid identifier, where a newline may stand at the end. -/
theorem of_mem_validIdentifier (h : Python.validIdentifier part = true) {c : Char} (hc : c ∈ part) :
    c ≠ '`' ∧ c ≠ '\\' ∧ (Python.isControl c = true → c = '\n') := by
  rcases mem_patternBody hc with hc | rfl
  · obtain ⟨hbacktick, hbackslash, hcontrol⟩ := (validIdentifier_iff.mp h).2 c hc
    exact ⟨hbacktick, hbackslash, fun hc => by rw [hcontrol] at hc; cases hc⟩
  · exact ⟨by decide, by decide, fun _ => rfl⟩

/-- A newline of a valid identifier is its last character. -/
theorem getLast?_of_newline_mem (h : Python.validIdentifier part = true) (hmem : '\n' ∈ part) :
    part.getLast? = some '\n' := by
  by_contra hlast
  have hbody : patternBody part = part := if_neg hlast
  have hcontrol := ((validIdentifier_iff.mp h).2 '\n' (hbody.symm ▸ hmem)).2.2
  exact absurd hcontrol (by decide)

/-- The parts of a name that is no synthetic one. -/
theorem validateFqn_parts (h : validateFqn fqn = true) (hkey : isSqlCheckKey fqn = false) :
    (fqn.splitOn '.').length = 3 ∧
      ∀ part ∈ fqn.splitOn '.', Python.validIdentifier (Python.unquoted part) = true := by
  simpa [validateFqn, hkey] using (Bool.and_eq_true_iff.mp h).2

/-- Quoting a part again leaves it as it is, unless a backtick is left inside. -/
theorem quoteIdent_quoteIdent (h : '`' ∉ Python.unquoted part) :
    quoteIdent (quoteIdent part) = quoteIdent part := by
  have hsingle : quoteIdent part = '`' :: (Python.unquoted part ++ ['`']) := by
    rw [quoteIdent, double_eq_self h]
  rw [hsingle, quoteIdent, unquoted_quoted, double_eq_self h]

theorem quoteFqn_quoteFqn (h : ∀ part ∈ fqn.splitOn '.', '`' ∉ Python.unquoted part) :
    quoteFqn (quoteFqn fqn) = quoteFqn fqn := by
  have hdots : ∀ quoted ∈ (fqn.splitOn '.').map quoteIdent, '.' ∉ quoted := by
    intro quoted hquoted
    obtain ⟨part, hpart, rfl⟩ := List.mem_map.mp hquoted
    have hdot : '.' ∉ Python.unquoted part := fun hmem =>
      Lib.not_mem_of_mem_splitOn hpart (mem_of_mem_unquoted hmem)
    rw [quoteIdent, double_eq_self (h part hpart)]
    simp [hdot]
  have hparts : (quoteFqn fqn).splitOn '.' = (fqn.splitOn '.').map quoteIdent :=
    List.splitOn_intercalate '.' hdots (by simp)
  rw [quoteFqn, hparts, quoteFqn, List.map_map]
  congr 1
  exact List.map_congr_left fun part hpart => quoteIdent_quoteIdent (h part hpart)

theorem readable_of_not_mem {text : Text} (h : '\\' ∉ text) : Readable text := by
  induction text with
  | nil => trivial
  | cons c text ih =>
    obtain ⟨hc, htext⟩ := List.ne_and_not_mem_of_not_mem_cons h
    exact ⟨fun heq => absurd heq.symm hc, ih htext⟩

/-- A valid name can be embedded exactly if none of its identifiers ends with a newline. -/
theorem embeds_iff (fqn : Text) (valid : validateFqn fqn = true)
    (table : isSqlCheckKey fqn = false) :
    Embeds fqn ↔ ∀ part ∈ fqn.splitOn '.', (Python.unquoted part).getLast? ≠ some '\n' := by
  obtain ⟨hlength, hvalid⟩ := validateFqn_parts valid table
  have hmem : ∀ c ∈ fqn, c = '.' ∨ c = '`' ∨
      ∃ part ∈ fqn.splitOn '.', c ∈ Python.unquoted part := by
    intro c hc
    rcases Lib.mem_splitOnP (p := (· == '.')) hc with hdot | ⟨part, hpart, hc⟩
    · exact .inl (by simpa using hdot)
    · rw [← List.splitOn_eq_splitOnP] at hpart
      rcases mem_unquoted_or hc with hc | rfl
      · exact .inr (.inr ⟨part, hpart, hc⟩)
      · exact .inr (.inl rfl)
  have hbacktick : ∀ part ∈ fqn.splitOn '.', '`' ∉ Python.unquoted part := fun part hpart hc =>
    (of_mem_validIdentifier (hvalid part hpart) hc).1 rfl
  have hbackslash : '\\' ∉ fqn := by
    intro hc
    rcases hmem _ hc with hdot | hbacktick | ⟨part, hpart, hc⟩
    · exact absurd hdot (by decide)
    · exact absurd hbacktick (by decide)
    · exact (of_mem_validIdentifier (hvalid part hpart) hc).2.1 rfl
  constructor
  · intro embeds part hpart hlast
    have hnewline := mem_of_mem_unquoted (List.mem_of_getLast? hlast)
    rw [List.splitOn_eq_splitOnP] at hpart
    exact embeds.control '\n' (Lib.mem_of_mem_splitOnP hpart _ hnewline) (by decide)
  · intro hlast
    refine ⟨fun c hc hcontrol => ?_, hbackslash, ?_, by rw [identifiers, List.length_map, hlength],
      nameParts_lex_quoteFqn fqn, quoteFqn_quoteFqn hbacktick, double '\'' fqn,
      lex_quoted (readable_of_not_mem hbackslash), denotes_double (readable_of_not_mem hbackslash)⟩
    · rcases hmem c hc with rfl | rfl | ⟨part, hpart, hc⟩
      · exact absurd hcontrol (by decide)
      · exact absurd hcontrol (by decide)
      · have hc' : c = '\n' := (of_mem_validIdentifier (hvalid part hpart) hc).2.2
          (by simp [Python.isControl, hcontrol])
        exact hlast part hpart (getLast?_of_newline_mem (hvalid part hpart) (hc' ▸ hc))
    · intro identifier hidentifier
      obtain ⟨part, hpart, rfl⟩ := List.mem_map.mp hidentifier
      exact hbacktick part hpart

theorem embeds_quoted_part : Embeds "main.`ftr mv`.o'brien".toList :=
  (embeds_iff _ (by decide) (by decide)).mpr (by decide)

/-- A name that ends with a newline passes. -/
theorem validateFqn_trailing_newline :
    validateFqn "main.sales.orders\n".toList = true ∧
      isSqlCheckKey "main.sales.orders\n".toList = false ∧
      ∃ c ∈ "main.sales.orders\n".toList, c.toNat < 32 :=
  ⟨by decide, by decide, '\n', by decide, by decide⟩

end Dqx.SqlUtils
