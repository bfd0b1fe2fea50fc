import Dqx.Lib.SqlString

/-! Names of objects in a SQL text: quoted parts, their backticks doubled, with dots between them. -/

namespace Dqx.Lib.Sql

/-- A part of a name between backticks, those inside of it doubled. -/
def quoteName (part : Text) : Text :=
  '`' :: (double '`' part ++ ['`'])

/-- The quoted parts of a name, with dots between them. -/
def dotted : List Text → Text
  | [] => []
  | [part] => quoteName part
  | part :: parts => quoteName part ++ '.' :: dotted parts

/-- A text without the second of two backticks. -/
def undouble : Text → Text
  | [] => []
  | [c] => [c]
  | c :: d :: text =>
    if c = '`' ∧ d = '`' then '`' :: undouble text else c :: undouble (d :: text)

/-- The parts of a name that is written with quoted parts only. -/
def nameParts : List Token → Option (List Text)
  | [.quotedName content] => some [undouble content]
  | .quotedName content :: .symbol ['.'] :: rest => (nameParts rest).map (undouble content :: ·)
  | _ => none

theorem undouble_cons {c : Char} (h : c ≠ '`') (text : Text) :
    undouble (c :: text) = c :: undouble text := by
  cases text with
  | nil => rfl
  | cons d text => simp [undouble, h]

@[simp] theorem undouble_double (text : Text) : undouble (double '`' text) = text := by
  induction text with
  | nil => rfl
  | cons c text ih =>
    by_cases hc : c = '`'
    · subst hc
      simp [undouble, ih]
    · rw [double_cons_of_ne hc, undouble_cons hc, ih]

theorem scan_name_double (text read : Text) :
    scan (.name read) (double '`' text) = (.name (read ++ double '`' text), []) := by
  induction text generalizing read with
  | nil => simp
  | cons c text ih =>
    by_cases hc : c = '`'
    · subst hc
      have hclose : step (.name read) '`' = (.nameClosed read, []) := by simp [step]
      have hopen : step (.nameClosed read) '`' = (.name (read ++ ['`', '`']), []) := by simp [step]
      rw [double_cons_self, scan_cons_of_step hclose, scan_cons_of_step hopen, ih]
      simp
    · have hstep : step (.name read) c = (.name (read ++ [c]), []) := by simp [step, hc]
      rw [double_cons_of_ne hc, scan_cons_of_step hstep, ih]
      simp

theorem scan_quoteName (part : Text) :
    scan .start (quoteName part) = (.nameClosed (double '`' part), []) := by
  have hopen : step .start '`' = (.name [], []) := by decide
  have hclose : step (.name (double '`' part)) '`' = (.nameClosed (double '`' part), []) := by
    simp [step]
  rw [quoteName, scan_cons_of_step hopen, scan_append, scan_name_double]
  simp [scan_cons, hclose]

theorem lex_quoteName (part : Text) : lex (quoteName part) = [.quotedName (double '`' part)] :=
  lex_of_scan (scan_quoteName part)

theorem lex_quoteName_dot (part rest : Text) :
    lex (quoteName part ++ '.' :: rest) =
      .quotedName (double '`' part) :: .symbol ['.'] :: lex rest := by
  have hends : ends (quoteName part) = .nameClosed (double '`' part) :=
    ends_of_scan (scan_quoteName part)
  have hdot : lex ('.' :: rest) = .symbol ['.'] :: lex rest := by
    have hstep : step .start '.' = (.start, [.symbol ['.']]) := by decide
    rw [lex, scan_cons, hstep]
    rfl
  rw [lex_append (.inr (.inr ⟨'.', rest, rfl, by rw [hends, step_nameClosed_dot]⟩)),
    lex_quoteName, hdot]
  rfl

/-- The parts of a name can be read back. -/
theorem nameParts_lex_dotted (part : Text) (parts : List Text) :
    nameParts (lex (dotted (part :: parts))) = some (part :: parts) := by
  induction parts generalizing part with
  | nil => simp [dotted, lex_quoteName, nameParts]
  | cons next parts ih =>
    rw [dotted, lex_quoteName_dot, nameParts, ih, undouble_double]
    · rfl
    · nofun

end Dqx.Lib.Sql
