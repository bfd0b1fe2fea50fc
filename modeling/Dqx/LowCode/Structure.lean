import Dqx.Lib.SqlEscape
import Dqx.LowCode.Literals

/-! When the literals of a low-code rule leave the structure of its SQL alone. -/

namespace Dqx.LowCode

open Lib.Sql

/-- What the string tokens of a piece should denote: its own string, or those of the fixed text. -/
def Piece.strings : Piece → List Text
  | .quoted text => [text]
  | .interval text => [text]
  | .param text => [text]
  | piece => Lib.Sql.strings (lex piece.text)

/-- Two bodies have the same tokens but for literals, and their strings denote what they should. -/
structure SameStructure (body body' : Body) : Prop where
  skeleton : skeleton (lex (render body.sql)) = skeleton (lex (render body'.sql))
  strings : Lib.Sql.strings (lex (render body.sql)) = body.sql.flatMap Piece.strings
  strings' : Lib.Sql.strings (lex (render body'.sql)) = body'.sql.flatMap Piece.strings

theorem strings_lex_quoted {text : Text} (readable : Readable text) :
    Lib.Sql.strings (lex (quoted text)) = [text] := by
  rw [lex_quoted readable]
  change [denotes (double '\'' text)] = [text]
  rw [denotes_double readable]

theorem interval_text {text : Text} (plain : Plain text) :
    (Piece.interval text).text = quoted text := by
  rw [Piece.text, quoted, double_eq_self plain.1]

theorem sound_of_quoted {piece : Piece} {text : Text} (htext : piece.text = quoted text)
    (hjunction : piece.junction = .token) (readable : Readable text) : piece.Sound where
  nonempty := by simp [htext, quoted]
  whole := by
    rw [htext, ends_of_scan (scan_quoted readable)]
    rfl
  free h := by rw [hjunction] at h; cases h
  name h := by rw [hjunction] at h; cases h

theorem Twin.symm {piece piece' : Piece} (h : Twin piece piece') : Twin piece' piece := by
  cases h with
  | same fixed other => exact .same fixed other
  | word literal literal' => exact .word literal' literal
  | quoted => exact .quoted _ _
  | interval nonempty nonempty' plain plain' => exact .interval nonempty' nonempty plain' plain

theorem sound_quoted {text : Text} (readable : Readable text) : (Piece.quoted text).Sound :=
  sound_of_quoted rfl rfl readable

/-- A piece reads as whole tokens, unless it is a string that does not. -/
theorem Twin.sound {piece piece' : Piece} (h : Twin piece piece')
    (sound : ∀ text, piece = .quoted text → (Piece.quoted text).Sound) : piece.Sound := by
  cases h with
  | same fixed _ => exact fixed.sound
  | word literal _ => exact literal.sound
  | quoted => exact sound _ rfl
  | interval _ _ plain _ => exact sound_of_quoted (interval_text plain) rfl plain.2

theorem Twin.strings {piece piece' : Piece} (h : Twin piece piece')
    (readable : ∀ text, piece = .quoted text → Readable text) :
    Lib.Sql.strings (lex piece.text) = piece.strings := by
  cases h with
  | same fixed other => cases piece <;> first | rfl | cases other
  | word literal _ => rfl
  | quoted => exact strings_lex_quoted (readable _ rfl)
  | interval _ _ plain _ =>
    rw [interval_text plain]
    exact strings_lex_quoted plain.2

theorem Twin.skeleton {piece piece' : Piece} (h : Twin piece piece')
    (readable : ∀ text, piece = .quoted text → Readable text)
    (readable' : ∀ text, piece' = .quoted text → Readable text) :
    Lib.Sql.skeleton (lex piece.text) = Lib.Sql.skeleton (lex piece'.text) := by
  cases h with
  | same => rfl
  | word literal literal' => exact literal.skeleton.trans literal'.skeleton.symm
  | quoted text text' =>
    change Lib.Sql.skeleton (lex (Lib.Sql.quoted text)) =
      Lib.Sql.skeleton (lex (Lib.Sql.quoted text'))
    rw [lex_quoted (readable _ rfl), lex_quoted (readable' _ rfl)]
    rfl
  | interval _ _ plain plain' =>
    rw [interval_text plain, interval_text plain', lex_quoted plain.2, lex_quoted plain'.2]
    rfl

theorem Twin.minus {piece piece' : Piece} (h : Twin piece piece')
    (readable : ∀ text, piece = .quoted text → Readable text) :
    (lex piece.text).getLast? ≠ some (.symbol ['-']) := by
  cases h with
  | same fixed _ => exact fixed.minus
  | word literal _ => exact literal.minus
  | quoted text =>
    change (lex (Lib.Sql.quoted text)).getLast? ≠ _
    rw [lex_quoted (readable _ rfl)]
    simp
  | interval _ _ plain _ =>
    rw [interval_text plain, lex_quoted plain.2]
    simp

/-- Every string that the SQL quotes has a property. -/
def StringsAre (p : Text → Prop) (sql : Sql) : Prop :=
  ∀ text, Piece.quoted text ∈ sql → p text

theorem skeleton_twins {sql sql' : Sql} (h : List.Forall₂ Twin sql sql')
    (readable : StringsAre Readable sql) (readable' : StringsAre Readable sql') :
    Lib.Sql.skeleton (sql.flatMap fun piece => lex piece.text) =
      Lib.Sql.skeleton (sql'.flatMap fun piece => lex piece.text) := by
  induction h with
  | nil => rfl
  | cons hpiece _ ih =>
    have hread : ∀ text, _ = Piece.quoted text → Readable text := fun text heq =>
      readable text (heq ▸ List.mem_cons_self)
    have hread' : ∀ text, _ = Piece.quoted text → Readable text := fun text heq =>
      readable' text (heq ▸ List.mem_cons_self)
    rw [List.flatMap_cons, List.flatMap_cons, skeleton_append (hpiece.minus hread),
      skeleton_append (hpiece.symm.minus hread'), hpiece.skeleton hread hread',
      ih (fun text hmem => readable text (List.mem_cons_of_mem _ hmem))
        (fun text hmem => readable' text (List.mem_cons_of_mem _ hmem))]

theorem strings_flatMap (tokens : Piece → List Token) (sql : Sql) :
    Lib.Sql.strings (sql.flatMap tokens) = sql.flatMap fun piece => Lib.Sql.strings (tokens piece) := by
  induction sql with
  | nil => rfl
  | cons piece sql ih => rw [List.flatMap_cons, List.flatMap_cons, strings_append, ih]

/-- Readable strings denote themselves. -/
theorem strings_render {sql sql' : Sql} {junction : Junction} (h : List.Forall₂ Twin sql sql')
    (hspaced : spaced junction sql = true) (readable : StringsAre Readable sql) :
    lex (render sql) = sql.flatMap (fun piece => lex piece.text) ∧
      Lib.Sql.strings (lex (render sql)) = sql.flatMap Piece.strings := by
  have hpieces : ∀ piece ∈ sql, ∃ piece', Twin piece piece' := by
    intro piece hpiece
    obtain ⟨piece', -, htwin⟩ := Lib.exists_of_forall₂_left h hpiece
    exact ⟨piece', htwin⟩
  have hread : ∀ piece ∈ sql, ∀ text, piece = .quoted text → Readable text :=
    fun piece hpiece text heq => readable text (heq ▸ hpiece)
  have hlex := lex_render hspaced fun piece hpiece =>
    (hpieces piece hpiece).elim fun _ htwin =>
      htwin.sound fun text heq => sound_quoted (hread piece hpiece text heq)
  refine ⟨hlex, ?_⟩
  rw [hlex, strings_flatMap]
  exact List.flatMap_congr fun piece hpiece =>
    (hpieces piece hpiece).elim fun _ htwin => htwin.strings (hread piece hpiece)

/-- A string that is still open is closed before the next backslash. -/
def ClosesCalmly (inside : Inside) (rest : Text) : Prop :=
  ∀ content more, contentOf inside content rest = some (content ++ more) → '\\' ∉ more

theorem closesCalmly_closed {rest : Text} (h : rest.head? ≠ some '\'') :
    ClosesCalmly .closed rest := by
  intro content more hread
  cases rest with
  | nil =>
    obtain rfl : more = [] := by simpa [contentOf] using hread
    simp
  | cons c rest =>
    have hc : c ≠ '\'' := by simpa using h
    obtain rfl : more = [] := by simpa [contentOf, hc] using hread
    simp

theorem closesCalmly_cons {inside next : Inside} {c : Char} {rest : Text} (added : Text)
    (hstep : ∀ content, contentOf inside content (c :: rest) =
      contentOf next (content ++ added) rest)
    (hadded : '\\' ∉ added) (h : ClosesCalmly next rest) : ClosesCalmly inside (c :: rest) := by
  intro content more hread
  rw [hstep] at hread
  obtain ⟨tail, htail⟩ := contentOf_append next hread
  obtain rfl : more = added ++ tail := by simpa using htail
  rw [← List.append_assoc] at hread
  simpa [hadded] using h _ tail hread

theorem closesCalmly_quote {rest : Text} (h : ClosesCalmly .closed rest) :
    ClosesCalmly .quoted ('\'' :: rest) :=
  closesCalmly_cons [] (fun content => by simp [contentOf]) (by simp) h

theorem closesCalmly_plain {c : Char} {rest : Text} (hquote : c ≠ '\'') (hbackslash : c ≠ '\\')
    (h : ClosesCalmly .quoted rest) : ClosesCalmly .quoted (c :: rest) :=
  closesCalmly_cons [c] (fun content => by simp [contentOf, hquote, hbackslash])
    (by simpa using hbackslash.symm) h

theorem closesCalmly_doubled {rest : Text} (h : ClosesCalmly .quoted rest) :
    ClosesCalmly .closed ('\'' :: rest) :=
  closesCalmly_cons ['\'', '\''] (fun content => by simp [contentOf]) (by simp) h

/-- A text without backslashes is read over. -/
theorem closesCalmly_append {text rest : Text} (hplain : '\\' ∉ text)
    (hquoted : ClosesCalmly .quoted rest)
    (hclosed : text.getLast? = some '\'' → ClosesCalmly .closed rest) :
    ClosesCalmly .quoted (text ++ rest) ∧ (text ≠ [] → ClosesCalmly .closed (text ++ rest)) := by
  induction text with
  | nil => exact ⟨hquoted, fun h => absurd rfl h⟩
  | cons c text ih =>
    have hc : c ≠ '\\' := fun heq => hplain (heq ▸ List.mem_cons_self)
    have htext : '\\' ∉ text := fun hmem => hplain (List.mem_cons_of_mem _ hmem)
    have hlast : text ≠ [] → text.getLast? = some '\'' → ClosesCalmly .closed rest := by
      intro hne hlast
      apply hclosed
      rw [List.getLast?_cons, hlast]
      rfl
    by_cases hquote : c = '\''
    · subst hquote
      cases text with
      | nil => exact ⟨closesCalmly_quote (hclosed rfl), fun _ => closesCalmly_doubled hquoted⟩
      | cons d text =>
        obtain ⟨hin, hafter⟩ := ih htext (hlast (by simp))
        exact ⟨closesCalmly_quote (hafter (by simp)), fun _ => closesCalmly_doubled hin⟩
    · have hin : ClosesCalmly .quoted (text ++ rest) := by
        cases text with
        | nil => exact hquoted
        | cons d text => exact (ih htext (hlast (by simp))).1
      exact ⟨closesCalmly_plain hquote hc hin, fun _ => closesCalmly_closed (by simpa using hquote)⟩

/-- The first quote of a calm text closes the string. -/
theorem closesCalmly_single {text : Text} {c : Char} {rest : Text} (hquote : '\'' ∉ text)
    (hbackslash : '\\' ∉ text) (hc : c ≠ '\'') :
    ClosesCalmly .quoted (text ++ '\'' :: c :: rest) := by
  induction text with
  | nil => exact closesCalmly_quote (closesCalmly_closed (by simpa using hc))
  | cons d text ih =>
    have hd : d ≠ '\'' ∧ d ≠ '\\' :=
      ⟨fun heq => hquote (heq ▸ List.mem_cons_self), fun heq => hbackslash (heq ▸ List.mem_cons_self)⟩
    exact closesCalmly_plain hd.1 hd.2 (ih (fun h => hquote (List.mem_cons_of_mem _ h))
      fun h => hbackslash (List.mem_cons_of_mem _ h))

/-- The quotes of another string close the string, or are read over with its own quotes. -/
theorem closesCalmly_quoted {text rest : Text} (h : ClosesCalmly .quoted rest) :
    ClosesCalmly .quoted (quoted text ++ rest) := by
  have hin : ClosesCalmly .closed (double '\'' text ++ '\'' :: rest) := by
    induction text with
    | nil => exact closesCalmly_doubled h
    | cons c text ih =>
      by_cases hquote : c = '\''
      · subst hquote
        rw [double_cons_self]
        exact closesCalmly_doubled (closesCalmly_quote ih)
      · rw [double_cons_of_ne hquote]
        exact closesCalmly_closed (by simpa using hquote)
  have hquote := closesCalmly_quote hin
  simpa [quoted] using hquote

theorem closesCalmly_calm {text rest : Text} (hcalm : calm text = true)
    (hquoted : ClosesCalmly .quoted rest)
    (hclosed : text.getLast? = some '\'' → ClosesCalmly .closed rest) :
    ClosesCalmly .quoted (text ++ rest) := by
  rw [calm, Bool.or_eq_true] at hcalm
  rcases hcalm with hplain | hfirst
  · exact (closesCalmly_append (by simpa using hplain) hquoted hclosed).1
  · rw [Bool.and_eq_true] at hfirst
    obtain ⟨hbefore, hafter⟩ := hfirst
    split at hafter
    · rename_i d c tail htail
      have hd : d = '\'' := by
        have hhead := List.head?_dropWhile_not (fun c => decide (c ≠ '\'')) text
        rw [htail] at hhead
        simpa using hhead
      subst hd
      have hsplit : text = text.takeWhile (· ≠ '\'') ++ '\'' :: c :: tail := by
        rw [← htail, List.takeWhile_append_dropWhile]
      have hquote : '\'' ∉ text.takeWhile (· ≠ '\'') := by
        intro hmem
        have hall := List.all_eq_true.mp (List.all_takeWhile (p := (· ≠ '\'')) (l := text)) _ hmem
        simp at hall
      rw [hsplit, List.append_assoc, List.cons_append, List.cons_append]
      exact closesCalmly_single hquote (by simpa using hbefore) (by simpa using hafter)
    · cases hafter

theorem Twin.calm {piece piece' : Piece} (h : Twin piece piece') :
    (∃ text, piece = .quoted text) ∨
      (calm piece.text = true ∧ (piece.junction = .free → piece.text.getLast? ≠ some '\'')) := by
  cases h with
  | same fixed _ => exact .inr ⟨fixed.calm, fixed.last⟩
  | word literal _ => exact .inr ⟨literal.calm, fun hfree => by cases hfree⟩
  | quoted text => exact .inl ⟨text, rfl⟩
  | interval nonempty _ plain _ =>
    refine .inr ⟨?_, fun hfree => by cases hfree⟩
    rename_i text _ _ _
    cases text with
    | nil => exact absurd rfl nonempty
    | cons c text =>
      have hc : c ≠ '\'' := fun heq => plain.1 (heq ▸ List.mem_cons_self)
      simp [Piece.text, LowCode.calm, hc]

/-- Behind a token there is a space, a comma, a closing parenthesis, or nothing. -/
theorem endsLiteral_render {sql : Sql} (h : spaced .token sql = true) : EndsLiteral (render sql) := by
  cases sql with
  | nil => exact .inl rfl
  | cons piece sql =>
    rw [spaced, Bool.and_eq_true] at h
    cases piece with
    | sql text =>
      cases text with
      | nil => simp [Piece.follows] at h
      | cons c text =>
        have hc : c = ' ' ∨ c = ')' ∨ c = ',' := by
          simpa [Piece.follows, or_assoc] using h.1
        exact .inr ⟨c, text ++ render sql, rfl, hc⟩
    | _ => simp [Piece.follows] at h

theorem head_render_of_follows {sql : Sql} {junction : Junction} (h : spaced junction sql = true)
    (hjunction : junction ≠ .free) : (render sql).head? ≠ some '\'' := by
  cases sql with
  | nil => simp [render]
  | cons piece sql =>
    rw [spaced, Bool.and_eq_true] at h
    obtain ⟨hfollows, -⟩ := h
    cases piece with
    | sql text =>
      cases text with
      | nil => cases junction <;> simp_all [Piece.follows]
      | cons c text =>
        have hc : c ≠ '\'' := by
          rintro rfl
          cases junction <;> simp_all [Piece.follows]
        simpa [render, Piece.text] using hc
    | _ => cases junction <;> simp_all [Piece.follows]

theorem closesCalmly_render {sql sql' : Sql} {junction : Junction} (h : List.Forall₂ Twin sql sql')
    (hspaced : spaced junction sql = true) : ClosesCalmly .quoted (render sql) := by
  induction h generalizing junction with
  | nil =>
    intro content more hread
    cases hread
  | cons hpiece _ ih =>
    rename_i piece piece' sql sql' _
    rw [spaced, Bool.and_eq_true] at hspaced
    have hrest := ih hspaced.2
    have hrender : render (piece :: sql) = piece.text ++ render sql := List.flatMap_cons
    rw [hrender]
    rcases hpiece.calm with ⟨text, rfl⟩ | ⟨hcalm, hlast⟩
    · exact closesCalmly_quoted hrest
    · refine closesCalmly_calm hcalm hrest fun hquote => closesCalmly_closed ?_
      exact head_render_of_follows hspaced.2 fun hfree => hlast hfree hquote

/-- SQL whose strings denote what they should has readable strings only. -/
theorem readable_of_strings {sql sql' : Sql} {junction : Junction}
    (h : List.Forall₂ Twin sql sql') (hspaced : spaced junction sql = true)
    (hstrings : Lib.Sql.strings (lex (render sql)) = sql.flatMap Piece.strings) :
    StringsAre Readable sql := by
  induction h generalizing junction with
  | nil =>
    intro text hmem
    cases hmem
  | cons hpiece hrest ih =>
    rename_i piece piece' sql sql'
    have hnonempty : ∀ p ∈ sql, p.text ≠ [] := by
      intro p hp
      obtain ⟨p', -, htwin⟩ := Lib.exists_of_forall₂_left hrest hp
      cases htwin with
      | same fixed _ => exact fixed.sound.nonempty
      | word literal _ => exact literal.sound.nonempty
      | quoted => simp [Piece.text, quoted]
      | interval => simp [Piece.text]
    have hread : ∀ text, piece = .quoted text → Readable text := by
      rintro text rfl
      by_contra bad
      rw [spaced, Bool.and_eq_true] at hspaced
      have hscan : (Lib.Sql.strings (lex (render (.quoted text :: sql)))).head? =
          (contentOf .quoted [] (double '\'' text ++ '\'' :: render sql)).map denotes := by
        have hopen : step .start '\'' = (Inside.quoted.mode [], []) := by decide
        have htext : render (.quoted text :: sql) =
            '\'' :: (double '\'' text ++ '\'' :: render sql) := by
          simp [render, Piece.text, quoted]
        rw [htext, lex, scan_cons_of_step hopen, head_strings_scan]
      rw [hstrings, List.flatMap_cons] at hscan
      cases hcontent : contentOf .quoted [] (double '\'' text ++ '\'' :: render sql) with
      | none => simp [hcontent, Piece.strings] at hscan
      | some content =>
        have hne := not_denotes bad (endsLiteral_render hspaced.2)
          (closesCalmly_render hrest hspaced.2) hcontent
        have heq : text = denotes content := by simpa [hcontent, Piece.strings] using hscan
        exact hne heq.symm
    have hsound := hpiece.sound fun text heq => sound_quoted (hread text heq)
    have hlex := lex_render_append (a := [piece]) hspaced (by simpa using hsound) hnonempty
    rw [List.singleton_append] at hlex
    rw [hlex, strings_append, strings_flatMap, List.flatMap_cons, List.flatMap_cons,
      List.flatMap_nil, List.append_nil, hpiece.strings hread,
      List.append_cancel_left_eq] at hstrings
    rw [spaced, Bool.and_eq_true] at hspaced
    intro text hmem
    rcases List.mem_cons.mp hmem with heq | hmem
    · exact hread text heq.symm
    · exact ih hspaced.2 hstrings text hmem

/-- Two bodies that differ in their literals have the same structure exactly when all their strings
are readable. -/
theorem sameStructure_iff_readable {body body' : Body}
    (h : List.Forall₂ Twin body.sql body'.sql) (hspaced : spaced .free body.sql = true)
    (hspaced' : spaced .free body'.sql = true) :
    SameStructure body body' ↔ StringsAre Readable body.sql ∧ StringsAre Readable body'.sql := by
  have h' : List.Forall₂ Twin body'.sql body.sql := h.flip.imp fun _ _ htwin => htwin.symm
  constructor
  · intro same
    exact ⟨readable_of_strings h hspaced same.strings, readable_of_strings h' hspaced' same.strings'⟩
  · rintro ⟨readable, readable'⟩
    obtain ⟨hlex, hstrings⟩ := strings_render h hspaced readable
    obtain ⟨hlex', hstrings'⟩ := strings_render h' hspaced' readable'
    refine ⟨?_, hstrings, hstrings'⟩
    rw [hlex, hlex', skeleton_twins h readable readable']

end Dqx.LowCode
