import Dqx.Lib.SqlString

/-! A string literal that does not escape the backslashes of its text denotes it only if they need no
escaping. -/

namespace Dqx.Lib.Sql

/-- Where the reading of an open string is. -/
inductive Inside where
  | quoted
  | escaped
  | closed

def Inside.mode (content : Text) : Inside → Mode
  | .quoted => .quoted '\'' content
  | .escaped => .escaped '\'' content
  | .closed => .closed '\'' content

/-- The content of an open string, when it is closed. -/
def contentOf : Inside → Text → Text → Option Text
  | .closed, content, [] => some content
  | _, _, [] => none
  | .quoted, content, c :: text =>
    if c = '\\' then contentOf .escaped content text
    else if c = '\'' then contentOf .closed content text
    else contentOf .quoted (content ++ [c]) text
  | .escaped, content, c :: text => contentOf .quoted (content ++ ['\\', c]) text
  | .closed, content, c :: text =>
    if c = '\'' then contentOf .quoted (content ++ ['\'', '\'']) text else some content

theorem strings_append (a b : List Token) : strings (a ++ b) = strings a ++ strings b :=
  List.filterMap_append

/-- The first string of the tokens is the one that is open. -/
theorem head_strings_scan (inside : Inside) (content text : Text) :
    (strings ((scan (inside.mode content) text).2 ++
      flush (scan (inside.mode content) text).1)).head? =
        (contentOf inside content text).map denotes := by
  induction text generalizing inside content with
  | nil => cases inside <;> rfl
  | cons c text ih =>
    cases inside with
    | quoted =>
      by_cases hbackslash : c = '\\'
      · have hstep : step (Inside.quoted.mode content) c = (Inside.escaped.mode content, []) := by
          simp [step, Inside.mode, hbackslash]
        rw [scan_cons_of_step hstep, ih, contentOf, if_pos hbackslash]
      · by_cases hquote : c = '\''
        · have hstep : step (Inside.quoted.mode content) c = (Inside.closed.mode content, []) := by
            simp [step, Inside.mode, hquote]
          rw [scan_cons_of_step hstep, ih, contentOf, if_neg hbackslash, if_pos hquote]
        · have hstep : step (Inside.quoted.mode content) c =
              (Inside.quoted.mode (content ++ [c]), []) := by
            simp [step, Inside.mode, hquote, hbackslash]
          rw [scan_cons_of_step hstep, ih, contentOf, if_neg hbackslash, if_neg hquote]
    | escaped =>
      have hstep : step (Inside.escaped.mode content) c =
          (Inside.quoted.mode (content ++ ['\\', c]), []) := rfl
      rw [scan_cons_of_step hstep, ih, contentOf]
    | closed =>
      by_cases hquote : c = '\''
      · subst hquote
        have hstep : step (Inside.closed.mode content) '\'' =
            (Inside.quoted.mode (content ++ ['\'', '\'']), []) := rfl
        rw [scan_cons_of_step hstep, ih, contentOf, if_pos rfl]
      · have hstep : step (Inside.closed.mode content) c =
            flushWith (Inside.closed.mode content) c := by
          simp [step, Inside.mode, hquote]
        rw [scan_of_flushWith hstep, List.append_assoc, strings_append, contentOf, if_neg hquote]
        rfl

/-- An escape denotes one character, unless it is one that keeps its backslash. -/
theorem escape_cases (c : Char) (rest : Text) :
    ((escape (c :: rest)).1.length = 1 ∧ 1 ≤ (escape (c :: rest)).2) ∨
      (escape (c :: rest) = (['\\', c], 1) ∧ (c = '%' ∨ c = '_')) := by
  rw [escape]
  split
  · exact .inl ⟨rfl, by omega⟩
  · split
    · exact .inl ⟨rfl, by omega⟩
    · split
      · exact .inl ⟨rfl, by omega⟩
      · split
        · rename_i hwild
          exact .inr ⟨rfl, hwild⟩
        · exact .inl ⟨rfl, by omega⟩

theorem unescapeFrom_length (skip : Nat) (text : Text) :
    (unescapeFrom '\'' skip text).length ≤ text.length - skip := by
  induction text generalizing skip with
  | nil => cases skip <;> simp [unescapeFrom]
  | cons c text ih =>
    cases skip with
    | succ skip =>
      have hrest := ih skip
      simp only [unescapeFrom, List.length_cons]
      omega
    | zero =>
      simp only [unescapeFrom]
      split
      · have hrest := ih (escape text).2
        cases text with
        | nil => simp [escape, unescapeFrom]
        | cons d text =>
          rcases escape_cases d text with ⟨hone, hskip⟩ | ⟨htwo, -⟩
          · simp only [List.length_append, List.length_cons] at hrest ⊢
            omega
          · rw [htwo] at hrest ⊢
            simp only [List.length_append, List.length_cons, List.length_nil] at hrest ⊢
            omega
      · split
        · have hrest := ih 1
          simp only [List.length_cons]
          omega
        · have hrest := ih 0
          simp only [List.length_cons]
          omega

theorem unescapeFrom_pair (text : Text) :
    unescapeFrom '\'' 0 ('\'' :: '\'' :: text) = '\'' :: unescapeFrom '\'' 0 text := by
  simp [unescapeFrom]

/-- What follows a backslash adds one character to what the rest can denote at most. -/
theorem escape_append_length {text : Text} {bound : Nat}
    (h : ∀ skip, (unescapeFrom '\'' skip text).length ≤ bound) :
    ((escape text).1 ++ unescapeFrom '\'' (escape text).2 text).length ≤ bound + 1 := by
  cases text with
  | nil => simp [escape, unescapeFrom]
  | cons d text =>
    rcases escape_cases d text with ⟨hone, -⟩ | ⟨hwildcard, hd⟩
    · have hrest := h (escape (d :: text)).2
      simp only [List.length_append]
      omega
    · obtain ⟨hquote, hplain⟩ := ne_of_wildcard hd
      have hrest := h 0
      rw [hwildcard]
      simp only [unescapeFrom, hquote, hplain, if_false, false_and, List.length_append,
        List.length_cons, List.length_nil] at hrest ⊢
      omega

/-- Doubled quotes denote no more characters than there were, in whatever way they are paired. -/
theorem unescapeFrom_double_length (text rest : Text) (skip : Nat) :
    (unescapeFrom '\'' skip (double '\'' text ++ rest)).length ≤ text.length + rest.length ∧
      (unescapeFrom '\'' skip ('\'' :: (double '\'' text ++ rest))).length ≤
        text.length + 1 + rest.length := by
  induction text generalizing skip with
  | nil =>
    have hrest := unescapeFrom_length skip rest
    have hquote := unescapeFrom_length skip ('\'' :: rest)
    simp only [double_nil, List.nil_append, List.length_nil, List.length_cons] at hquote ⊢
    omega
  | cons c text ih =>
    have hplain : ∀ skip, (unescapeFrom '\'' skip (double '\'' (c :: text) ++ rest)).length ≤
        (c :: text).length + rest.length := by
      intro skip
      by_cases hquote : c = '\''
      · subst hquote
        rw [double_cons_self, List.cons_append, List.cons_append]
        cases skip with
        | zero =>
          have h := (ih 0).1
          rw [unescapeFrom_pair]
          simp only [List.length_cons]
          omega
        | succ skip =>
          have h := (ih skip).2
          simp only [unescapeFrom, List.length_cons]
          omega
      · rw [double_cons_of_ne hquote, List.cons_append]
        cases skip with
        | succ skip =>
          have h := (ih skip).1
          simp only [unescapeFrom, List.length_cons]
          omega
        | zero =>
          by_cases hbackslash : c = '\\'
          · have h := escape_append_length (fun skip => (ih skip).1)
            simp only [unescapeFrom, hbackslash, if_true, List.length_append, List.length_cons] at h ⊢
            omega
          · have h := (ih 0).1
            simp only [unescapeFrom, hbackslash, hquote, if_false, false_and, List.length_cons]
            omega
    refine ⟨hplain skip, ?_⟩
    cases skip with
    | succ skip =>
      have h := hplain skip
      simp only [unescapeFrom]
      omega
    | zero =>
      by_cases hquote : c = '\''
      · subst hquote
        have h := (ih 0).2
        rw [double_cons_self, List.cons_append, List.cons_append, unescapeFrom_pair]
        simp only [List.length_cons]
        omega
      · have h := hplain 0
        have hhead : (double '\'' (c :: text) ++ rest).head? ≠ some '\'' := by
          rw [double_cons_of_ne hquote]
          simpa using hquote
        simp only [unescapeFrom, hhead, and_false, if_false, List.length_cons] at h ⊢
        simp
        omega

theorem contentOf_append (inside : Inside) {content text read : Text}
    (h : contentOf inside content text = some read) : ∃ rest, read = content ++ rest := by
  induction text generalizing inside content with
  | nil =>
    cases inside with
    | closed => exact ⟨[], by simpa [contentOf, eq_comm] using h⟩
    | quoted => cases h
    | escaped => cases h
  | cons c text ih =>
    have hcons : ∀ {more : Text} {inside : Inside},
        contentOf inside (content ++ more) text = some read → ∃ rest, read = content ++ rest := by
      intro more inside h
      obtain ⟨rest, hread⟩ := ih inside h
      exact ⟨more ++ rest, by rw [hread, List.append_assoc]⟩
    cases inside with
    | quoted =>
      rw [contentOf] at h
      split at h
      · exact ih _ h
      · split at h
        · exact ih _ h
        · exact hcons h
    | escaped => exact hcons h
    | closed =>
      rw [contentOf] at h
      split at h
      · exact hcons h
      · exact ⟨[], by simpa [eq_comm] using h⟩

/-- A closed string is followed by a quote, and by no other one. -/
theorem contentOf_text {content text read : Text} (inside : Inside)
    (h : contentOf inside content text = some read) :
    match inside with
    | .quoted => ∃ rest, content ++ text = read ++ '\'' :: rest ∧ rest.head? ≠ some '\''
    | .escaped => ∃ rest, content ++ '\\' :: text = read ++ '\'' :: rest ∧
        rest.head? ≠ some '\''
    | .closed => ∃ rest, content ++ '\'' :: text = read ++ '\'' :: rest ∧
        rest.head? ≠ some '\'' := by
  induction text generalizing inside content with
  | nil =>
    cases inside with
    | closed =>
      obtain rfl : content = read := by simpa [contentOf] using h
      exact ⟨[], rfl, by simp⟩
    | quoted => cases h
    | escaped => cases h
  | cons c text ih =>
    cases inside with
    | quoted =>
      rw [contentOf] at h
      split at h
      · rename_i hbackslash
        subst hbackslash
        exact ih .escaped h
      · split at h
        · rename_i hquote
          subst hquote
          exact ih .closed h
        · simpa using ih .quoted h
    | escaped => simpa using ih .quoted h
    | closed =>
      rw [contentOf] at h
      split at h
      · rename_i hquote
        subst hquote
        simpa using ih .quoted h
      · rename_i hquote
        obtain rfl : content = read := by simpa using h
        exact ⟨c :: text, rfl, by simpa using hquote⟩

/-- A readable text is read over. -/
theorem contentOf_double {text : Text} (readable : Readable text) (content rest : Text) :
    contentOf .quoted content (double '\'' text ++ rest) =
      contentOf .quoted (content ++ double '\'' text) rest := by
  induction text generalizing content with
  | nil => simp
  | cons c text ih =>
    obtain ⟨hbackslash, htext⟩ := readable
    by_cases hc : c = '\\'
    · subst hc
      cases text with
      | nil => simp at hbackslash
      | cons d text =>
        have hd : d = '%' ∨ d = '_' := by simpa using hbackslash
        obtain ⟨hquote, hplain⟩ := ne_of_wildcard hd
        have hrest := ih htext (content ++ ['\\'])
        rw [double_cons_of_ne hquote] at hrest
        rw [double_cons_of_ne (by decide), double_cons_of_ne hquote]
        simpa [contentOf, hquote, hplain] using hrest
    · by_cases hquote : c = '\''
      · subst hquote
        simpa [contentOf] using ih htext (content ++ ['\'', '\''])
      · rw [double_cons_of_ne hquote]
        simpa [contentOf, hc, hquote] using ih htext (content ++ [c])

/-- The first backslash that does not denote itself. -/
theorem exists_of_not_readable {text : Text} (h : ¬ Readable text) :
    ∃ before rest, text = before ++ '\\' :: rest ∧ Readable before ∧
      ¬ (rest.head? = some '%' ∨ rest.head? = some '_') := by
  induction text with
  | nil => exact absurd trivial h
  | cons c text ih =>
    by_cases hc : c = '\\' → text.head? = some '%' ∨ text.head? = some '_'
    · obtain ⟨before, rest, rfl, hbefore, hrest⟩ := ih fun htext => h ⟨hc, htext⟩
      refine ⟨c :: before, rest, rfl, ⟨fun hbackslash => ?_, hbefore⟩, hrest⟩
      have hwild := hc hbackslash
      cases before with
      | nil => simp at hwild
      | cons d before => simpa using hwild
    · have hbackslash : c = '\\' ∧ ¬ (text.head? = some '%' ∨ text.head? = some '_') := by
        simpa using hc
      exact ⟨[], text, by rw [hbackslash.1]; rfl, trivial, hbackslash.2⟩

/-- A string that is closed within its text has lost the second of two quotes. -/
theorem closed_early {text content after rest : Text}
    (h : content ++ '\'' :: after = double '\'' text ++ '\'' :: rest)
    (hafter : after.head? ≠ some '\'') (hshort : content.length < (double '\'' text).length) :
    ∃ u v, text = u ++ '\'' :: v ∧ v ≠ [] ∧ content = double '\'' u ++ ['\''] := by
  induction text generalizing content with
  | nil => simp at hshort
  | cons c text ih =>
    by_cases hquote : c = '\''
    · subst hquote
      rw [double_cons_self] at h hshort
      match content, h, hshort with
      | [], h, _ =>
        obtain ⟨-, rfl⟩ : True ∧ after = '\'' :: double '\'' text ++ '\'' :: rest := by simpa using h
        simp at hafter
      | [d], h, _ =>
        obtain ⟨rfl, rfl⟩ : d = '\'' ∧ after = double '\'' text ++ '\'' :: rest := by simpa using h
        refine ⟨[], text, rfl, ?_, rfl⟩
        rintro rfl
        simp at hafter
      | d :: e :: content, h, hshort =>
        simp only [List.cons_append, List.cons.injEq] at h
        obtain ⟨rfl, rfl, h⟩ := h
        obtain ⟨u, v, rfl, hv, rfl⟩ := ih h (by simpa using hshort)
        exact ⟨'\'' :: u, v, rfl, hv, by simp⟩
    · rw [double_cons_of_ne hquote] at h hshort
      cases content with
      | nil =>
        simp only [List.nil_append, List.cons_append, List.cons.injEq] at h
        exact absurd h.1.symm hquote
      | cons d content =>
        simp only [List.cons_append, List.cons.injEq] at h
        obtain ⟨rfl, h⟩ := h
        obtain ⟨u, v, rfl, hv, rfl⟩ := ih h (by simpa using hshort)
        exact ⟨d :: u, v, rfl, hv, by rw [double_cons_of_ne hquote]; rfl⟩

/-- A string that is closed where its text ends does not denote it. -/
theorem closed_at_end {text rest : Text} (bad : ¬ Readable text)
    (h : contentOf .quoted [] (double '\'' text ++ '\'' :: rest) = some (double '\'' text)) :
    denotes (double '\'' text) ≠ text := by
  intro hdenotes
  obtain ⟨before, tail, rfl, hbefore, htail⟩ := exists_of_not_readable bad
  rw [double_append, double_cons_of_ne (by decide)] at h hdenotes
  rw [List.append_assoc, contentOf_double hbefore, List.nil_append] at h
  rw [denotes, unescapeFrom_double hbefore, List.append_cancel_left_eq] at hdenotes
  cases tail with
  | nil =>
    obtain ⟨more, hmore⟩ := contentOf_append .quoted (show contentOf .quoted
      (double '\'' before ++ ['\\', '\'']) rest = _ from h)
    have hlength := congrArg List.length hmore
    simp at hlength
  | cons d tail =>
    have hwild : ¬ (d = '%' ∨ d = '_') := by simpa using htail
    by_cases hquote : d = '\''
    · subst hquote
      rw [double_cons_self] at hdenotes
      simp [unescapeFrom, escape, simpleEscape] at hdenotes
    · rw [double_cons_of_ne hquote] at hdenotes
      rcases escape_cases d (double '\'' tail) with ⟨hone, hskip⟩ | ⟨-, hwild'⟩
      · have hlength := congrArg List.length hdenotes
        have hbound := (unescapeFrom_double_length tail []
          ((escape (d :: double '\'' tail)).2 - 1)).1
        obtain ⟨n, hn⟩ := Nat.exists_eq_add_of_le hskip
        simp only [unescapeFrom, if_true, List.length_append, List.length_cons, hone] at hlength
        rw [hn, Nat.add_comm 1 n] at hlength hbound
        simp only [unescapeFrom, Nat.add_sub_cancel, List.append_nil, List.length_nil] at hlength hbound
        omega
      · exact hwild hwild'

/-- The last character that is no quote is a backslash. -/
def Trailing (text : Text) : Prop :=
  ∃ before quotes, text = before ++ '\\' :: List.replicate quotes '\''

theorem Trailing.quote {text : Text} (h : Trailing text) : Trailing (text ++ ['\'']) := by
  obtain ⟨before, quotes, rfl⟩ := h
  refine ⟨before, quotes + 1, ?_⟩
  rw [List.append_assoc, List.cons_append, ← List.replicate_succ']

theorem not_trailing {before rest : Text} {c : Char} (hmem : c ∈ rest) (hc : c ≠ '\'')
    (hrest : '\\' ∉ rest) : ¬ Trailing (before ++ rest) := by
  rintro ⟨head, quotes, h⟩
  rcases List.append_eq_append_iff.mp h with ⟨middle, rfl, hmiddle⟩ | ⟨middle, rfl, hmiddle⟩
  · apply hrest
    rw [hmiddle]
    simp
  · cases middle with
    | nil =>
      apply hrest
      rw [List.nil_append] at hmiddle
      rw [← hmiddle]
      exact List.mem_cons_self
    | cons d middle =>
      rw [List.cons_append, List.cons.injEq] at hmiddle
      have hquotes : c ∈ List.replicate quotes '\'' := by
        rw [hmiddle.2]
        exact List.mem_append_right _ hmem
      exact hc (List.eq_of_mem_replicate hquotes)

/-- The characters that have been read and are not part of the content yet. -/
def Inside.pending : Inside → Text
  | .quoted => []
  | .escaped => ['\\']
  | .closed => ['\'']

/-- A string that goes on behind its text has read the closing quote as part of an escape, or as the
second of two quotes. -/
theorem closed_late {text : Text} (inside : Inside) {content before rest read : Text}
    (htrailing : inside.pending ≠ [] → Trailing before) (hrest : rest.head? ≠ some '\'')
    (h : contentOf inside content (double '\'' text ++ '\'' :: rest) = some read) :
    (Trailing (before ++ text) ∧
      contentOf .quoted (content ++ inside.pending ++ double '\'' text ++ ['\'']) rest = some read) ∨
    read.length ≤ content.length + inside.pending.length + (double '\'' text).length := by
  induction text generalizing inside content before with
  | nil =>
    cases inside with
    | quoted =>
      refine .inr ?_
      have hread : content = read := by
        cases rest with
        | nil => simpa [contentOf] using h
        | cons c rest =>
          have hc : c ≠ '\'' := by simpa using hrest
          simpa [contentOf, hc] using h
      simp [hread]
    | escaped =>
      refine .inl ⟨by simpa using htrailing (by simp [Inside.pending]), ?_⟩
      simpa [contentOf, Inside.pending] using h
    | closed =>
      refine .inl ⟨by simpa using htrailing (by simp [Inside.pending]), ?_⟩
      simpa [contentOf, Inside.pending] using h
  | cons c text ih =>
    have hsplit : double '\'' (c :: text) = double '\'' [c] ++ double '\'' text :=
      double_append '\'' [c] text
    have hnext : ∀ (next : Inside) {content' : Text},
        (next.pending ≠ [] → Trailing (before ++ [c])) →
        contentOf next content' (double '\'' text ++ '\'' :: rest) = some read →
        content' ++ next.pending = content ++ inside.pending ++ double '\'' [c] →
        (Trailing (before ++ c :: text) ∧ contentOf .quoted
          (content ++ inside.pending ++ double '\'' (c :: text) ++ ['\'']) rest = some read) ∨
        read.length ≤
          content.length + inside.pending.length + (double '\'' (c :: text)).length := by
      intro next content' hbefore hstep hcontent
      rw [hsplit]
      rcases ih next hbefore hstep with ⟨htail, hread⟩ | hlength
      · refine .inl ⟨by simpa using htail, ?_⟩
        rw [hcontent] at hread
        simpa using hread
      · have hcontents := congrArg List.length hcontent
        simp only [List.length_append] at hcontents ⊢
        omega
    have hnone : Inside.quoted.pending ≠ [] → Trailing (before ++ [c]) := fun h => absurd rfl h
    by_cases hquote : c = '\''
    · subst hquote
      rw [double_cons_self] at h
      cases inside with
      | quoted => exact hnext .quoted hnone (by simpa [contentOf] using h) (by simp [Inside.pending])
      | escaped =>
        have hbefore := (htrailing (by simp [Inside.pending])).quote
        exact hnext .closed (fun _ => hbefore) (by simpa [contentOf] using h)
          (by simp [Inside.pending])
      | closed =>
        have hbefore := (htrailing (by simp [Inside.pending])).quote
        exact hnext .closed (fun _ => hbefore) (by simpa [contentOf] using h)
          (by simp [Inside.pending])
    · rw [double_cons_of_ne hquote] at h
      have hself : double '\'' [c] = [c] := double_cons_of_ne hquote []
      cases inside with
      | quoted =>
        by_cases hbackslash : c = '\\'
        · subst hbackslash
          exact hnext .escaped (fun _ => ⟨before, 0, rfl⟩) (by simpa [contentOf] using h)
            (by simp [Inside.pending, hself])
        · exact hnext .quoted hnone (by simpa [contentOf, hbackslash, hquote] using h)
            (by simp [Inside.pending, hself])
      | escaped =>
        exact hnext .quoted hnone (by simpa [contentOf] using h) (by simp [Inside.pending, hself])
      | closed =>
        refine .inr ?_
        have hread : content = read := by simpa [contentOf, hquote] using h
        rw [hread]
        omega

/-- The escapes before a character that is no digit of them take nothing behind it. -/
theorem escape_bound {before rest : Text} {c : Char} (hbefore : before ≠ [])
    (hhex : isHexDigit c = false) (hoctal : isOctalDigit c = false) :
    (escape (before ++ c :: rest)).2 ≤ before.length := by
  cases before with
  | nil => exact absurd rfl hbefore
  | cons d before =>
    have htake : ∀ {p : Char → Bool} {n : Nat}, p c = false →
        ((before ++ c :: rest).take n).all p = true → n ≤ before.length := by
      intro p n hp hall
      by_contra hn
      have hmem : c ∈ (before ++ c :: rest).take n := by
        rw [List.take_append, List.mem_append]
        refine .inr ?_
        obtain ⟨k, hk⟩ := Nat.exists_eq_add_of_lt (Nat.lt_of_not_le hn)
        rw [show n - before.length = k + 1 by omega]
        exact List.mem_cons_self
      rw [List.all_eq_true] at hall
      rw [hall c hmem] at hp
      cases hp
    rw [List.cons_append, escape]
    split
    · rename_i h
      have := htake hhex h.2.2
      simp only [List.length_cons]
      omega
    · split
      · rename_i h
        have := htake hhex h.2.2
        simp only [List.length_cons]
        omega
      · split
        · rename_i h
          have := htake hoctal h.2.2
          simp only [List.length_cons]
          omega
        · split <;> simp

/-- Behind a quote, the rest of a content denotes the end of what the content denotes. -/
theorem exists_unescapeFrom_append {before rest : Text} {c : Char} (hquote : c ≠ '\'')
    (hhex : isHexDigit c = false) (hoctal : isOctalDigit c = false) {skip : Nat}
    (hskip : skip ≤ before.length + 1) :
    ∃ start, unescapeFrom '\'' skip (before ++ '\'' :: c :: rest) =
      start ++ unescapeFrom '\'' 0 (c :: rest) := by
  induction before generalizing skip with
  | nil =>
    cases skip with
    | zero => exact ⟨['\''], by simp [unescapeFrom, hquote]⟩
    | succ skip =>
      obtain rfl : skip = 0 := by simpa using hskip
      exact ⟨[], rfl⟩
  | cons d before ih =>
    cases skip with
    | succ skip =>
      exact ih (by simpa using hskip)
    | zero =>
      have hgo : ∀ (start : Text) {skip : Nat}, skip ≤ before.length + 1 →
          ∃ start', start ++ unescapeFrom '\'' skip (before ++ '\'' :: c :: rest) =
            start' ++ unescapeFrom '\'' 0 (c :: rest) := by
        intro start skip hskip
        obtain ⟨more, hmore⟩ := ih hskip
        exact ⟨start ++ more, by rw [hmore, List.append_assoc]⟩
      rw [List.cons_append]
      simp only [unescapeFrom]
      split
      · apply hgo
        have hbound := @escape_bound (before ++ ['\'']) rest c (by simp) hhex hoctal
        simpa using hbound
      · split
        · exact hgo [d] (by omega)
        · exact hgo [d] (by omega)

theorem unescapeFrom_subset {text : Text} (h : '\\' ∉ text) (skip : Nat) :
    unescapeFrom '\'' skip text ⊆ text := by
  induction text generalizing skip with
  | nil => cases skip <;> simp [unescapeFrom]
  | cons c text ih =>
    have hc : c ≠ '\\' := fun heq => h (heq ▸ List.mem_cons_self)
    have htext := ih fun hmem => h (List.mem_cons_of_mem _ hmem)
    cases skip with
    | succ skip => exact List.subset_cons_of_subset c (htext skip)
    | zero =>
      simp only [unescapeFrom, hc, if_false]
      split
      · exact List.cons_subset_cons c (htext 1)
      · exact List.cons_subset_cons c (htext 0)

/-- What stands behind a string literal: nothing, or a character that ends it. -/
def EndsLiteral (rest : Text) : Prop :=
  rest = [] ∨ ∃ c tail, rest = c :: tail ∧ (c = ' ' ∨ c = ')' ∨ c = ',')

/-- A string whose backslashes need escaping denotes another text, if the quotes behind it are read
before any other backslash. -/
theorem not_denotes {text rest content : Text} (bad : ¬ Readable text) (ends : EndsLiteral rest)
    (calm : ∀ before more, contentOf .quoted before rest = some (before ++ more) → '\\' ∉ more)
    (h : contentOf .quoted [] (double '\'' text ++ '\'' :: rest) = some content) :
    denotes content ≠ text := by
  have hhead : rest.head? ≠ some '\'' := by
    rcases ends with rfl | ⟨c, tail, rfl, rfl | rfl | rfl⟩ <;> simp
  obtain ⟨after, hafter, hnext⟩ := contentOf_text .quoted h
  rw [List.nil_append] at hafter
  rcases Nat.lt_trichotomy content.length (double '\'' text).length with hlt | heq | hgt
  · obtain ⟨u, v, rfl, hv, rfl⟩ := closed_early hafter.symm hnext hlt
    intro hdenotes
    have hbound := (unescapeFrom_double_length u ['\''] 0).1
    have hlength := congrArg List.length hdenotes
    have hpos : 0 < v.length := List.length_pos_of_ne_nil hv
    rw [denotes] at hlength
    simp only [List.length_append, List.length_cons, List.length_nil] at hlength hbound
    omega
  · obtain ⟨rfl, -⟩ := List.append_inj hafter.symm heq
    exact closed_at_end bad h
  · have hnone : Inside.quoted.pending ≠ [] → Trailing [] := fun h => absurd rfl h
    rcases closed_late .quoted hnone hhead h with ⟨htrailing, hread⟩ | hlength
    · simp only [Inside.pending, List.append_nil, List.nil_append] at hread htrailing
      obtain ⟨more, rfl⟩ := contentOf_append .quoted hread
      have hcalm := calm _ _ hread
      obtain ⟨rest', hread', -⟩ := contentOf_text .quoted hread
      have hrest' : rest = more ++ '\'' :: rest' := by simpa using hread'
      cases more with
      | nil =>
        rw [hrest'] at hhead
        simp at hhead
      | cons c more =>
        have hc : c = ' ' ∨ c = ')' ∨ c = ',' := by
          rcases ends with rfl | ⟨d, tail, rfl, hd⟩
          · cases hrest'
          · simp only [List.cons_append, List.cons.injEq] at hrest'
            rwa [← hrest'.1]
        have hplain : c ≠ '\'' ∧ c ≠ '\\' ∧ isHexDigit c = false ∧ isOctalDigit c = false := by
          rcases hc with rfl | rfl | rfl <;> decide
        obtain ⟨hquote, hbackslash, hhex, hoctal⟩ := hplain
        obtain ⟨start, hstart⟩ := @exists_unescapeFrom_append (double '\'' text) more c hquote
          hhex hoctal 0 (by omega)
        intro hdenotes
        have hsame : denotes (double '\'' text ++ ['\''] ++ c :: more) =
            start ++ unescapeFrom '\'' 0 (c :: more) := by
          rw [denotes, List.append_assoc]
          exact hstart
        rw [hsame] at hdenotes
        have hmem : c ∈ unescapeFrom '\'' 0 (c :: more) := by
          simp [unescapeFrom, hbackslash, hquote]
        refine not_trailing hmem hquote (fun hmem => ?_) (hdenotes ▸ htrailing)
        exact hcalm (unescapeFrom_subset hcalm 0 hmem)
    · simp only [Inside.pending, List.length_nil] at hlength
      omega

/-- A literal on its own that denotes its text is one of a readable text. -/
theorem readable_of_strings {text : Text}
    (h : (strings (lex (quoted text))).head? = some text) : Readable text := by
  by_contra bad
  have hopen : step .start '\'' = (Inside.quoted.mode [], []) := by decide
  rw [lex, quoted, scan_cons_of_step hopen, head_strings_scan] at h
  obtain ⟨content, hcontent, hdenotes⟩ := Option.map_eq_some_iff.mp h
  refine not_denotes bad (.inl rfl) (fun before more hmore => ?_) hcontent hdenotes
  cases hmore

end Dqx.Lib.Sql
