import Dqx.Contracts.UnityType

/-! What the validator makes of the texts that spell a type: its canonical text, unless it is nested too
deep. -/

namespace Dqx.Contracts

open Lib Lib.Sql
open Actions (isSpace strip)

variable {letters : Letters}

/-! ### The shape of what is spelled -/

theorem Letters.Writes.keyword_plain {type : SimpleType} {text : Text}
    (h : letters.Writes type.keyword text) :
    text ≠ [] ∧ ∀ c ∈ text, isPlainChar c = true ∧ isSpace c = false :=
  ⟨h.ne_nil (Contracts.keyword_plain type).1, h.plain (Contracts.keyword_plain type).2⟩

theorem Letters.Writes.parameter_plain {word text : Text}
    (hword : word ∈ [arrayKeyword, mapKeyword, structKeyword]) (h : letters.Writes word text) :
    text ≠ [] ∧ ∀ c ∈ text, isPlainChar c = true ∧ isSpace c = false :=
  ⟨h.ne_nil (parameter_keyword_plain hword).1, h.plain (parameter_keyword_plain hword).2⟩

/-- A text of plain characters without white space. -/
theorem enclosed_of_plain {text : Text} (hne : text ≠ [])
    (h : ∀ c ∈ text, isPlainChar c = true ∧ isSpace c = false) : Enclosed text where
  trimmed := trimmed_of_forall hne fun c hc => (h c hc).2
  brackets := balanced_plain (fun _ => bracket_of_isPlainChar) fun c hc => (h c hc).1
  angles := balanced_plain (fun _ => angle_of_isPlainChar) fun c hc => (h c hc).1
  separators := Nesting.passes_of_forall fun c hc => isSeparator_of_isPlainChar (h c hc).1

theorem enclosed_decimal {word precision scale b₁ b₂ b₃ b₄ b₅ : Text}
    (hword : afterWord decimalKeyword word = some []) (hprecision : letters.Digits precision)
    (hscale : letters.Digits scale)
    (hblank : Blank b₁ ∧ Blank b₂ ∧ Blank b₃ ∧ Blank b₄ ∧ Blank b₅) :
    Enclosed
      (word ++ (b₁ ++ '(' :: (b₂ ++ precision ++ (b₃ ++ ',' :: (b₄ ++ scale ++ (b₅ ++ [')'])))))) := by
  obtain ⟨taken, htext, hlength, hplain⟩ := plain_of_afterWord (fun _ hl => hl) hword
  rw [List.append_nil] at htext
  subst htext
  have hne : word ≠ [] := by
    rintro rfl
    cases hlength
  have hleft : ∀ c ∈ b₂ ++ precision ++ b₃, isPlainChar c = true := by
    simp only [List.mem_append]
    rintro c ((hc | hc) | hc)
    · exact hblank.2.1.plain c hc
    · exact plain_of_digit (hprecision.digit c hc)
    · exact hblank.2.2.1.plain c hc
  have hright : ∀ c ∈ b₄ ++ scale ++ b₅, isPlainChar c = true := by
    simp only [List.mem_append]
    rintro c ((hc | hc) | hc)
    · exact hblank.2.2.2.1.plain c hc
    · exact plain_of_digit (hscale.digit c hc)
    · exact hblank.2.2.2.2.plain c hc
  have hzero {weight : Char → Int} (hweight : ∀ c, isPlainChar c = true → weight c = 0)
      (hcomma : weight ',' = 0) :
      ∀ c ∈ b₂ ++ precision ++ b₃ ++ ',' :: (b₄ ++ scale ++ b₅), weight c = 0 := by
    intro c hc
    rcases List.mem_append.mp hc with hc | hc
    · exact hweight c (hleft c hc)
    · rcases List.mem_cons.mp hc with rfl | hc
      · exact hcomma
      · exact hweight c (hright c hc)
  have hcontent := Nesting.balanced_of_forall (hzero (fun _ => bracket_of_isPlainChar) rfl)
  have hangle : Nesting.Balanced angle
      ('(' :: ((b₂ ++ precision ++ b₃ ++ ',' :: (b₄ ++ scale ++ b₅)) ++ [')'])) := by
    refine Nesting.balanced_of_forall fun c hc => ?_
    rcases List.mem_cons.mp hc with rfl | hc
    · rfl
    · rcases List.mem_append.mp hc with hc | hc
      · exact hzero (fun _ => angle_of_isPlainChar) rfl c hc
      · rw [List.mem_singleton.mp hc]
        rfl
  have henclosed := enclosed_of_brackets hne hplain hblank.1 (by decide) (by decide) hangle hcontent
  simpa using henclosed

theorem Spells.shaped {k : Part} {t : UnityType k} {text : Text} (h : Spells letters t text) :
    Shaped k text := by
  induction h with
  | simple h => exact (enclosed_of_plain h.keyword_plain.1 h.keyword_plain.2).shaped
  | decimal hword hprecision hscale _ hblank =>
    exact (enclosed_decimal hword hprecision hscale hblank).shaped
  | verbatim _ _ henclosed => exact henclosed.shaped
  | array hword hblank _ ih =>
    obtain ⟨hne, hplain⟩ := hword.parameter_plain List.mem_cons_self
    obtain ⟨hbrackets, hangles⟩ := ih.balanced_pad hblank.1 hblank.2
    exact (enclosed_withParameters hne hplain hangles hbrackets).shaped
  | map hword hblank _ _ ih ih' =>
    obtain ⟨hne, hplain⟩ := hword.parameter_plain (List.mem_cons_of_mem _ List.mem_cons_self)
    obtain ⟨hbrackets, hangles⟩ := ih.balanced_pad hblank.1 hblank.2.1
    obtain ⟨hbrackets', hangles'⟩ := ih'.balanced_pad hblank.2.2.1 hblank.2.2.2
    have hcomma {weight : Char → Int} (h : weight ',' = 0) : Nesting.Balanced weight [','] :=
      Nesting.balanced_of_forall fun c hc => by rw [List.mem_singleton.mp hc, h]
    exact (enclosed_withParameters hne hplain (hangles.append ((hcomma rfl).append hangles'))
      (hbrackets.append ((hcomma rfl).append hbrackets'))).shaped
  | struct hword hblank _ ih =>
    obtain ⟨hne, hplain⟩ := hword.parameter_plain
      (List.mem_cons_of_mem _ (List.mem_cons_of_mem _ List.mem_cons_self))
    obtain ⟨hbrackets, hangles⟩ := ih.balanced_pad hblank.1 hblank.2
    exact (enclosed_withParameters hne hplain hangles hbrackets).shaped
  | @field name type left right text hname hblank _ ih =>
    have hcolon {weight : Char → Int} (h : weight ':' = 0) : Nesting.Balanced weight [':'] :=
      Nesting.balanced_of_forall fun c hc => by rw [List.mem_singleton.mp hc, h]
    have hparts {weight : Char → Int} (hweight : ∀ c, isPlainChar c = true → weight c = 0)
        (hzero : weight ':' = 0) (htext : Nesting.Balanced weight text) :
        Nesting.Balanced weight (name ++ left ++ ':' :: (right ++ text)) :=
      ((balanced_plain hweight hname.plain).append (balanced_plain hweight hblank.1.plain)).append
        ((hcolon hzero).append ((balanced_plain hweight hblank.2.plain).append htext))
    refine ⟨?_, hparts (fun _ => bracket_of_isPlainChar) rfl ih.brackets,
      hparts (fun _ => angle_of_isPlainChar) rfl ih.angles, fun hk => by cases hk⟩
    have := hname.trimmed.append (left ++ ':' :: right) ih.trimmed
    simpa using this
  | @more name type rest left right left' right' text text' hname hblank _ _ ih ih' =>
    have hmark {weight : Char → Int} {c : Char} (h : weight c = 0) : Nesting.Balanced weight [c] :=
      Nesting.balanced_of_forall fun d hd => by rw [List.mem_singleton.mp hd, h]
    have hparts {weight : Char → Int} (hweight : ∀ c, isPlainChar c = true → weight c = 0)
        (hcolon : weight ':' = 0) (hcomma : weight ',' = 0) (htext : Nesting.Balanced weight text)
        (htext' : Nesting.Balanced weight text') : Nesting.Balanced weight
          (name ++ left ++ ':' :: (right ++ text) ++ left' ++ ',' :: (right' ++ text')) :=
      ((((balanced_plain hweight hname.plain).append (balanced_plain hweight hblank.1.plain)).append
        ((hmark hcolon).append ((balanced_plain hweight hblank.2.1.plain).append htext))).append
          (balanced_plain hweight hblank.2.2.1.plain)).append
        ((hmark hcomma).append ((balanced_plain hweight hblank.2.2.2.plain).append htext'))
    refine ⟨?_, hparts (fun _ => bracket_of_isPlainChar) rfl rfl ih.brackets ih'.brackets,
      hparts (fun _ => angle_of_isPlainChar) rfl rfl ih.angles ih'.angles, fun hk => by cases hk⟩
    have := hname.trimmed.append (left ++ ':' :: (right ++ text) ++ left' ++ ',' :: right') ih'.trimmed
    simpa using this

/-! ### What the steps of the validator read -/

section Steps

variable {word content text : Text} {left : Nat}

theorem strip_eq_trimmed (text : Text) : strip text = trimmed isSpace text := rfl

theorem Shaped.strip_pad {k : Part} (h : Shaped k text) {l r : Text} (hl : Blank l) (hr : Blank r) :
    strip (l ++ text ++ r) = text := h.trimmed.trimmed_pad hl hr

theorem Trimmed.isEmpty_eq_false (h : Trimmed isSpace text) : text.isEmpty = false :=
  List.isEmpty_eq_false_iff.mpr h.nonempty

/-- The content of the brackets after a word. -/
theorem extractContent_withParameters (hword : ∀ c ∈ word, isPlainChar c = true)
    (hcontent : Nesting.Balanced angle content) :
    extractContentInAngleBrackets (withParameters word content) = .ok (strip content) := by
  have hdrop : (withParameters word content).dropWhile (· ≠ '<') = '<' :: (content ++ ['>']) := by
    rw [withParameters, List.dropWhile_append_of_pos fun c hc => ?_]
    · rfl
    · rw [decide_eq_true_eq]
      rintro rfl
      exact absurd (hword _ hc) (by decide)
  have hbreak : Nesting.breakTop angle (· = '>') 0 (content ++ ['>']) = some (content, []) := by
    refine Nesting.breakTop_eq_some (hcontent.passes_closing fun c hc => ?_) hcontent.depth_eq
      (decide_eq_true rfl)
    rw [of_decide_eq_true hc]
    decide
  rw [extractContentInAngleBrackets, hdrop]
  dsimp only
  rw [hbreak]

/-- One level of the validator, on a text with white space around it. -/
theorem validate_succ {type : Text} (hstrip : strip type = text) (htrimmed : Trimmed isSpace text) :
    validateUnityPhysicalType letters (left + 1) type =
      if SimpleType.all.any (·.keyword = letters.toUpper text) then .ok (letters.toUpper text)
      else match decimalMatch letters text with
        | some (precision, scale) => validateDecimal (letters.number precision) (letters.number scale)
        | none =>
          if (arrayKeyword ++ ['<']).isPrefixOf (letters.toUpper text) then
            validateArrayType (validateUnityPhysicalType letters left) text type
          else if (mapKeyword ++ ['<']).isPrefixOf (letters.toUpper text) then
            validateMapType (validateUnityPhysicalType letters left) text type
          else if (structKeyword ++ ['<']).isPrefixOf (letters.toUpper text) then
            validateStructType (validateUnityPhysicalType letters left) text type
          else if unityComplexPrefixes.any (·.isPrefixOf (letters.toUpper text)) then
            .ok (letters.toUpper text)
          else .error (.notUnityType type) := by
  rw [validateUnityPhysicalType, hstrip, Trimmed.isEmpty_eq_false htrimmed]
  rfl

/-- A text whose upper case has a mark or white space is no simple type. -/
theorem not_simple {c : Char} (hc : c ∈ letters.toUpper text)
    (hmark : isPlainChar c = false ∨ isSpace c = true) :
    SimpleType.all.any (·.keyword = letters.toUpper text) = false := by
  rw [List.any_eq_false]
  intro type _ hkeyword
  rw [decide_eq_true_eq] at hkeyword
  obtain ⟨hplain, hspace⟩ := (keyword_plain type).2 c (hkeyword ▸ hc)
  rcases hmark with h | h
  · rw [hplain] at h
    cases h
  · rw [hspace] at h
    cases h

/-- Only what begins with a letter D can be a decimal. -/
theorem decimalMatch_eq_none {c : Char} {rest : Text} (hupper : letters.toUpper text = c :: rest)
    (hc : c ≠ 'D') : decimalMatch letters text = none := by
  have hword : afterWord decimalKeyword text = none := by
    cases text with
    | nil => rfl
    | cons d text =>
      rw [decimalKeyword, afterWord, if_neg]
      intro hsame
      have hletter : d = 'D' ∨ d = 'd' := by
        rw [sameLetter, Bool.or_eq_true, decide_eq_true_eq, decide_eq_false (by decide),
          Bool.false_and] at hsame
        rcases hsame with h | h
        · have hlower : d.toLower = 'd' := h
          unfold Char.toLower at hlower
          split at hlower
          · next hrange =>
            left
            have hval := congrArg Char.val hlower
            apply Char.ext
            simp only at hval
            have hcancel : d.val + ('a'.val - 'A'.val) = 'D'.val + ('a'.val - 'A'.val) := hval
            exact UInt32.add_left_inj _ |>.mp hcancel
          · exact .inr hlower
        · cases h
      rcases hletter with rfl | rfl
      · exact hc (List.cons.inj hupper).1.symm
      · exact hc (List.cons.inj hupper).1.symm
  rw [decimalMatch, hword]
  rfl

theorem toUpper_withParameters {keyword : Text} (hword : letters.Writes keyword word) :
    letters.toUpper (withParameters word content) =
      keyword ++ '<' :: letters.toUpper (content ++ ['>']) := by
  rw [withParameters, toUpper_append, toUpper_mark (by decide), hword]

theorem not_simple_withParameters {keyword : Text} (hword : letters.Writes keyword word) :
    SimpleType.all.any (·.keyword = letters.toUpper (withParameters word content)) = false := by
  refine not_simple (c := '<') ?_ (.inl (by decide))
  rw [toUpper_withParameters hword]
  exact List.mem_append_right _ List.mem_cons_self

theorem validate_array {type : Text} (hword : letters.Writes arrayKeyword word)
    (hstrip : strip type = withParameters word content)
    (henclosed : Enclosed (withParameters word content)) :
    validateUnityPhysicalType letters (left + 1) type =
      validateArrayType (validateUnityPhysicalType letters left) (withParameters word content)
        type := by
  have hupper := @toUpper_withParameters letters _ content _ hword
  rw [validate_succ hstrip henclosed.trimmed, not_simple_withParameters hword,
    decimalMatch_eq_none hupper (by decide), hupper]
  rfl

theorem validate_map {type : Text} (hword : letters.Writes mapKeyword word)
    (hstrip : strip type = withParameters word content)
    (henclosed : Enclosed (withParameters word content)) :
    validateUnityPhysicalType letters (left + 1) type =
      validateMapType (validateUnityPhysicalType letters left) (withParameters word content)
        type := by
  have hupper := @toUpper_withParameters letters _ content _ hword
  rw [validate_succ hstrip henclosed.trimmed, not_simple_withParameters hword,
    decimalMatch_eq_none hupper (by decide), hupper]
  rfl

theorem validate_struct {type : Text} (hword : letters.Writes structKeyword word)
    (hstrip : strip type = withParameters word content)
    (henclosed : Enclosed (withParameters word content)) :
    validateUnityPhysicalType letters (left + 1) type =
      validateStructType (validateUnityPhysicalType letters left) (withParameters word content)
        type := by
  have hupper := @toUpper_withParameters letters _ content _ hword
  rw [validate_succ hstrip henclosed.trimmed, not_simple_withParameters hword,
    decimalMatch_eq_none hupper (by decide), hupper]
  rfl

/-- White space before the first piece goes when the pieces are stripped. -/
theorem splitTopLevelComma_blank {blank : Text} (hblank : Blank blank) (text : Text) :
    splitTopLevelComma (blank ++ text) = splitTopLevelComma text := by
  have hpasses : Nesting.Passes bracket (· = ',') 0 blank := by
    refine Nesting.passes_of_forall fun c hc => decide_eq_false ?_
    rintro rfl
    exact absurd (hblank.plain _ hc) (by decide)
  have hdepth := (balanced_plain (fun _ => bracket_of_isPlainChar) hblank.plain).depth_eq
  rw [splitTopLevelComma, splitTopLevelComma, Nesting.splitTop_append hpasses, hdepth, add_zero]
  cases hpieces : Nesting.splitTop bracket (· = ',') 0 text with
  | nil => exact absurd hpieces (Nesting.splitTop_ne_nil _ _)
  | cons piece pieces =>
    rw [Nesting.prepend, List.map_cons, List.map_cons]
    exact congrArg (· :: _) (trimmed_append_left hblank)

theorem Shaped.passes_comma (h : Shaped .type text) :
    Nesting.Passes bracket (fun c => decide (c = ',')) 0 text :=
  (h.separators rfl).mono fun c hc => by rw [isSeparator, Bool.or_eq_true]; exact .inl hc

/-- A piece before a comma. -/
theorem splitTopLevelComma_cons {piece blank : Text}
    (hpiece : Nesting.Passes bracket (fun c => decide (c = ',')) 0 piece)
    (hbalanced : Nesting.Balanced bracket piece) (hblank : Blank blank) (rest : Text) :
    splitTopLevelComma (piece ++ blank ++ ',' :: rest) =
      strip (piece ++ blank) :: splitTopLevelComma rest := by
  have hblank' := balanced_plain (fun _ => bracket_of_isPlainChar) hblank.plain
  rw [splitTopLevelComma, Nesting.splitTop_eq_cons (Nesting.passes_append.mpr ⟨hpiece, ?_⟩)
    (hbalanced.append hblank').depth_eq (decide_eq_true rfl)]
  · rfl
  · refine Nesting.passes_of_forall fun c hc => decide_eq_false ?_
    rintro rfl
    exact absurd (hblank.plain _ hc) (by decide)

/-- A single piece. -/
theorem splitTopLevelComma_singleton
    (h : Nesting.Passes bracket (fun c => decide (c = ',')) 0 text) (htrimmed : Trimmed isSpace text) :
    splitTopLevelComma text = [text] := by
  rw [splitTopLevelComma, Nesting.splitTop_eq_singleton h, List.map_singleton, strip_eq_trimmed,
    htrimmed.trimmed_eq]

theorem passes_comma_field {name l r : Text} (hname : FieldName name) (hl : Blank l) (hr : Blank r)
    (htext : Shaped .type text) :
    Nesting.Passes bracket (fun c => decide (c = ',')) 0 (name ++ l ++ ':' :: (r ++ text)) := by
  have hplain {t : Text} (h : ∀ c ∈ t, isPlainChar c = true) (d : Int) :
      Nesting.Passes bracket (fun c => decide (c = ',')) d t := by
    refine Nesting.passes_of_forall fun c hc => decide_eq_false ?_
    rintro rfl
    exact absurd (h _ hc) (by decide)
  have hfirst : ∀ c ∈ name ++ l, isPlainChar c = true := fun c hc =>
    (List.mem_append.mp hc).elim (hname.plain c) (hl.plain c)
  refine Nesting.passes_append.mpr ⟨hplain hfirst 0, ?_⟩
  rw [(balanced_plain (fun _ => bracket_of_isPlainChar) hfirst).depth_eq, add_zero]
  refine ⟨fun hcolon => absurd hcolon (by decide), ?_⟩
  refine Nesting.passes_append.mpr ⟨hplain hr.plain _, ?_⟩
  rw [(balanced_plain (fun _ => bracket_of_isPlainChar) hr.plain).depth_eq]
  exact htext.passes_comma

/-- The name and the type of a field. -/
theorem parseStructField_eq {validate : Text → Except InvalidPhysicalType Text} {name l r type : Text}
    (hname : FieldName name) (hl : Blank l) (hr : Blank r) (htext : Shaped .type text) :
    parseStructFieldAndValidate validate type (name ++ l ++ ':' :: (r ++ text)) =
      (validate text).map (name ++ ':' :: ·) := by
  have hplain : ∀ c ∈ name ++ l, isPlainChar c = true := by
    intro c hc
    exact (List.mem_append.mp hc).elim (hname.plain c) (hl.plain c)
  have hbreak : Nesting.breakTop bracket (· = ':') 0 (name ++ l ++ ':' :: (r ++ text)) =
      some (name ++ l, r ++ text) := by
    refine Nesting.breakTop_eq_some (Nesting.passes_of_forall fun c hc => decide_eq_false ?_)
      (balanced_plain (fun _ => bracket_of_isPlainChar) hplain).depth_eq (decide_eq_true rfl)
    rintro rfl
    exact absurd (hplain _ hc) (by decide)
  have hnone : Blank [] := fun _ hc => absurd hc List.not_mem_nil
  have hnameStrip : strip (name ++ l) = name := hname.trimmed.trimmed_pad hnone hl
  have htypeStrip : strip (r ++ text) = text := by
    have := htext.strip_pad hr hnone
    rwa [List.append_nil] at this
  have hne : (name ++ l ++ ':' :: (r ++ text)).isEmpty = false := by
    rw [List.isEmpty_eq_false_iff]
    exact List.append_ne_nil_of_right_ne_nil _ (List.cons_ne_nil _ _)
  rw [parseStructFieldAndValidate, hne, if_neg Bool.false_ne_true, hbreak]
  dsimp only
  rw [hnameStrip, htypeStrip, Trimmed.isEmpty_eq_false hname.trimmed,
    Trimmed.isEmpty_eq_false htext.trimmed]
  cases validate text with
  | error e => rfl
  | ok validated => rfl

end Steps

/-! ### Decimals -/

section Decimals

variable {text rest : Text}

theorem afterWord_append {word text after : Text} (h : afterWord word text = some after)
    (rest : Text) : afterWord word (text ++ rest) = some (after ++ rest) := by
  induction word generalizing text with
  | nil => rw [afterWord, Option.some.inj h]
  | cons letter word ih =>
    cases text with
    | nil => cases h
    | cons c text =>
      rw [afterWord] at h
      split at h
      · next hsame =>
        rw [List.cons_append, afterWord, if_pos hsame]
        exact ih h
      · cases h

theorem not_isSpace_of_digit {c : Char} (h : (letters.digitValue c).isSome = true) :
    isSpace c = false := by
  rcases isPlainChar_of_digit h with hplain | hlarge
  · exact hplain.2
  · by_contra hspace
    rw [Letters.digitValue, if_neg (by omega),
      letters.digit_space c (Bool.not_eq_false _ |>.mp hspace)] at h
    cases h

theorem afterMark_eq {mark : Char} {blank : Text} (hblank : Blank blank)
    (hmark : isSpace mark = false) : afterMark mark (blank ++ mark :: rest) = some rest := by
  rw [afterMark, List.dropWhile_append_of_pos hblank,
    List.dropWhile_cons_of_neg (by rw [hmark]; exact Bool.false_ne_true)]
  exact if_pos rfl

/-- Digits between white space, and a mark behind them. -/
theorem digits_eq {digits blank blank' : Text} {mark : Char} (hdigits : letters.Digits digits)
    (hblank : Blank blank) (hblank' : Blank blank') (hmark : letters.digitValue mark = none) :
    ((blank ++ digits ++ (blank' ++ mark :: rest)).dropWhile isSpace).takeWhile
        (fun c => (letters.digitValue c).isSome) = digits ∧
      ((blank ++ digits ++ (blank' ++ mark :: rest)).dropWhile isSpace).dropWhile
        (fun c => (letters.digitValue c).isSome) = blank' ++ mark :: rest := by
  have hspace : (blank ++ digits ++ (blank' ++ mark :: rest)).dropWhile isSpace =
      digits ++ (blank' ++ mark :: rest) := by
    rw [List.append_assoc, List.dropWhile_append_of_pos hblank]
    cases hd : digits with
    | nil => exact absurd hd hdigits.nonempty
    | cons c tail =>
      have hc := not_isSpace_of_digit (hdigits.digit c (hd ▸ List.mem_cons_self))
      exact List.dropWhile_cons_of_neg (by rw [hc]; exact Bool.false_ne_true)
  have hhead : ∃ c tail, blank' ++ mark :: rest = c :: tail ∧ letters.digitValue c = none := by
    cases hb : blank' with
    | nil => exact ⟨mark, rest, rfl, hmark⟩
    | cons c tail =>
      refine ⟨c, tail ++ mark :: rest, rfl, Option.not_isSome_iff_eq_none.mp fun hsome => ?_⟩
      have := hblank' c (hb ▸ List.mem_cons_self)
      rw [not_isSpace_of_digit hsome] at this
      cases this
  obtain ⟨c, tail, hrest, hc⟩ := hhead
  have hnot : ¬((letters.digitValue c).isSome = true) := by
    rw [hc]
    exact Bool.false_ne_true
  rw [hspace, hrest, List.takeWhile_append_of_pos hdigits.digit,
    List.dropWhile_append_of_pos hdigits.digit, List.takeWhile_cons, List.dropWhile_cons, if_neg hnot,
    if_neg hnot, List.append_nil]
  exact ⟨rfl, rfl⟩

theorem decimalMatch_eq {word precision scale b₁ b₂ b₃ b₄ b₅ : Text}
    (hword : afterWord decimalKeyword word = some []) (hprecision : letters.Digits precision)
    (hscale : letters.Digits scale)
    (hblank : Blank b₁ ∧ Blank b₂ ∧ Blank b₃ ∧ Blank b₄ ∧ Blank b₅) :
    decimalMatch letters
      (word ++ (b₁ ++ '(' :: (b₂ ++ precision ++ (b₃ ++ ',' :: (b₄ ++ scale ++ (b₅ ++ [')'])))))) =
        some (precision, scale) := by
  obtain ⟨hb₁, hb₂, hb₃, hb₄, hb₅⟩ := hblank
  have hmark {c : Char} (h : c = ',' ∨ c = ')') : letters.digitValue c = none := by
    rcases h with rfl | rfl <;> rfl
  obtain ⟨htake, hdrop⟩ := @digits_eq letters (b₄ ++ scale ++ (b₅ ++ [')'])) _ _ _ _ hprecision hb₂ hb₃
    (hmark (.inl rfl))
  obtain ⟨htake', hdrop'⟩ := @digits_eq letters [] _ _ _ _ hscale hb₄ hb₅ (hmark (.inr rfl))
  have hafter := afterWord_append hword
    (b₁ ++ '(' :: (b₂ ++ precision ++ (b₃ ++ ',' :: (b₄ ++ scale ++ (b₅ ++ [')'])))))
  rw [List.nil_append] at hafter
  have hempty {digits : Text} (h : letters.Digits digits) : digits.isEmpty = false :=
    List.isEmpty_eq_false_iff.mpr h.nonempty
  rw [decimalMatch, hafter, Option.bind_some, afterMark_eq hb₁ (by decide)]
  dsimp only [Option.bind_eq_bind, Option.bind_some]
  rw [htake, hdrop, afterMark_eq hb₃ (by decide), Option.bind_some, htake', hdrop',
    afterMark_eq hb₅ (by decide), Option.bind_some, hempty hprecision, hempty hscale]
  rfl

end Decimals

end Dqx.Contracts
