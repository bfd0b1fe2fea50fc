import Dqx.Contracts.TypeReader
import Dqx.Lib.Traverse

/-! The validator of physical types and the grammar of types: it takes every spelling of a type to the
canonical text of that type, and everything that it returns is such a text. -/

namespace Dqx.Contracts

open Lib Lib.Sql
open Actions (isSpace strip)

variable {letters : Letters}

/-- What the validator makes of a text that spells a type, with any number of levels left and any white
space around it, and of one that spells fields. -/
def Validated (letters : Letters) : (k : Part) → UnityType k → Text → Prop
  | .type, t, text => ∀ left type, strip type = text → validateUnityPhysicalType letters left type =
      if t.height ≤ left then .ok t.render else .error .tooDeep
  | .fields, fs, text => ∀ left type,
      (fs.height ≤ left → ∃ parts, parts ≠ [] ∧ [','].intercalate parts = fs.render ∧
        (splitTopLevelComma text).mapM
          (parseStructFieldAndValidate (validateUnityPhysicalType letters left) type) = .ok parts) ∧
      (left < fs.height → (splitTopLevelComma text).mapM
        (parseStructFieldAndValidate (validateUnityPhysicalType letters left) type) = .error .tooDeep)

/-- A type that is no collection needs one level. -/
theorem validated_of_leaf {t : UnityType .type} {text : Text} (hheight : t.height = 1)
    (h : ∀ left type, strip type = text →
      validateUnityPhysicalType letters (left + 1) type = .ok t.render) :
    Validated letters .type t text := by
  intro left type hstrip
  rw [hheight]
  cases left with
  | zero => rfl
  | succ left => rw [if_pos (Nat.le_add_left 1 left), h left type hstrip]

/-- A collection needs one level more than what is in it. -/
theorem validated_of_collection {t : UnityType .type} {text : Text} {height : Nat}
    (hheight : t.height = height + 1)
    (h : ∀ left type, strip type = text → validateUnityPhysicalType letters (left + 1) type =
      if height ≤ left then .ok t.render else .error .tooDeep) :
    Validated letters .type t text := by
  intro left type hstrip
  rw [hheight]
  cases left with
  | zero => rfl
  | succ left => rw [h left type hstrip]; simp only [Nat.add_le_add_iff_right]

theorem intercalate_comma_cons (part : Text) {parts : List Text} (hne : parts ≠ []) :
    [','].intercalate (part :: parts) = part ++ ',' :: [','].intercalate parts := by
  cases parts with
  | nil => exact absurd rfl hne
  | cons next rest => simp [List.intercalate, List.intersperse]

theorem validateDecimal_eq (bounds : DecimalBounds) :
    validateDecimal bounds.precision bounds.scale =
      .ok (decimalText (Nat.toDigits 10 bounds.precision) (Nat.toDigits 10 bounds.scale)) := by
  rw [validateDecimal, if_neg, if_neg (Nat.not_lt.mpr bounds.scale_le)]
  rintro (h | h)
  · exact absurd bounds.one_le (Nat.not_le.mpr h)
  · exact absurd bounds.le_max (Nat.not_le.mpr h)

/-- Every spelling of a type is taken for that type, and every spelling of fields for these fields. -/
theorem Spells.validated {k : Part} {t : UnityType k} {text : Text} (h : Spells letters t text) :
    Validated letters k t text := by
  induction h with
  | @simple type text hword =>
    have htrimmed := trimmed_of_forall hword.keyword_plain.1 fun c hc => (hword.keyword_plain.2 c hc).2
    have hall : SimpleType.all.any (·.keyword = letters.toUpper text) = true := by
      rw [hword]
      exact List.any_eq_true.mpr ⟨type, by cases type <;> decide, decide_eq_true rfl⟩
    refine validated_of_leaf rfl fun left type hstripped => ?_
    rw [validate_succ hstripped htrimmed, hall, if_pos rfl, hword]
    rfl
  | @decimal bounds word precision scale b₁ b₂ b₃ b₄ b₅ hword hprecision hscale hbounds hblank =>
    have henclosed := enclosed_decimal hword hprecision hscale hblank
    have hsimple := @not_simple letters (word ++ (b₁ ++ '(' :: (b₂ ++ precision ++
      (b₃ ++ ',' :: (b₄ ++ scale ++ (b₅ ++ [')'])))))) '(' (mark_mem_toUpper (by simp) (by decide))
      (.inl (by decide))
    refine validated_of_leaf rfl fun left type hstripped => ?_
    rw [validate_succ hstripped henclosed.trimmed, hsimple, if_neg Bool.false_ne_true,
      decimalMatch_eq hword hprecision hscale hblank]
    dsimp only
    rw [hbounds.1, hbounds.2]
    exact validateDecimal_eq bounds
  | @verbatim text word hword hprefix henclosed =>
    obtain ⟨rest, hupper⟩ := List.isPrefixOf_iff_prefix.mp hprefix
    have hknown : ∀ w ∈ unityComplexPrefixes, ∃ c tail, w = c :: tail ∧ c ≠ 'D' ∧
        (∃ m ∈ w, isPlainChar m = false ∨ isSpace m = true) ∧
        ∀ rest, (arrayKeyword ++ ['<']).isPrefixOf (w ++ rest) = false ∧
          (mapKeyword ++ ['<']).isPrefixOf (w ++ rest) = false ∧
          (structKeyword ++ ['<']).isPrefixOf (w ++ rest) = false := by
      simp only [unityComplexPrefixes, List.mem_cons, List.not_mem_nil, or_false, forall_eq_or_imp,
        forall_eq]
      exact ⟨⟨'G', _, rfl, by decide, ⟨'(', by decide, .inl rfl⟩, fun _ => ⟨rfl, rfl, rfl⟩⟩,
        ⟨'G', _, rfl, by decide, ⟨'(', by decide, .inl rfl⟩, fun _ => ⟨rfl, rfl, rfl⟩⟩,
        ⟨'I', _, rfl, by decide, ⟨' ', by decide, .inr rfl⟩, fun _ => ⟨rfl, rfl, rfl⟩⟩⟩
    obtain ⟨c, tail, hcons, hc, ⟨m, hm, hmark⟩, hothers⟩ := hknown word hword
    have hsimple : SimpleType.all.any (·.keyword = letters.toUpper text) = false :=
      not_simple (hupper ▸ List.mem_append_left rest hm) hmark
    have hdecimal : decimalMatch letters text = none := by
      refine @decimalMatch_eq_none letters _ c (tail ++ rest) ?_ hc
      rw [← hupper, hcons]
      rfl
    have hprefixes : unityComplexPrefixes.any (·.isPrefixOf (letters.toUpper text)) = true :=
      List.any_eq_true.mpr ⟨word, hword, hprefix⟩
    refine validated_of_leaf rfl fun left type hstripped => ?_
    rw [validate_succ hstripped henclosed.trimmed, hsimple, if_neg Bool.false_ne_true, hdecimal]
    dsimp only
    rw [← hupper] at hprefixes ⊢
    rw [(hothers rest).1, (hothers rest).2.1, (hothers rest).2.2, if_neg Bool.false_ne_true,
      if_neg Bool.false_ne_true, if_neg Bool.false_ne_true, if_pos hprefixes]
    rfl
  | @array element word left text right hword hblank helement ih =>
    have hshape := Spells.shaped (.array hword hblank helement)
    obtain ⟨-, hplain⟩ := hword.parameter_plain List.mem_cons_self
    have hcontent := (helement.shaped.balanced_pad hblank.1 hblank.2).2
    refine validated_of_collection rfl fun levels type hstripped => ?_
    rw [validate_array hword hstripped hshape.enclosed, validateArrayType,
      extractContent_withParameters (fun c hc => (hplain c hc).1) hcontent,
      helement.shaped.strip_pad hblank.1 hblank.2]
    have hne := Trimmed.isEmpty_eq_false helement.shaped.trimmed
    simp only [bind, Except.bind, pure, Except.pure, hne, Bool.false_eq_true, if_false,
      ih levels text helement.shaped.trimmed.trimmed_eq]
    by_cases hle : element.height ≤ levels
    · rw [if_pos hle, if_pos hle]
      rfl
    · rw [if_neg hle, if_neg hle]
  | @map key value word left text right left' text' right' hword hblank hkey hvalue ih ih' =>
    have hshape := Spells.shaped (.map hword hblank hkey hvalue)
    obtain ⟨-, hplain⟩ := hword.parameter_plain (List.mem_cons_of_mem _ List.mem_cons_self)
    have hinner := hkey.shaped.trimmed.append (right ++ ',' :: left') hvalue.shaped.trimmed
    have hcomma : Nesting.Balanced angle [','] :=
      Nesting.balanced_of_forall fun c hc => by rw [List.mem_singleton.mp hc]; rfl
    have hcontent : Nesting.Balanced angle
        (left ++ text ++ right ++ ',' :: (left' ++ text' ++ right')) :=
      (hkey.shaped.balanced_pad hblank.1 hblank.2.1).2.append
        (hcomma.append (hvalue.shaped.balanced_pad hblank.2.2.1 hblank.2.2.2).2)
    have hstrip : strip (left ++ text ++ right ++ ',' :: (left' ++ text' ++ right')) =
        text ++ right ++ ',' :: (left' ++ text') := by
      have := hinner.trimmed_pad hblank.1 hblank.2.2.2
      simpa [strip_eq_trimmed] using this
    have hsplit : splitTopLevelComma (text ++ right ++ ',' :: (left' ++ text')) = [text, text'] := by
      have hfirst : strip (text ++ right) = text :=
        hkey.shaped.trimmed.trimmed_pad (fun _ hc => absurd hc List.not_mem_nil) hblank.2.1
      rw [splitTopLevelComma_cons hkey.shaped.passes_comma hkey.shaped.brackets hblank.2.1,
        splitTopLevelComma_blank hblank.2.2.1,
        splitTopLevelComma_singleton hvalue.shaped.passes_comma hvalue.shaped.trimmed, hfirst]
    have hne : (text ++ right ++ ',' :: (left' ++ text')).isEmpty = false :=
      List.isEmpty_eq_false_iff.mpr (List.append_ne_nil_of_right_ne_nil _ (List.cons_ne_nil _ _))
    refine validated_of_collection rfl fun levels type hstripped => ?_
    rw [validate_map hword hstripped hshape.enclosed, validateMapType,
      extractContent_withParameters (fun c hc => (hplain c hc).1) hcontent, hstrip]
    simp only [bind, Except.bind, pure, Except.pure, hne, Bool.false_eq_true, if_false, hsplit,
      ih levels text hkey.shaped.trimmed.trimmed_eq, ih' levels text' hvalue.shaped.trimmed.trimmed_eq,
      Nat.max_le]
    by_cases hle : key.height ≤ levels
    · by_cases hle' : value.height ≤ levels
      · rw [if_pos hle, if_pos hle', if_pos ⟨hle, hle'⟩]
        rfl
      · rw [if_pos hle, if_neg hle', if_neg fun h => hle' h.2]
    · have hnot : ¬(key.height ≤ levels ∧ value.height ≤ levels) := fun h => hle h.1
      rw [if_neg hle, if_neg hnot]
  | @struct fields word left text right hword hblank hfields ih =>
    have hshape := Spells.shaped (.struct hword hblank hfields)
    obtain ⟨-, hplain⟩ := hword.parameter_plain
      (List.mem_cons_of_mem _ (List.mem_cons_of_mem _ List.mem_cons_self))
    have hcontent := (hfields.shaped.balanced_pad hblank.1 hblank.2).2
    have hne := Trimmed.isEmpty_eq_false hfields.shaped.trimmed
    refine validated_of_collection rfl fun levels type hstripped => ?_
    obtain ⟨hfits, hdeep⟩ := ih levels type
    rw [validate_struct hword hstripped hshape.enclosed, validateStructType,
      extractContent_withParameters (fun c hc => (hplain c hc).1) hcontent,
      hfields.shaped.strip_pad hblank.1 hblank.2]
    simp only [bind, Except.bind, pure, Except.pure, hne, Bool.false_eq_true, if_false]
    by_cases hle : fields.height ≤ levels
    · obtain ⟨parts, -, hparts, hmapM⟩ := hfits hle
      rw [hmapM, if_pos hle]
      dsimp only
      rw [hparts]
      rfl
    · rw [hdeep (Nat.not_le.mp hle), if_neg hle]
  | @field name type left right text hname hblank htype ih =>
    intro levels typeText
    have hshape := Spells.shaped (.field hname hblank htype)
    have hparse := @parseStructField_eq _ (validateUnityPhysicalType letters levels) _ _ _ typeText
      hname hblank.1 hblank.2 htype.shaped
    rw [splitTopLevelComma_singleton (passes_comma_field hname hblank.1 hblank.2 htype.shaped)
      hshape.trimmed, List.mapM_cons, List.mapM_nil, hparse,
      ih levels text htype.shaped.trimmed.trimmed_eq]
    refine ⟨fun hle => ⟨[name ++ ':' :: type.render], List.cons_ne_nil _ _, ?_, ?_⟩, fun hlt => ?_⟩
    · simp [List.intercalate, UnityType.render]
    · have hle' : type.height ≤ levels := hle
      rw [if_pos hle']
      rfl
    · have hlt' : ¬type.height ≤ levels := Nat.not_le.mpr hlt
      rw [if_neg hlt']
      rfl
  | @more name type rest left right left' right' text text' hname hblank htype hrest ih ih' =>
    intro levels typeText
    have hpiece := Spells.shaped (.field hname ⟨hblank.1, hblank.2.1⟩ htype)
    have hparse := @parseStructField_eq _ (validateUnityPhysicalType letters levels) _ _ _ typeText
      hname hblank.1 hblank.2.1 htype.shaped
    have hstrip : strip (name ++ left ++ ':' :: (right ++ text) ++ left') =
        name ++ left ++ ':' :: (right ++ text) :=
      hpiece.trimmed.trimmed_pad (fun _ hc => absurd hc List.not_mem_nil) hblank.2.2.1
    obtain ⟨hfits, hdeep⟩ := ih' levels typeText
    rw [splitTopLevelComma_cons (passes_comma_field hname hblank.1 hblank.2.1 htype.shaped)
      hpiece.brackets hblank.2.2.1, splitTopLevelComma_blank hblank.2.2.2, hstrip, List.mapM_cons,
      hparse, ih levels text htype.shaped.trimmed.trimmed_eq]
    refine ⟨fun hle => ?_, fun hlt => ?_⟩
    · have hle' : max type.height rest.height ≤ levels := hle
      obtain ⟨parts, hne, hparts, hmapM⟩ := hfits (Nat.max_le.mp hle').2
      refine ⟨(name ++ ':' :: type.render) :: parts, List.cons_ne_nil _ _, ?_, ?_⟩
      · rw [intercalate_comma_cons _ hne, hparts]
        simp [UnityType.render]
      · rw [if_pos (Nat.max_le.mp hle').1, hmapM]
        rfl
    · by_cases hle : type.height ≤ levels
      · rw [if_pos hle, hdeep ((lt_max_iff.mp hlt).resolve_left (Nat.not_lt.mpr hle))]
        rfl
      · rw [if_neg hle]
        rfl

/-! ### What is accepted -/

section Accepted

variable {left : Nat} {text out : Text}

theorem exists_decimal {precision scale : Nat} (h : validateDecimal precision scale = .ok out) :
    ∃ bounds : DecimalBounds, (UnityType.decimal bounds).render = out := by
  unfold validateDecimal at h
  split at h
  · cases h
  · next hprecision =>
    split at h
    · cases h
    · next hscale =>
      rw [not_or, Nat.not_lt, Nat.not_lt] at hprecision
      exact ⟨⟨precision, scale, hprecision.1, hprecision.2, Nat.not_lt.mp hscale⟩,
        Except.ok.inj h⟩

/-- Texts of fields are the text of a list of fields. -/
theorem exists_fields {levels : Nat} {parts : List Text} (hne : parts ≠ [])
    (h : ∀ part ∈ parts, ∃ name, ∃ t : UnityType .type, t.height ≤ levels ∧
      name ++ ':' :: t.render = part) :
    ∃ fields : UnityType .fields, fields.height ≤ levels ∧
      fields.render = [','].intercalate parts := by
  induction parts with
  | nil => exact absurd rfl hne
  | cons part parts ih =>
    obtain ⟨name, t, hheight, rfl⟩ := h part List.mem_cons_self
    by_cases hparts : parts = []
    · subst hparts
      exact ⟨.field name t, hheight, by simp [UnityType.render, List.intercalate]⟩
    · obtain ⟨fields, hfields, hrender⟩ := ih hparts fun p hp => h p (List.mem_cons_of_mem _ hp)
      refine ⟨.more name t fields, Nat.max_le.mpr ⟨hheight, hfields⟩, ?_⟩
      rw [intercalate_comma_cons _ hparts, ← hrender]
      simp [UnityType.render]

theorem exists_field {type field part : Text}
    (ih : ∀ {text out : Text}, validateUnityPhysicalType letters left text = .ok out →
      ∃ t : UnityType .type, t.height ≤ left ∧ t.render = out)
    (h : parseStructFieldAndValidate (validateUnityPhysicalType letters left) type field = .ok part) :
    ∃ name, ∃ t : UnityType .type, t.height ≤ left ∧ name ++ ':' :: t.render = part := by
  unfold parseStructFieldAndValidate at h
  split at h
  · cases h
  · split at h
    · cases h
    · split at h
      · cases h
      · obtain ⟨validated, hvalidated, h⟩ := bind_eq_ok.mp h
        obtain ⟨t, hheight, rfl⟩ := ih hvalidated
        exact ⟨_, t, hheight, Except.ok.inj h⟩

/-- The validator returns the text of a type, and of no type that is nested deeper than it may be. -/
theorem exists_of_validate (h : validateUnityPhysicalType letters left text = .ok out) :
    ∃ t : UnityType .type, t.height ≤ left ∧ t.render = out := by
  induction left generalizing text out with
  | zero => cases h
  | succ left ih =>
    unfold validateUnityPhysicalType at h
    dsimp only at h
    split at h
    · cases h
    · split at h
      · next hsimple =>
        obtain ⟨type, -, hkeyword⟩ := List.any_eq_true.mp hsimple
        exact ⟨.simple type, Nat.le_add_left 1 left,
          (of_decide_eq_true hkeyword).trans (Except.ok.inj h)⟩
      · split at h
        · obtain ⟨bounds, hout⟩ := exists_decimal h
          exact ⟨.decimal bounds, Nat.le_add_left 1 left, hout⟩
        · split at h
          · unfold validateArrayType at h
            obtain ⟨inner, -, h⟩ := bind_eq_ok.mp h
            dsimp only at h
            split at h
            · cases h
            · obtain ⟨validated, hvalidated, h⟩ := bind_eq_ok.mp h
              obtain ⟨t, hheight, rfl⟩ := ih hvalidated
              exact ⟨.array t, Nat.succ_le_succ hheight, Except.ok.inj h⟩
          · split at h
            · unfold validateMapType at h
              obtain ⟨inner, -, h⟩ := bind_eq_ok.mp h
              dsimp only at h
              split at h
              · cases h
              · split at h
                · obtain ⟨key, hkey, h⟩ := bind_eq_ok.mp h
                  obtain ⟨value, hvalue, h⟩ := bind_eq_ok.mp h
                  obtain ⟨t, hheight, rfl⟩ := ih hkey
                  obtain ⟨t', hheight', rfl⟩ := ih hvalue
                  exact ⟨.map t t', Nat.succ_le_succ (Nat.max_le.mpr ⟨hheight, hheight'⟩),
                    Except.ok.inj h⟩
                · cases h
            · split at h
              · unfold validateStructType at h
                obtain ⟨inner, -, h⟩ := bind_eq_ok.mp h
                dsimp only at h
                split at h
                · cases h
                · obtain ⟨parts, hparts, h⟩ := bind_eq_ok.mp h
                  have hall := mapM_eq_ok_iff_forall₂.mp hparts
                  have hne : parts ≠ [] := by
                    rintro rfl
                    have hpieces := List.map_eq_nil_iff.mp (List.forall₂_nil_right_iff.mp hall)
                    exact Nesting.splitTop_ne_nil _ _ hpieces
                  obtain ⟨fields, hheight, hrender⟩ := @exists_fields left parts hne
                    fun part hpart => by
                      obtain ⟨field, -, hfield⟩ := exists_of_forall₂_right hall hpart
                      exact exists_field ih hfield
                  refine ⟨.struct fields, Nat.succ_le_succ hheight, ?_⟩
                  rw [← Except.ok.inj h, UnityType.render, hrender]
              · split at h
                · exact ⟨.verbatim out, Nat.le_add_left 1 left, rfl⟩
                · cases h

end Accepted

/-! ### Canonical texts -/

/-- The names of fields are plain, and what is kept as a text is in upper case and enclosed. -/
def UnityType.Plain (letters : Letters) : {k : Part} → UnityType k → Prop
  | _, .simple _ => True
  | _, .decimal _ => True
  | _, .verbatim text => letters.toUpper text = text ∧ Enclosed text ∧
      ∃ word ∈ unityComplexPrefixes, word.isPrefixOf text = true
  | _, .array element => element.Plain letters
  | _, .map key value => key.Plain letters ∧ value.Plain letters
  | _, .struct fields => fields.Plain letters
  | _, .field name type => FieldName name ∧ type.Plain letters
  | _, .more name type rest => FieldName name ∧ type.Plain letters ∧ rest.Plain letters

theorem number_eq_value {digits : Text} (h : Digits.InBase 10 digits) :
    letters.number digits = Digits.value 10 digits := by
  have hfold : ∀ n, digits.foldl (fun n c => 10 * n + (letters.digitValue c).getD 0) n =
      Nat.ofDigitChars 10 digits n := by
    induction digits with
    | nil => exact fun _ => rfl
    | cons c digits ih =>
      intro n
      obtain ⟨⟨hlow, hhigh⟩, hrest⟩ := Digits.inBase_cons.mp h
      have hvalue : letters.digitValue c = some (c.toNat - '0'.toNat) := by
        have hlow' : '0'.toNat ≤ c.toNat := hlow
        have hzero : '0'.toNat = 48 := rfl
        have hdigit : c.isDigit = true := by
          rw [Char.isDigit, Bool.and_eq_true, decide_eq_true_eq, decide_eq_true_eq]
          refine ⟨hlow, ?_⟩
          show c.toNat ≤ 57
          omega
        rw [Letters.digitValue, if_pos (by omega), if_pos hdigit]
      rw [List.foldl_cons, Nat.ofDigitChars_cons, hvalue, Option.getD_some]
      exact ih hrest _
  exact hfold 0

theorem digits_toDigits (n : Nat) : letters.Digits (Nat.toDigits 10 n) := by
  refine ⟨Nat.toDigits_ne_nil, fun c hc => ?_⟩
  obtain ⟨hlow, hhigh⟩ := Digits.inBase_toDigits (by decide) (by decide) n c hc
  have hlow' : '0'.toNat ≤ c.toNat := hlow
  have hzero : '0'.toNat = 48 := rfl
  have hdigit : c.isDigit = true := by
    rw [Char.isDigit, Bool.and_eq_true, decide_eq_true_eq, decide_eq_true_eq]
    refine ⟨hlow, ?_⟩
    show c.toNat ≤ 57
    omega
  rw [Letters.digitValue, if_pos (by omega), if_pos hdigit]
  rfl

theorem number_toDigits (n : Nat) : letters.number (Nat.toDigits 10 n) = n := by
  rw [number_eq_value (Digits.inBase_toDigits (by decide) (by decide) n),
    Digits.value_toDigits (by decide) (by decide)]

/-- The canonical text of a plain type spells it. -/
theorem spells_render {k : Part} {t : UnityType k} (h : t.Plain letters) :
    Spells letters t t.render := by
  have hnone : Blank [] := fun _ hc => absurd hc List.not_mem_nil
  induction t with
  | simple type => exact .simple (by cases type <;> rfl)
  | decimal bounds =>
    have hspells := @Spells.decimal letters bounds decimalKeyword
      (Nat.toDigits 10 bounds.precision) (Nat.toDigits 10 bounds.scale) [] [] [] [] [] rfl
      (digits_toDigits _) (digits_toDigits _) ⟨number_toDigits _, number_toDigits _⟩
      ⟨hnone, hnone, hnone, hnone, hnone⟩
    simpa [UnityType.render, decimalText] using hspells
  | verbatim text =>
    obtain ⟨hupper, henclosed, word, hword, hprefix⟩ := h
    have hspells := @Spells.verbatim letters text word hword (by rw [hupper]; exact hprefix) henclosed
    rw [hupper] at hspells
    exact hspells
  | array element ih =>
    have hspells := @Spells.array letters _ arrayKeyword [] _ [] rfl ⟨hnone, hnone⟩ (ih h)
    simpa [UnityType.render] using hspells
  | map key value ih ih' =>
    have hspells := @Spells.map letters _ _ mapKeyword [] _ [] [] _ [] rfl
      ⟨hnone, hnone, hnone, hnone⟩ (ih h.1) (ih' h.2)
    simpa [UnityType.render] using hspells
  | struct fields ih =>
    have hspells := @Spells.struct letters _ structKeyword [] _ [] rfl ⟨hnone, hnone⟩ (ih h)
    simpa [UnityType.render] using hspells
  | field name type ih =>
    have hspells := @Spells.field letters _ _ [] [] _ h.1 ⟨hnone, hnone⟩ (ih h.2)
    simpa [UnityType.render] using hspells
  | more name type rest ih ih' =>
    have hspells := @Spells.more letters _ _ _ [] [] [] [] _ _ h.1 ⟨hnone, hnone, hnone, hnone⟩
      (ih h.2.1) (ih' h.2.2)
    simpa [UnityType.render] using hspells

/-! ### The validator -/

/-- A text that spells a type, in any letter case and with any white space, is accepted exactly where the
type is not nested too deep, and is taken to the canonical text of the type. -/
theorem validatePhysicalType_spelled {t : UnityType .type} {text left right : Text}
    (h : Spells letters t text) (hleft : Blank left) (hright : Blank right) :
    validatePhysicalType letters (left ++ text ++ right) =
      if t.height ≤ maxTypeRecursionDepth + 1 then .ok t.render else .error .tooDeep :=
  h.validated _ _ (h.shaped.strip_pad hleft hright)

/-- Letters and digits as ASCII has them. -/
def asciiLetters : Letters := ⟨fun c => [c], fun _ => none, fun _ _ => rfl, fun _ _ => rfl⟩

theorem spells_array : Spells asciiLetters (.array (.simple .int))
    (withParameters ['a', 'r', 'r', 'a', 'y'] ([' '] ++ ['I', 'n', 't'] ++ [])) := by
  have hspace : Blank [' '] := fun c hc => by
    rw [List.mem_singleton.mp hc]
    rfl
  have hnone : Blank [] := fun _ hc => absurd hc List.not_mem_nil
  exact .array rfl ⟨hspace, hnone⟩ (.simple rfl)

theorem validatePhysicalType_array :
    validatePhysicalType asciiLetters
        ([' '] ++ withParameters ['a', 'r', 'r', 'a', 'y'] ([' '] ++ ['I', 'n', 't'] ++ []) ++ []) =
      .ok ['A', 'R', 'R', 'A', 'Y', '<', 'I', 'N', 'T', '>'] :=
  validatePhysicalType_spelled spells_array
    (fun c hc => by rw [List.mem_singleton.mp hc]; rfl) (fun _ hc => absurd hc List.not_mem_nil)

end Dqx.Contracts
