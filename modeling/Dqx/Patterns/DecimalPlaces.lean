import Dqx.Patterns.Decimals

/-! Counting digits against the exact value of a number. -/

namespace Dqx.Patterns

open Lib Lib.Regex Lib.Sql

variable {text rest : Text} {caught : List Text}

/-! ### What the pattern reads -/

theorem mem_sign : text ∈ sign.language ↔ ∃ negative, text = signText negative := by
  simp only [sign, mem_optional, mem_one]
  constructor
  · rintro (rfl | ⟨c, hc, rfl⟩)
    · exact ⟨none, rfl⟩
    · rcases Bool.or_eq_true_iff.mp hc with hc | hc
      · exact ⟨some false, by rw [of_decide_eq_true hc]; rfl⟩
      · exact ⟨some true, by rw [of_decide_eq_true hc]; rfl⟩
  · rintro ⟨_ | _ | _, rfl⟩
    · exact .inl rfl
    · exact .inr ⟨'+', by decide, rfl⟩
    · exact .inr ⟨'-', by decide, rfl⟩

theorem reads_fraction :
    (Pattern.optional (.seq (.plain (char '.')) (.group (.star digit)))).Reads text rest caught ↔
      ∃ fraction : Option Text, (∀ c ∈ fraction.getD [], c.isDigit = true) ∧
        text = (fraction.map ('.' :: ·)).getD [] ∧ caught = [fraction.getD []] := by
  simp only [Pattern.Reads, Pattern.groups, mem_char, digit, mem_star_one]
  constructor
  · rintro (⟨_, digits, _, _, rfl, rfl, ⟨rfl, rfl⟩, hdigits, rfl⟩ | ⟨rfl, rfl⟩)
    · exact ⟨some digits, hdigits, rfl, rfl⟩
    · exact ⟨none, fun _ h => absurd h List.not_mem_nil, rfl, rfl⟩
  · rintro ⟨_ | digits, hdigits, rfl, rfl⟩
    · exact .inr ⟨rfl, rfl⟩
    · exact .inl ⟨['.'], digits, [], _, rfl, rfl, ⟨rfl, rfl⟩, hdigits, rfl⟩

theorem reads_exponent :
    (Pattern.optional (.seq (.plain (.one fun c => c = 'e' || c = 'E'))
      (.group (.seq sign (plus digit))))).Reads text rest caught ↔
      ∃ exponent : Option (Char × Option Bool × Text),
        (∀ mark sign digits, exponent = some (mark, sign, digits) →
          (mark = 'e' ∨ mark = 'E') ∧ digits ≠ [] ∧ ∀ c ∈ digits, c.isDigit = true) ∧
        text = (exponent.map fun e => e.1 :: (signText e.2.1 ++ e.2.2)).getD [] ∧
        caught = [(exponent.map fun e => signText e.2.1 ++ e.2.2).getD []] := by
  simp only [Pattern.Reads, Pattern.groups, mem_one, mem_seq, digit, mem_plus_one, mem_sign]
  constructor
  · rintro (⟨_, _, _, _, rfl, rfl, ⟨⟨mark, hmark, rfl⟩, rfl⟩,
      ⟨_, digits, rfl, ⟨sign, rfl⟩, hdigits⟩, rfl⟩ | ⟨rfl, rfl⟩)
    · refine ⟨some (mark, sign, digits), ?_, rfl, rfl⟩
      rintro _ _ _ ⟨⟩
      exact ⟨by simpa using hmark, hdigits⟩
    · refine ⟨none, ?_, rfl, rfl⟩
      rintro _ _ _ ⟨⟩
  · rintro ⟨_ | ⟨mark, sign, digits⟩, hform, rfl, rfl⟩
    · exact .inr ⟨rfl, rfl⟩
    · obtain ⟨hmark, hdigits⟩ := hform mark sign digits rfl
      exact .inl ⟨[mark], signText sign ++ digits, [], _, rfl, rfl,
        ⟨⟨mark, by simpa using hmark, rfl⟩, rfl⟩, ⟨_, _, rfl, ⟨sign, rfl⟩, hdigits⟩, rfl⟩

/-- The look ahead sees a digit, or a point and a digit. -/
theorem exists_ahead : (∃ start, start <+: text ∧
      start ∈ (Regex.seq (optional (char '.')) digit).language) ↔
    ∃ c rest, c.isDigit = true ∧ (text = c :: rest ∨ text = '.' :: c :: rest) := by
  simp only [mem_seq, mem_optional, mem_char, digit, mem_one]
  constructor
  · rintro ⟨_, ⟨rest, rfl⟩, _, _, rfl, rfl | rfl, c, hc, rfl⟩
    · exact ⟨c, rest, hc, .inl rfl⟩
    · exact ⟨c, rest, hc, .inr rfl⟩
  · rintro ⟨c, rest, hc, rfl | rfl⟩
    · exact ⟨[c], ⟨rest, rfl⟩, [], [c], rfl, .inl rfl, c, hc, rfl⟩
    · exact ⟨['.', c], ⟨rest, rfl⟩, ['.'], [c], rfl, .inr rfl, c, hc, rfl⟩

namespace Numeral

variable (x : Numeral)

/-- What the groups of the pattern capture. -/
def groups : List Text := [x.whole, x.fraction.getD [], x.exponentGroup]

/-- The character behind the digits is no digit. -/
theorem head_exponentText : ∀ c ∈ x.exponentText.head?, c = 'e' ∨ c = 'E' := by
  obtain ⟨negative, whole, fraction, exponent, _, _, _, hform⟩ := x
  rcases exponent with _ | ⟨mark, sign, digits⟩
  · exact nofun
  · rintro _ ⟨⟩
    exact (hform mark sign digits rfl).1

theorem head_exponentText_not_digit : ∀ c ∈ x.exponentText.head?, ¬c.isDigit = true := by
  intro c hc
  rcases x.head_exponentText c hc with rfl | rfl <;> decide

theorem head_fractionText : ∀ c ∈ (x.fractionText ++ x.exponentText).head?, ¬c.isDigit = true := by
  cases hfraction : x.fraction with
  | none => simpa [fractionText, hfraction] using x.head_exponentText_not_digit
  | some digits => simp [fractionText, hfraction]

/-- The significand starts with a digit or the point. -/
theorem exists_tail :
    ∃ c rest, c.isDigit = true ∧ (x.tail = c :: rest ∨ x.tail = '.' :: c :: rest) := by
  unfold tail fractionText
  cases hwhole : x.whole with
  | cons c whole => exact ⟨c, _, x.whole_digits c (by simp [hwhole]), .inl rfl⟩
  | nil =>
    have hsome := x.some_digit
    rw [hwhole, List.nil_append] at hsome
    cases hfraction : x.fraction with
    | none => simp [hfraction] at hsome
    | some digits =>
      obtain ⟨c, digits, rfl⟩ := List.exists_cons_of_ne_nil (by simpa [hfraction] using hsome)
      exact ⟨c, _, x.fraction_digits c (by simp [hfraction]), .inr rfl⟩

theorem reads : decimalNumber.Reads x.text [] x.groups := by
  refine ⟨signText x.negative, x.tail, [], x.groups, rfl, rfl,
    ⟨mem_sign.mpr ⟨_, rfl⟩, rfl⟩, [], x.tail, [], x.groups, rfl, rfl, ⟨rfl, rfl, ?_⟩, ?_⟩
  · rw [List.append_nil]
    exact exists_ahead.mpr x.exists_tail
  refine ⟨x.whole, x.fractionText ++ x.exponentText, [x.whole], _, rfl, rfl, ?_, ?_⟩
  · exact ⟨mem_star_one.mpr x.whole_digits, rfl⟩
  refine ⟨x.fractionText, x.exponentText, [x.fraction.getD []], [x.exponentGroup], rfl, rfl, ?_, ?_⟩
  · exact reads_fraction.mpr ⟨x.fraction, x.fraction_digits, rfl, rfl⟩
  · exact reads_exponent.mpr ⟨x.exponent, x.exponent_form, rfl, rfl⟩

theorem exists_of_reads (h : decimalNumber.Reads text [] caught) :
    ∃ x : Numeral, x.text = text ∧ x.groups = caught := by
  obtain ⟨_, _, _, _, rfl, rfl, ⟨hsign, rfl⟩, _, _, _, _, rfl, rfl, ⟨rfl, rfl, hahead⟩, whole, _, _,
    _, rfl, rfl, ⟨hwhole, rfl⟩, _, _, _, _, rfl, rfl, hfraction, hexponent⟩ := h
  obtain ⟨negative, rfl⟩ := mem_sign.mp hsign
  obtain ⟨fraction, hdigits, rfl, rfl⟩ := reads_fraction.mp hfraction
  obtain ⟨exponent, hform, rfl, rfl⟩ := reads_exponent.mp hexponent
  have hwhole := mem_star_one.mp hwhole
  have hsome : whole ++ fraction.getD [] ≠ [] := by
    intro hnone
    obtain ⟨rfl, hempty⟩ := List.append_eq_nil_iff.mp hnone
    obtain ⟨c, rest, hc, hhead⟩ := exists_ahead.mp hahead
    -- neither an exponent nor a point before one is a digit
    have hmark {d : Char} {behind : Text}
        (heq : (exponent.map fun e => e.1 :: (signText e.2.1 ++ e.2.2)).getD [] = d :: behind) :
        d.isDigit = false ∧ d ≠ '.' := by
      rcases exponent with _ | ⟨mark, sign, digits⟩
      · cases heq
      · obtain rfl := (List.cons.inj heq).1
        rcases (hform _ sign digits rfl).1 with rfl | rfl <;> exact ⟨rfl, by simp⟩
    rcases fraction with _ | digits
    · simp only [Option.map_none, Option.getD_none, List.nil_append, List.append_nil] at hhead
      rcases hhead with hhead | hhead
      · exact absurd hc (by simp [(hmark hhead).1])
      · exact absurd rfl (hmark hhead).2
    · obtain rfl : digits = [] := hempty
      simp only [Option.map_some, Option.getD_some, List.nil_append, List.append_nil,
        List.cons_append, List.cons.injEq, true_and] at hhead
      rcases hhead with ⟨rfl, -⟩ | hhead
      · exact absurd hc (by decide)
      · exact absurd hc (by simp [(hmark hhead).1])
  exact ⟨⟨negative, whole, fraction, exponent, hwhole, hdigits, hsome, hform⟩, rfl, rfl⟩

/-! ### One reading -/

theorem text_injective {x y : Numeral} (h : x.text = y.text) :
    x.negative = y.negative ∧ x.tail = y.tail := by
  have hhead {z : Numeral} {c : Char} {behind : Text} (hz : z.tail = c :: behind) :
      c ≠ '-' ∧ c ≠ '+' := by
    obtain ⟨d, rest, hd, htail⟩ := z.exists_tail
    rcases htail with htail | htail
    · obtain rfl := (List.cons.inj (hz.symm.trans htail)).1
      constructor <;> rintro rfl <;> exact absurd hd (by decide)
    · obtain rfl := (List.cons.inj (hz.symm.trans htail)).1
      decide
  unfold text at h
  rcases hx : x.negative with _ | _ | _ <;> rcases hy : y.negative with _ | _ | _ <;>
    simp only [hx, hy, signText, List.nil_append, List.singleton_append, List.cons.injEq] at h
  · exact ⟨rfl, h⟩
  · exact absurd rfl (hhead h).2
  · exact absurd rfl (hhead h).1
  · exact absurd rfl (hhead h.symm).2
  · exact ⟨rfl, h.2⟩
  · exact absurd h.1 (by decide)
  · exact absurd rfl (hhead h.symm).1
  · exact absurd h.1 (by decide)
  · exact ⟨rfl, h.2⟩

theorem exponentText_eq (x : Numeral) :
    x.exponentText.drop 1 = x.exponentGroup := by
  unfold exponentText exponentGroup
  rcases x.exponent with _ | ⟨mark, sign, digits⟩ <;> rfl

theorem groups_injective {x y : Numeral} (h : x.text = y.text) : x.groups = y.groups := by
  obtain ⟨-, htail⟩ := text_injective h
  have hwhole := congrArg (List.span Char.isDigit) htail
  unfold tail at hwhole
  rw [Decimal.span_digits x.whole_digits x.head_fractionText,
    Decimal.span_digits y.whole_digits y.head_fractionText, Prod.mk.injEq] at hwhole
  obtain ⟨hwhole, hrest⟩ := hwhole
  have hpoint {z : Numeral} {behind : Text} (hz : z.exponentText = '.' :: behind) : False := by
    rcases z.head_exponentText '.' (by simp [hz]) with h | h <;> exact absurd h (by decide)
  unfold fractionText at hrest
  unfold groups
  rw [hwhole, ← exponentText_eq, ← exponentText_eq]
  cases hx : x.fraction with
  | none =>
    cases hy : y.fraction with
    | none =>
      simp only [hx, hy, Option.map_none, Option.getD_none, List.nil_append] at hrest
      rw [hrest]
    | some digits =>
      simp only [hx, hy, Option.map_none, Option.map_some, Option.getD_none, Option.getD_some,
        List.nil_append, List.cons_append] at hrest
      exact (hpoint hrest).elim
  | some digits =>
    cases hy : y.fraction with
    | none =>
      simp only [hx, hy, Option.map_none, Option.map_some, Option.getD_none, Option.getD_some,
        List.nil_append, List.cons_append] at hrest
      exact (hpoint hrest.symm).elim
    | some digits' =>
      simp only [hx, hy, Option.map_some, Option.getD_some, List.cons_append, List.cons.injEq,
        true_and] at hrest
      have hdigits := x.fraction_digits
      have hdigits' := y.fraction_digits
      rw [hx, Option.getD_some] at hdigits
      rw [hy, Option.getD_some] at hdigits'
      have hsplit := congrArg (List.span Char.isDigit) hrest
      rw [Decimal.span_digits hdigits x.head_exponentText_not_digit,
        Decimal.span_digits hdigits' y.head_exponentText_not_digit, Prod.mk.injEq] at hsplit
      rw [hsplit.1, hsplit.2]

theorem captures_text (x : Numeral) : decimalNumber.captures x.text = some x.groups := by
  refine Pattern.captures_eq_some x.reads fun other hother => ?_
  obtain ⟨y, hy, rfl⟩ := exists_of_reads hother
  exact groups_injective hy

/-! ### Its value -/

theorem inBase_significand (x : Numeral) : Digits.InBase 10 (x.whole ++ x.fraction.getD []) := by
  intro c hc
  have hdigit : c.isDigit = true :=
    (List.mem_append.mp hc).elim (x.whole_digits c) (x.fraction_digits c)
  simp only [Char.isDigit, Bool.and_eq_true, decide_eq_true_eq] at hdigit
  have hhigh : c.toNat ≤ 57 := hdigit.2
  refine ⟨hdigit.1, ?_⟩
  have : '0'.toNat = 48 := rfl
  omega

theorem signedValue_group (x : Numeral) :
    (if x.exponentGroup = [] then 0 else signedValue x.exponentGroup) = x.exponentValue := by
  obtain ⟨negative, whole, fraction, exponent, _, _, _, hform⟩ := x
  unfold exponentGroup exponentValue
  rcases exponent with _ | ⟨mark, sign, digits⟩
  · rfl
  · obtain ⟨-, hne, hdigits⟩ := hform mark sign digits rfl
    obtain ⟨c, digits, rfl⟩ := List.exists_cons_of_ne_nil hne
    have hc := hdigits c List.mem_cons_self
    rcases sign with _ | _ | _
    · have hminus : c ≠ '-' := by
        rintro rfl
        exact absurd hc (by decide)
      have hplus : c ≠ '+' := by
        rintro rfl
        exact absurd hc (by decide)
      simp only [signText, Option.map_some, Option.getD_some, List.nil_append, reduceCtorEq,
        if_false, signedValue]
      split
      · next heq => exact absurd (List.cons.inj heq).1 hminus
      · next heq => exact absurd (List.cons.inj heq).1 hplus
      · rfl
    · simp [signText, signedValue]
    · simp [signText, signedValue]

theorem exponentValue_injective {x y : Numeral} (h : x.text = y.text) :
    x.exponentValue = y.exponentValue := by
  have hgroups := groups_injective h
  simp only [groups, List.cons.injEq, and_true] at hgroups
  rw [← x.signedValue_group, ← y.signedValue_group, hgroups.2.2]

theorem value_injective {x y : Numeral} (h : x.text = y.text) : x.value = y.value := by
  have hgroups := groups_injective h
  simp only [groups, List.cons.injEq, and_true] at hgroups
  simp only [value, (text_injective h).1, hgroups.1, hgroups.2.1, exponentValue_injective h]

/-- The number of decimal places that the text amounts to. -/
def places (x : Numeral) : Int :=
  let significand := x.whole ++ x.fraction.getD []
  (x.fraction.getD []).length -
    (significand.length - (Digits.significant significand).length : Int) - x.exponentValue

theorem isLeast_places (x : Numeral)
    (h : Digits.significant (x.whole ++ x.fraction.getD []) ≠ []) :
    IsLeast (Clearing x.value) x.places.toNat := by
  have hleast := Digits.isLeast_clearing_value x.inBase_significand h
    (x.exponentValue - ((x.fraction.getD []).length : Int))
  have hplaces : x.places = -(x.exponentValue - ((x.fraction.getD []).length : Int)) -
      ((x.whole ++ x.fraction.getD []).length -
        (Digits.significant (x.whole ++ x.fraction.getD [])).length : Int) := by
    unfold places
    ring
  rw [hplaces]
  unfold value
  dsimp only
  split
  · rwa [neg_one_mul, clearing_neg]
  · rwa [one_mul]

theorem isLeast_zero (x : Numeral)
    (h : Digits.significant (x.whole ++ x.fraction.getD []) = []) :
    IsLeast (Clearing x.value) 0 := by
  have hzero : x.value = 0 := by
    simp [value, Digits.value_eq_zero_of_significant h]
  rw [hzero]
  exact isLeast_clearing_zero

theorem numDecimalPlaces_text (x : Numeral) (hsmall : x.exponentValue.natAbs < 2 ^ 53) :
    numDecimalPlaces x.text =
      if Digits.significant (x.whole ++ x.fraction.getD []) = [] then .finite 0
      else (Double.ofInt x.places).clamp := by
  have hgroup (i : Nat) : regexpExtract x.text decimalNumber (i + 1) = x.groups[i]?.getD [] := by
    simp [regexpExtract, x.captures_text]
  have hexponent : (if x.exponentGroup = [] then Double.finite 0
      else Double.ofInt (signedValue x.exponentGroup)) = .finite x.exponentValue := by
    rw [← x.signedValue_group]
    split
    · rfl
    · next hgroup =>
      rw [← x.signedValue_group, if_neg hgroup] at hsmall
      exact Double.ofInt_of_le hsmall.le
  unfold numDecimalPlaces
  simp only [hgroup, groups, List.getElem?_cons_zero, List.getElem?_cons_succ, Option.getD_some,
    hexponent, stripTrailingZeros, Double.subFrom, places, List.length_append, Nat.cast_add]

end Numeral

/-- The count exceeds the limit exactly if the number has more places. -/
theorem gt_numDecimalPlaces_iff (x : Numeral) (hsmall : x.exponentValue.natAbs < 2 ^ 53) {n : Nat}
    (hn : n < 2 ^ 53) : (numDecimalPlaces x.text).gt (.ofInt n) = true ↔ TooPrecise x.text n := by
  have hprecise {d : Nat} (hleast : IsLeast (Clearing x.value) d) : TooPrecise x.text n ↔ n < d := by
    constructor
    · rintro (hnone | ⟨y, hy, d', hleast', hlt⟩)
      · exact absurd rfl (hnone x)
      · rw [Numeral.value_injective hy] at hleast'
        rwa [hleast.unique hleast']
    · exact fun hlt => .inr ⟨x, rfl, d, hleast, hlt⟩
  rw [x.numDecimalPlaces_text hsmall]
  split
  · next hzero =>
    rw [hprecise (x.isLeast_zero hzero), Double.ofInt_of_le (by rw [Int.natAbs_natCast]; omega)]
    simp [Double.gt]
  · next hsome =>
    rw [hprecise (x.isLeast_places hsome), Double.gt_clamp_ofInt hn]
    omega

theorem captures_isSome_iff :
    (decimalNumber.captures text).isSome = true ↔ ∃ x : Numeral, x.text = text := by
  constructor
  · intro h
    obtain ⟨caught, hcaught⟩ := Option.isSome_iff_exists.mp h
    obtain ⟨x, hx, -⟩ := Numeral.exists_of_reads (Pattern.reads_of_captures hcaught)
    exact ⟨x, hx⟩
  · rintro ⟨x, rfl⟩
    rw [x.captures_text]
    rfl

/-! ### What is reported -/

/-- The exponent of a number is below `2 ^ 53` in magnitude. -/
def SmallExponent (value : Option Text) : Prop :=
  ∀ x : Numeral, value = some x.text → x.exponentValue.natAbs < 2 ^ 53

/-- The condition of the check on a value. -/
theorem condition_iff {text : Text} (hsmall : SmallExponent (some text)) {n : Nat}
    (hn : n < 2 ^ 53) :
    ((decimalNumber.captures text).isSome = false ∨
      (numDecimalPlaces text).gt (.ofInt n) = true) ↔ TooPrecise text n := by
  by_cases hsome : ∃ x : Numeral, x.text = text
  · obtain ⟨x, rfl⟩ := hsome
    rw [x.captures_text, gt_numDecimalPlaces_iff x (hsmall x rfl) hn]
    simp
  · have hnone : (decimalNumber.captures text).isSome = false :=
      Bool.eq_false_iff.mpr fun h => hsome (captures_isSome_iff.mp h)
    exact iff_of_true (.inl hnone) (.inl (not_exists.mp hsome))

theorem SmallExponent.of_text {x : Numeral} (h : x.exponentValue.natAbs < 2 ^ 53) :
    SmallExponent (some x.text) := by
  intro y hy
  rwa [← Numeral.exponentValue_injective (Option.some.inj hy)]

/-- With an integral limit below `2 ^ 53` a value is reported exactly if it is no number or has more
decimal places, and a null exactly if nulls are not allowed. -/
theorem hasNumDecimalPlaces_reports_iff (column : Text) {n : Nat} (hn : n < 2 ^ 53)
    (allowNulls : Bool) {value : Option Text} (hsmall : SmallExponent value) :
    ∃ report, hasNumDecimalPlaces column (some (some n)) allowNulls value = .ok report ∧
      (report.isSome = true ↔
        value = none ∧ allowNulls = false ∨ ∃ text, value = some text ∧ TooPrecise text n) := by
  cases value with
  | none => cases allowNulls <;> exact ⟨_, rfl, by simp⟩
  | some text =>
    have htruth : ((Truth.or (some false)
        (Truth.not (some (decimalNumber.captures text).isSome))).or
        (some ((numDecimalPlaces text).gt (.ofInt n))) = some true) ↔ TooPrecise text n := by
      rw [← condition_iff hsmall hn]
      simp [Truth.not]
    obtain ⟨message, hrun⟩ : ∃ message,
        hasNumDecimalPlaces column (some (some n)) allowNulls (some text) =
          .ok (if (Truth.or (some false)
            (Truth.not (some (decimalNumber.captures text).isSome))).or
            (some ((numDecimalPlaces text).gt (.ofInt n))) = some true then some message
            else none) := by
      cases allowNulls
      · exact ⟨_, (apply_ite Except.ok _ _ _).symm⟩
      · exact ⟨_, rfl⟩
    refine ⟨_, hrun, ?_⟩
    by_cases hprecise : TooPrecise text n
    · rw [if_pos (htruth.mpr hprecise)]
      simpa using hprecise
    · rw [if_neg (mt htruth.mp hprecise)]
      simpa using hprecise

/-- `1.5` -/
def oneAndAHalf : Numeral where
  negative := none
  whole := ['1']
  fraction := some ['5']
  exponent := none
  whole_digits := List.all_eq_true.mp (by decide : (['1'] : Text).all (·.isDigit) = true)
  fraction_digits := List.all_eq_true.mp (by decide : (['5'] : Text).all (·.isDigit) = true)
  some_digit := by decide
  exponent_form := nofun

theorem hasNumDecimalPlaces_reports_iff_half :
    ∃ report, hasNumDecimalPlaces "x".toList (some (some (0 : Nat))) true (some oneAndAHalf.text) =
        .ok report ∧
      (report.isSome = true ↔ some oneAndAHalf.text = none ∧ true = false ∨
        ∃ text, some oneAndAHalf.text = some text ∧ TooPrecise text 0) :=
  hasNumDecimalPlaces_reports_iff "x".toList (by decide) true (.of_text (by decide))

/-! ### A limit that a double can hold, and a count that it cannot -/

/-- `1.11e-9007199254740991` -/
def tiny : Numeral where
  negative := none
  whole := ['1']
  fraction := some ['1', '1']
  exponent := some ('e', some true, "9007199254740991".toList)
  whole_digits := List.all_eq_true.mp (by decide : (['1'] : Text).all (·.isDigit) = true)
  fraction_digits := List.all_eq_true.mp (by decide : (['1', '1'] : Text).all (·.isDigit) = true)
  some_digit := by decide
  exponent_form := by
    rintro _ _ _ ⟨⟩
    exact ⟨.inl rfl, by decide, List.all_eq_true.mp (by decide)⟩

theorem tiny_places : tiny.places = 2 ^ 53 + 1 := by decide

theorem not_all_decimal_places_reported : ¬∀ (column : Text) (n : Nat) (allowNulls : Bool)
    (value : Option Text), SmallExponent value →
      ∃ report, hasNumDecimalPlaces column (some (some n)) allowNulls value = .ok report ∧
        (report.isSome = true ↔
          value = none ∧ allowNulls = false ∨ ∃ text, value = some text ∧ TooPrecise text n) := by
  intro h
  have hsmall : tiny.exponentValue.natAbs < 2 ^ 53 := by decide
  obtain ⟨report, hreport, hiff⟩ := h [] (2 ^ 53) true (some tiny.text) (.of_text hsmall)
  have hsome : Digits.significant (tiny.whole ++ tiny.fraction.getD []) ≠ [] := by decide
  have hprecise : TooPrecise tiny.text (2 ^ 53) := by
    refine .inr ⟨tiny, rfl, _, tiny.isLeast_places hsome, ?_⟩
    rw [tiny_places]
    decide
  have hgt : (numDecimalPlaces tiny.text).gt (.ofInt (2 ^ 53 : Nat)) = false := by
    rw [tiny.numDecimalPlaces_text hsmall, if_neg hsome, tiny_places]
    decide
  have hnone {k : Int} (hk : (numDecimalPlaces tiny.text).gt (.ofInt k) = false) :
      hasNumDecimalPlaces [] (some (some k)) true (some tiny.text) = .ok none := by
    simp [hasNumDecimalPlaces, hk, tiny.captures_text, Truth.not]
  obtain rfl : none = report := Except.ok.inj ((hnone hgt).symm.trans hreport)
  exact absurd (hiff.mpr (.inr ⟨_, rfl, hprecise⟩)) Bool.false_ne_true

end Dqx.Patterns
