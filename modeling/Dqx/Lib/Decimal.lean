import Mathlib.Data.List.TakeDrop
import Mathlib.Data.List.TakeWhile

/-! Decimal floating-point numbers and their scientific text form: the writing of a number, the
reading of a text, and that a number is read back from what is written for it. -/

namespace Dqx.Lib

/-- A decimal number: `± coefficient * 10 ^ exponent`, an infinity, or a NaN with its payload. -/
inductive Decimal where
  | finite (negative : Bool) (coefficient : Nat) (exponent : Int)
  | infinity (negative : Bool)
  | nan (negative signaling : Bool) (payload : Nat)
  deriving DecidableEq, Repr

namespace Decimal

def signText (negative : Bool) : List Char := if negative then ['-'] else []

/-- An exponent with its sign, which is written also when it is positive. -/
def exponentText (e : Int) : List Char :=
  'E' :: (if e < 0 then '-' else '+') :: Nat.toDigits 10 e.natAbs

/-- The text without its sign. `leftDigits` is where the point stands when no exponent is written,
counted from the start of the digits. -/
def magnitudeText (coefficient : Nat) (exponent : Int) : List Char :=
  let digits := Nat.toDigits 10 coefficient
  let leftDigits := exponent + digits.length
  if exponent ≤ 0 ∧ -6 < leftDigits then
    if leftDigits ≤ 0 then
      '0' :: '.' :: (List.replicate (-leftDigits).toNat '0' ++ digits)
    else if digits.length ≤ leftDigits then digits
    else digits.take leftDigits.toNat ++ '.' :: digits.drop leftDigits.toNat
  else if digits.length ≤ 1 then digits ++ exponentText (leftDigits - 1)
  else digits.take 1 ++ '.' :: digits.drop 1 ++ exponentText (leftDigits - 1)

def payloadText (payload : Nat) : List Char :=
  if payload = 0 then [] else Nat.toDigits 10 payload

def text : Decimal → List Char
  | .finite negative coefficient exponent =>
    signText negative ++ magnitudeText coefficient exponent
  | .infinity negative => signText negative ++ ['I', 'n', 'f', 'i', 'n', 'i', 't', 'y']
  | .nan negative signaling payload =>
    signText negative ++ (if signaling then ['s'] else []) ++ ['N', 'a', 'N'] ++
      payloadText payload

def digitsValue (digits : List Char) : Nat := Nat.ofDigitChars 10 digits 0

def readSign : List Char → Bool × List Char
  | '-' :: rest => (true, rest)
  | '+' :: rest => (false, rest)
  | rest => (false, rest)

def readInteger (chars : List Char) : Option Int :=
  let (negative, digits) := readSign chars
  if digits ≠ [] ∧ digits.all Char.isDigit then
    some (if negative then -(digitsValue digits : Int) else digitsValue digits)
  else none

/-- What follows the digits: nothing, or an exponent. -/
def readExponent : List Char → Option Int
  | [] => some 0
  | c :: rest => if c = 'E' ∨ c = 'e' then readInteger rest else none

/-- The fraction and what follows it. -/
def readFraction : List Char → List Char × List Char
  | '.' :: rest => rest.span Char.isDigit
  | rest => ([], rest)

def readNumber (negative : Bool) (chars : List Char) : Option Decimal :=
  let (whole, afterWhole) := chars.span Char.isDigit
  let (fraction, afterFraction) := readFraction afterWhole
  if whole = [] ∧ fraction = [] then none
  else (readExponent afterFraction).map fun e =>
    .finite negative (digitsValue (whole ++ fraction)) (e - fraction.length)

def readNan (negative signaling : Bool) (payload : List Char) : Option Decimal :=
  if payload.all Char.isDigit then some (.nan negative signaling (digitsValue payload)) else none

def readMagnitude (negative : Bool) (chars : List Char) : Option Decimal :=
  match chars.map Char.toLower with
  | ['i', 'n', 'f'] => some (.infinity negative)
  | ['i', 'n', 'f', 'i', 'n', 'i', 't', 'y'] => some (.infinity negative)
  | 'n' :: 'a' :: 'n' :: payload => readNan negative false payload
  | 's' :: 'n' :: 'a' :: 'n' :: payload => readNan negative true payload
  | _ => readNumber negative chars

/-- Blanks around the text and underscores inside it are dropped before it is read. -/
def strip (chars : List Char) : List Char :=
  ((chars.dropWhile Char.isWhitespace).reverse.dropWhile Char.isWhitespace).reverse

def read (chars : List Char) : Option Decimal :=
  let (negative, magnitude) := readSign ((strip chars).filter (· ≠ '_'))
  readMagnitude negative magnitude

example : text (.finite true 1050 (-3)) = ['-', '1', '.', '0', '5', '0'] := by decide
example : read ['+', '.', '5', 'e', '-', '7', ' '] = some (.finite false 5 (-8)) := by decide

theorem isDigit_of_mem_digits {n : Nat} {c : Char} (h : c ∈ Nat.toDigits 10 n) : c.isDigit :=
  Nat.isDigit_of_mem_toDigits (by omega) (by omega) h

@[simp] theorem digitsValue_digits (n : Nat) : digitsValue (Nat.toDigits 10 n) = n :=
  Nat.ofDigitChars_ten_toDigits

@[simp] theorem digitsValue_zeros_append (n : Nat) (digits : List Char) :
    digitsValue (List.replicate n '0' ++ digits) = digitsValue digits := by
  rw [digitsValue, Nat.ofDigitChars_append, Nat.ofDigitChars_replicate_zero, Nat.mul_zero,
    digitsValue]

/-- The digits that start a text are read up to the first other character. -/
theorem span_digits {digits rest : List Char} (hdigits : ∀ c ∈ digits, c.isDigit)
    (hrest : ∀ c ∈ rest.head?, ¬c.isDigit) :
    (digits ++ rest).span Char.isDigit = (digits, rest) := by
  rw [List.span_eq_takeWhile_dropWhile, List.takeWhile_append_of_pos hdigits,
    List.dropWhile_append_of_pos hdigits]
  cases rest with
  | nil => simp
  | cons c rest =>
    have hc : c.isDigit = false := by simpa using hrest c (by simp)
    simp [hc]

theorem readInteger_signed (e : Int) :
    readInteger ((if e < 0 then '-' else '+') :: Nat.toDigits 10 e.natAbs) = some e := by
  have hall : (Nat.toDigits 10 e.natAbs).all Char.isDigit := by
    rw [List.all_eq_true]
    exact fun c hc => isDigit_of_mem_digits hc
  have hne : Nat.toDigits 10 e.natAbs ≠ [] := Nat.toDigits_ne_nil
  by_cases hneg : e < 0
  · simp only [readInteger, hneg, if_true, readSign, hne, hall, ne_eq, not_false_eq_true, and_self,
      digitsValue_digits, Option.some.injEq]
    omega
  · simp only [readInteger, hneg, if_false, readSign, hne, hall, ne_eq, not_false_eq_true,
      and_self, if_true, digitsValue_digits, Bool.false_eq_true, Option.some.injEq]
    omega

@[simp] theorem readExponent_text (e : Int) : readExponent (exponentText e) = some e := by
  rw [exponentText, readExponent, if_pos (.inl rfl), readInteger_signed]

theorem readNumber_whole {digits rest : List Char} {e : Int} {negative : Bool}
    (hne : digits ≠ []) (hdigits : ∀ c ∈ digits, c.isDigit)
    (hrest : ∀ c ∈ rest.head?, ¬c.isDigit ∧ c ≠ '.') (he : readExponent rest = some e) :
    readNumber negative (digits ++ rest) = some (.finite negative (digitsValue digits) e) := by
  have hfraction : readFraction rest = ([], rest) := by
    cases rest with
    | nil => rfl
    | cons c rest =>
      have hc : c ≠ '.' := (hrest c (by simp)).2
      unfold readFraction
      split
      · rename_i h
        exact absurd (List.cons.inj h).1 hc
      · rfl
  simp only [readNumber, span_digits hdigits fun c hc => (hrest c hc).1, hfraction, hne, he]
  simp

theorem readNumber_fraction {whole fraction rest : List Char} {e : Int} {negative : Bool}
    (hne : whole ≠ []) (hwhole : ∀ c ∈ whole, c.isDigit) (hfraction : ∀ c ∈ fraction, c.isDigit)
    (hrest : ∀ c ∈ rest.head?, ¬c.isDigit) (he : readExponent rest = some e) :
    readNumber negative (whole ++ '.' :: (fraction ++ rest)) =
      some (.finite negative (digitsValue (whole ++ fraction)) (e - fraction.length)) := by
  have hpoint : ∀ c ∈ ('.' :: (fraction ++ rest)).head?, ¬c.isDigit := by
    simp only [List.head?_cons, Option.mem_def, Option.some.injEq]
    rintro c rfl
    decide
  simp only [readNumber, span_digits hwhole hpoint, readFraction, span_digits hfraction hrest, hne,
    he]
  simp

theorem head_exponentText (e : Int) : ∀ c ∈ (exponentText e).head?, ¬c.isDigit ∧ c ≠ '.' := by
  simp only [exponentText, List.head?_cons, Option.mem_def, Option.some.injEq]
  rintro c rfl
  decide

/-- The magnitude of a number is read back, in each of the five shapes it is written in. -/
theorem readNumber_magnitudeText (negative : Bool) (coefficient : Nat) (exponent : Int) :
    readNumber negative (magnitudeText coefficient exponent) =
      some (.finite negative coefficient exponent) := by
  have hdigits : ∀ c ∈ Nat.toDigits 10 coefficient, c.isDigit := fun c => isDigit_of_mem_digits
  have hne : Nat.toDigits 10 coefficient ≠ [] := Nat.toDigits_ne_nil
  have hpos : 0 < (Nat.toDigits 10 coefficient).length := List.length_pos_iff.mpr hne
  have hvalue := digitsValue_digits coefficient
  rw [magnitudeText]
  generalize Nat.toDigits 10 coefficient = digits at hdigits hne hpos hvalue ⊢
  have htake : ∀ n, ∀ c ∈ digits.take n, c.isDigit := fun n c hc =>
    hdigits c (List.mem_of_mem_take hc)
  have hdrop : ∀ n, ∀ c ∈ digits.drop n, c.isDigit := fun n c hc =>
    hdigits c (List.mem_of_mem_drop hc)
  have htakene : ∀ n, 0 < n → digits.take n ≠ [] := fun n hn h => by
    rcases List.take_eq_nil_iff.mp h with hzero | hnil
    · omega
    · exact hne hnil
  by_cases hplain : exponent ≤ 0 ∧ -6 < exponent + digits.length
  · rw [if_pos hplain]
    by_cases hleft : exponent + digits.length ≤ 0
    · -- the point stands before all digits
      rw [if_pos hleft]
      have hzeros : ∀ n, ∀ c ∈ List.replicate n '0' ++ digits, c.isDigit := by
        intro n c hc
        rcases List.mem_append.mp hc with hc | hc
        · rw [(List.mem_replicate.mp hc).2]
          decide
        · exact hdigits c hc
      have h := @readNumber_fraction ['0'] (List.replicate (-(exponent + digits.length)).toNat '0'
        ++ digits) [] 0 negative (by decide) (List.forall_mem_singleton.mpr rfl) (hzeros _) (by simp)
        rfl
      have hone : ['0'] = List.replicate 1 '0' := rfl
      simp only [List.append_nil, List.cons_append, List.nil_append] at h
      rw [h, ← List.singleton_append, hone, digitsValue_zeros_append, digitsValue_zeros_append,
        hvalue]
      simp only [List.length_append, List.length_replicate, Option.some.injEq, finite.injEq,
        true_and]
      omega
    · rw [if_neg hleft]
      by_cases hall : (digits.length : Int) ≤ exponent + digits.length
      · -- an integer
        rw [if_pos hall]
        have h := @readNumber_whole digits [] 0 negative hne hdigits (by simp) rfl
        rw [List.append_nil] at h
        rw [h, hvalue, show exponent = 0 by omega]
      · -- the point stands inside the digits
        rw [if_neg hall]
        have h := @readNumber_fraction (digits.take (exponent + digits.length).toNat)
          (digits.drop (exponent + digits.length).toNat) [] 0 negative (htakene _ (by omega))
          (htake _) (hdrop _) (by simp) rfl
        rw [List.append_nil] at h
        rw [h, List.take_append_drop, hvalue]
        simp only [List.length_drop, Option.some.injEq, finite.injEq, true_and]
        omega
  · rw [if_neg hplain]
    by_cases hone : digits.length ≤ 1
    · -- one digit and an exponent
      rw [if_pos hone, readNumber_whole hne hdigits (head_exponentText _) (readExponent_text _),
        hvalue]
      simp only [Option.some.injEq, finite.injEq, true_and]
      omega
    · -- several digits and an exponent
      rw [if_neg hone]
      have h := @readNumber_fraction (digits.take 1) (digits.drop 1)
        (exponentText (exponent + digits.length - 1)) _ negative (htakene 1 (by omega)) (htake 1)
        (hdrop 1) (fun c hc => (head_exponentText _ c hc).1) (readExponent_text _)
      rw [List.append_assoc, List.cons_append, h, List.take_append_drop, hvalue]
      simp only [List.length_drop, Option.some.injEq, finite.injEq, true_and]
      omega

/-- Neither blank nor underscore. -/
def Solid (c : Char) : Prop := c.isWhitespace = false ∧ c ≠ '_'

theorem Solid.of_isDigit {c : Char} (h : c.isDigit) : Solid c := by
  refine ⟨?_, fun hc => ?_⟩
  · have hlow : 48 ≤ c.val.toNat ∧ c.val.toNat ≤ 57 := by
      simpa [Char.isDigit, UInt32.le_iff_toNat_le] using h
    have hne : ∀ blank : Char, blank.val.toNat < 48 → c ≠ blank := by
      rintro blank hblank rfl
      omega
    simp [Char.isWhitespace, hne ' ' (by decide), hne '\t' (by decide), hne '\r' (by decide),
      hne '\n' (by decide)]
  · subst hc
    exact absurd h (by decide)

theorem dropWhile_solid {chars : List Char} (h : ∀ c ∈ chars, Solid c) :
    chars.dropWhile Char.isWhitespace = chars := by
  cases chars with
  | nil => rfl
  | cons c rest => simp [(h c List.mem_cons_self).1]

theorem strip_solid {chars : List Char} (h : ∀ c ∈ chars, Solid c) : strip chars = chars := by
  have hreverse : ∀ c ∈ chars.reverse, Solid c := fun c hc => h c (List.mem_reverse.mp hc)
  rw [strip, dropWhile_solid h, dropWhile_solid hreverse, List.reverse_reverse]

theorem filter_solid {chars : List Char} (h : ∀ c ∈ chars, Solid c) :
    chars.filter (· ≠ '_') = chars := by
  rw [List.filter_eq_self]
  exact fun c hc => by simpa using (h c hc).2

theorem solid_exponentText (e : Int) : ∀ c ∈ exponentText e, Solid c := by
  intro c hc
  rw [exponentText, List.mem_cons, List.mem_cons] at hc
  rcases hc with rfl | rfl | hc
  · exact ⟨by decide, by decide⟩
  · split <;> exact ⟨by decide, by decide⟩
  · exact .of_isDigit (isDigit_of_mem_digits hc)

theorem solid_magnitudeText (coefficient : Nat) (exponent : Int) :
    ∀ c ∈ magnitudeText coefficient exponent, Solid c := by
  have hdigits : ∀ c ∈ Nat.toDigits 10 coefficient, Solid c := fun c hc =>
    .of_isDigit (isDigit_of_mem_digits hc)
  have htake : ∀ n, ∀ c ∈ (Nat.toDigits 10 coefficient).take n, Solid c := fun n c hc =>
    hdigits c (List.mem_of_mem_take hc)
  have hdrop : ∀ n, ∀ c ∈ (Nat.toDigits 10 coefficient).drop n, Solid c := fun n c hc =>
    hdigits c (List.mem_of_mem_drop hc)
  have hpoint : Solid '.' := ⟨by decide, by decide⟩
  have hzero : Solid '0' := ⟨by decide, by decide⟩
  intro c hc
  simp only [magnitudeText] at hc
  split at hc
  · split at hc
    · simp only [List.mem_cons, List.mem_append, List.mem_replicate] at hc
      rcases hc with rfl | rfl | ⟨-, rfl⟩ | hc
      · exact hzero
      · exact hpoint
      · exact hzero
      · exact hdigits c hc
    · split at hc
      · exact hdigits c hc
      · simp only [List.mem_append, List.mem_cons] at hc
        rcases hc with hc | rfl | hc
        · exact htake _ c hc
        · exact hpoint
        · exact hdrop _ c hc
  · split at hc
    · rcases List.mem_append.mp hc with hc | hc
      · exact hdigits c hc
      · exact solid_exponentText _ c hc
    · simp only [List.mem_append, List.mem_cons] at hc
      rcases hc with (hc | rfl | hc) | hc
      · exact htake _ c hc
      · exact hpoint
      · exact hdrop _ c hc
      · exact solid_exponentText _ c hc

/-- What is written for a number starts with a digit. -/
theorem head_magnitudeText (coefficient : Nat) (exponent : Int) :
    ∃ c rest, magnitudeText coefficient exponent = c :: rest ∧ c.isDigit := by
  obtain ⟨c, rest, hdigits⟩ := List.exists_cons_of_ne_nil
    (Nat.toDigits_ne_nil (n := coefficient) (b := 10))
  have hc : c.isDigit := isDigit_of_mem_digits (hdigits ▸ List.mem_cons_self)
  have hpos : 0 < (Nat.toDigits 10 coefficient).length := by simp [hdigits]
  simp only [magnitudeText]
  split
  · split
    · exact ⟨'0', _, rfl, by decide⟩
    · split
      · exact ⟨c, rest, hdigits, hc⟩
      · obtain ⟨n, hn⟩ : ∃ n, (exponent + (Nat.toDigits 10 coefficient).length).toNat = n + 1 :=
          ⟨_, (Nat.succ_pred_eq_of_pos (by omega)).symm⟩
        rw [hn]
        exact ⟨c, _, by rw [hdigits, List.take_succ_cons, List.cons_append], hc⟩
  · split
    · exact ⟨c, _, by rw [hdigits, List.cons_append], hc⟩
    · exact ⟨c, _, by rw [hdigits, List.take_succ_cons, List.cons_append, List.cons_append], hc⟩

theorem toLower_digit {c : Char} (hc : c.isDigit) : c.toLower = c := by
  have hdigit : 48 ≤ c.val.toNat ∧ c.val.toNat ≤ 57 := by
    simpa [Char.isDigit, UInt32.le_iff_toNat_le] using hc
  unfold Char.toLower
  rw [dif_neg]
  rintro ⟨hlow, -⟩
  have : 65 ≤ c.val.toNat := by simpa [UInt32.le_iff_toNat_le] using hlow
  omega

theorem readMagnitude_digit {c : Char} {rest : List Char} (negative : Bool) (hc : c.isDigit) :
    readMagnitude negative (c :: rest) = readNumber negative (c :: rest) := by
  unfold readMagnitude
  rw [List.map_cons, toLower_digit hc]
  split
  · rename_i h
    rw [(List.cons.inj h).1] at hc
    exact absurd hc (by decide)
  · rename_i h
    rw [(List.cons.inj h).1] at hc
    exact absurd hc (by decide)
  · rename_i h
    rw [(List.cons.inj h).1] at hc
    exact absurd hc (by decide)
  · rename_i h
    rw [(List.cons.inj h).1] at hc
    exact absurd hc (by decide)
  · rfl

/-- The sign in front of a text that starts with neither sign. -/
theorem readSign_signText {c : Char} {rest : List Char} (negative : Bool) (hminus : c ≠ '-')
    (hplus : c ≠ '+') : readSign (signText negative ++ c :: rest) = (negative, c :: rest) := by
  cases negative with
  | true => rfl
  | false =>
    rw [signText, if_neg (by decide), List.nil_append]
    unfold readSign
    split
    · rename_i h
      exact absurd (List.cons.inj h).1 hminus
    · rename_i h
      exact absurd (List.cons.inj h).1 hplus
    · rfl

theorem solid_signText (negative : Bool) : ∀ c ∈ signText negative, Solid c := by
  cases negative <;> simp [signText, Solid, Char.isWhitespace]

/-- The reading of a sign and a solid text. -/
theorem read_signed {c : Char} {rest : List Char} (negative : Bool) (hminus : c ≠ '-')
    (hplus : c ≠ '+') (hsolid : ∀ x ∈ c :: rest, Solid x) :
    read (signText negative ++ c :: rest) = readMagnitude negative (c :: rest) := by
  have hall : ∀ x ∈ signText negative ++ c :: rest, Solid x := by
    intro x hx
    rcases List.mem_append.mp hx with hx | hx
    · exact solid_signText negative x hx
    · exact hsolid x hx
  rw [read, strip_solid hall, filter_solid hall, readSign_signText negative hminus hplus]

theorem isDigit_of_mem_payloadText {payload : Nat} {c : Char} (h : c ∈ payloadText payload) :
    c.isDigit := by
  rw [payloadText] at h
  split at h
  · exact absurd h List.not_mem_nil
  · exact isDigit_of_mem_digits h

theorem readNan_payloadText (negative signaling : Bool) (payload : Nat) :
    readNan negative signaling ((payloadText payload).map Char.toLower) =
      some (.nan negative signaling payload) := by
  have hlower : (payloadText payload).map Char.toLower = payloadText payload := by
    calc (payloadText payload).map Char.toLower
        = (payloadText payload).map id :=
          List.map_congr_left fun c hc => toLower_digit (isDigit_of_mem_payloadText hc)
      _ = payloadText payload := List.map_id _
  have hall : (payloadText payload).all Char.isDigit := by
    rw [List.all_eq_true]
    exact fun c hc => isDigit_of_mem_payloadText hc
  rw [hlower, readNan, if_pos hall, payloadText]
  split
  · rename_i hzero
    rw [hzero]
    rfl
  · rw [digitsValue_digits]

/-- What is written for a decimal number is read back as that number. -/
theorem read_text (d : Decimal) : read (text d) = some d := by
  cases d with
  | finite negative coefficient exponent =>
    obtain ⟨c, rest, htext, hc⟩ := head_magnitudeText coefficient exponent
    have hsolid := solid_magnitudeText coefficient exponent
    have hnumber := readNumber_magnitudeText negative coefficient exponent
    rw [htext] at hsolid hnumber
    have hminus : c ≠ '-' := by rintro rfl; exact absurd hc (by decide)
    have hplus : c ≠ '+' := by rintro rfl; exact absurd hc (by decide)
    rw [text, htext, read_signed negative hminus hplus hsolid, readMagnitude_digit negative hc,
      hnumber]
  | infinity negative =>
    rw [text, read_signed negative (by decide) (by decide) (by simp [Solid, Char.isWhitespace])]
    rfl
  | nan negative signaling payload =>
    have hpayload : ∀ c ∈ payloadText payload, Solid c := fun c hc =>
      .of_isDigit (isDigit_of_mem_payloadText hc)
    cases signaling with
    | false =>
      have htext : text (.nan negative false payload) =
          signText negative ++ 'N' :: 'a' :: 'N' :: payloadText payload := by
        simp [text]
      have hsolid : ∀ c ∈ 'N' :: 'a' :: 'N' :: payloadText payload, Solid c := by
        simpa [Solid, Char.isWhitespace] using hpayload
      rw [htext, read_signed negative (by decide) (by decide) hsolid]
      exact readNan_payloadText negative false payload
    | true =>
      have htext : text (.nan negative true payload) =
          signText negative ++ 's' :: 'N' :: 'a' :: 'N' :: payloadText payload := by
        simp [text]
      have hsolid : ∀ c ∈ 's' :: 'N' :: 'a' :: 'N' :: payloadText payload, Solid c := by
        simpa [Solid, Char.isWhitespace] using hpayload
      rw [htext, read_signed negative (by decide) (by decide) hsolid]
      exact readNan_payloadText negative true payload

theorem text_injective {d d' : Decimal} (h : text d = text d') : d = d' :=
  Option.some.inj ((read_text d).symm.trans (h ▸ read_text d'))

end Decimal

end Dqx.Lib
