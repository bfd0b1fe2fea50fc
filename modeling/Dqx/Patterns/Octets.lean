import Dqx.Patterns.Ipv4
import Mathlib.Data.List.Basic

/-! Octets: what the patterns of addresses read, the digits of every script, and the bits of a
number. -/

namespace Dqx.Patterns

open Lib Lib.Regex Lib.Sql

variable {text rest : Text} {digit digit' : Char → Bool} {caught : List Text}

/-! ### What the patterns read -/

/-- The shapes of an octet. -/
inductive OctetShape (digit : Char → Bool) : Text → Prop
  | fives {c : Char} (hle : '0' ≤ c ∧ c ≤ '5') : OctetShape digit ['2', '5', c]
  | twos {c d : Char} (hle : '0' ≤ c ∧ c ≤ '4') (hd : digit d = true) : OctetShape digit ['2', c, d]
  | ones {c d : Char} (hc : digit c = true) (hd : digit d = true) : OctetShape digit ['1', c, d]
  | tens {c d : Char} (hle : '1' ≤ c ∧ c ≤ '9') (hd : digit d = true) : OctetShape digit [c, d]
  | units {c : Char} (hc : digit c = true) : OctetShape digit [c]

theorem mem_octetOf : text ∈ (octetOf digit).language ↔ OctetShape digit text := by
  simp only [octetOf, mem_alt, digitUpTo]
  constructor
  · rintro (h | h | h | h)
    · obtain ⟨_, _, rfl, ha, hb⟩ := mem_seq.mp h
      obtain rfl := mem_literal.mp ha
      obtain ⟨c, hc, rfl⟩ := hb
      exact .fives (by simpa using hc)
    · obtain ⟨_, hrest, rfl⟩ := (mem_before _).mp h
      obtain ⟨_, _, rfl, ⟨c, hc, rfl⟩, ⟨d, hd, rfl⟩⟩ := mem_seq.mp hrest
      exact .twos (by simpa using hc) hd
    · obtain ⟨_, hrest, rfl⟩ := (mem_before _).mp h
      obtain ⟨_, _, rfl, ⟨c, hc, rfl⟩, hb⟩ := mem_seq.mp hrest
      obtain ⟨_, _, rfl, ⟨d, hd, rfl⟩, hnil⟩ := mem_seq.mp hb
      obtain rfl := mem_empty.mp hnil
      exact .ones hc hd
    · obtain ⟨_, _, rfl, ha, ⟨d, hd, rfl⟩⟩ := mem_seq.mp h
      rcases mem_optional.mp ha with rfl | ⟨c, hc, rfl⟩
      · exact .units hd
      · exact .tens (by simpa using hc) hd
  · rintro (@⟨c, hle⟩ | @⟨c, d, hle, hd⟩ | @⟨c, d, hc, hd⟩ | @⟨c, d, hle, hd⟩ | @⟨c, hc⟩)
    · exact .inl (mem_seq.mpr ⟨_, [c], rfl, mem_literal.mpr rfl, c, by simpa using hle, rfl⟩)
    · refine .inr (.inl ((mem_before _).mpr ⟨[c, d], mem_seq.mpr ⟨[c], [d], rfl, ?_, ?_⟩, rfl⟩))
      · exact ⟨c, by simpa using hle, rfl⟩
      · exact ⟨d, hd, rfl⟩
    · refine .inr (.inr (.inl ((mem_before _).mpr ⟨[c, d], mem_seq.mpr ⟨[c], [d], rfl, ?_⟩, rfl⟩)))
      exact ⟨⟨c, hc, rfl⟩, mem_seq.mpr ⟨[d], [], rfl, ⟨d, hd, rfl⟩, mem_empty.mpr rfl⟩⟩
    · refine .inr (.inr (.inr (mem_seq.mpr ⟨[c], [d], rfl, mem_optional.mpr (.inr ?_), d, hd, rfl⟩)))
      exact ⟨c, by simpa using hle, rfl⟩
    · exact .inr (.inr (.inr (mem_seq.mpr ⟨[], [c], rfl, mem_optional.mpr (.inl rfl), c, hc, rfl⟩)))

/-- The shapes of a prefix length. -/
inductive SuffixShape (digit : Char → Bool) : Text → Prop
  | thirties {c : Char} (hle : '0' ≤ c ∧ c ≤ '2') : SuffixShape digit ['3', c]
  | tens {c d : Char} (hle : '1' ≤ c ∧ c ≤ '2') (hd : digit d = true) : SuffixShape digit [c, d]
  | units {c : Char} (hc : digit c = true) : SuffixShape digit [c]

theorem mem_cidrSuffixOf : text ∈ (cidrSuffixOf digit).language ↔ SuffixShape digit text := by
  simp only [cidrSuffixOf, mem_alt, digitUpTo]
  constructor
  · rintro (h | h)
    · obtain ⟨_, ⟨c, hc, rfl⟩, rfl⟩ := (mem_before _).mp h
      exact .thirties (by simpa using hc)
    · obtain ⟨_, _, rfl, ha, ⟨d, hd, rfl⟩⟩ := mem_seq.mp h
      rcases mem_optional.mp ha with rfl | ⟨c, hc, rfl⟩
      · exact .units hd
      · exact .tens (by simpa using hc) hd
  · rintro (@⟨c, hle⟩ | @⟨c, d, hle, hd⟩ | @⟨c, hc⟩)
    · exact .inl ((mem_before _).mpr ⟨[c], ⟨c, by simpa using hle, rfl⟩, rfl⟩)
    · refine .inr (mem_seq.mpr ⟨[c], [d], rfl, mem_optional.mpr (.inr ?_), d, hd, rfl⟩)
      exact ⟨c, by simpa using hle, rfl⟩
    · exact .inr (mem_seq.mpr ⟨[], [c], rfl, mem_optional.mpr (.inl rfl), c, hc, rfl⟩)

/-- The text of four octets. -/
def dotted (a b c d : Text) : Text := a ++ '.' :: (b ++ '.' :: (c ++ '.' :: d))

theorem reads_ipv4AddressBody : (ipv4AddressBody digit).Reads text rest caught ↔
    ∃ a b c d, (OctetShape digit a ∧ OctetShape digit b ∧ OctetShape digit c ∧ OctetShape digit d) ∧
      text = dotted a b c d ∧ caught = [a, b, c, d] := by
  simp only [ipv4AddressBody, Pattern.Reads, mem_octetOf, mem_char, dotted]
  constructor
  · rintro ⟨a, _, _, _, rfl, rfl, ⟨ha, rfl⟩, _, _, _, _, rfl, rfl, ⟨rfl, rfl⟩, b, _, _, _, rfl, rfl,
      ⟨hb, rfl⟩, _, _, _, _, rfl, rfl, ⟨rfl, rfl⟩, c, _, _, _, rfl, rfl, ⟨hc, rfl⟩, _, d, _, _, rfl,
      rfl, ⟨rfl, rfl⟩, hd, rfl⟩
    exact ⟨a, b, c, d, ⟨ha, hb, hc, hd⟩, rfl, rfl⟩
  · rintro ⟨a, b, c, d, ⟨ha, hb, hc, hd⟩, rfl, rfl⟩
    exact ⟨a, _, [a], _, rfl, rfl, ⟨ha, rfl⟩, ['.'], _, [], _, rfl, rfl, ⟨rfl, rfl⟩, b, _, [b], _,
      rfl, rfl, ⟨hb, rfl⟩, ['.'], _, [], _, rfl, rfl, ⟨rfl, rfl⟩, c, _, [c], _, rfl, rfl,
      ⟨hc, rfl⟩, ['.'], d, [], _, rfl, rfl, ⟨rfl, rfl⟩, hd, rfl⟩

theorem reads_ipv4CidrBlock : (ipv4CidrBlock digit).Reads text rest caught ↔
    ∃ a b c d s, (OctetShape digit a ∧ OctetShape digit b ∧ OctetShape digit c ∧
      OctetShape digit d) ∧ SuffixShape digit s ∧
        text = dotted a b c d ++ '/' :: s ∧ caught = [a, b, c, d, s] := by
  simp only [ipv4CidrBlock, Pattern.Reads, reads_ipv4AddressBody, mem_cidrSuffixOf, mem_char]
  constructor
  · rintro ⟨_, _, _, _, rfl, rfl, ⟨a, b, c, d, hoctets, rfl, rfl⟩, _, s, _, _, rfl, rfl, ⟨rfl, rfl⟩,
      hs, rfl⟩
    exact ⟨a, b, c, d, s, hoctets, hs, rfl, rfl⟩
  · rintro ⟨a, b, c, d, s, hoctets, hs, rfl, rfl⟩
    exact ⟨dotted a b c d, _, [a, b, c, d], _, rfl, rfl, ⟨a, b, c, d, hoctets, rfl, rfl⟩, ['/'], s,
      [], _, rfl, rfl, ⟨rfl, rfl⟩, hs, rfl⟩

/-! ### Digits -/

theorem OctetShape.mono (h : OctetShape digit text)
    (hdigit : ∀ c ∈ text, digit c = true → digit' c = true) : OctetShape digit' text := by
  cases h with
  | fives hle => exact .fives hle
  | twos hle hd => exact .twos hle (hdigit _ (by simp) hd)
  | ones hc hd => exact .ones (hdigit _ (by simp) hc) (hdigit _ (by simp) hd)
  | tens hle hd => exact .tens hle (hdigit _ (by simp) hd)
  | units hc => exact .units (hdigit _ (by simp) hc)

theorem SuffixShape.mono (h : SuffixShape digit text)
    (hdigit : ∀ c ∈ text, digit c = true → digit' c = true) : SuffixShape digit' text := by
  cases h with
  | thirties hle => exact .thirties hle
  | tens hle hd => exact .tens hle (hdigit _ (by simp) hd)
  | units hc => exact .units (hdigit _ (by simp) hc)

theorem isDigit_of_le {c low high : Char} (hle : low ≤ c ∧ c ≤ high) (hlow : '0' ≤ low)
    (hhigh : high ≤ '9') : c.isDigit = true := by
  have hzero : '0' ≤ c := Char.le_trans hlow hle.1
  have hnine : c ≤ '9' := Char.le_trans hle.2 hhigh
  exact Bool.and_eq_true_iff.mpr ⟨decide_eq_true hzero, decide_eq_true hnine⟩

theorem OctetShape.chars (h : OctetShape digit text) :
    ∀ c ∈ text, c.isDigit = true ∨ digit c = true := by
  cases h with
  | fives hle => simp [isDigit_of_le hle]
  | twos hle hd => simp [isDigit_of_le hle, hd]
  | ones hc hd => simp [hc, hd]
  | tens hle hd => simp [isDigit_of_le hle, hd]
  | units hc => simp [hc]

theorem SuffixShape.chars (h : SuffixShape digit text) :
    text ≠ [] ∧ ∀ c ∈ text, c.isDigit = true ∨ digit c = true := by
  cases h with
  | thirties hle => simp [isDigit_of_le hle]
  | tens hle hd => simp [isDigit_of_le hle, hd]
  | units hc => simp [hc]

/-- `int(text)`, digit by digit -/
def digitOf (c : Char) : Nat := c.toNat - (zeroOf c).getD 0

def decimal (text : Text) : Nat := text.foldl (fun n c => 10 * n + digitOf c) 0

theorem zeroOf_of_ascii {c : Char} (h : c.toNat < 128) :
    zeroOf c = if c.isDigit then some 48 else none := by
  have hdigit : c.isDigit = (decide (48 ≤ c.toNat) && decide (c.toNat < 58)) := by
    have hiff : c.isDigit = true ↔ 48 ≤ c.toNat ∧ c.toNat < 58 := by
      simp only [Char.isDigit, Bool.and_eq_true, decide_eq_true_eq, UInt32.le_iff_toNat_le]
      exact and_congr_right fun _ => Nat.lt_succ_iff.symm
    rw [Bool.eq_iff_iff, hiff]
    simp
  have hrest : (unicodeZeros.drop 1).find?
      (fun start => start ≤ c.toNat && c.toNat < start + 10) = none := by
    have hlarge : ∀ start ∈ unicodeZeros.drop 1, 128 ≤ start := by decide
    refine List.find?_eq_none.mpr fun start hstart => ?_
    have := hlarge start hstart
    simp
    omega
  have hsplit : unicodeZeros = 48 :: unicodeZeros.drop 1 := rfl
  rw [zeroOf, hsplit, List.find?_cons, hrest, hdigit]
  cases decide (48 ≤ c.toNat) && decide (c.toNat < 58) <;> rfl

theorem isDecimal_of_ascii {c : Char} (h : c.toNat < 128) : isDecimal c = c.isDigit := by
  rw [isDecimal, zeroOf_of_ascii h]
  cases c.isDigit <;> rfl

theorem ascii_of_isDigit {c : Char} (h : c.isDigit = true) : c.toNat < 128 := by
  simp only [Char.isDigit, Bool.and_eq_true, decide_eq_true_eq] at h
  have hnine : c.toNat ≤ 57 := h.2
  omega

theorem digitOf_of_isDigit {c : Char} (h : c.isDigit = true) : digitOf c = c.toNat - '0'.toNat := by
  rw [digitOf, zeroOf_of_ascii (ascii_of_isDigit h), h]
  rfl

theorem digitOf_le {c : Char} (h : isDecimal c = true) : digitOf c ≤ 9 := by
  obtain ⟨start, hstart⟩ := Option.isSome_iff_exists.mp h
  have hrange := List.find?_some hstart
  simp only [Bool.and_eq_true, decide_eq_true_eq] at hrange
  rw [digitOf, hstart, Option.getD_some]
  omega

theorem decimal_of_isDigit (h : ∀ c ∈ text, c.isDigit = true) :
    decimal text = Digits.value 10 text :=
  List.foldl_ext _ _ _ fun n c hc => by rw [digitOf_of_isDigit (h c hc)]

theorem decimal_lt (h : OctetShape isDecimal text) : decimal text < 256 := by
  have hone : digitOf '1' = 1 := by decide
  have htwo : digitOf '2' = 2 := by decide
  have hfive : digitOf '5' = 5 := by decide
  have hfew {c low high : Char} (hle : low ≤ c ∧ c ≤ high) (hlow : '0' ≤ low)
      (hhigh : high ≤ '9') : digitOf c ≤ high.toNat - 48 := by
    rw [digitOf_of_isDigit (isDigit_of_le hle hlow hhigh)]
    exact Nat.sub_le_sub_right hle.2 48
  cases h with
  | fives hle =>
    have hc : _ ≤ 5 := hfew hle (by decide) (by decide)
    simp only [decimal, List.foldl_cons, List.foldl_nil, htwo, hfive]
    omega
  | twos hle hd =>
    have hc : _ ≤ 4 := hfew hle (by decide) (by decide)
    have hd := digitOf_le hd
    simp only [decimal, List.foldl_cons, List.foldl_nil, htwo]
    omega
  | ones hc hd =>
    have hc := digitOf_le hc
    have hd := digitOf_le hd
    simp only [decimal, List.foldl_cons, List.foldl_nil, hone]
    omega
  | tens hle hd =>
    have hc : _ ≤ 9 := hfew hle (by decide) (by decide)
    have hd := digitOf_le hd
    simp only [decimal, List.foldl_cons, List.foldl_nil]
    omega
  | units hc =>
    have hc := digitOf_le hc
    simp only [decimal, List.foldl_cons, List.foldl_nil]
    omega

/-! ### Bits -/

/-- The eight bits of an octet. -/
def bitsOf (n : Nat) : Text := lpad (Nat.toDigits 2 n) 8 '0'

theorem bitsOf_spec {n : Nat} (hn : n < 256) :
    (bitsOf n).length = 8 ∧ Digits.InBase 2 (bitsOf n) ∧ Digits.value 2 (bitsOf n) = n := by
  have hlength : (Nat.toDigits 2 n).length ≤ 8 :=
    (Nat.length_toDigits_le_iff (by omega) (by omega)).mpr hn
  rw [bitsOf, lpad, List.take_of_length_le hlength]
  refine ⟨by simp; omega, Digits.inBase_append.mpr ⟨?_, ?_⟩, ?_⟩
  · exact Digits.inBase_zeros (by omega) _
  · exact Digits.inBase_toDigits (by omega) (by omega) n
  · rw [Digits.value_zeros_append, Digits.value_toDigits (by omega) (by omega)]

/-- The thirty-two bits of an address. -/
def addressBits (a b c d : Nat) : Text := [bitsOf a, bitsOf b, bitsOf c, bitsOf d].flatten

/-- The number of an address. -/
def address (a b c d : Nat) : Nat := ((a * 256 + b) * 256 + c) * 256 + d

theorem addressBits_spec {a b c d : Nat} (ha : a < 256) (hb : b < 256) (hc : c < 256)
    (hd : d < 256) :
    (addressBits a b c d).length = 32 ∧ Digits.InBase 2 (addressBits a b c d) ∧
      Digits.value 2 (addressBits a b c d) = address a b c d := by
  obtain ⟨hla, hia, hva⟩ := bitsOf_spec ha
  obtain ⟨hlb, hib, hvb⟩ := bitsOf_spec hb
  obtain ⟨hlc, hic, hvc⟩ := bitsOf_spec hc
  obtain ⟨hld, hid, hvd⟩ := bitsOf_spec hd
  have hflat : addressBits a b c d = bitsOf a ++ (bitsOf b ++ (bitsOf c ++ bitsOf d)) := by
    simp [addressBits]
  rw [hflat]
  refine ⟨by simp [hla, hlb, hlc, hld], by simp [hia, hib, hic, hid], ?_⟩
  simp only [Digits.value_append, List.length_append, hlb, hlc, hld, hva, hvb, hvc, hvd, address]
  omega

/-- Networks are equal as strings of bits exactly if they are as numbers. -/
theorem getNetworkAddress_eq_iff {x y : Text} (hx : x.length = 32 ∧ Digits.InBase 2 x)
    (hy : y.length = 32 ∧ Digits.InBase 2 y) (length : Nat) :
    rpad (x.take length) 32 '0' = rpad (y.take length) 32 '0' ↔
      Digits.value 2 x >>> (32 - length) = Digits.value 2 y >>> (32 - length) := by
  obtain ⟨hxlength, hxbits⟩ := hx
  obtain ⟨hylength, hybits⟩ := hy
  have hlengths : (x.take length).length = (y.take length).length := by simp [hxlength, hylength]
  have hle {z : Text} (hz : z.length = 32) : (z.take length).take 32 = z.take length :=
    List.take_of_length_le (by simp [hz])
  have hxtake := Digits.value_take (by omega : 0 < 2) hxbits length
  have hytake := Digits.value_take (by omega : 0 < 2) hybits length
  rw [hxlength] at hxtake
  rw [hylength] at hytake
  rw [Nat.shiftRight_eq_div_pow, Nat.shiftRight_eq_div_pow, ← hxtake, ← hytake, rpad, rpad,
    hle hxlength, hle hylength, hlengths, List.append_left_inj]
  constructor
  · exact congrArg _
  · exact Digits.eq_of_value_eq (hxbits.sublist (List.take_sublist ..))
      (hybits.sublist (List.take_sublist ..)) hlengths

/-! ### Octets of a text -/

/-- What the octets of an address come to. -/
theorem octetShape_isDigit (h : OctetShape (·.isDigit) text) :
    ∃ n < 256, text = Nat.toDigits 10 n := by
  have hmem : text ∈ ipv4Octet.language := mem_octetOf.mpr h
  exact mem_ipv4Octet.mp hmem

theorem conv_toDigits (n : Nat) (rest : Text) (hrest : ∀ c ∈ rest.head?, ¬c.isDigit) :
    conv (Nat.toDigits 10 n ++ rest) = some (Nat.toDigits 2 n) := by
  have hdigits : ∀ c ∈ Nat.toDigits 10 n, c.isDigit = true := fun c hc =>
    Nat.isDigit_of_mem_toDigits (by omega) (by omega) hc
  have hspan := Decimal.span_digits hdigits hrest
  rw [List.span_eq_takeWhile_dropWhile] at hspan
  rw [conv, if_neg (by simp), (Prod.mk.inj hspan).1, Digits.value_toDigits (by omega) (by omega)]

theorem not_mem_toDigits {c : Char} (hc : c.isDigit = false) (n : Nat) :
    c ∉ Nat.toDigits 10 n := by
  intro hmem
  have := Nat.isDigit_of_mem_toDigits (by omega) (by omega) hmem
  simp_all

/-- The text of four numbers. -/
def numerals (a b c d : Nat) : Text :=
  dotted (Nat.toDigits 10 a) (Nat.toDigits 10 b) (Nat.toDigits 10 c) (Nat.toDigits 10 d)

theorem splitOn_dotted {a b c d : Text} (ha : '.' ∉ a) (hb : '.' ∉ b) (hc : '.' ∉ c)
    (hd : '.' ∉ d) : (dotted a b c d).splitOn '.' = [a, b, c, d] := by
  have hjoin : dotted a b c d = ['.'].intercalate [a, b, c, d] := by
    simp [dotted, List.intercalate_cons_cons]
  rw [hjoin]
  exact List.splitOn_intercalate '.' (by simp [ha, hb, hc, hd]) (by simp)

theorem splitOn_numerals (a b c d : Nat) (rest : Text) (hrest : '.' ∉ rest) :
    (numerals a b c d ++ rest).splitOn '.' =
      [Nat.toDigits 10 a, Nat.toDigits 10 b, Nat.toDigits 10 c, Nat.toDigits 10 d ++ rest] := by
  have hdot := not_mem_toDigits (by decide : '.'.isDigit = false)
  have hjoin : numerals a b c d ++ rest = dotted (Nat.toDigits 10 a) (Nat.toDigits 10 b)
      (Nat.toDigits 10 c) (Nat.toDigits 10 d ++ rest) := by simp [numerals, dotted]
  rw [hjoin]
  exact splitOn_dotted (hdot a) (hdot b) (hdot c) (by simp [hdot, hrest])

theorem octetsToBits_numerals (ansi : Bool) (a b c d : Nat) (rest : Text)
    (hrest : ∀ c ∈ rest.head?, ¬c.isDigit) :
    octetsToBits ansi [Nat.toDigits 10 a, Nat.toDigits 10 b, Nat.toDigits 10 c,
      Nat.toDigits 10 d ++ rest] = .ok (some (addressBits a b c d)) := by
  have hplain (n : Nat) : conv (Nat.toDigits 10 n) = some (Nat.toDigits 2 n) := by
    have := conv_toDigits n [] nofun
    rwa [List.append_nil] at this
  have hlast := conv_toDigits d rest hrest
  have helements : (List.range ipv4MaxOctetCount).mapM (element ansi [Nat.toDigits 10 a,
      Nat.toDigits 10 b, Nat.toDigits 10 c, Nat.toDigits 10 d ++ rest]) =
      .ok [some (Nat.toDigits 10 a), some (Nat.toDigits 10 b), some (Nat.toDigits 10 c),
        some (Nat.toDigits 10 d ++ rest)] := rfl
  simp only [octetsToBits, helements]
  simp [hplain, hlast, addressBits, bitsOf, bind, Except.bind, pure, Except.pure]

/-- Without a match there is only one, empty octet. -/
theorem octetsToBits_empty (ansi : Bool) :
    octetsToBits ansi [[]] = if ansi then .error .invalidArrayIndex else .ok none := by
  cases ansi <;> rfl

end Dqx.Patterns
