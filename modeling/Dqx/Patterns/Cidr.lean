import Dqx.Patterns.Octets

/-! The check on strings of bits against the arithmetic of addresses. -/

namespace Dqx.Patterns

open Lib Lib.Regex Lib.Sql

variable {text : Text} {digit : Char → Bool} {caught : List Text}

/-! ### The check -/

/-- `text` is the address with the number `n`. -/
def Ipv4 (text : Text) (n : Nat) : Prop :=
  ∃ a b c d, (a < 256 ∧ b < 256 ∧ c < 256 ∧ d < 256) ∧ text = numerals a b c d ∧ n = address a b c d

theorem isDigit_of_octetShape (h : OctetShape (·.isDigit) text) : ∀ c ∈ text, c.isDigit = true :=
  fun c hc => (h.chars c hc).elim id id

theorem captures_ipv4Address_eq_none_iff :
    ipv4Address.captures text = none ↔ ∀ n, ¬Ipv4 text n := by
  simp only [Pattern.captures_eq_none_iff, ipv4Address, reads_ipv4AddressBody]
  constructor
  · rintro h n ⟨a, b, c, d, ⟨ha, hb, hc, hd⟩, rfl, rfl⟩
    have hshape {m : Nat} (hm : m < 256) : OctetShape (·.isDigit) (Nat.toDigits 10 m) :=
      mem_octetOf.mp (mem_ipv4Octet.mpr ⟨m, hm, rfl⟩)
    exact h _ ⟨_, _, _, _, ⟨hshape ha, hshape hb, hshape hc, hshape hd⟩, rfl, rfl⟩
  · rintro h caught ⟨_, _, _, _, ⟨ha, hb, hc, hd⟩, rfl, -⟩
    obtain ⟨a, hna, rfl⟩ := octetShape_isDigit ha
    obtain ⟨b, hnb, rfl⟩ := octetShape_isDigit hb
    obtain ⟨c, hnc, rfl⟩ := octetShape_isDigit hc
    obtain ⟨d, hnd, rfl⟩ := octetShape_isDigit hd
    exact h _ ⟨a, b, c, d, ⟨hna, hnb, hnc, hnd⟩, rfl, rfl⟩

theorem isValidIpv4Address_eq_none_iff {column : Text} {value : Option Text} :
    isValidIpv4Address column value = none ↔ ∀ text, value = some text → ∃ n, Ipv4 text n := by
  cases value with
  | none => simp [isValidIpv4Address]
  | some text =>
    have hcaptures := @captures_ipv4Address_eq_none_iff text
    cases hmatch : ipv4Address.captures text with
    | none => simpa [isValidIpv4Address, hmatch] using hcaptures.mp hmatch
    | some caught =>
      have hsome : ∃ n, Ipv4 text n := by
        by_contra hnone
        exact absurd (hmatch.symm.trans (hcaptures.mpr (not_exists.mp hnone))) nofun
      simpa [isValidIpv4Address, hmatch] using hsome

theorem regexpExtract_whole {pattern : Pattern} (h : pattern.captures text = some caught) :
    regexpExtract text pattern 0 = text := by
  simp [regexpExtract, h]

theorem convertIpv4ToBits_numerals (ansi : Bool) {a b c d : Nat}
    (h : a < 256 ∧ b < 256 ∧ c < 256 ∧ d < 256) :
    convertIpv4ToBits ansi (some (numerals a b c d)) = .ok (some (addressBits a b c d)) := by
  have hmatch : ipv4Address.captures (numerals a b c d) ≠ none := fun hnone =>
    captures_ipv4Address_eq_none_iff.mp hnone _ ⟨a, b, c, d, h, rfl, rfl⟩
  obtain ⟨caught, hcaught⟩ := Option.ne_none_iff_exists'.mp hmatch
  have hsplit := splitOn_numerals a b c d [] (by simp)
  have hbits := octetsToBits_numerals ansi a b c d [] nofun
  rw [List.append_nil] at hsplit
  simp only [convertIpv4ToBits, extractOctetsToBits, regexpExtract_whole hcaught, hsplit, hbits]

/-! ### Blocks -/

/-- The number of the address of a block, in the digits of any script. -/
def blockAddress (cidr : Text) : Nat :=
  (((cidr.takeWhile (· ≠ '/')).splitOn '.').map decimal).foldl (fun n octet => n * 256 + octet) 0

def blockPrefix (cidr : Text) : Nat := decimal ((cidr.dropWhile (· ≠ '/')).drop 1)

theorem OctetShape.plain (h : OctetShape isDecimal text) : '.' ∉ text ∧ '/' ∉ text := by
  have hplain {c : Char} (hc : c.isDigit = false ∧ isDecimal c = false) : c ∉ text := by
    intro hmem
    have := h.chars c hmem
    simp_all
  exact ⟨hplain (by decide), hplain (by decide)⟩

theorem block_eq {a b c d s : Text} (ha : OctetShape isDecimal a) (hb : OctetShape isDecimal b)
    (hc : OctetShape isDecimal c) (hd : OctetShape isDecimal d) :
    blockAddress (dotted a b c d ++ '/' :: s) =
        address (decimal a) (decimal b) (decimal c) (decimal d) ∧
      blockPrefix (dotted a b c d ++ '/' :: s) = decimal s := by
  have hslash : ∀ x ∈ dotted a b c d, decide (x ≠ '/') = true := by
    intro x hx
    simp only [dotted, List.mem_append, List.mem_cons] at hx
    refine decide_eq_true ?_
    rintro rfl
    rcases hx with h | h | h | h | h | h | h
    · exact ha.plain.2 h
    · exact absurd h (by decide)
    · exact hb.plain.2 h
    · exact absurd h (by decide)
    · exact hc.plain.2 h
    · exact absurd h (by decide)
    · exact hd.plain.2 h
  rw [blockAddress, blockPrefix, List.takeWhile_append_of_pos hslash,
    List.dropWhile_append_of_pos hslash, List.takeWhile_cons, List.dropWhile_cons]
  simp [splitOn_dotted ha.plain.1 hb.plain.1 hc.plain.1 hd.plain.1, address]

/-- Every character is below `128`. -/
def Ascii (text : Text) : Prop := ∀ c ∈ text, c.toNat < 128

/-- What an accepted block is in Spark, if it is written in ASCII. -/
structure BlockOf (cidr : Text) (a b c d : Nat) (s : Text) : Prop where
  octets : a < 256 ∧ b < 256 ∧ c < 256 ∧ d < 256
  suffix : s ≠ [] ∧ ∀ x ∈ s, x.isDigit = true
  text : cidr = numerals a b c d ++ '/' :: s
  groups : (ipv4CidrBlock (·.isDigit)).captures cidr =
    some [Nat.toDigits 10 a, Nat.toDigits 10 b, Nat.toDigits 10 c, Nat.toDigits 10 d, s]

theorem exists_blockOf {cidr : Text} (haccepted : (ipv4CidrBlock isDecimal).captures cidr ≠ none)
    (hascii : Ascii cidr) : ∃ a b c d s, BlockOf cidr a b c d s := by
  obtain ⟨caught, hcaught⟩ := Option.ne_none_iff_exists'.mp haccepted
  obtain ⟨a, b, c, d, s, ⟨ha, hb, hc, hd⟩, hs, htext, -⟩ :=
    reads_ipv4CidrBlock.mp (Pattern.reads_of_captures hcaught)
  have hdigit {part : Text} (hpart : part ⊆ cidr) : ∀ x ∈ part, isDecimal x = true →
      x.isDigit = true := fun x hx h => isDecimal_of_ascii (hascii x (hpart hx)) ▸ h
  have hmatch : (ipv4CidrBlock (·.isDigit)).captures cidr ≠ none := by
    intro hnone
    refine Pattern.captures_eq_none_iff.mp hnone [a, b, c, d, s] (reads_ipv4CidrBlock.mpr ?_)
    refine ⟨a, b, c, d, s, ⟨ha.mono (hdigit ?_), hb.mono (hdigit ?_), hc.mono (hdigit ?_),
      hd.mono (hdigit ?_)⟩, hs.mono (hdigit ?_), htext, rfl⟩
    all_goals intro x hx; simp [htext, dotted, hx]
  obtain ⟨caught, hcaught⟩ := Option.ne_none_iff_exists'.mp hmatch
  obtain ⟨_, _, _, _, s, ⟨ha, hb, hc, hd⟩, hs, htext, rfl⟩ :=
    reads_ipv4CidrBlock.mp (Pattern.reads_of_captures hcaught)
  obtain ⟨a, hna, rfl⟩ := octetShape_isDigit ha
  obtain ⟨b, hnb, rfl⟩ := octetShape_isDigit hb
  obtain ⟨c, hnc, rfl⟩ := octetShape_isDigit hc
  obtain ⟨d, hnd, rfl⟩ := octetShape_isDigit hd
  obtain ⟨hne, hchars⟩ := hs.chars
  have hdigits : ∀ x ∈ s, x.isDigit = true := fun x hx => (hchars x hx).elim id id
  exact ⟨a, b, c, d, s, ⟨hna, hnb, hnc, hnd⟩, ⟨hne, hdigits⟩, htext, hcaught⟩

namespace BlockOf

variable {cidr s : Text} {a b c d : Nat} (h : BlockOf cidr a b c d s)

include h

theorem block_eq :
    blockAddress cidr = address a b c d ∧ blockPrefix cidr = Digits.value 10 s := by
  obtain ⟨ha, hb, hc, hd⟩ := h.octets
  have hdecimal : ∀ x : Char, x.isDigit = true → isDecimal x = true := fun x hx =>
    (isDecimal_of_ascii (ascii_of_isDigit hx)).trans hx
  have hshape {m : Nat} (hm : m < 256) : OctetShape isDecimal (Nat.toDigits 10 m) :=
    (mem_octetOf.mp (mem_ipv4Octet.mpr ⟨m, hm, rfl⟩)).mono fun x _ => hdecimal x
  have hvalue (m : Nat) : decimal (Nat.toDigits 10 m) = m := by
    rw [decimal_of_isDigit fun x hx => Nat.isDigit_of_mem_toDigits (by omega) (by omega) hx,
      Digits.value_toDigits (by omega) (by omega)]
  have hblock := Patterns.block_eq (s := s) (hshape ha) (hshape hb) (hshape hc) (hshape hd)
  rw [hvalue, hvalue, hvalue, hvalue, decimal_of_isDigit h.suffix.2] at hblock
  rw [h.text]
  exact hblock

theorem convert (ansi : Bool) : convertIpv4CidrToBitsAndPrefix ansi cidr =
    .ok (some (addressBits a b c d), some (Digits.value 10 s)) := by
  obtain ⟨hne, hdigits⟩ := h.suffix
  have hdot : '.' ∉ '/' :: s := by
    rw [List.mem_cons]
    rintro (hslash | hmem)
    · exact absurd hslash (by decide)
    · exact absurd (hdigits _ hmem) (by decide)
  have hsplit := splitOn_numerals a b c d _ hdot
  have hbits := octetsToBits_numerals ansi a b c d ('/' :: s) (by simp)
  have hmask : regexpExtract cidr (ipv4CidrBlock (·.isDigit)) 5 = s := by
    simp [regexpExtract, h.groups]
  have hcast : castInt ansi s = .ok (some (Digits.value 10 s)) :=
    if_pos ⟨hne, List.all_eq_true.mpr hdigits⟩
  rw [← h.text] at hsplit
  simp only [convertIpv4CidrToBitsAndPrefix, extractOctetsToBits, regexpExtract_whole h.groups,
    hsplit, hbits, hmask, hcast]
  rfl

end BlockOf

/-! ### What is reported -/

/-- The value is no address of the block: it is no address at all, or its number differs from that of
the block in one of the leading bits. -/
def Outside (cidr : Text) (value : Option Text) : Prop :=
  ∃ text, value = some text ∧ ¬∃ n, Ipv4 text n ∧
    n >>> (32 - blockPrefix cidr) = blockAddress cidr >>> (32 - blockPrefix cidr)

/-- The check reports exactly the values outside the block. -/
def Faithful (cidr : Text) (check : Option Text → Except SparkError (Option Text)) : Prop :=
  ∀ value, ∃ report, check value = .ok report ∧ (report.isSome ↔ Outside cidr value)

variable {ansi : Bool} {column cidr : Text}
  {check : Option Text → Except SparkError (Option Text)}

/-- The check of an accepted block. -/
theorem check_eq (h : isIpv4AddressInCidr ansi column (.text cidr) = .ok check) :
    (ipv4CidrBlock isDecimal).captures cidr ≠ none ∧ check = fun value =>
      match isValidIpv4Address column value with
      | some message => .ok (some message)
      | none => do
        let outside ← outsideCidr ansi cidr value
        return if outside = some true then some (cidrMessage column cidr value) else none := by
  rw [isIpv4AddressInCidr] at h
  split at h
  · cases h
  · split at h
    · cases h
    · next hmatch => exact ⟨by simpa using hmatch, (Except.ok.inj h).symm⟩

theorem address_injective {text : Text} {m n : Nat} (hm : Ipv4 text m) (hn : Ipv4 text n) :
    m = n := by
  obtain ⟨a, b, c, d, -, rfl, rfl⟩ := hm
  obtain ⟨a', b', c', d', -, htext, rfl⟩ := hn
  have hsplit := congrArg (·.splitOn '.') htext
  have hfirst := splitOn_numerals a b c d [] (by simp)
  have hsecond := splitOn_numerals a' b' c' d' [] (by simp)
  simp only [List.append_nil] at hfirst hsecond
  simp only [hfirst, hsecond, List.cons.injEq, and_true] at hsplit
  have hvalue {m n : Nat} (h : Nat.toDigits 10 m = Nat.toDigits 10 n) : m = n := by
    rw [← Digits.value_toDigits (by omega) (by omega : 10 ≤ 10) m, h,
      Digits.value_toDigits (by omega) (by omega)]
  obtain ⟨ha, hb, hc, hd⟩ := hsplit
  rw [hvalue ha, hvalue hb, hvalue hc, hvalue hd]

theorem outside_iff {text : Text} {n : Nat} (hn : Ipv4 text n) : Outside cidr (some text) ↔
    n >>> (32 - blockPrefix cidr) ≠ blockAddress cidr >>> (32 - blockPrefix cidr) := by
  constructor
  · rintro ⟨text', htext', hno⟩ heq
    obtain rfl := Option.some.inj htext'
    exact hno ⟨n, hn, heq⟩
  · intro hne
    refine ⟨text, rfl, ?_⟩
    rintro ⟨m, hm, heq⟩
    exact hne (address_injective hn hm ▸ heq)

/-- A value that is no address is reported as such. -/
theorem outside_of_message {text message : Text}
    (h : isValidIpv4Address column (some text) = some message) : Outside cidr (some text) := by
  refine ⟨text, rfl, ?_⟩
  rintro ⟨n, hn, -⟩
  have hnone : isValidIpv4Address column (some text) = none := by
    refine isValidIpv4Address_eq_none_iff.mpr fun text' htext' => ⟨n, ?_⟩
    exact Option.some.inj htext' ▸ hn
  exact absurd (h.symm.trans hnone) nofun

/-- In a block that Spark reads too, addresses are compared. -/
theorem BlockOf.outsideCidr_eq {s : Text} {a b c d : Nat} (h : BlockOf cidr a b c d s) (ansi : Bool)
    {text : Text} {n : Nat} (hip : Ipv4 text n) : ∃ differs : Bool,
      outsideCidr ansi cidr (some text) = .ok (some differs) ∧ (differs = true ↔
        n >>> (32 - blockPrefix cidr) ≠ blockAddress cidr >>> (32 - blockPrefix cidr)) := by
  obtain ⟨w, x, y, z, hnumbers, rfl, rfl⟩ := hip
  obtain ⟨haddress, hmask⟩ := h.block_eq
  obtain ⟨hlength, hbits, hvalue⟩ :=
    addressBits_spec hnumbers.1 hnumbers.2.1 hnumbers.2.2.1 hnumbers.2.2.2
  obtain ⟨hlength', hbits', hvalue'⟩ :=
    addressBits_spec h.octets.1 h.octets.2.1 h.octets.2.2.1 h.octets.2.2.2
  have hnet := getNetworkAddress_eq_iff ⟨hlength, hbits⟩ ⟨hlength', hbits'⟩ (Digits.value 10 s)
  rw [hvalue, hvalue', ← haddress, ← hmask] at hnet
  refine ⟨decide _, ?_, decide_eq_true_iff.trans (not_congr hnet)⟩
  rw [outsideCidr, convertIpv4ToBits_numerals ansi hnumbers, h.convert ansi, ← hmask]
  rfl

theorem faithful_of_ascii (h : isIpv4AddressInCidr ansi column (.text cidr) = .ok check)
    (hascii : Ascii cidr) : Faithful cidr check := by
  obtain ⟨haccepted, rfl⟩ := check_eq h
  obtain ⟨a, b, c, d, s, hblock⟩ := exists_blockOf haccepted hascii
  intro value
  dsimp only
  cases value with
  | none =>
    refine ⟨none, ?_, by simp [Outside]⟩
    rw [outsideCidr, hblock.convert ansi]
    rfl
  | some text =>
    cases hvalid : isValidIpv4Address column (some text) with
    | some message => exact ⟨some message, rfl, iff_of_true rfl (outside_of_message hvalid)⟩
    | none =>
      obtain ⟨n, hn⟩ := isValidIpv4Address_eq_none_iff.mp hvalid text rfl
      obtain ⟨differs, houtside, hiff⟩ := hblock.outsideCidr_eq ansi hn
      refine ⟨if some differs = some true then _ else none, by rw [houtside]; rfl, ?_⟩
      rw [outside_iff hn, ← hiff]
      cases differs <;> simp

/-! ### Digits that Spark does not read -/

/-- A block with other digits matches in Python only. -/
theorem captures_eq_none_of_not_ascii (h : ¬Ascii cidr) :
    (ipv4CidrBlock (·.isDigit)).captures cidr = none := by
  refine Pattern.captures_eq_none_iff.mpr fun caught hreads => h ?_
  obtain ⟨a, b, c, d, s, ⟨ha, hb, hc, hd⟩, hs, rfl, -⟩ := reads_ipv4CidrBlock.mp hreads
  have hascii {part : Text} (hpart : ∀ x ∈ part, x.isDigit = true ∨ x.isDigit = true) :
      Ascii part := fun x hx => ascii_of_isDigit ((hpart x hx).elim id id)
  intro x hx
  simp only [dotted, List.mem_append, List.mem_cons] at hx
  rcases hx with (hx | rfl | hx | rfl | hx | rfl | hx) | rfl | hx
  · exact hascii ha.chars x hx
  · decide
  · exact hascii hb.chars x hx
  · decide
  · exact hascii hc.chars x hx
  · decide
  · exact hascii hd.chars x hx
  · decide
  · exact hascii hs.chars.2 x hx

theorem convert_of_not_ascii (h : ¬Ascii cidr) : convertIpv4CidrToBitsAndPrefix ansi cidr =
    if ansi then .error .invalidArrayIndex else .ok (none, none) := by
  have hnothing (group : Nat) : regexpExtract cidr (ipv4CidrBlock (·.isDigit)) group = [] := by
    simp [regexpExtract, captures_eq_none_of_not_ascii h]
  have hsplit : ([] : Text).splitOn '.' = [[]] := rfl
  rw [convertIpv4CidrToBitsAndPrefix, extractOctetsToBits, hnothing, hnothing, hsplit,
    octetsToBits_empty]
  cases ansi <;> rfl

theorem outsideCidr_of_not_ascii (h : ¬Ascii cidr) {text : Text} {n : Nat} (hip : Ipv4 text n) :
    outsideCidr ansi cidr (some text) =
      if ansi then .error .invalidArrayIndex else .ok none := by
  obtain ⟨w, x, y, z, hnumbers, rfl, -⟩ := hip
  rw [outsideCidr, convertIpv4ToBits_numerals ansi hnumbers, convert_of_not_ascii h]
  cases ansi <;> rfl

/-- Some address is outside every block with a prefix. -/
theorem exists_outside (hmask : blockPrefix cidr ≠ 0) :
    ∃ text n, Ipv4 text n ∧ Outside cidr (some text) := by
  by_contra hnone
  push Not at hnone
  have hin {n : Nat} {text : Text} (hn : Ipv4 text n) :
      n >>> (32 - blockPrefix cidr) = blockAddress cidr >>> (32 - blockPrefix cidr) := by
    by_contra hne
    exact hnone text n hn ((outside_iff hn).mpr hne)
  have hlow := hin ⟨0, 0, 0, 0, by decide, rfl, rfl⟩
  have hhigh := hin ⟨255, 255, 255, 255, by decide, rfl, rfl⟩
  have heq := hlow.trans hhigh.symm
  rw [Nat.shiftRight_eq_div_pow, Nat.shiftRight_eq_div_pow] at heq
  have hpow : 2 ^ (32 - blockPrefix cidr) ≤ 2 ^ 31 := Nat.pow_le_pow_right (by omega) (by omega)
  have hpos : 0 < 2 ^ (32 - blockPrefix cidr) := Nat.two_pow_pos _
  have hdiv : 1 ≤ address 255 255 255 255 / 2 ^ (32 - blockPrefix cidr) := by
    refine (Nat.le_div_iff_mul_le hpos).mpr ?_
    have : address 255 255 255 255 = 2 ^ 32 - 1 := rfl
    omega
  have hzero : address 0 0 0 0 / 2 ^ (32 - blockPrefix cidr) = 0 := Nat.zero_div _
  omega

theorem blockAddress_lt (haccepted : (ipv4CidrBlock isDecimal).captures cidr ≠ none) :
    blockAddress cidr < 2 ^ 32 := by
  obtain ⟨caught, hcaught⟩ := Option.ne_none_iff_exists'.mp haccepted
  obtain ⟨a, b, c, d, s, ⟨ha, hb, hc, hd⟩, -, rfl, -⟩ :=
    reads_ipv4CidrBlock.mp (Pattern.reads_of_captures hcaught)
  have hla := decimal_lt ha
  have hlb := decimal_lt hb
  have hlc := decimal_lt hc
  have hld := decimal_lt hd
  rw [(block_eq ha hb hc hd).1, address]
  omega

theorem not_outside_of_prefix_zero (haccepted : (ipv4CidrBlock isDecimal).captures cidr ≠ none)
    (hmask : blockPrefix cidr = 0) {text : Text} {n : Nat} (hn : Ipv4 text n) :
    ¬Outside cidr (some text) := by
  have hblock := blockAddress_lt haccepted
  have hnumber : n < 2 ^ 32 := by
    obtain ⟨a, b, c, d, hnumbers, -, rfl⟩ := hn
    rw [address]
    omega
  rw [outside_iff hn, hmask, Nat.shiftRight_eq_div_pow, Nat.shiftRight_eq_div_pow,
    Nat.div_eq_of_lt hnumber, Nat.div_eq_of_lt hblock]
  exact fun hne => hne rfl

/-- A block in other digits is taken for no block at all. -/
theorem not_faithful (h : isIpv4AddressInCidr ansi column (.text cidr) = .ok check)
    (hascii : ¬Ascii cidr) (hstrict : ansi = true ∨ blockPrefix cidr ≠ 0) :
    ¬Faithful cidr check := by
  obtain ⟨-, hcheck⟩ := check_eq h
  intro hfaithful
  have hrun {text : Text} {n : Nat} (hn : Ipv4 text n) :
      check (some text) = if ansi then .error .invalidArrayIndex else .ok none := by
    have hvalid : isValidIpv4Address column (some text) = none :=
      isValidIpv4Address_eq_none_iff.mpr fun text' htext' => ⟨n, Option.some.inj htext' ▸ hn⟩
    simp only [hcheck, hvalid, outsideCidr_of_not_ascii hascii hn]
    cases ansi <;> rfl
  cases ansi with
  | true =>
    obtain ⟨report, hreport, -⟩ := hfaithful (some (numerals 0 0 0 0))
    rw [hrun ⟨0, 0, 0, 0, by decide, rfl, rfl⟩] at hreport
    cases hreport
  | false =>
    obtain ⟨text, n, hn, hout⟩ := exists_outside (hstrict.resolve_left nofun)
    obtain ⟨report, hreport, hiff⟩ := hfaithful (some text)
    rw [hrun hn] at hreport
    obtain rfl : none = report := Except.ok.inj hreport
    exact absurd (hiff.mpr hout) nofun

/-- Without a prefix no address is outside, and none is reported. -/
theorem faithful_of_prefix_zero (h : isIpv4AddressInCidr false column (.text cidr) = .ok check)
    (hascii : ¬Ascii cidr) (hmask : blockPrefix cidr = 0) : Faithful cidr check := by
  obtain ⟨haccepted, rfl⟩ := check_eq h
  intro value
  dsimp only
  cases value with
  | none =>
    refine ⟨none, ?_, by simp [Outside]⟩
    rw [outsideCidr, convert_of_not_ascii hascii]
    rfl
  | some text =>
    cases hvalid : isValidIpv4Address column (some text) with
    | some message => exact ⟨some message, rfl, iff_of_true rfl (outside_of_message hvalid)⟩
    | none =>
      obtain ⟨n, hn⟩ := isValidIpv4Address_eq_none_iff.mp hvalid text rfl
      refine ⟨none, by rw [outsideCidr_of_not_ascii hascii hn]; rfl, ?_⟩
      exact iff_of_false nofun (not_outside_of_prefix_zero haccepted hmask hn)

/-- The check of an accepted block is the arithmetic one exactly if the block is written in ASCII
digits, or has no prefix and Spark is lenient. -/
theorem ipv4InCidr_faithful_iff (h : isIpv4AddressInCidr ansi column (.text cidr) = .ok check) :
    Faithful cidr check ↔ Ascii cidr ∨ ansi = false ∧ blockPrefix cidr = 0 := by
  constructor
  · intro hfaithful
    by_contra hnot
    obtain ⟨hascii, hlenient⟩ := not_or.mp hnot
    refine not_faithful h hascii ?_ hfaithful
    cases ansi with
    | true => exact .inl rfl
    | false => exact .inr fun hmask => hlenient ⟨rfl, hmask⟩
  · rintro (hascii | ⟨rfl, hmask⟩)
    · exact faithful_of_ascii h hascii
    · by_cases hascii : Ascii cidr
      · exact faithful_of_ascii h hascii
      · exact faithful_of_prefix_zero h hascii hmask

theorem exists_check (h : ((ipv4CidrBlock isDecimal).captures cidr).isSome = true)
    (hne : cidr ≠ []) : ∃ check, isIpv4AddressInCidr ansi column (.text cidr) = .ok check := by
  refine ⟨_, (if_neg hne).trans (if_neg ?_)⟩
  simpa [Option.isSome_iff_ne_none] using h

def privateBlock : Text := "10.0.0.0/8".toList

theorem ipv4InCidr_faithful_iff_private :
    ∃ check, isIpv4AddressInCidr true "ip".toList (.text privateBlock) = .ok check ∧
      (Faithful privateBlock check ↔
        Ascii privateBlock ∨ true = false ∧ blockPrefix privateBlock = 0) := by
  obtain ⟨check, hcheck⟩ :=
    @exists_check true "ip".toList privateBlock (by decide) (by decide)
  exact ⟨check, hcheck, ipv4InCidr_faithful_iff hcheck⟩

/-- `10.0.0.0/8`, where the last octet is an Arabic-Indic zero. -/
def mixedBlock : Text := "10.0.0.\u0660/8".toList

theorem not_all_faithful : ¬∀ ansi column cidr check,
    isIpv4AddressInCidr ansi column (.text cidr) = .ok check → Faithful cidr check := by
  intro h
  obtain ⟨check, hcheck⟩ := @exists_check false "ip".toList mixedBlock (by decide) (by decide)
  have hascii : ¬Ascii mixedBlock := fun hascii => absurd (hascii '\u0660' (by decide)) (by decide)
  exact not_faithful hcheck hascii (.inr (by decide)) (h _ _ _ _ hcheck)

end Dqx.Patterns
