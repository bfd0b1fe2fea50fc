import Mathlib
import Dqx.Lib.Decimal
import Dqx.Lib.Regex
import Dqx.Lib.SqlString

/-! The pattern of email addresses against the grammar it is written for. -/

namespace Dqx.Patterns

open Lib Lib.Regex Lib.Sql

/-! ### The pattern -/

/-- `[A-Za-z0-9!#$%&'*+/=?^_{|}~-]` and the backtick -/
def isAtext (c : Char) : Bool :=
  c.isAlphanum || "!#$%&'*+/=?^_`\x7b|\x7d~-".toList.contains c

/-- `[\x21\x23-\x5B\x5D-\x7E]` -/
def isQtext (c : Char) : Bool :=
  c = '!' || ('#' ≤ c && c ≤ '[') || (']' ≤ c && c ≤ '~')

/-- `[\x09\x20-\x7E]` -/
def isQuotable (c : Char) : Bool :=
  c = '\t' || (' ' ≤ c && c ≤ '~')

/-- `[A-Za-z0-9-]` -/
def isLdh (c : Char) : Bool := c.isAlphanum || c = '-'

/-- `[A-Fa-f0-9:]` -/
def isHexOrColon (c : Char) : Bool :=
  c.isDigit || ('A' ≤ c && c ≤ 'F') || ('a' ≤ c && c ≤ 'f') || c = ':'

/-- What `.` matches in Java. -/
def isNoLineEnd (c : Char) : Bool :=
  !(c = '\n' || c = '\r' || [0x85, 0x2028, 0x2029].contains c.toNat)

def emailAtext : Regex := .one isAtext

def emailDomainLabel : Regex :=
  .seq (.one (·.isAlphanum))
    (optional (.seq (between (.one isLdh) 0 61) (.one (·.isAlphanum))))

def emailQtext : Regex := .one isQtext

def emailQpair : Regex := .seq (char '\\') (.one isQuotable)

/-- `[0-9]` up to a digit -/
def digitUpTo (last : Char) : Regex := .one fun c => '0' ≤ c && c ≤ last

def digit : Regex := .one (·.isDigit)

def ipv4Octet : Regex :=
  .alt (.seq (literal ['2', '5']) (digitUpTo '5'))
    (.alt (.seq (char '2') (.seq (digitUpTo '4') digit))
      (.alt (.seq (char '1') (exactly digit 2))
        (.seq (optional (.one fun c => '1' ≤ c && c ≤ '9')) digit)))

def emailLocalPart : Regex :=
  .alt (.seq (plus emailAtext) (.star (.seq (char '.') (plus emailAtext))))
    (.seq (char '"') (.seq (.star (.alt emailQtext emailQpair)) (char '"')))

def emailDomain : Regex :=
  .alt (.seq (plus (.seq emailDomainLabel (char '.'))) (between (.one (·.isAlpha)) 2 63))
    (.seq (char '[') (.seq
      (.alt (.seq ipv4Octet (exactly (.seq (char '.') ipv4Octet) 3))
        (.seq (literal "IPv6:".toList) (plus (.one isHexOrColon))))
      (char ']')))

/-- `(?=.{1,254}\z)` -/
def totalCap : Regex := between (.one isNoLineEnd) 1 254

/-- `(?=[^@]{1,64}@)`, and what follows -/
def localCap : Regex :=
  .seq (between (.one (· ≠ '@')) 1 64) (.seq (char '@') (.star (.one fun _ => true)))

/-- `DQPattern.EMAIL_ADDRESS` -/
def emailAddress : Regex :=
  .both totalCap (.both localCap (.seq emailLocalPart (.seq (char '@') emailDomain)))

/-! ### The grammar -/

/-- Atoms with dots between them. -/
def DotAtom (text : Text) : Prop :=
  ∃ atoms : List Text, atoms ≠ [] ∧ text = ['.'].intercalate atoms ∧
    ∀ atom ∈ atoms, atom ≠ [] ∧ ∀ c ∈ atom, isAtext c = true

/-- A character of a quoted text, as it is or after a backslash. -/
def QuotedItem (item : Text) : Prop :=
  (∃ c, isQtext c = true ∧ item = [c]) ∨ ∃ c, isQuotable c = true ∧ item = ['\\', c]

def QuotedString (text : Text) : Prop :=
  ∃ items : List Text, text = '"' :: (items.flatten ++ ['"']) ∧ ∀ item ∈ items, QuotedItem item

/-- Letters, digits and hyphens, with no hyphen at either end. -/
def Label (text : Text) : Prop :=
  (1 ≤ text.length ∧ text.length ≤ 63) ∧ (∀ c ∈ text, isLdh c = true) ∧
    (∀ c ∈ text.head?, c.isAlphanum = true) ∧ ∀ c ∈ text.getLast?, c.isAlphanum = true

def TopLevelDomain (text : Text) : Prop :=
  (2 ≤ text.length ∧ text.length ≤ 63) ∧ ∀ c ∈ text, c.isAlpha = true

def Hostname (text : Text) : Prop :=
  ∃ (labels : List Text) (tld : Text), labels ≠ [] ∧ text = ['.'].intercalate (labels ++ [tld]) ∧
    (∀ label ∈ labels, Label label) ∧ TopLevelDomain tld

def Octet (text : Text) : Prop := ∃ n < 256, text = Nat.toDigits 10 n

def AddressLiteral (text : Text) : Prop :=
  ∃ body, text = '[' :: (body ++ [']']) ∧
    ((∃ octets : List Text, octets.length = 4 ∧ body = ['.'].intercalate octets ∧
      ∀ octet ∈ octets, Octet octet) ∨
    ∃ groups : Text, body = "IPv6:".toList ++ groups ∧ groups ≠ [] ∧
      ∀ c ∈ groups, isHexOrColon c = true)

/-- An address with its local part and its domain. -/
structure Address (text localPart domain : Text) : Prop where
  text_eq : text = localPart ++ '@' :: domain
  localPart : DotAtom localPart ∨ QuotedString localPart
  domain : Hostname domain ∨ AddressLiteral domain

/-! ### The pattern matches the grammar -/

variable {text : Text}

theorem mem_atoms : text ∈ language (.seq (plus emailAtext) (.star (.seq (char '.')
    (plus emailAtext)))) ↔ DotAtom text := by
  rw [mem_separated_star]
  simp only [emailAtext, mem_plus_one]
  rfl

theorem mem_quotedItem : text ∈ language (.alt emailQtext emailQpair) ↔ QuotedItem text := by
  rw [mem_alt, emailQtext, mem_one, emailQpair, mem_before]
  refine or_congr_right ⟨?_, ?_⟩
  · rintro ⟨part, ⟨c, hc, rfl⟩, rfl⟩
    exact ⟨c, hc, rfl⟩
  · rintro ⟨c, hc, rfl⟩
    exact ⟨[c], ⟨c, hc, rfl⟩, rfl⟩

theorem mem_quoted : text ∈ language (.seq (char '"')
    (.seq (.star (.alt emailQtext emailQpair)) (char '"'))) ↔ QuotedString text := by
  simp only [mem_before, mem_after, mem_star, mem_quotedItem, QuotedString]
  constructor
  · rintro ⟨_, ⟨_, ⟨items, rfl, hitems⟩, rfl⟩, rfl⟩
    exact ⟨items, rfl, hitems⟩
  · rintro ⟨items, rfl, hitems⟩
    exact ⟨_, ⟨_, ⟨items, rfl, hitems⟩, rfl⟩, rfl⟩

theorem mem_emailLocalPart :
    text ∈ emailLocalPart.language ↔ DotAtom text ∨ QuotedString text := by
  rw [emailLocalPart, mem_alt, mem_atoms, mem_quoted]

theorem isLdh_of_isAlphanum {c : Char} (h : c.isAlphanum = true) : isLdh c = true := by
  rw [isLdh, h, Bool.true_or]

theorem mem_emailDomainLabel : text ∈ emailDomainLabel.language ↔ Label text := by
  rw [emailDomainLabel, mem_seq]
  constructor
  · rintro ⟨_, b, rfl, ⟨c, hc, rfl⟩, hb⟩
    rcases mem_optional.mp hb with rfl | hb
    · simp [Label, hc, isLdh_of_isAlphanum]
    · obtain ⟨middle, _, rfl, hmiddle, ⟨d, hd, rfl⟩⟩ := mem_seq.mp hb
      obtain ⟨⟨-, hlength⟩, hall⟩ := (mem_between_one (Nat.zero_le _)).mp hmiddle
      have hlength' : ([c] ++ (middle ++ [d])).length = middle.length + 2 := by simp
      refine ⟨⟨by omega, by omega⟩, ?_, by simpa using hc, ?_⟩
      · intro x hx
        rcases List.mem_append.mp hx with hx | hx
        · rw [List.mem_singleton.mp hx]
          exact isLdh_of_isAlphanum hc
        · rcases List.mem_append.mp hx with hx | hx
          · exact hall x hx
          · rw [List.mem_singleton.mp hx]
            exact isLdh_of_isAlphanum hd
      · rw [← List.append_assoc, List.getLast?_concat]
        simpa using hd
  · rintro ⟨⟨hpos, hmax⟩, hall, hhead, hlast⟩
    obtain ⟨c, rest, rfl⟩ := List.exists_cons_of_length_pos hpos
    have hc : c.isAlphanum = true := hhead c rfl
    refine ⟨[c], rest, rfl, ⟨c, hc, rfl⟩, mem_optional.mpr ?_⟩
    rcases List.eq_nil_or_concat rest with rfl | ⟨middle, d, rfl⟩
    · exact .inl rfl
    · simp only [List.concat_eq_append] at hmax hall hlast ⊢
      refine .inr (mem_seq.mpr ⟨middle, [d], rfl, ?_, ⟨d, ?_, rfl⟩⟩)
      · refine (mem_between_one (Nat.zero_le _)).mpr ⟨⟨Nat.zero_le _, ?_⟩, fun x hx => ?_⟩
        · have hlength : (c :: (middle ++ [d])).length = middle.length + 2 := by simp
          omega
        · exact hall x (List.mem_cons_of_mem _ (List.mem_append_left _ hx))
      · refine hlast d ?_
        rw [← List.cons_append, List.getLast?_concat]
        rfl

theorem mem_hostname : text ∈ language (.seq (plus (.seq emailDomainLabel (char '.')))
    (between (.one (·.isAlpha)) 2 63)) ↔ Hostname text := by
  rw [mem_plus_after]
  simp only [mem_emailDomainLabel, mem_between_one (show 2 ≤ 63 by decide)]
  rfl

/-- A digit by its value. -/
theorem exists_digitChar {c : Char} (h : '0' ≤ c ∧ c ≤ '9') :
    ∃ k < 10, c = Nat.digitChar k := by
  have hlow : 48 ≤ c.toNat := h.1
  have hhigh : c.toNat ≤ 57 := h.2
  have hdigits : ∀ k < 10, (Char.ofNat (48 + k)) = Nat.digitChar k := by decide
  refine ⟨c.toNat - 48, by omega, ?_⟩
  rw [← hdigits _ (by omega), Nat.add_sub_cancel' hlow, Char.ofNat_toNat]

theorem mem_digitUpTo {last : Char} (hlast : last ≤ '9') :
    text ∈ (digitUpTo last).language ↔
      ∃ k < 10, Nat.digitChar k ≤ last ∧ text = [Nat.digitChar k] := by
  have hzero : ∀ k < 10, '0' ≤ Nat.digitChar k := by decide
  rw [digitUpTo, mem_one]
  simp only [Bool.and_eq_true, decide_eq_true_eq]
  constructor
  · rintro ⟨c, ⟨hlow, hhigh⟩, rfl⟩
    obtain ⟨k, hk, rfl⟩ := exists_digitChar ⟨hlow, Char.le_trans hhigh hlast⟩
    exact ⟨k, hk, hhigh, rfl⟩
  · rintro ⟨k, hk, hle, rfl⟩
    exact ⟨_, ⟨hzero k hk, hle⟩, rfl⟩

theorem mem_digit : text ∈ digit.language ↔ ∃ k < 10, text = [Nat.digitChar k] := by
  have hdigit : ∀ k < 10, (Nat.digitChar k).isDigit = true := by decide
  rw [digit, mem_one]
  constructor
  · rintro ⟨c, hc, rfl⟩
    simp only [Char.isDigit, Bool.and_eq_true, decide_eq_true_eq] at hc
    obtain ⟨k, hk, rfl⟩ := exists_digitChar hc
    exact ⟨k, hk, rfl⟩
  · rintro ⟨k, hk, rfl⟩
    exact ⟨_, hdigit k hk, rfl⟩

/-- The last digit of a number stands behind those of a tenth of it. -/
theorem toDigits_snoc {n k : Nat} (hn : 0 < n) (hk : k < 10) :
    Nat.toDigits 10 (10 * n + k) = Nat.toDigits 10 n ++ [Nat.digitChar k] := by
  rw [← Nat.toDigits_append_toDigits (by decide) hn hk, Nat.toDigits_of_lt_base hk]

theorem digitChar_le {k bound : Nat} (hk : k < 10) (hbound : bound < 10) :
    Nat.digitChar k ≤ Nat.digitChar bound ↔ k ≤ bound := by
  have hall : ∀ k < 10, ∀ bound < 10, Nat.digitChar k ≤ Nat.digitChar bound ↔ k ≤ bound := by
    decide
  exact hall k hk bound hbound

/-- The four alternatives of the pattern by the digits that they read. -/
theorem mem_ipv4Octet_iff : text ∈ ipv4Octet.language ↔
    (∃ k < 10, k ≤ 5 ∧ text = ['2', '5', Nat.digitChar k]) ∨
    (∃ j < 10, j ≤ 4 ∧ ∃ k < 10, text = ['2', Nat.digitChar j, Nat.digitChar k]) ∨
    (∃ j < 10, ∃ k < 10, text = ['1', Nat.digitChar j, Nat.digitChar k]) ∨
    ∃ k < 10, text = [Nat.digitChar k] ∨
      ∃ j < 10, 1 ≤ j ∧ text = [Nat.digitChar j, Nat.digitChar k] := by
  have htens : ∀ c : Char, ('1' ≤ c && c ≤ '9') = true ↔
      ∃ j < 10, 1 ≤ j ∧ c = Nat.digitChar j := by
    intro c
    simp only [Bool.and_eq_true, decide_eq_true_eq]
    constructor
    · intro ⟨hlow, hhigh⟩
      obtain ⟨j, hj, rfl⟩ := exists_digitChar ⟨Char.le_trans (by decide : '0' ≤ '1') hlow, hhigh⟩
      exact ⟨j, hj, (digitChar_le (by decide) hj).mp hlow, rfl⟩
    · rintro ⟨j, hj, hpos, rfl⟩
      exact ⟨(@digitChar_le 1 j (by decide) hj).mpr hpos,
        (@digitChar_le j 9 hj (by decide)).mpr (by omega)⟩
  simp only [ipv4Octet, mem_alt]
  refine or_congr ?_ (or_congr ?_ (or_congr ?_ ?_))
  · constructor
    · intro h
      obtain ⟨_, _, rfl, ha, hb⟩ := mem_seq.mp h
      obtain rfl := mem_literal.mp ha
      obtain ⟨k, hk, hle, rfl⟩ := (mem_digitUpTo (by decide)).mp hb
      exact ⟨k, hk, (@digitChar_le k 5 hk (by decide)).mp hle, rfl⟩
    · rintro ⟨k, hk, hle, rfl⟩
      exact mem_seq.mpr ⟨['2', '5'], [_], rfl, mem_literal.mpr rfl, (mem_digitUpTo (by decide)).mpr
        ⟨k, hk, (@digitChar_le k 5 hk (by decide)).mpr hle, rfl⟩⟩
  · rw [mem_before]
    simp only [mem_seq, mem_digitUpTo (by decide : '4' ≤ '9'), mem_digit]
    constructor
    · rintro ⟨_, ⟨_, _, rfl, ⟨j, hj, hle, rfl⟩, ⟨k, hk, rfl⟩⟩, rfl⟩
      exact ⟨j, hj, (@digitChar_le j 4 hj (by decide)).mp hle, k, hk, rfl⟩
    · rintro ⟨j, hj, hle, k, hk, rfl⟩
      exact ⟨_, ⟨[_], [_], rfl, ⟨j, hj, (@digitChar_le j 4 hj (by decide)).mpr hle, rfl⟩,
        ⟨k, hk, rfl⟩⟩, rfl⟩
  · rw [mem_before]
    simp only [exactly, mem_seq, mem_empty, mem_digit]
    constructor
    · rintro ⟨_, ⟨_, _, rfl, ⟨j, hj, rfl⟩, ⟨_, _, rfl, ⟨k, hk, rfl⟩, rfl⟩⟩, rfl⟩
      exact ⟨j, hj, k, hk, rfl⟩
    · rintro ⟨j, hj, k, hk, rfl⟩
      exact ⟨_, ⟨[_], [_], rfl, ⟨j, hj, rfl⟩, ⟨[_], [], rfl, ⟨k, hk, rfl⟩, rfl⟩⟩, rfl⟩
  · simp only [mem_seq, mem_optional, mem_digit, mem_one, htens]
    constructor
    · rintro ⟨_, _, rfl, rfl | ⟨_, ⟨j, hj, hpos, rfl⟩, rfl⟩, ⟨k, hk, rfl⟩⟩
      · exact ⟨k, hk, .inl rfl⟩
      · exact ⟨k, hk, .inr ⟨j, hj, hpos, rfl⟩⟩
    · rintro ⟨k, hk, rfl | ⟨j, hj, hpos, rfl⟩⟩
      · exact ⟨[], [_], rfl, .inl rfl, k, hk, rfl⟩
      · exact ⟨[_], [_], rfl, .inr ⟨_, ⟨j, hj, hpos, rfl⟩, rfl⟩, k, hk, rfl⟩

theorem mem_ipv4Octet : text ∈ ipv4Octet.language ↔ Octet text := by
  have htwo {j k : Nat} (hpos : 0 < j) (hj : j < 10) (hk : k < 10) :
      Nat.toDigits 10 (10 * j + k) = [Nat.digitChar j, Nat.digitChar k] := by
    rw [toDigits_snoc hpos hk, Nat.toDigits_of_lt_base hj]
    rfl
  have hthree {i j k : Nat} (hpos : 0 < i) (hi : i < 10) (hj : j < 10) (hk : k < 10) :
      Nat.toDigits 10 (10 * (10 * i + j) + k) =
        [Nat.digitChar i, Nat.digitChar j, Nat.digitChar k] := by
    rw [toDigits_snoc (by omega) hk, htwo hpos hi hj]
    rfl
  rw [mem_ipv4Octet_iff]
  constructor
  · rintro (⟨k, hk, hle, rfl⟩ | ⟨j, hj, hle, k, hk, rfl⟩ | ⟨j, hj, k, hk, rfl⟩ |
      ⟨k, hk, rfl | ⟨j, hj, hpos, rfl⟩⟩)
    · exact ⟨_, by omega, (@hthree 2 5 k (by decide) (by decide) (by decide) hk).symm⟩
    · exact ⟨_, by omega, (@hthree 2 j k (by decide) (by decide) hj hk).symm⟩
    · exact ⟨_, by omega, (@hthree 1 j k (by decide) (by decide) hj hk).symm⟩
    · exact ⟨k, by omega, (Nat.toDigits_of_lt_base hk).symm⟩
    · exact ⟨_, by omega, (htwo hpos hj hk).symm⟩
  · rintro ⟨n, hn, rfl⟩
    obtain ⟨m, k, hk, rfl⟩ : ∃ m k, k < 10 ∧ n = 10 * m + k := ⟨n / 10, n % 10, by omega, by omega⟩
    rcases Nat.eq_zero_or_pos m with rfl | hpos
    · rw [Nat.mul_zero, Nat.zero_add]
      exact .inr (.inr (.inr ⟨k, hk, .inl (Nat.toDigits_of_lt_base hk)⟩))
    by_cases hten : m < 10
    · exact .inr (.inr (.inr ⟨k, hk, .inr ⟨m, hten, hpos, htwo hpos hten hk⟩⟩))
    obtain ⟨i, j, hj, rfl⟩ : ∃ i j, j < 10 ∧ m = 10 * i + j := ⟨m / 10, m % 10, by omega, by omega⟩
    obtain rfl | rfl : i = 1 ∨ i = 2 := by omega
    · exact .inr (.inr (.inl ⟨j, hj, k, hk, hthree (by decide) (by decide) hj hk⟩))
    by_cases hfour : j ≤ 4
    · exact .inr (.inl ⟨j, hj, hfour, k, hk, hthree (by decide) (by decide) hj hk⟩)
    obtain rfl : j = 5 := by omega
    exact .inl ⟨k, hk, by omega, hthree (by decide) (by decide) hj hk⟩

theorem mem_emailDomain : text ∈ emailDomain.language ↔ Hostname text ∨ AddressLiteral text := by
  rw [emailDomain, mem_alt, mem_hostname]
  refine or_congr_right ?_
  have hgroups : ∀ body, body ∈ language (.seq (literal "IPv6:".toList)
      (plus (.one isHexOrColon))) ↔ ∃ groups : Text, body = "IPv6:".toList ++ groups ∧
        groups ≠ [] ∧ ∀ c ∈ groups, isHexOrColon c = true := by
    intro body
    simp only [mem_seq, mem_literal, mem_plus_one]
    constructor
    · rintro ⟨_, groups, rfl, rfl, hne, hall⟩
      exact ⟨groups, rfl, hne, hall⟩
    · rintro ⟨groups, rfl, hne, hall⟩
      exact ⟨_, groups, rfl, rfl, hne, hall⟩
  simp only [mem_before, mem_after, mem_alt, hgroups, mem_separated_exactly, mem_ipv4Octet,
    AddressLiteral]
  constructor
  · rintro ⟨_, ⟨body, hbody, rfl⟩, rfl⟩
    exact ⟨body, rfl, hbody⟩
  · rintro ⟨body, rfl, hbody⟩
    exact ⟨_, ⟨body, hbody, rfl⟩, rfl⟩

/-! ### The characters of an address -/

theorem toNat_of_isAlphanum {c : Char} (h : c.isAlphanum = true) :
    (48 ≤ c.toNat ∧ c.toNat ≤ 57) ∨ (65 ≤ c.toNat ∧ c.toNat ≤ 90) ∨
      (97 ≤ c.toNat ∧ c.toNat ≤ 122) := by
  simp only [Char.isAlphanum, Char.isAlpha, Char.isUpper, Char.isLower, Char.isDigit,
    Bool.or_eq_true, Bool.and_eq_true, decide_eq_true_eq] at h
  rcases h with (h | h) | h
  · exact .inr (.inl ⟨h.1, h.2⟩)
  · exact .inr (.inr ⟨h.1, h.2⟩)
  · exact .inl ⟨h.1, h.2⟩

theorem isQuotable_iff {c : Char} : isQuotable c = true ↔
    c.toNat = 9 ∨ (32 ≤ c.toNat ∧ c.toNat ≤ 126) := by
  have htab : c = '\t' ↔ c.toNat = 9 := Char.toNat_inj.symm
  rw [isQuotable, Bool.or_eq_true, Bool.and_eq_true, decide_eq_true_eq, decide_eq_true_eq,
    decide_eq_true_eq, htab]
  rfl

theorem isNoLineEnd_of_isQuotable {c : Char} (h : isQuotable c = true) : isNoLineEnd c = true := by
  rw [isQuotable_iff] at h
  have hnewline : c ≠ '\n' := fun heq => by rw [heq] at h; revert h; decide
  have hreturn : c ≠ '\r' := fun heq => by rw [heq] at h; revert h; decide
  have hother : ¬c.toNat = 133 ∧ ¬c.toNat = 8232 ∧ ¬c.toNat = 8233 := by omega
  simp [isNoLineEnd, hnewline, hreturn, hother]

theorem ne_at_of_toNat {c : Char} (h : c.toNat ≠ 64) : c ≠ '@' := by
  rintro rfl
  exact h rfl

theorem isQuotable_of_isAlphanum {c : Char} (h : c.isAlphanum = true) :
    isQuotable c = true ∧ c ≠ '@' := by
  have hbounds := toNat_of_isAlphanum h
  exact ⟨isQuotable_iff.mpr (by omega), ne_at_of_toNat (by omega)⟩

theorem isQuotable_of_isAtext {c : Char} (h : isAtext c = true) :
    isQuotable c = true ∧ c ≠ '@' := by
  rw [isAtext, Bool.or_eq_true] at h
  rcases h with h | h
  · exact isQuotable_of_isAlphanum h
  · have hall : ("!#$%&'*+/=?^_`\x7b|\x7d~-".toList.all fun c =>
        isQuotable c && c ≠ '@') = true := by decide
    simpa using List.all_eq_true.mp hall c (List.contains_iff_mem.mp h)

theorem isQuotable_of_isQtext {c : Char} (h : isQtext c = true) : isQuotable c = true := by
  simp only [isQtext, Bool.or_eq_true, Bool.and_eq_true, decide_eq_true_eq] at h
  rcases h with (rfl | ⟨hlow, hhigh⟩) | ⟨hlow, hhigh⟩
  · rfl
  · have hlow : 35 ≤ c.toNat := hlow
    have hhigh : c.toNat ≤ 91 := hhigh
    exact isQuotable_iff.mpr (by omega)
  · have hlow : 93 ≤ c.toNat := hlow
    have hhigh : c.toNat ≤ 126 := hhigh
    exact isQuotable_iff.mpr (by omega)

theorem isQuotable_of_isLdh {c : Char} (h : isLdh c = true) : isQuotable c = true ∧ c ≠ '@' := by
  rw [isLdh, Bool.or_eq_true, decide_eq_true_eq] at h
  rcases h with h | rfl
  · exact isQuotable_of_isAlphanum h
  · decide

theorem isQuotable_of_isHexOrColon {c : Char} (h : isHexOrColon c = true) :
    isQuotable c = true ∧ c ≠ '@' := by
  simp only [isHexOrColon, Bool.or_eq_true, Bool.and_eq_true, decide_eq_true_eq] at h
  rcases h with ((h | ⟨hlow, hhigh⟩) | ⟨hlow, hhigh⟩) | rfl
  · exact isQuotable_of_isAlphanum (by simp [Char.isAlphanum, h])
  · have hlow : 65 ≤ c.toNat := hlow
    have hhigh : c.toNat ≤ 70 := hhigh
    exact ⟨isQuotable_iff.mpr (by omega), ne_at_of_toNat (by omega)⟩
  · have hlow : 97 ≤ c.toNat := hlow
    have hhigh : c.toNat ≤ 102 := hhigh
    exact ⟨isQuotable_iff.mpr (by omega), ne_at_of_toNat (by omega)⟩
  · decide

theorem mem_intercalate {sep c : Char} {parts : List Text} (h : c ∈ [sep].intercalate parts) :
    c = sep ∨ ∃ part ∈ parts, c ∈ part := by
  cases parts with
  | nil => cases h
  | cons first rest =>
    rw [intercalate_cons, List.mem_append, List.mem_flatMap] at h
    rcases h with h | ⟨part, hpart, h⟩
    · exact .inr ⟨first, List.mem_cons_self, h⟩
    · rcases List.mem_cons.mp h with rfl | h
      · exact .inl rfl
      · exact .inr ⟨part, List.mem_cons_of_mem _ hpart, h⟩

theorem isQuotable_of_mem_dotAtom (h : DotAtom text) {c : Char} (hc : c ∈ text) :
    isQuotable c = true := by
  obtain ⟨atoms, -, rfl, hatoms⟩ := h
  rcases mem_intercalate hc with rfl | ⟨atom, hatom, hc⟩
  · rfl
  · exact (isQuotable_of_isAtext ((hatoms atom hatom).2 c hc)).1

theorem isQuotable_of_mem_quotedString (h : QuotedString text) {c : Char} (hc : c ∈ text) :
    isQuotable c = true := by
  obtain ⟨items, rfl, hitems⟩ := h
  rcases List.mem_cons.mp hc with rfl | hc
  · rfl
  · rcases List.mem_append.mp hc with hc | hc
    · obtain ⟨item, hitem, hc⟩ := List.mem_flatten.mp hc
      rcases hitems item hitem with ⟨d, hd, rfl⟩ | ⟨d, hd, rfl⟩
      · rw [List.mem_singleton.mp hc]
        exact isQuotable_of_isQtext hd
      · rcases List.mem_cons.mp hc with rfl | hc
        · rfl
        · rw [List.mem_singleton.mp hc]
          exact hd
    · rw [List.mem_singleton.mp hc]
      rfl

theorem isQuotable_of_mem_domain (h : Hostname text ∨ AddressLiteral text) {c : Char}
    (hc : c ∈ text) : isQuotable c = true ∧ c ≠ '@' := by
  rcases h with ⟨labels, tld, -, rfl, hlabels, htld⟩ | ⟨body, rfl, hbody⟩
  · rcases mem_intercalate hc with rfl | ⟨part, hpart, hc⟩
    · decide
    · rcases List.mem_append.mp hpart with hpart | hpart
      · exact isQuotable_of_isLdh ((hlabels part hpart).2.1 c hc)
      · rw [List.mem_singleton.mp hpart] at hc
        exact isQuotable_of_isAlphanum (by simp [Char.isAlphanum, htld.2 c hc])
  · rcases List.mem_cons.mp hc with rfl | hc
    · decide
    · rcases List.mem_append.mp hc with hc | hc
      · rcases hbody with ⟨octets, -, rfl, hoctets⟩ | ⟨groups, rfl, -, hgroups⟩
        · rcases mem_intercalate hc with rfl | ⟨octet, hoctet, hc⟩
          · decide
          · obtain ⟨n, -, rfl⟩ := hoctets octet hoctet
            have hdigit := Decimal.isDigit_of_mem_digits hc
            exact isQuotable_of_isAlphanum (by simp [Char.isAlphanum, hdigit])
        · rcases List.mem_append.mp hc with hc | hc
          · have hall : ("IPv6:".toList.all fun c => isQuotable c && c ≠ '@') = true := by decide
            simpa using List.all_eq_true.mp hall c hc
          · exact isQuotable_of_isHexOrColon (hgroups c hc)
      · rw [List.mem_singleton.mp hc]
        decide

/-! ### The caps on the lengths -/

/-- The number of characters before the first `@`. -/
def beforeAt (text : Text) : Nat := (text.takeWhile (· ≠ '@')).length

theorem beforeAt_append {a : Text} (b : Text) (ha : '@' ∉ a) :
    beforeAt (a ++ '@' :: b) = a.length := by
  have hall : ∀ c ∈ a, decide (c ≠ '@') = true := fun c hc =>
    decide_eq_true fun heq => ha (heq ▸ hc)
  rw [beforeAt, List.takeWhile_append_of_pos hall, List.takeWhile_cons_of_neg (by simp),
    List.append_nil]

theorem mem_localCap : text ∈ localCap.language ↔
    '@' ∈ text ∧ 1 ≤ beforeAt text ∧ beforeAt text ≤ 64 := by
  rw [localCap, mem_seq]
  simp only [mem_between_one (show 1 ≤ 64 by decide), mem_before, mem_star_one,
    decide_eq_true_eq]
  constructor
  · rintro ⟨a, _, rfl, ⟨hlength, ha⟩, b, -, rfl⟩
    rw [beforeAt_append b fun hmem => ha '@' hmem rfl]
    exact ⟨by simp, hlength⟩
  · rintro ⟨hmem, hlength⟩
    obtain ⟨a, b, rfl, ha⟩ := List.eq_append_cons_of_mem hmem
    rw [beforeAt_append b ha] at hlength
    exact ⟨a, _, rfl, ⟨hlength, fun c hc heq => ha (heq ▸ hc)⟩, b, fun _ _ => trivial, rfl⟩

theorem Address.isQuotable {localPart domain : Text} (h : Address text localPart domain) :
    ∀ c ∈ text, isQuotable c = true := by
  intro c hc
  rw [h.text_eq] at hc
  rcases List.mem_append.mp hc with hc | hc
  · exact h.localPart.elim (isQuotable_of_mem_dotAtom · hc) (isQuotable_of_mem_quotedString · hc)
  · rcases List.mem_cons.mp hc with rfl | hc
    · decide
    · exact (isQuotable_of_mem_domain h.domain hc).1

/-- The `@` between the two parts is the last one. -/
theorem Address.unique {a b a' b' : Text} (h : Address text a b) (h' : Address text a' b') :
    a = a' := by
  have hlast : ∀ {a b a' b' : Text}, Address text a b → Address text a' b' →
      ∀ rest, a' = a ++ rest → a = a' := by
    rintro a b _ b' h h' rest rfl
    cases rest with
    | nil => rw [List.append_nil]
    | cons c rest =>
      have heq := h.text_eq.symm.trans h'.text_eq
      rw [List.append_assoc, List.append_cancel_left_eq, List.cons_append] at heq
      have hmem : '@' ∈ b := by
        rw [(List.cons.inj heq).2]
        exact List.mem_append_right _ List.mem_cons_self
      exact absurd rfl (isQuotable_of_mem_domain h.domain hmem).2
  rcases List.append_eq_append_iff.mp (h.text_eq.symm.trans h'.text_eq) with
    ⟨rest, ha, -⟩ | ⟨rest, ha, -⟩
  · exact hlast h h' rest ha
  · exact (hlast h' h rest ha).symm

/-- The first character of a local part is no `@`. -/
theorem head_localPart {localPart : Text} (h : DotAtom localPart ∨ QuotedString localPart) :
    ∃ c rest, localPart = c :: rest ∧ c ≠ '@' := by
  rcases h with ⟨atoms, hne, rfl, hatoms⟩ | ⟨items, rfl, -⟩
  · obtain ⟨atom, atoms, rfl⟩ := List.exists_cons_of_ne_nil hne
    obtain ⟨hatom, hall⟩ := hatoms atom List.mem_cons_self
    obtain ⟨c, rest, rfl⟩ := List.exists_cons_of_ne_nil hatom
    rw [intercalate_cons]
    exact ⟨c, _, rfl, (isQuotable_of_isAtext (hall c List.mem_cons_self)).2⟩
  · exact ⟨'"', _, rfl, by decide⟩

theorem mem_emailAddress : text ∈ emailAddress.language ↔
    ∃ localPart domain, Address text localPart domain ∧ text.length ≤ 254 ∧ beforeAt text ≤ 64 := by
  rw [emailAddress, mem_both, mem_both, totalCap, mem_between_one (by decide), mem_localCap,
    mem_seq]
  simp only [mem_emailLocalPart, mem_before, mem_emailDomain]
  constructor
  · rintro ⟨⟨⟨-, htotal⟩, -⟩, ⟨-, -, hbefore⟩, a, _, rfl, ha, b, hb, rfl⟩
    exact ⟨a, b, ⟨rfl, ha, hb⟩, htotal, hbefore⟩
  · rintro ⟨a, b, h, htotal, hbefore⟩
    obtain ⟨c, rest, hhead, hc⟩ := head_localPart h.localPart
    have hmem : '@' ∈ text := by
      rw [h.text_eq]
      exact List.mem_append_right _ List.mem_cons_self
    have hpos : 1 ≤ beforeAt text := by
      rw [h.text_eq, hhead, beforeAt, List.cons_append,
        List.takeWhile_cons_of_pos (by simpa using hc)]
      exact Nat.succ_pos _
    exact ⟨⟨⟨List.length_pos_of_mem hmem, htotal⟩,
      fun c hc => isNoLineEnd_of_isQuotable (h.isQuotable c hc)⟩, ⟨hmem, hpos, hbefore⟩,
      a, _, h.text_eq, h.localPart, b, h.domain, rfl⟩

/-! ### The caps of the grammar -/

/-- An address with at most 64 characters before the `@` that separates its parts, and at most 254 in
all. -/
def InGrammar (text : Text) : Prop :=
  ∃ localPart domain, Address text localPart domain ∧ localPart.length ≤ 64 ∧ text.length ≤ 254

/-- An address with a quoted local part that is too long, and an `@` among its first characters. -/
def LongQuoted (text : Text) : Prop :=
  ∃ localPart domain, Address text localPart domain ∧ text.length ≤ 254 ∧
    64 < localPart.length ∧ '@' ∈ localPart.take 65

theorem Address.beforeAt_le_iff {localPart domain : Text} (h : Address text localPart domain)
    (hlong : 64 < localPart.length) : beforeAt text ≤ 64 ↔ '@' ∈ localPart.take 65 := by
  have htake : text.take 65 = localPart.take 65 := by
    rw [h.text_eq, List.take_append_of_le_length hlong]
  constructor
  · intro hbefore
    have hmem : '@' ∈ text := by
      rw [h.text_eq]
      exact List.mem_append_right _ List.mem_cons_self
    obtain ⟨a, b, heq, ha⟩ := List.eq_append_cons_of_mem hmem
    rw [heq, beforeAt_append b ha] at hbefore
    rw [← htake, heq, List.take_append, List.take_of_length_le (by omega)]
    refine List.mem_append_right _ ?_
    obtain ⟨n, hn⟩ : ∃ n, 65 - a.length = n + 1 := ⟨64 - a.length, by omega⟩
    rw [hn, List.take_succ_cons]
    exact List.mem_cons_self
  · intro hmem
    obtain ⟨a, b, heq, ha⟩ := List.eq_append_cons_of_mem hmem
    have htext : text = a ++ '@' :: (b ++ text.drop 65) := by
      rw [← List.cons_append, ← List.append_assoc, ← heq, ← htake, List.take_append_drop]
    have hlength := congrArg List.length heq
    rw [List.length_take, List.length_append, List.length_cons] at hlength
    rw [htext, beforeAt_append _ ha]
    omega

/-- A text is accepted exactly if it is of the grammar and within the caps, unless its local part is
quoted and longer than its first `@` lets it appear. -/
theorem accepts_iff_inGrammar_iff (text : Text) :
    (emailAddress.accepts text = true ↔ InGrammar text) ↔ ¬LongQuoted text := by
  rw [accepts_iff, mem_emailAddress]
  constructor
  · rintro haccepts ⟨a, b, h, htotal, hlong, hmem⟩
    obtain ⟨a', b', h', hshort, -⟩ :=
      haccepts.mp ⟨a, b, h, htotal, (h.beforeAt_le_iff hlong).mpr hmem⟩
    rw [h.unique h'] at hlong
    omega
  · intro hnone
    constructor
    · rintro ⟨a, b, h, htotal, hbefore⟩
      refine ⟨a, b, h, ?_, htotal⟩
      by_contra hlong
      have hlong : 64 < a.length := by omega
      exact hnone ⟨a, b, h, htotal, hlong, (h.beforeAt_le_iff hlong).mp hbefore⟩
    · rintro ⟨a, b, h, hshort, htotal⟩
      refine ⟨a, b, h, htotal, ?_⟩
      by_cases hmem : '@' ∈ a
      · obtain ⟨u, v, rfl, hu⟩ := List.eq_append_cons_of_mem hmem
        rw [h.text_eq, List.append_assoc, List.cons_append, beforeAt_append _ hu]
        rw [List.length_append] at hshort
        omega
      · rw [h.text_eq, beforeAt_append _ hmem]
        exact hshort

/-- A quoted `@` and a hundred letters. -/
def longLocalPart : Text := '"' :: ('@' :: List.replicate 100 'a' ++ ['"'])

/-- An address with a local part of 103 characters is accepted. -/
theorem longLocalPart_accepted :
    emailAddress.accepts (longLocalPart ++ '@' :: "example.com".toList) = true ∧
      ¬InGrammar (longLocalPart ++ '@' :: "example.com".toList) := by
  have hlocal : QuotedString longLocalPart := by
    refine ⟨['@'] :: List.replicate 100 ['a'], ?_, ?_⟩
    · decide
    · intro item hitem
      rcases List.mem_cons.mp hitem with rfl | hitem
      · exact .inl ⟨'@', by decide, rfl⟩
      · rw [List.eq_of_mem_replicate hitem]
        exact .inl ⟨'a', by decide, rfl⟩
  have hdomain : Hostname "example.com".toList := by
    refine ⟨["example".toList], "com".toList, nofun, by decide, ?_, by decide, ?_⟩
    · intro label hlabel
      rw [List.mem_singleton.mp hlabel]
      refine ⟨by decide, ?_, ?_, ?_⟩
      · exact List.all_eq_true.mp (by decide : ("example".toList.all isLdh) = true)
      · simp
      · simp
    · exact List.all_eq_true.mp (by decide : ("com".toList.all (·.isAlpha)) = true)
  have hlength : longLocalPart.length = 103 := by simp [longLocalPart]
  have haddress : Address (longLocalPart ++ '@' :: "example.com".toList) longLocalPart
      "example.com".toList := ⟨rfl, .inr hlocal, .inl hdomain⟩
  constructor
  · rw [accepts_iff, mem_emailAddress]
    refine ⟨_, _, haddress, ?_, (haddress.beforeAt_le_iff ?_).mpr ?_⟩
    · rw [List.length_append, hlength]
      decide
    · rw [hlength]
      decide
    · rw [longLocalPart, List.take_succ_cons, List.cons_append, List.take_succ_cons]
      simp
  · rintro ⟨a, b, h, hshort, -⟩
    rw [← haddress.unique h, hlength] at hshort
    exact absurd hshort (by decide)

end Dqx.Patterns
