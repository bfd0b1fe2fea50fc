import Dqx.Upserts.Dialects

/-! Which values the two dialects read back as they were passed. -/

namespace Dqx.Upserts

open Lib Lib.Sql SqlUtils

/-- The expressions of the present time that both executors take. -/
def portableTimestamps : List Text := ["current_timestamp()".toList, "now()".toList]

/-- A value that both executors take: raw text only as a portable timestamp. -/
def Value.Portable : Value → Prop
  | .raw expr => expr ∈ portableTimestamps
  | _ => True

instance : (value : Value) → Decidable value.Portable
  | .raw expr => inferInstanceAs (Decidable (expr ∈ portableTimestamps))
  | .none | .bool _ | .int _ | .str _ => inferInstanceAs (Decidable True)

/-- What a portable value is. -/
def Value.stored (now : Int) : Value → Cell
  | .raw _ => .timestamp now
  | .none => .null
  | .bool b => .bool b
  | .int n => .int n
  | .str text => .text text

theorem isDigits_toDigits (n : Nat) : IsDigits (Nat.toDigits 10 n) := by
  refine ⟨Nat.toDigits_ne_nil, List.all_eq_true.mpr fun c hc => ?_⟩
  exact Nat.isDigit_of_mem_toDigits (by decide) (by decide) hc

theorem constant_toDigits (n : Nat) : constant (Nat.toDigits 10 n) = .ok (.int n) := by
  obtain ⟨hne, hall⟩ := isDigits_toDigits n
  rw [constant, if_pos ⟨hne, hall⟩, Digits.value_toDigits (by decide) (by decide)]

theorem intRepr_eq (n : Int) : 0 ≤ n ∧ intRepr n = Nat.toDigits 10 n.natAbs ∨
    n < 0 ∧ intRepr n = '-' :: Nat.toDigits 10 n.natAbs := by
  unfold intRepr
  by_cases h : n < 0
  · exact .inr ⟨h, by rw [if_pos h]; rfl⟩
  · exact .inl ⟨not_lt.mp h, by rw [if_neg h]; rfl⟩

namespace Databricks

theorem evaluate_intRepr (now n : Int) : evaluate now (intRepr n) = .ok (.int n) := by
  have hdigits := isDigits_toDigits n.natAbs
  have hscan := scan_digits hdigits
  rcases intRepr_eq n with ⟨hn, hrepr⟩ | ⟨hn, hrepr⟩
  · have hlex : lex (Nat.toDigits 10 n.natAbs) = [.word (Nat.toDigits 10 n.natAbs)] :=
      lex_of_scan hscan
    have habs : (n.natAbs : Int) = n := by omega
    rw [hrepr, evaluate, hlex]
    simp only [constant_toDigits, habs]
  · obtain ⟨c, digits, hcons⟩ := List.exists_cons_of_ne_nil hdigits.1
    have hc : c.isDigit = true := List.all_eq_true.mp hdigits.2 c (hcons ▸ List.mem_cons_self)
    rw [hcons] at hscan
    have hlex : lex ('-' :: Nat.toDigits 10 n.natAbs) =
        [.symbol ['-'], .word (Nat.toDigits 10 n.natAbs)] := by
      rw [hcons, lex, scan_negative hc hscan]
      rfl
    have habs : -(n.natAbs : Int) = n := by omega
    rw [hrepr, evaluate, hlex]
    simp only [hdigits.2, if_true, Digits.value_toDigits (by decide : 1 < 10) (by decide), habs]

/-- A value that is read back: a string, only if it is readable. -/
theorem evaluate_renderValue {now : Int} {value : Value} (portable : value.Portable)
    (hstr : ∀ text, value = .str text → Readable text) :
    evaluate now (renderValue value) = .ok (value.stored now) := by
  cases value with
  | raw expr =>
    have hexpr : expr = "current_timestamp()".toList ∨ expr = "now()".toList := by
      simpa [Value.Portable, portableTimestamps] using portable
    rcases hexpr with rfl | rfl <;> rfl
  | none => rfl
  | bool b => cases b <;> rfl
  | int n => exact evaluate_intRepr now n
  | str text =>
    have readable := hstr text rfl
    have hlex : lex (renderValue (.str text)) = [.string '\'' (double '\'' text)] :=
      lex_quoted readable
    rw [evaluate, hlex]
    simp only [denotes_double readable]
    rfl

theorem readable_of_evaluate {now : Int} {text : Text}
    (h : evaluate now (renderValue (.str text)) = .ok (.text text)) : Readable text := by
  apply readable_of_strings
  change evaluate now (quoted text) = _ at h
  unfold evaluate at h
  split at h
  · next content hlex =>
    rw [hlex]
    obtain rfl : denotes content = text := by simpa using h
    rfl
  · split at h <;> cases h
  · split at h <;> cases h
  · next word _ =>
    unfold constant at h
    split at h
    · cases h
    · split at h
      · cases h
      · split at h
        · cases h
        · split at h <;> cases h
  · cases h

end Databricks

namespace Postgres

theorem literal_cons {c : Char} (hquote : c ≠ '\'') (hnul : c ≠ Char.ofNat 0) {text : Text}
    (h : text ≠ []) : literal (c :: text) = (literal text).map (c :: ·) := by
  obtain ⟨d, text, rfl⟩ := List.exists_cons_of_ne_nil h
  rw [literal, if_neg hquote, if_neg hnul]

/-- A literal holds its text, unless that has a NUL. -/
theorem literal_double (text : Text) : literal (double '\'' text ++ ['\'']) =
    if Char.ofNat 0 ∈ text then .error .syntaxError else .ok text := by
  induction text with
  | nil => rfl
  | cons c text ih =>
    by_cases hquote : c = '\''
    · subst hquote
      have hne : Char.ofNat 0 ≠ '\'' := by decide
      rw [double_cons_self, List.cons_append, List.cons_append, literal, if_pos rfl, if_pos rfl, ih]
      simp only [List.mem_cons, hne, false_or]
      split <;> rfl
    · have hrest : double '\'' text ++ ['\''] ≠ [] := by simp
      rw [double_cons_of_ne hquote, List.cons_append]
      by_cases hnul : c = Char.ofNat 0
      · obtain ⟨d, rest, hcons⟩ := List.exists_cons_of_ne_nil hrest
        rw [hcons, literal, if_neg hquote, if_pos hnul, if_pos (hnul ▸ List.mem_cons_self)]
      · rw [literal_cons hquote hnul hrest, ih]
        simp only [List.mem_cons, Ne.symm hnul, false_or]
        split <;> rfl

theorem evaluate_str (now : Int) (text : Text) : evaluate now (pgRenderValue (.str text)) =
    if Char.ofNat 0 ∈ text then .error .syntaxError else .ok (.text text) := by
  change (literal (double '\'' text ++ ['\''])).map Cell.text = _
  rw [literal_double]
  split <;> rfl

theorem evaluate_intRepr (now n : Int) : evaluate now (intRepr n) = .ok (.int n) := by
  have hdigits := isDigits_toDigits n.natAbs
  rcases intRepr_eq n with ⟨hn, hrepr⟩ | ⟨hn, hrepr⟩
  · have habs : (n.natAbs : Int) = n := by omega
    have hconstant := constant_toDigits n.natAbs
    obtain ⟨c, digits, hcons⟩ := List.exists_cons_of_ne_nil hdigits.1
    have hc : c.isDigit = true := List.all_eq_true.mp hdigits.2 c (hcons ▸ List.mem_cons_self)
    have hdigit : ∀ {d : Char}, d.isDigit = false → c ≠ d := by
      rintro d hd rfl
      rw [hc] at hd
      cases hd
    rw [hrepr]
    rw [hcons] at hconstant ⊢
    unfold evaluate
    split
    · next heq => exact absurd (List.cons.inj heq).1 (hdigit (by decide))
    · next heq => exact absurd (List.cons.inj heq).1 (hdigit (by decide))
    · rw [hconstant, habs]
  · have habs : -(n.natAbs : Int) = n := by omega
    rw [hrepr]
    unfold evaluate
    simp only [hdigits.1, hdigits.2, ne_eq, not_false_eq_true, and_self, if_true,
      Digits.value_toDigits (by decide : 1 < 10) (by decide), habs]

theorem evaluate_pgRenderValue {now : Int} {value : Value} (portable : value.Portable)
    (hstr : ∀ text, value = .str text → Char.ofNat 0 ∉ text) :
    evaluate now (pgRenderValue value) = .ok (value.stored now) := by
  cases value with
  | raw expr =>
    have hexpr : expr = "current_timestamp()".toList ∨ expr = "now()".toList := by
      simpa [Value.Portable, portableTimestamps] using portable
    rcases hexpr with rfl | rfl <;> rfl
  | none => rfl
  | bool b => cases b <;> rfl
  | int n => exact evaluate_intRepr now n
  | str text => rw [evaluate_str, if_neg (hstr text rfl)]; rfl

end Postgres

end Dqx.Upserts
