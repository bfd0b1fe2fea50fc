import Mathlib.Data.List.Basic
import Mathlib.Data.List.Infix
import Mathlib.Data.List.Count

/-! Texts with markers: the places where markers stand, filling these places, and when the
replacements of one marker after the other come to filling them all at once. -/

namespace Dqx.Lib.Markers

variable {α : Type*}

/-- A piece of a text: a character, or a place where a marker stands. -/
inductive Fragment (α : Type*) where
  | lit (c : α)
  | marker (text : List α)
  deriving DecidableEq

/-- The text with each marker that has a value replaced by it. -/
def fill (value : List α → Option (List α)) (tokens : List (Fragment α)) : List α :=
  tokens.flatMap fun
    | .lit c => [c]
    | .marker text => (value text).getD text

/-- One more marker with a value. -/
def withValue [DecidableEq α] (value : List α → Option (List α)) (old new : List α) :
    List α → Option (List α) :=
  fun text => if text = old then some new else value text

/-- The filled text with the places of one marker that is not filled yet. -/
def placesOf [DecidableEq α] (old : List α) (value : List α → Option (List α))
    (tokens : List (Fragment α)) : List (Fragment α) :=
  tokens.flatMap fun
    | .lit c => [.lit c]
    | .marker text => if text = old then [.marker old] else ((value text).getD text).map .lit

section Scan

variable [DecidableEq α]

/-- The places of the markers from left to right; of several that stand at one place, the first. -/
def scanFrom (markers : List (List α)) : ℕ → List α → List (Fragment α)
  | _, [] => []
  | skip + 1, _ :: text => scanFrom markers skip text
  | 0, c :: text =>
    match markers.find? fun marker => marker.isPrefixOf (c :: text) with
    | none => .lit c :: scanFrom markers 0 text
    | some marker => .marker marker :: scanFrom markers (marker.length - 1) text

def scan (markers : List (List α)) (text : List α) : List (Fragment α) := scanFrom markers 0 text

/-- `text.replace(old, new)` for a text *old* that is not empty. -/
def replace (old new text : List α) : List α := fill (fun _ => some new) (scan [old] text)

end Scan

/-- No proper part of the text both begins and ends it. -/
def BorderFree (text : List α) : Prop :=
  text ≠ [] ∧ ∀ border, border ≠ [] → border <+: text → border <:+ text → border = text

@[simp] theorem fill_nil (value : List α → Option (List α)) : fill value [] = [] := rfl

@[simp] theorem fill_lit (value : List α → Option (List α)) (c : α) (tokens : List (Fragment α)) :
    fill value (.lit c :: tokens) = c :: fill value tokens := rfl

@[simp] theorem fill_marker (value : List α → Option (List α)) (text : List α)
    (tokens : List (Fragment α)) :
    fill value (.marker text :: tokens) = (value text).getD text ++ fill value tokens := rfl

theorem fill_append (value : List α → Option (List α)) (tokens tokens' : List (Fragment α)) :
    fill value (tokens ++ tokens') = fill value tokens ++ fill value tokens' := List.flatMap_append

theorem fill_map_lit (value : List α → Option (List α)) (text : List α) :
    fill value (text.map .lit) = text := by
  induction text with
  | nil => rfl
  | cons c text ih => rw [List.map_cons, fill_lit, ih]

theorem fill_map_lit_append (value : List α → Option (List α)) (text : List α)
    (tokens : List (Fragment α)) :
    fill value (text.map .lit ++ tokens) = text ++ fill value tokens := by
  rw [fill_append, fill_map_lit]

/-- Filling depends on the markers of the text only. -/
theorem fill_congr {value value' : List α → Option (List α)} {tokens : List (Fragment α)}
    (h : ∀ text, .marker text ∈ tokens → (value text).getD text = (value' text).getD text) :
    fill value tokens = fill value' tokens := by
  induction tokens with
  | nil => rfl
  | cons token tokens ih =>
    have hrest := ih fun text hmem => h text (.tail _ hmem)
    cases token with
    | lit c => rw [fill_lit, fill_lit, hrest]
    | marker text => rw [fill_marker, fill_marker, hrest, h text (.head _)]

/-! ### One marker -/

/-- A reading of a text as characters and places of one marker. -/
structure Reading (old : List α) (text : List α) (tokens : List (Fragment α)) : Prop where
  only : ∀ marker, .marker marker ∈ tokens → marker = old
  spells : fill (fun _ => none) tokens = text

variable {old new text : List α} {tokens : List (Fragment α)}

theorem Reading.of_lit {c d : α} (h : Reading old (c :: text) (.lit d :: tokens)) :
    d = c ∧ Reading old text tokens := by
  obtain ⟨hc, htext⟩ := List.cons.inj h.spells
  exact ⟨hc, fun marker hmarker => h.only marker (.tail _ hmarker), htext⟩

theorem Reading.of_marker {marker : List α} (h : Reading old text (.marker marker :: tokens)) :
    marker = old ∧ ∃ rest, text = old ++ rest ∧ Reading old rest tokens := by
  have hmarker := h.only marker (.head _)
  subst hmarker
  exact ⟨rfl, _, h.spells.symm, fun other hother => h.only other (.tail _ hother), rfl⟩

/-- In a text that begins with a proper end of the marker, no marker stands before its end. -/
theorem Reading.lits {ending : List α} (hold : BorderFree old) (hending : ending <:+ old)
    (hne : ending ≠ old) (h : Reading old (ending ++ text) tokens) :
    ∃ tokens', tokens = ending.map .lit ++ tokens' ∧ Reading old text tokens' := by
  induction ending generalizing tokens with
  | nil => exact ⟨tokens, rfl, h⟩
  | cons c ending ih =>
    cases tokens with
    | nil => cases h.spells
    | cons token tokens =>
      cases token with
      | lit d =>
        obtain ⟨rfl, hrest⟩ := h.of_lit
        have hshorter : ending <:+ old := (List.suffix_cons d ending).trans hending
        have hlt := hending.length_le
        have hne' : ending ≠ old := fun heq => absurd hlt (by simp [← heq])
        obtain ⟨tokens', rfl, htokens'⟩ := ih hshorter hne' hrest
        exact ⟨tokens', rfl, htokens'⟩
      | marker marker =>
        obtain ⟨-, rest, htext, -⟩ := h.of_marker
        have hstands : old <+: c :: ending ++ text := ⟨rest, htext.symm⟩
        have hbegins : c :: ending <+: old :=
          List.prefix_of_prefix_length_le (List.prefix_append _ _) hstands hending.length_le
        exact absurd (hold.2 _ (List.cons_ne_nil _ _) hbegins hending) hne

/-- A replacement by the marker itself changes nothing. -/
theorem Reading.fill_self (h : Reading old text tokens) :
    fill (fun _ => some old) tokens = text := by
  rw [← h.spells]
  exact fill_congr fun marker hmarker => (h.only marker hmarker).symm

/-! ### Scanning -/

variable [DecidableEq α]

theorem scanFrom_eq_drop (markers : List (List α)) (skip : ℕ) (text : List α) :
    scanFrom markers skip text = scan markers (text.drop skip) := by
  induction skip generalizing text with
  | zero => rfl
  | succ skip ih =>
    cases text with
    | nil => rfl
    | cons c text => exact ih text

/-- At each character, either no marker stands, or the first of those that do. -/
theorem scan_cons_cases {markers : List (List α)} (hne : ∀ marker ∈ markers, marker ≠ []) (c : α)
    (text : List α) :
    ((∀ marker ∈ markers, ¬ marker <+: c :: text) ∧
      scan markers (c :: text) = .lit c :: scan markers text) ∨
      ∃ marker ∈ markers, ∃ rest, c :: text = marker ++ rest ∧
        scan markers (c :: text) = .marker marker :: scan markers rest := by
  rw [scan, scanFrom]
  split
  · rename_i hnone
    refine .inl ⟨fun marker hmarker hstands => ?_, rfl⟩
    exact List.find?_eq_none.mp hnone marker hmarker (List.isPrefixOf_iff_prefix.mpr hstands)
  · rename_i marker hsome
    have hmarker := List.mem_of_find?_eq_some hsome
    have hstands := List.find?_some hsome
    obtain ⟨rest, hrest⟩ := List.isPrefixOf_iff_prefix.mp hstands
    refine .inr ⟨marker, hmarker, rest, hrest.symm, ?_⟩
    rw [scanFrom_eq_drop]
    cases marker with
    | nil => exact absurd rfl (hne _ hmarker)
    | cons d marker =>
      have htext : marker ++ rest = text := (List.cons.inj hrest).2
      rw [← htext, List.length_cons, Nat.add_sub_cancel, List.drop_left]

/-- The tokens of a text spell it. -/
theorem fill_scan {markers : List (List α)} (hne : ∀ marker ∈ markers, marker ≠ []) (text : List α) :
    fill (fun _ => none) (scan markers text) = text := by
  induction hlength : text.length using Nat.strong_induction_on generalizing text with
  | _ n ih =>
    subst hlength
    cases text with
    | nil => rfl
    | cons c text =>
      rcases scan_cons_cases hne c text with ⟨-, hscan⟩ | ⟨marker, hmarker, rest, htext, hscan⟩
      · rw [hscan, fill_lit, ih _ (Nat.lt_succ_self _) _ rfl]
      · have hpos := List.length_pos_of_ne_nil (hne marker hmarker)
        have hlt : rest.length < (c :: text).length := by
          rw [htext, List.length_append]
          omega
        rw [hscan, fill_marker, ih _ hlt _ rfl, Option.getD_none, htext]

theorem mem_of_marker_mem_scan {markers : List (List α)} (hne : ∀ marker ∈ markers, marker ≠ [])
    {marker : List α} (text : List α) (h : .marker marker ∈ scan markers text) :
    marker ∈ markers := by
  induction hlength : text.length using Nat.strong_induction_on generalizing text with
  | _ n ih =>
    subst hlength
    cases text with
    | nil => cases h
    | cons c text =>
      rcases scan_cons_cases hne c text with ⟨-, hscan⟩ | ⟨first, hfirst, rest, htext, hscan⟩
      · rw [hscan] at h
        cases h with
        | tail _ h => exact ih _ (Nat.lt_succ_self _) _ h rfl
      · have hpos := List.length_pos_of_ne_nil (hne first hfirst)
        have hlt : rest.length < (c :: text).length := by
          rw [htext, List.length_append]
          omega
        rw [hscan] at h
        cases h with
        | head => exact hfirst
        | tail _ h => exact ih _ hlt _ h rfl

theorem scan_append_of_marker {old : List α} (hne : old ≠ []) (text : List α) :
    scan [old] (old ++ text) = .marker old :: scan [old] text := by
  obtain ⟨c, rest, rfl⟩ := List.exists_cons_of_ne_nil hne
  have hmarkers : ∀ marker ∈ [c :: rest], marker ≠ [] := by simp
  rcases scan_cons_cases hmarkers c (rest ++ text) with
    ⟨hnone, -⟩ | ⟨marker, hmarker, text', htext, hscan⟩
  · exact absurd (List.prefix_append _ _) (hnone _ (.head _))
  · rw [List.mem_singleton.mp hmarker] at htext hscan
    have hrest : c :: rest ++ text = c :: rest ++ text' := htext
    rw [← List.append_cancel_left hrest] at hscan
    exact hscan

theorem scan_of_not_begins {old text : List α} {c : α} (hne : old ≠ []) (h : ¬ old <+: c :: text) :
    scan [old] (c :: text) = .lit c :: scan [old] text := by
  have hmarkers : ∀ marker ∈ [old], marker ≠ [] := by simpa using hne
  rcases scan_cons_cases hmarkers c text with
    ⟨-, hscan⟩ | ⟨marker, hmarker, rest, htext, -⟩
  · exact hscan
  · rw [List.mem_singleton.mp hmarker] at htext
    exact absurd ⟨rest, htext.symm⟩ h

/-- A text without the marker is left as it is. -/
theorem replace_of_not_infix {old text : List α} (new : List α) (hne : old ≠ [])
    (h : ¬ old <:+: text) : replace old new text = text := by
  induction text with
  | nil => rfl
  | cons c text ih =>
    have hbegins : ¬ old <+: c :: text := fun hstands => h hstands.isInfix
    have hinfix : ¬ old <:+: text := fun hstands =>
      h (hstands.trans (List.suffix_cons c text).isInfix)
    rw [replace, scan_of_not_begins hne hbegins, fill_lit]
    exact congrArg _ (ih hinfix)

theorem reading_scan (hne : old ≠ []) (text : List α) : Reading old text (scan [old] text) where
  only := fun marker hmarker =>
    List.mem_singleton.mp (mem_of_marker_mem_scan (by simpa using hne) text hmarker)
  spells := fill_scan (by simpa using hne) text

/-- The scan finds the marker, or the reading has a character where the scan has it too. -/
theorem Reading.cases (hold : BorderFree old) (h : Reading old text tokens) :
    (text = [] ∧ tokens = []) ∨
    (∃ rest tokens', text = old ++ rest ∧ tokens = .marker old :: tokens' ∧
      Reading old rest tokens') ∨
    (∃ rest tokens', text = old ++ rest ∧ tokens = old.map .lit ++ tokens' ∧
      Reading old rest tokens') ∨
    ∃ c rest tokens', text = c :: rest ∧ tokens = .lit c :: tokens' ∧ ¬ old <+: c :: rest ∧
      Reading old rest tokens' := by
  cases tokens with
  | nil => exact .inl ⟨h.spells.symm, rfl⟩
  | cons token tokens =>
    cases token with
    | marker marker =>
      obtain ⟨rfl, rest, htext, hrest⟩ := h.of_marker
      exact .inr (.inl ⟨rest, tokens, htext, rfl, hrest⟩)
    | lit c =>
      cases text with
      | nil => cases h.spells
      | cons d text =>
        obtain ⟨rfl, hrest⟩ := h.of_lit
        by_cases hstands : old <+: c :: text
        · obtain ⟨rest, htext⟩ := hstands
          obtain ⟨d, ending, rfl⟩ := List.exists_cons_of_ne_nil hold.1
          obtain ⟨rfl, rfl⟩ := List.cons.inj htext
          obtain ⟨tokens', rfl, htokens'⟩ := hrest.lits hold (List.suffix_cons d ending)
            (List.cons_ne_self d ending).symm
          exact .inr (.inr (.inl ⟨rest, tokens', rfl, rfl, htokens'⟩))
        · exact .inr (.inr (.inr ⟨c, text, tokens, rfl, rfl, hstands, hrest⟩))

theorem length_fill_add (h : Reading old text tokens) (new : List α) :
    (fill (fun _ => some new) tokens).length + tokens.count (.marker old) * old.length =
      text.length + tokens.count (.marker old) * new.length := by
  induction tokens generalizing text with
  | nil =>
    rw [← h.spells]
    simp
  | cons token tokens ih =>
    cases token with
    | lit c =>
      cases text with
      | nil => cases h.spells
      | cons d text =>
        have hrest := ih h.of_lit.2
        rw [fill_lit, List.count_cons_of_ne (by simp), List.length_cons, List.length_cons]
        omega
    | marker marker =>
      obtain ⟨rfl, rest, rfl, hrest⟩ := h.of_marker
      have hlength := ih hrest
      rw [fill_marker, Option.getD_some, List.count_cons_self, List.length_append,
        List.length_append, Nat.add_mul, Nat.add_mul, Nat.one_mul, Nat.one_mul]
      omega

/-- The scan finds as many places as any reading has. -/
theorem Reading.count_le (hold : BorderFree old) (h : Reading old text tokens) :
    tokens.count (.marker old) ≤ (scan [old] text).count (.marker old) := by
  induction hlength : text.length using Nat.strong_induction_on generalizing text tokens with
  | _ n ih =>
    subst hlength
    have hpos := List.length_pos_of_ne_nil hold.1
    rcases h.cases hold with ⟨rfl, rfl⟩ | ⟨rest, tokens', rfl, rfl, hrest⟩ |
      ⟨rest, tokens', rfl, rfl, hrest⟩ | ⟨c, rest, tokens', rfl, rfl, hstands, hrest⟩
    · exact Nat.le_refl _
    · have hle := ih _ (by rw [List.length_append]; omega) hrest rfl
      rw [scan_append_of_marker hold.1, List.count_cons_self, List.count_cons_self]
      omega
    · have hle := ih _ (by rw [List.length_append]; omega) hrest rfl
      have hlits : (old.map Fragment.lit).count (.marker old) = 0 :=
        List.count_eq_zero.mpr (by simp)
      rw [scan_append_of_marker hold.1, List.count_cons_self, List.count_append, hlits]
      omega
    · have hle := ih _ (Nat.lt_succ_self _) hrest rfl
      rwa [scan_of_not_begins hold.1 hstands, List.count_cons_of_ne (by simp),
        List.count_cons_of_ne (by simp)]

/-- Replacing the marker where the scan finds it is replacing it where a reading has it if and only
if these places are the same, or the replacement changes nothing. -/
theorem Reading.fill_eq_replace_iff (hold : BorderFree old) (h : Reading old text tokens) :
    fill (fun _ => some new) tokens = replace old new text ↔
      new = old ∨ scan [old] text = tokens := by
  constructor
  · intro heq
    by_contra hne
    rw [not_or] at hne
    obtain ⟨hnew, hscan⟩ := hne
    apply hscan
    induction hlength : text.length using Nat.strong_induction_on generalizing text tokens with
    | _ n ih =>
      subst hlength
      have hpos := List.length_pos_of_ne_nil hold.1
      rcases h.cases hold with ⟨rfl, rfl⟩ | ⟨rest, tokens', rfl, rfl, hrest⟩ |
        ⟨rest, tokens', rfl, rfl, hrest⟩ | ⟨c, rest, tokens', rfl, rfl, hstands, hrest⟩
      · rfl
      · rw [replace, scan_append_of_marker hold.1, fill_marker, fill_marker] at heq
        rw [scan_append_of_marker hold.1] at hscan ⊢
        have hne : scan [old] rest ≠ tokens' := fun h => hscan (congrArg _ h)
        exact congrArg _ (ih _ (by rw [List.length_append]; omega) hrest
          (List.append_cancel_left heq) hne rfl)
      · -- the scan finds a place where the reading has characters: the lengths tell
        rw [replace, scan_append_of_marker hold.1, fill_marker, fill_map_lit_append,
          Option.getD_some] at heq
        have hscanned := length_fill_add (reading_scan hold.1 rest) new
        have hread := length_fill_add hrest new
        have hle := hrest.count_le hold
        have hlength := congrArg List.length heq
        rw [List.length_append, List.length_append] at hlength
        obtain ⟨more, hmore⟩ := Nat.exists_eq_add_of_le hle
        rw [hmore, Nat.add_mul, Nat.add_mul] at hscanned
        have hproduct : (more + 1) * old.length = (more + 1) * new.length := by
          rw [Nat.add_mul, Nat.add_mul]
          omega
        have hsame := Nat.eq_of_mul_eq_mul_left (Nat.succ_pos more) hproduct
        exact absurd (List.append_inj_left heq hsame).symm hnew
      · rw [replace, scan_of_not_begins hold.1 hstands, fill_lit, fill_lit] at heq
        rw [scan_of_not_begins hold.1 hstands] at hscan ⊢
        have hne : scan [old] rest ≠ tokens' := fun h => hscan (congrArg _ h)
        exact congrArg _ (ih _ (Nat.lt_succ_self _) hrest (List.cons.inj heq).2 hne rfl)
  · rintro (rfl | hscan)
    · rw [h.fill_self, replace, (reading_scan hold.1 text).fill_self]
    · rw [replace, hscan]

/-- The replacement leaves the text as it is only if there is no place, or nothing is new. -/
theorem Reading.fill_eq_text_iff (h : Reading old text tokens) :
    fill (fun _ => some new) tokens = text ↔ new = old ∨ .marker old ∉ tokens := by
  constructor
  · intro heq
    rw [Classical.or_iff_not_imp_right, not_not]
    intro hmem
    induction tokens generalizing text with
    | nil => cases hmem
    | cons token tokens ih =>
      cases token with
      | lit c =>
        cases text with
        | nil => cases h.spells
        | cons d text =>
          cases hmem with
          | tail _ hmem => exact ih h.of_lit.2 (List.cons.inj heq).2 hmem
      | marker marker =>
        have hlength := length_fill_add h new
        rw [heq, Nat.add_left_cancel_iff] at hlength
        have hsame := Nat.eq_of_mul_eq_mul_left (List.count_pos_iff.mpr hmem) hlength
        obtain ⟨rfl, rest, rfl, -⟩ := h.of_marker
        exact List.append_inj_left heq hsame.symm
  · rintro (rfl | hmem)
    · exact h.fill_self
    · rw [← h.spells]
      refine fill_congr fun marker hmarker => ?_
      rw [h.only marker hmarker] at hmarker
      exact absurd hmarker hmem

/-! ### One marker after the other -/

variable {value : List α → Option (List α)}

theorem fill_placesOf (value : List α → Option (List α)) (old new : List α)
    (tokens : List (Fragment α)) :
    fill (fun _ => some new) (placesOf old value tokens) =
      fill (withValue value old new) tokens := by
  induction tokens with
  | nil => rfl
  | cons token tokens ih =>
    rw [placesOf, List.flatMap_cons, fill_append, ← placesOf, ih]
    cases token with
    | lit c => rfl
    | marker text =>
      rw [fill_marker, withValue]
      dsimp only
      split
      · exact congrArg (· ++ _) (List.append_nil new)
      · rw [fill_map_lit]

/-- The places of a marker that is not filled yet are a reading of the text so far. -/
theorem reading_placesOf (hvalue : value old = none) (tokens : List (Fragment α)) :
    Reading old (fill value tokens) (placesOf old value tokens) where
  only := by
    intro marker hmarker
    obtain ⟨token, -, htoken⟩ := List.mem_flatMap.mp hmarker
    cases token with
    | lit c => cases List.mem_singleton.mp htoken
    | marker text =>
      dsimp only at htoken
      split at htoken
      · exact Fragment.marker.inj (List.mem_singleton.mp htoken)
      · obtain ⟨c, -, hc⟩ := List.mem_map.mp htoken
        cases hc
  spells := by
    induction tokens with
    | nil => rfl
    | cons token tokens ih =>
      rw [placesOf, List.flatMap_cons, fill_append, ← placesOf, ih]
      cases token with
      | lit c => rfl
      | marker text =>
        rw [fill_marker]
        dsimp only
        split
        · rename_i htext
          rw [htext, hvalue]
          exact congrArg (· ++ _) (List.append_nil old)
        · rw [fill_map_lit]

theorem marker_mem_placesOf : .marker old ∈ placesOf old value tokens ↔ .marker old ∈ tokens := by
  constructor
  · intro h
    obtain ⟨token, hmem, htoken⟩ := List.mem_flatMap.mp h
    cases token with
    | lit c => cases List.mem_singleton.mp htoken
    | marker text =>
      dsimp only at htoken
      split at htoken
      · rename_i htext
        rwa [← htext]
      · obtain ⟨c, -, hc⟩ := List.mem_map.mp htoken
        cases hc
  · intro h
    exact List.mem_flatMap.mpr ⟨_, h, by simp⟩

/-- Where the marker stands in the text so far only where the tokens have it, replacing it is
filling it in. -/
theorem replace_fill (hne : old ≠ []) (hvalue : value old = none)
    (h : new = old ∨ scan [old] (fill value tokens) = placesOf old value tokens) :
    replace old new (fill value tokens) = fill (withValue value old new) tokens := by
  rw [← fill_placesOf]
  rcases h with rfl | hscan
  · rw [(reading_placesOf hvalue tokens).fill_self, replace, (reading_scan hne _).fill_self]
  · rw [replace, hscan]

theorem replace_fill_iff (hold : BorderFree old) (hvalue : value old = none) :
    replace old new (fill value tokens) = fill (withValue value old new) tokens ↔
      new = old ∨ scan [old] (fill value tokens) = placesOf old value tokens := by
  rw [← fill_placesOf, eq_comm]
  exact (reading_placesOf hvalue tokens).fill_eq_replace_iff hold

theorem fill_withValue_eq_iff (hvalue : value old = none) :
    fill (withValue value old new) tokens = fill value tokens ↔
      new = old ∨ .marker old ∉ tokens := by
  rw [← fill_placesOf, (reading_placesOf hvalue tokens).fill_eq_text_iff, marker_mem_placesOf]

/-- Where no marker begins another, their order does not matter. -/
theorem scan_eq_of_perm {markers markers' : List (List α)} (hne : ∀ marker ∈ markers, marker ≠ [])
    (hfree : ∀ marker ∈ markers, ∀ marker' ∈ markers, marker <+: marker' → marker = marker')
    (hperm : markers.Perm markers') (text : List α) : scan markers text = scan markers' text := by
  induction hlength : text.length using Nat.strong_induction_on generalizing text with
  | _ n ih =>
    subst hlength
    cases text with
    | nil => rfl
    | cons c text =>
      have hne' : ∀ marker ∈ markers', marker ≠ [] := fun marker hmarker =>
        hne marker (hperm.mem_iff.mpr hmarker)
      rcases scan_cons_cases hne c text with
          ⟨hnone, hscan⟩ | ⟨marker, hmarker, rest, htext, hscan⟩ <;>
        rcases scan_cons_cases hne' c text with
          ⟨hnone', hscan'⟩ | ⟨marker', hmarker', rest', htext', hscan'⟩
      · rw [hscan, hscan', ih _ (Nat.lt_succ_self _) _ rfl]
      · exact absurd ⟨rest', htext'.symm⟩ (hnone marker' (hperm.mem_iff.mpr hmarker'))
      · exact absurd ⟨rest, htext.symm⟩ (hnone' marker (hperm.mem_iff.mp hmarker))
      · have hstands : marker <+: c :: text := ⟨rest, htext.symm⟩
        have hstands' : marker' <+: c :: text := ⟨rest', htext'.symm⟩
        have hmem := hperm.mem_iff.mpr hmarker'
        have hsame : marker = marker' := by
          rcases List.prefix_or_prefix_of_prefix hstands hstands' with hbegins' | hbegins'
          · exact hfree marker hmarker marker' hmem hbegins'
          · exact (hfree marker' hmem marker hmarker hbegins').symm
        subst hsame
        have hpos := List.length_pos_of_ne_nil (hne marker hmarker)
        have hlt : rest.length < (c :: text).length := by
          rw [htext, List.length_append]
          omega
        have hrest : rest = rest' := List.append_cancel_left (htext.symm.trans htext')
        rw [hscan, hscan', ← hrest, ih _ hlt _ rfl]

end Dqx.Lib.Markers
