import Dqx.Lib.Regex

/-! Patterns with groups: what a backtracking engine captures when it matches a whole text, in terms
of all the ways to read the text. -/

namespace Dqx.Lib

/-- A pattern around regular expressions: groups, optional parts and looks ahead. -/
inductive Pattern where
  | plain (r : Regex)
  | group (r : Regex)
  | ahead (r : Regex)
  | seq (p q : Pattern)
  | optional (p : Pattern)

namespace Pattern

/-- The number of groups. -/
def groups : Pattern → Nat
  | plain _ => 0
  | group _ => 1
  | ahead _ => 0
  | seq p q => p.groups + q.groups
  | optional p => p.groups

/-- The ways to split a text, the longest beginning first. -/
def splits (text : List Char) : List (List Char × List Char) :=
  ((List.range (text.length + 1)).map fun n => (text.take n, text.drop n)).reverse

/-- What the groups capture of a beginning of the text, and the rest, in the order of preference. A
group that takes no part captures nothing. -/
def run : Pattern → List Char → List (List (List Char) × List Char)
  | plain r, text => ((splits text).filter fun s => r.accepts s.1).map fun s => ([], s.2)
  | group r, text => ((splits text).filter fun s => r.accepts s.1).map fun s => ([s.1], s.2)
  | ahead r, text => if (splits text).any fun s => r.accepts s.1 then [([], text)] else []
  | seq p q, text =>
    (p.run text).flatMap fun a => (q.run a.2).map fun b => (a.1 ++ b.1, b.2)
  | optional p, text => p.run text ++ [(List.replicate p.groups [], text)]

/-- The groups of the first way to match the whole text. -/
def captures (p : Pattern) (text : List Char) : Option (List (List Char)) :=
  ((p.run text).find? (·.2.isEmpty)).map (·.1)

/-- The pattern reads `text`, with `rest` behind it, and its groups capture `caught`. -/
def Reads : Pattern → List Char → List Char → List (List Char) → Prop
  | plain r, text, _, caught => text ∈ r.language ∧ caught = []
  | group r, text, _, caught => text ∈ r.language ∧ caught = [text]
  | ahead r, text, rest, caught =>
    text = [] ∧ caught = [] ∧ ∃ start, start <+: rest ∧ start ∈ r.language
  | seq p q, text, rest, caught => ∃ a b first second, text = a ++ b ∧ caught = first ++ second ∧
      p.Reads a (b ++ rest) first ∧ q.Reads b rest second
  | optional p, text, rest, caught =>
    p.Reads text rest caught ∨ text = [] ∧ caught = List.replicate p.groups []

variable {text rest : List Char} {caught : List (List Char)}

theorem mem_splits {s : List Char × List Char} : s ∈ splits text ↔ text = s.1 ++ s.2 := by
  obtain ⟨before, behind⟩ := s
  simp only [splits, List.mem_reverse, List.mem_map, List.mem_range, Prod.mk.injEq]
  constructor
  · rintro ⟨n, -, rfl, rfl⟩
    exact (List.take_append_drop n text).symm
  · rintro rfl
    exact ⟨before.length, by rw [List.length_append]; omega, by simp, by simp⟩

theorem mem_run {p : Pattern} :
    (caught, rest) ∈ p.run text ↔ ∃ read, text = read ++ rest ∧ p.Reads read rest caught := by
  induction p generalizing text rest caught with
  | plain r =>
    simp only [run, Reads, List.mem_map, List.mem_filter, mem_splits, Regex.accepts_iff,
      Prod.mk.injEq]
    constructor
    · rintro ⟨s, ⟨htext, hmem⟩, rfl, rfl⟩
      exact ⟨s.1, htext, hmem, rfl⟩
    · rintro ⟨read, htext, hmem, rfl⟩
      exact ⟨(read, rest), ⟨htext, hmem⟩, rfl, rfl⟩
  | group r =>
    simp only [run, Reads, List.mem_map, List.mem_filter, mem_splits, Regex.accepts_iff,
      Prod.mk.injEq]
    constructor
    · rintro ⟨s, ⟨htext, hmem⟩, rfl, rfl⟩
      exact ⟨s.1, htext, hmem, rfl⟩
    · rintro ⟨read, htext, hmem, rfl⟩
      exact ⟨(read, rest), ⟨htext, hmem⟩, rfl, rfl⟩
  | ahead r =>
    have hany : ((splits text).any fun s => r.accepts s.1) = true ↔
        ∃ start, start <+: text ∧ start ∈ r.language := by
      simp only [List.any_eq_true, mem_splits, Regex.accepts_iff]
      constructor
      · rintro ⟨s, htext, hmem⟩
        exact ⟨s.1, ⟨s.2, htext.symm⟩, hmem⟩
      · rintro ⟨start, ⟨behind, htext⟩, hmem⟩
        exact ⟨(start, behind), htext.symm, hmem⟩
    simp only [run, Reads]
    split
    · next h =>
      simp only [List.mem_singleton, Prod.mk.injEq]
      constructor
      · rintro ⟨rfl, rfl⟩
        exact ⟨[], rfl, rfl, rfl, hany.mp h⟩
      · rintro ⟨_, htext, rfl, rfl, -⟩
        exact ⟨rfl, htext.symm⟩
    · next h =>
      refine ⟨nofun, ?_⟩
      rintro ⟨_, rfl, rfl, -, hstart⟩
      exact absurd (hany.mpr hstart) h
  | seq p q ihp ihq =>
    simp only [run, Reads, List.mem_flatMap, List.mem_map, Prod.mk.injEq]
    constructor
    · rintro ⟨⟨first, middle⟩, hfirst, ⟨second, _⟩, hsecond, rfl, rfl⟩
      obtain ⟨a, rfl, ha⟩ := ihp.mp hfirst
      obtain ⟨b, rfl, hb⟩ := ihq.mp hsecond
      exact ⟨a ++ b, (List.append_assoc ..).symm, a, b, first, second, rfl, rfl, ha, hb⟩
    · rintro ⟨_, rfl, a, b, first, second, rfl, rfl, ha, hb⟩
      exact ⟨(first, b ++ rest), ihp.mpr ⟨a, List.append_assoc .., ha⟩, (second, rest),
        ihq.mpr ⟨b, rfl, hb⟩, rfl, rfl⟩
  | optional p ih =>
    simp only [run, Reads, List.mem_append, List.mem_singleton, Prod.mk.injEq, ih]
    constructor
    · rintro (⟨read, rfl, h⟩ | ⟨rfl, rfl⟩)
      · exact ⟨read, rfl, .inl h⟩
      · exact ⟨[], rfl, .inr ⟨rfl, rfl⟩⟩
    · rintro ⟨read, rfl, h | ⟨rfl, rfl⟩⟩
      · exact .inl ⟨read, rfl, h⟩
      · exact .inr ⟨rfl, rfl⟩

/-- What is captured is read. -/
theorem reads_of_captures {p : Pattern} (h : p.captures text = some caught) :
    p.Reads text [] caught := by
  obtain ⟨⟨_, rest⟩, hfound, rfl⟩ := Option.map_eq_some_iff.mp h
  have hrest := List.find?_some hfound
  obtain rfl : rest = [] := List.isEmpty_iff.mp hrest
  obtain ⟨read, htext, hreads⟩ := mem_run.mp (List.mem_of_find?_eq_some hfound)
  rw [List.append_nil] at htext
  exact htext ▸ hreads

theorem captures_eq_none_iff {p : Pattern} :
    p.captures text = none ↔ ∀ caught, ¬p.Reads text [] caught := by
  simp only [captures, Option.map_eq_none_iff, List.find?_eq_none]
  constructor
  · intro h caught hreads
    exact h (caught, []) (mem_run.mpr ⟨text, (List.append_nil text).symm, hreads⟩) rfl
  · rintro h ⟨caught, rest⟩ hmem hrest
    obtain rfl : rest = [] := List.isEmpty_iff.mp hrest
    obtain ⟨read, htext, hreads⟩ := mem_run.mp hmem
    rw [List.append_nil] at htext
    exact h caught (htext ▸ hreads)

/-- Where all ways to read a text capture the same, so does the engine. -/
theorem captures_eq_some {p : Pattern} (h : p.Reads text [] caught)
    (hunique : ∀ other, p.Reads text [] other → other = caught) :
    p.captures text = some caught := by
  cases hcaptures : p.captures text with
  | none => exact absurd h (captures_eq_none_iff.mp hcaptures caught)
  | some other => exact congrArg some (hunique other (reads_of_captures hcaptures))

end Pattern

end Dqx.Lib
