import Dqx.LowCode.Condition

/-! Which low-code rules compile to SQL that a parser takes, with the value that the builder shows: the
disjunction of the runs of conditions between the `OR`s. -/

namespace Dqx.LowCode

open Lib.Sql

variable {ν : Type} (host : Host ν) (qualify : Bool)

/-- The conditions of the entries that compile to one, each behind its combinator. -/
def fragments : List (Entry ν) → Option (List (Text × Sql))
  | [] => some []
  | entry :: entries => do
    let fragment ← entryFragment host entry qualify
    let combinator ← host.combinator entry.combinator
    let rest ← fragments entries
    return if fragment.isEmpty then rest else (combinator, fragment) :: rest

/-- Conditions with the combinators between them. -/
def alternation : List (Text × Sql) → Sql
  | [] => []
  | (_, fragment) :: rest => fragment ++ rest.flatMap fun (combinator, fragment) =>
    sql " " :: .raw combinator :: sql " " :: fragment

/-- A condition behind its combinator. -/
def combined (fragment : Text × Sql) : Sql :=
  .raw fragment.1 :: sql " " :: fragment.2

theorem alternation_cons (combinator : Text) (fragment : Sql) (rest : List (Text × Sql)) :
    alternation ((combinator, fragment) :: rest) = join " " (fragment :: rest.map combined) := by
  induction rest generalizing combinator fragment with
  | nil => simp [alternation]
  | cons next rest ih =>
    obtain ⟨combinator', fragment'⟩ := next
    have hrest := ih combinator' fragment'
    rw [List.map_cons, join_cons_cons]
    cases rest with
    | nil => simp [alternation, combined]
    | cons next rest =>
      rw [List.map_cons, join_cons_cons] at hrest ⊢
      simp only [alternation, List.flatMap_cons] at hrest ⊢
      simpa [combined] using hrest

theorem join_combined (combinator : Text) (fragment : Sql) (rest : List (Text × Sql)) :
    join " " (((combinator, fragment) :: rest).map combined) =
      .raw combinator :: sql " " :: alternation ((combinator, fragment) :: rest) := by
  rw [alternation_cons]
  cases rest with
  | nil => simp [combined]
  | cons next rest =>
    rw [List.map_cons, List.map_cons, join_cons_cons, join_cons_cons]
    rfl

variable {repr : Text → Text} {qualify}

theorem compileEntries_later {index : Nat} (hindex : 0 < index)
    {entries : List (Entry Python.Number)} {parts : List Sql}
    (h : compileEntries (pythonHost repr) index entries qualify = some parts) :
    ∃ kept, fragments (pythonHost repr) qualify entries = some kept ∧ parts = kept.map combined := by
  induction entries generalizing index parts with
  | nil =>
    obtain rfl := Option.some.inj h
    exact ⟨[], rfl, rfl⟩
  | cons entry entries ih =>
    simp only [compileEntries, entryPart, bind, pure, Option.bind_eq_some_iff, Option.some.injEq] at h
    obtain ⟨part, ⟨fragment, hfragment, hpart⟩, rest, hrest, rfl⟩ := h
    obtain ⟨kept, hkept, rfl⟩ := ih (Nat.succ_pos index) hrest
    have hcombinator : ∃ combinator, (pythonHost repr).combinator entry.combinator =
        some combinator := ⟨_, rfl⟩
    obtain ⟨combinator, hcombinator⟩ := hcombinator
    refine ⟨if fragment.isEmpty then kept else (combinator, fragment) :: kept, ?_, ?_⟩
    · simp only [fragments, hfragment, hcombinator, hkept, bind, pure, Option.bind_some]
    · cases fragment with
      | nil =>
        simp only [List.isEmpty_nil, Bool.true_or, if_true, Option.some.injEq] at hpart
        simp [← hpart]
      | cons piece fragment =>
        have hne : ¬ (List.isEmpty (piece :: fragment) || decide (index = 0)) = true := by
          simpa using Nat.ne_of_gt hindex
        rw [if_neg hne] at hpart
        simp only [hcombinator, Option.bind_some, Option.some.injEq] at hpart
        simp [← hpart, combined]

/-- Whether the first entry compiles to a condition. -/
def Entry.compiles (repr : Text → Text) (entry : Entry Python.Number) : Bool :=
  match entry with
  | .row r => r.compiles repr
  | _ => false

/-- The predicate is the alternation of the conditions, behind the first one's combinator when an
entry before it compiles to nothing. -/
theorem compileAstToSql_cases {ast : Ast Python.Number} {predicate : Sql}
    (h : compileAstToSql (pythonHost repr) ast qualify = some predicate) :
    ∃ kept, fragments (pythonHost repr) qualify ast.rows = some kept ∧
      ((ast.rows = [] ∧ predicate = []) ∨
      ∃ entry entries fragment, ast.rows = entry :: entries ∧
        entryFragment (pythonHost repr) entry qualify = some fragment ∧
        ((fragment ≠ [] ∧ predicate = alternation kept) ∨
          (fragment = [] ∧ kept = [] ∧ predicate = []) ∨
          (fragment = [] ∧ kept ≠ [] ∧
            ∃ combinator, (∃ f rest, kept = (combinator, f) :: rest) ∧
              predicate = .raw combinator :: sql " " :: alternation kept))) := by
  obtain ⟨parts, hparts, rfl⟩ := Option.map_eq_some_iff.mp h
  cases hrows : ast.rows with
  | nil =>
    rw [hrows] at hparts
    obtain rfl := Option.some.inj hparts
    exact ⟨[], rfl, .inl ⟨rfl, rfl⟩⟩
  | cons entry entries =>
    rw [hrows] at hparts
    simp only [compileEntries, entryPart, bind, pure, Option.bind_eq_some_iff,
      Option.some.injEq] at hparts
    obtain ⟨part, ⟨fragment, hfragment, hpart⟩, rest, hrest, rfl⟩ := hparts
    obtain ⟨kept, hkept, rfl⟩ := compileEntries_later (Nat.succ_pos 0) hrest
    have hpart : part = fragment := by simpa using hpart.symm
    subst hpart
    have hcombinator : ∃ combinator, (pythonHost repr).combinator entry.combinator =
        some combinator := ⟨_, rfl⟩
    obtain ⟨combinator, hcombinator⟩ := hcombinator
    have hfragments : fragments (pythonHost repr) qualify (entry :: entries) =
        some (if part.isEmpty then kept else (combinator, part) :: kept) := by
      simp only [fragments, hfragment, hcombinator, hkept, bind, pure, Option.bind_some]
    refine ⟨_, hfragments, .inr ⟨entry, entries, part, rfl, hfragment, ?_⟩⟩
    cases part with
    | nil =>
      cases kept with
      | nil => exact .inr (.inl ⟨rfl, rfl, rfl⟩)
      | cons next kept =>
        obtain ⟨combinator', fragment'⟩ := next
        refine .inr (.inr ⟨rfl, by simp, combinator', ⟨fragment', kept, rfl⟩, ?_⟩)
        exact join_combined combinator' fragment' kept
    | cons piece part =>
      exact .inl ⟨by simp, (alternation_cons combinator (piece :: part) kept).symm⟩

/-- A combinator that is one of the two keywords. -/
def IsCombinator (combinator : Text) : Prop :=
  combinator = "AND".toList ∨ combinator = "OR".toList

/-- The rows of an alternation as they are read. -/
def ReadAs (fragment : Text × Sql) (row : Bool × List Mark) : Prop :=
  row.1 = decide (fragment.1 = "OR".toList) ∧
    read ⟨.condition, []⟩ (tokens fragment.2) = some (⟨.operator, []⟩, row.2) ∧ Mark.or ∉ row.2

theorem tokens_combinator {combinator : Text} (h : IsCombinator combinator) (rest : Sql) :
    tokens (sql " " :: .raw combinator :: sql " " :: rest) = .word combinator :: tokens rest := by
  have hspace : lex " ".toList = [] := by exact rfl
  have hword : lex combinator = [.word combinator] := by
    rcases h with rfl | rfl <;> exact rfl
  rw [tokens_cons_sql, hspace]
  change lex combinator ++ (lex " ".toList ++ tokens rest) = _
  rw [hword, hspace]
  rfl

theorem read_combinator {combinator : Text} (h : IsCombinator combinator) (rest : Sql) :
    read ⟨.operator, []⟩ (tokens (sql " " :: .raw combinator :: sql " " :: rest)) =
      (read ⟨.condition, []⟩ (tokens rest)).map fun result =>
        (result.1, (if combinator = "OR".toList then .or else .and) :: result.2) := by
  rw [tokens_combinator h]
  rcases h with rfl | rfl
  · exact read_cons rfl
  · exact read_cons rfl

/-- No operand begins with a combinator. -/
theorem read_combinator_none {combinator : Text} (h : IsCombinator combinator) {phase : Phase}
    (hphase : begins phase = true) (rest : List Token) :
    read ⟨phase, []⟩ (.word combinator :: rest) = none := by
  have hnext : next ⟨phase, []⟩ (.of (.word combinator)) = none := by
    rcases h with rfl | rfl <;> cases phase <;> first | rfl | cases hphase
  simp [Lib.Sql.read, hnext]

theorem alternation_cons_cons (combinator combinator' : Text) (f f' : Sql)
    (rest : List (Text × Sql)) :
    alternation ((combinator, f) :: (combinator', f') :: rest) =
      f ++ sql " " :: .raw combinator' :: sql " " :: alternation ((combinator', f') :: rest) := by
  simp [alternation]

/-- Conditions and combinators read as the combination of what each condition reads as. -/
theorem read_alternation {kept : List (Text × Sql)} (hne : kept ≠ [])
    (hcombinator : ∀ fragment ∈ kept, IsCombinator fragment.1)
    (h : ∀ fragment ∈ kept, Conditional fragment.2) :
    ∃ rows, List.Forall₂ ReadAs kept rows ∧
      read ⟨.condition, []⟩ (tokens (alternation kept)) = some (⟨.operator, []⟩, combine rows) := by
  induction kept with
  | nil => exact absurd rfl hne
  | cons fragment rest ih =>
    obtain ⟨combinator, f⟩ := fragment
    obtain ⟨marks, hread, hor⟩ := h (combinator, f) List.mem_cons_self
    have hrow : ReadAs (combinator, f) (decide (combinator = "OR".toList), marks) :=
      ⟨rfl, hread, hor⟩
    cases rest with
    | nil =>
      refine ⟨[_], .cons hrow .nil, ?_⟩
      simpa [alternation, combine] using hread
    | cons next rest =>
      obtain ⟨combinator', f'⟩ := next
      obtain ⟨rows, hrows, hrest⟩ := ih (by simp)
        (fun fragment hmem => hcombinator fragment (List.mem_cons_of_mem _ hmem))
        (fun fragment hmem => h fragment (List.mem_cons_of_mem _ hmem))
      refine ⟨_ :: rows, .cons hrow hrows, ?_⟩
      cases hrows with
      | cons hnext hothers =>
        rename_i row rows
        obtain ⟨isOr, marks'⟩ := row
        have hisOr : isOr = decide (combinator' = "OR".toList) := hnext.1
        rw [alternation_cons_cons, tokens_append, read_append hread,
          read_combinator (hcombinator (combinator', f') (by simp)), hrest, combine_cons_cons, hisOr]
        simp

/-- A condition that no parser takes leaves the whole alternation without a reading. -/
theorem readCondition_broken {kept : List (Text × Sql)}
    (hcombinator : ∀ fragment ∈ kept, IsCombinator fragment.1)
    (h : ∀ fragment ∈ kept, Conditional fragment.2 ∨ Broken fragment.2)
    (hbroken : ∃ fragment ∈ kept, Broken fragment.2) :
    ∀ marks, read ⟨.condition, []⟩ (tokens (alternation kept)) ≠ some (⟨.operator, []⟩, marks) := by
  induction kept with
  | nil =>
    obtain ⟨fragment, hmem, -⟩ := hbroken
    cases hmem
  | cons fragment rest ih =>
    obtain ⟨combinator, f⟩ := fragment
    have hrestCombinator : ∀ fragment ∈ rest, IsCombinator fragment.1 := fun fragment hmem =>
      hcombinator fragment (List.mem_cons_of_mem _ hmem)
    have hfirst : Broken f → ∀ marks,
        read ⟨.condition, []⟩ (tokens (alternation ((combinator, f) :: rest))) ≠
          some (⟨.operator, []⟩, marks) := by
      rintro (hnone | ⟨marks', hopen⟩) marks hread
      · rw [alternation, tokens_append, read_append_none _ hnone] at hread
        cases hread
      · cases rest with
        | nil =>
          have hsame : tokens (alternation [(combinator, f)]) = tokens f := by simp [alternation]
          rw [hsame, hopen] at hread
          cases hread
        | cons next rest =>
          obtain ⟨combinator', f'⟩ := next
          rw [alternation_cons_cons, tokens_append, read_append hopen] at hread
          rw [tokens_combinator (hrestCombinator (combinator', f') List.mem_cons_self),
            read_combinator_none (hrestCombinator (combinator', f') List.mem_cons_self) rfl] at hread
          cases hread
    obtain ⟨fragment, hmem, hbad⟩ := hbroken
    rcases List.mem_cons.mp hmem with rfl | hmem
    · exact hfirst hbad
    · rcases h (combinator, f) List.mem_cons_self with ⟨marks', hread', -⟩ | hbad'
      · have hrest := ih hrestCombinator
          (fun fragment hmem => h fragment (List.mem_cons_of_mem _ hmem)) ⟨fragment, hmem, hbad⟩
        intro marks hread
        cases rest with
        | nil => cases hmem
        | cons next rest =>
          obtain ⟨combinator', f'⟩ := next
          rw [alternation_cons_cons, tokens_append, read_append hread',
            read_combinator (hrestCombinator (combinator', f') List.mem_cons_self),
            Option.map_map, Option.map_eq_some_iff] at hread
          obtain ⟨⟨last, marks''⟩, hlast, heq⟩ := hread
          obtain rfl : last = ⟨.operator, []⟩ := (Prod.mk.inj heq).1
          exact hrest marks'' hlast
      · exact hfirst hbad'

theorem entryFragment_compiled {entry : Entry Python.Number} {q : Sql}
    (declared : ∀ r, entry = .row r → r.Declared repr)
    (unescaped : ∀ r, entry = .row r → r.Unescaped repr)
    (strings : ∀ r, entry = .row r → ∀ literal ∈ r.literals repr, ValueIs repr OneString literal)
    (h : entryFragment (pythonHost repr) entry qualify = some q) :
    (q = [] ∧ entry.compiles repr = false) ∨
      ∃ r, entry = .row r ∧ r.compiles repr = true ∧
        ((Conditional q ∧ r.filled repr = true) ∨ (Broken q ∧ r.filled repr = false)) := by
  cases entry with
  | row r =>
    rcases compiled_compileRow (declared r rfl) (unescaped r rfl) (strings r rfl) h with
      ⟨hempty, hnot⟩ | ⟨hconditional, hcompiles, hfilled⟩ | ⟨hbroken, hcompiles, hfilled⟩
    · exact .inl ⟨hempty, hnot⟩
    · exact .inr ⟨r, rfl, hcompiles, .inl ⟨hconditional, hfilled⟩⟩
    · exact .inr ⟨r, rfl, hcompiles, .inr ⟨hbroken, hfilled⟩⟩
  | null => exact .inl ⟨(Option.some.inj h).symm, rfl⟩
  | scalar => exact .inl ⟨(Option.some.inj h).symm, rfl⟩

theorem Conditional.ne_nil {q : Sql} (h : Conditional q) : q ≠ [] := by
  rintro rfl
  obtain ⟨marks, hread, -⟩ := h
  cases hread

theorem Broken.ne_nil {q : Sql} (h : Broken q) : q ≠ [] := by
  rintro rfl
  rcases h with hnone | ⟨marks, hread⟩
  · cases hnone
  · cases hread

theorem not_conditional_broken {q : Sql} (h : Conditional q) (hbroken : Broken q) : False := by
  obtain ⟨marks, hread, -⟩ := h
  rcases hbroken with hnone | ⟨marks', hread'⟩
  · rw [hread] at hnone
    cases hnone
  · rw [hread] at hread'
    cases hread'

/-- The conditions of a rule: each is that of a row, read as its operands allow. -/
theorem mem_fragments {entries : List (Entry Python.Number)} {kept : List (Text × Sql)}
    (declared : ∀ r, Entry.row r ∈ entries → r.Declared repr)
    (unescaped : ∀ r, Entry.row r ∈ entries → r.Unescaped repr)
    (strings : ∀ r, Entry.row r ∈ entries →
      ∀ literal ∈ r.literals repr, ValueIs repr OneString literal)
    (h : fragments (pythonHost repr) qualify entries = some kept) :
    (∀ fragment ∈ kept, IsCombinator fragment.1 ∧ spaced .free fragment.2 = true ∧
      (Conditional fragment.2 ∨ Broken fragment.2)) ∧
    (kept = [] ↔ ∀ r, Entry.row r ∈ entries → r.compiles repr = false) ∧
    ((∀ fragment ∈ kept, Conditional fragment.2) ↔
      ∀ r, Entry.row r ∈ entries → r.compiles repr = true → r.filled repr = true) := by
  induction entries generalizing kept with
  | nil =>
    obtain rfl := Option.some.inj h
    simp
  | cons entry entries ih =>
    simp only [fragments, bind, pure, Option.bind_eq_some_iff, Option.some.injEq] at h
    obtain ⟨fragment, hfragment, combinator, hcombinator, rest, hrest, rfl⟩ := h
    obtain ⟨hall, hnil, hconditional⟩ := ih (fun r hr => declared r (List.mem_cons_of_mem _ hr))
      (fun r hr => unescaped r (List.mem_cons_of_mem _ hr))
      (fun r hr => strings r (List.mem_cons_of_mem _ hr)) hrest
    have hdeclared : ∀ r, entry = .row r → r.Declared repr := fun r hr => declared r (by simp [hr])
    rcases entryFragment_compiled hdeclared (fun r hr => unescaped r (by simp [hr]))
      (fun r hr => strings r (by simp [hr])) hfragment with ⟨rfl, hnot⟩ | ⟨r, rfl, hcompiles, hread⟩
    · have hskip : ∀ r, Entry.row r ∈ entry :: entries →
          r.compiles repr = false ∨ Entry.row r ∈ entries := by
        intro r hr
        rcases List.mem_cons.mp hr with rfl | hr
        · exact .inl hnot
        · exact .inr hr
      refine ⟨hall, hnil.trans ⟨fun h r hr => ?_, fun h r hr => h r (List.mem_cons_of_mem _ hr)⟩,
        hconditional.trans ⟨fun h r hr hc => ?_, fun h r hr => h r (List.mem_cons_of_mem _ hr)⟩⟩
      · exact (hskip r hr).elim id (h r)
      · exact (hskip r hr).elim (fun hfalse => by simp [hfalse] at hc) fun hr => h r hr hc
    · have hne : fragment ≠ [] := hread.elim (fun h => h.1.ne_nil) fun h => h.1.ne_nil
      have hempty : fragment.isEmpty = false := by simpa using hne
      have hcombine : IsCombinator combinator := by
        rcases (declared r List.mem_cons_self).combinator with hand | hor
        · exact .inl (Option.some.inj (hcombinator.symm.trans hand))
        · exact .inr (Option.some.inj (hcombinator.symm.trans hor))
      have hspaced := spaced_entryFragment (fun _ _ => rfl) hfragment
      rw [hempty]
      refine ⟨?_, ?_, ?_⟩
      · intro found hmem
        rcases List.mem_cons.mp hmem with rfl | hmem
        · exact ⟨hcombine, hspaced, hread.imp And.left And.left⟩
        · exact hall found hmem
      · constructor
        · intro hnil
          cases hnil
        · intro hnone
          have hfalse := hnone r List.mem_cons_self
          simp [hcompiles] at hfalse
      · constructor
        · intro h r' hr' hc
          rcases List.mem_cons.mp hr' with heq | hr'
          · obtain rfl := Entry.row.inj heq
            rcases hread with ⟨-, hfilled⟩ | ⟨hbroken, -⟩
            · exact hfilled
            · exact (not_conditional_broken (h _ List.mem_cons_self) hbroken).elim
          · exact hconditional.mp (fun f hf => h f (List.mem_cons_of_mem _ hf)) r' hr' hc
        · intro h found hmem
          rcases List.mem_cons.mp hmem with rfl | hmem
          · rcases hread with ⟨hcond, -⟩ | ⟨-, hfalse⟩
            · exact hcond
            · have htrue := h r List.mem_cons_self hcompiles
              simp [hfalse] at htrue
          · exact hconditional.mpr (fun r hr => h r (List.mem_cons_of_mem _ hr)) found hmem

theorem Ast.reassigned_refl {ν : Type} (ast : Ast ν) : ast.Reassigned ast := by
  refine ⟨List.forall₂_same.mpr fun entry _ => ?_, rfl⟩
  cases entry with
  | row r =>
    refine .row r r ⟨rfl, rfl, rfl, rfl, rfl, sameKind_refl _, ?_⟩
    split
    · rfl
    · exact sameValue_refl _
  | null => exact .null
  | scalar => exact .scalar

/-- Every piece of the predicate reads as whole tokens. -/
theorem sound_compileAstToSql {ast : Ast Python.Number} {predicate : Sql}
    (declared : ast.Declared repr) (unescaped : ast.Unescaped repr)
    (strings : ast.StringsAre repr OneString)
    (h : compileAstToSql (pythonHost repr) ast qualify = some predicate) :
    ∀ piece ∈ predicate, piece.Sound := by
  have hstrings := (stringsAre_compileAstToSql h).mpr strings
  obtain ⟨parts, hparts, rfl⟩ := Option.map_eq_some_iff.mp h
  have htwin : List.Forall₂ Twin (join " " parts) (join " " parts) :=
    twin_join rfl (twin_compileEntries ast.reassigned_refl.rows declared.rows
      unescaped unescaped hparts hparts)
  intro piece hpiece
  obtain ⟨piece', -, hsame⟩ := Lib.exists_of_forall₂_left htwin hpiece
  refine hsame.sound fun text heq => (hstrings text ?_).sound
  rw [← heq]
  exact hpiece

theorem mem_alternation {kept : List (Text × Sql)} {fragment : Text × Sql} (h : fragment ∈ kept)
    {piece : Piece} (hpiece : piece ∈ fragment.2) : piece ∈ alternation kept := by
  induction kept with
  | nil => cases h
  | cons first rest ih =>
    obtain ⟨combinator, f⟩ := first
    rcases List.mem_cons.mp h with rfl | h
    · exact List.mem_append_left _ hpiece
    · cases rest with
      | nil => cases h
      | cons next rest =>
        obtain ⟨combinator', f'⟩ := next
        rw [alternation_cons_cons]
        apply List.mem_append_right
        have := ih h
        simp [this]

/-- How a predicate should read: its conditions and combinators alternate, and its value is the
disjunction of the maximal runs of conditions that `AND` combines. -/
structure Reads (kept : List (Text × Sql)) (predicate : Sql) : Prop where
  alternates : predicate = alternation kept
  value : ∃ marks rows, readCondition (lex (render predicate)) = some marks ∧
    List.Forall₂ (fun fragment row => row.1 = decide (fragment.1 = "OR".toList) ∧
      readCondition (lex (render fragment.2)) = some row.2) kept rows ∧
    ∀ (α : Type) [Lattice α] [BoundedOrder α] (atom : List Token → α),
      Lib.Sql.value atom marks = any ((andRuns rows).map fun run => all (run.map (Lib.Sql.value atom)))

theorem readCondition_eq_some {tokens : List Token} {marks : List Mark} :
    readCondition tokens = some marks ↔
      read ⟨.condition, []⟩ tokens = some (⟨.operator, []⟩, marks) := by
  unfold readCondition
  constructor
  · intro h
    split at h
    · rename_i hread
      obtain rfl := Option.some.inj h
      exact hread
    · cases h
  · intro h
    rw [h]

theorem reads_iff {kept : List (Text × Sql)} (hne : kept ≠ [])
    (hkept : ∀ fragment ∈ kept, IsCombinator fragment.1 ∧ spaced .free fragment.2 = true ∧
      (Conditional fragment.2 ∨ Broken fragment.2))
    (hspaced : spaced .free (alternation kept) = true)
    (hsound : ∀ piece ∈ alternation kept, piece.Sound) :
    Reads kept (alternation kept) ↔ ∀ fragment ∈ kept, Conditional fragment.2 := by
  have hlex : lex (render (alternation kept)) = tokens (alternation kept) := lex_render hspaced hsound
  have hfragment : ∀ fragment ∈ kept, lex (render fragment.2) = tokens fragment.2 := fun fragment hmem =>
    lex_render (hkept fragment hmem).2.1 fun piece hpiece => hsound piece (mem_alternation hmem hpiece)
  constructor
  · rintro ⟨-, marks, rows, hread, -, -⟩ fragment hmem
    rw [hlex, readCondition_eq_some] at hread
    rcases (hkept fragment hmem).2.2 with hconditional | hbroken
    · exact hconditional
    · exact absurd hread (readCondition_broken (fun f hf => (hkept f hf).1)
        (fun f hf => (hkept f hf).2.2) ⟨fragment, hmem, hbroken⟩ marks)
  · intro hconditional
    obtain ⟨rows, hrows, hread⟩ := read_alternation hne (fun f hf => (hkept f hf).1) hconditional
    have hor : ∀ row ∈ rows, Mark.or ∉ row.2 := by
      intro row hmem
      obtain ⟨fragment, -, hfragment⟩ := Lib.exists_of_forall₂_right hrows hmem
      exact hfragment.2.2
    have hrowsNe : rows ≠ [] := by
      rintro rfl
      cases hrows
      exact hne rfl
    refine ⟨rfl, combine rows, rows, ?_, ?_, ?_⟩
    · rw [hlex, readCondition_eq_some]
      exact hread
    · have hmem := (List.forall₂_and_left kept rows).mpr ⟨fun f hf => hf, hrows⟩
      refine hmem.imp fun fragment row hrow => ⟨hrow.2.1, ?_⟩
      rw [hfragment fragment hrow.1, readCondition_eq_some]
      exact hrow.2.2.1
    · intro α _ _ atom
      rw [Lib.Sql.value, runValues_combine atom hrowsNe hor]
      congr 1
      apply List.map_congr_left
      intro run hrun
      congr 1
      apply List.map_congr_left
      intro marks hmarks
      have hmem : marks ∈ rows.map Prod.snd := by
        rw [← flatten_andRuns]
        exact List.mem_flatten.mpr ⟨run, hrun, hmarks⟩
      obtain ⟨row, hrow, rfl⟩ := List.mem_map.mp hmem
      exact (value_of_run atom (hor row hrow)).symm

/-- The condition of a join. -/
def onCondition {ν : Type} (host : Host ν) (j : Join ν) : Option Sql := do
  let path ← host.path j.targetTable
  let target ← quoteIdentPath host path
  let conditions ← onConditions host target j.keys
  return join " AND " conditions

/-- A join is its head, and its condition unless it is a cross join. -/
theorem joinSql_cases {ν : Type} {host : Host ν} {j : Join ν} {q : Sql}
    (h : joinSql host j = some q) :
    q ≠ [] ∧ (isCross j.joinType = false →
      ∃ head on, onCondition host j = some on ∧ q = head ++ sql " ON " :: on) := by
  simp only [joinSql, bind, pure, Option.bind_eq_some_iff] at h
  obtain ⟨path, hpath, target, htarget, joinType, -, h⟩ := h
  split at h
  · rename_i hcross
    obtain rfl := Option.some.inj h
    exact ⟨by simp, fun hnot => by simp [hnot] at hcross⟩
  · simp only [Option.bind_eq_some_iff, Option.some.injEq] at h
    obtain ⟨conditions, hconditions, rfl⟩ := h
    refine ⟨by simp, fun _ => ⟨_, join " AND " conditions, ?_, rfl⟩⟩
    simp only [onCondition, hpath, htarget, hconditions, bind, pure, Option.bind_some]

theorem join_eq_nil {separator : String} {parts : List Sql} (h : ∀ part ∈ parts, part ≠ []) :
    join separator parts = [] ↔ parts = [] := by
  cases parts with
  | nil => simp
  | cons a parts =>
    have ha := h a List.mem_cons_self
    cases parts with
    | nil => simpa using ha
    | cons b parts => simp [join_cons_cons, ha]

/-- The condition of a join is empty when no key of it is usable. -/
theorem onCondition_eq_nil {ν : Type} {host : Host ν} {j : Join ν} {on : Sql}
    (h : onCondition host j = some on) : on = [] ↔ ∀ key ∈ j.keys, key.usable host = false := by
  simp only [onCondition, bind, pure, Option.bind_eq_some_iff, Option.some.injEq] at h
  obtain ⟨path, -, target, -, conditions, hconditions, rfl⟩ := h
  have hall := Lib.mapM_eq_some_iff_forall₂.mp hconditions
  rw [join_eq_nil]
  · have hlength := hall.length_eq
    constructor
    · rintro rfl key hkey
      have hnone : j.keys.filter (JoinKey.usable host) = [] :=
        List.length_eq_zero_iff.mp (by simpa using hlength)
      simpa using List.filter_eq_nil_iff.mp hnone key hkey
    · intro hnone
      have hfilter : j.keys.filter (JoinKey.usable host) = [] :=
        List.filter_eq_nil_iff.mpr fun key hkey => by simp [hnone key hkey]
      rw [hfilter] at hlength
      exact List.length_eq_zero_iff.mp (by simpa using hlength.symm)
  · intro condition hmem
    obtain ⟨key, -, hkey⟩ := Lib.exists_of_forall₂_right hall hmem
    simp only [bind, pure, Option.bind_eq_some_iff, Option.some.injEq] at hkey
    obtain ⟨_, -, _, -, _, -, rfl⟩ := hkey
    simp

/-- No SQL for joins means that no join is emitted. -/
theorem compileJoinsToSql_eq_nil {ν : Type} {host : Host ν} {joins : List (Join ν)} {q : Sql}
    (h : compileJoinsToSql host joins = some q) :
    q = [] ↔ ∀ join ∈ joins, join.emitted host = false := by
  simp only [compileJoinsToSql, bind, pure, Option.bind_eq_some_iff, Option.some.injEq] at h
  obtain ⟨parts, hparts, rfl⟩ := h
  have hall := Lib.mapM_eq_some_iff_forall₂.mp hparts
  rw [join_eq_nil]
  · have hlength := hall.length_eq
    constructor
    · rintro rfl join hjoin
      have hnone : joins.filter (Join.emitted host) = [] :=
        List.length_eq_zero_iff.mp (by simpa using hlength)
      simpa using List.filter_eq_nil_iff.mp hnone join hjoin
    · intro hnone
      have hfilter : joins.filter (Join.emitted host) = [] :=
        List.filter_eq_nil_iff.mpr fun join hjoin => by simp [hnone join hjoin]
      rw [hfilter] at hlength
      exact List.length_eq_zero_iff.mp (by simpa using hlength.symm)
  · intro part hmem
    obtain ⟨join, -, hjoin⟩ := Lib.exists_of_forall₂_right hall hmem
    exact (joinSql_cases hjoin).1

/-- The body is the predicate, or a query that negates it. -/
def Around (body : Body) (predicate : Sql) : Prop :=
  body = .predicate predicate ∨ ∃ select joins rest columns,
    body = .query (selectQuery select predicate joins ++ rest) columns

def Body.isQuery : Body → Bool
  | .predicate _ => false
  | .query _ _ => true

variable (repr)

/-- A body that a parser takes with the value that its rows mean. -/
structure WellFormed (ast : Ast Python.Number) (kept : List (Text × Sql)) (predicate : Sql)
    (body : Body) : Prop where
  reads : predicate = [] ∨ Reads kept predicate
  negated : body.isQuery = true → predicate ≠ []
  joined : ∀ join ∈ ast.joins, join.emitted (pythonHost repr) = true →
    isCross join.joinType = false →
      ∀ on, onCondition (pythonHost repr) join = some on → on ≠ []

/-- A rule whose parts are all there. -/
structure Ast.Complete (ast : Ast Python.Number) (groupBy : Text) : Prop where
  /-- The first entry compiles to a condition if any does. -/
  first : (∃ r, Entry.row r ∈ ast.rows ∧ r.compiles repr = true) →
    ∃ entry, ast.rows.head? = some entry ∧ entry.compiles repr = true
  filled : ∀ r, Entry.row r ∈ ast.rows → r.compiles repr = true → r.filled repr = true
  /-- A rule with joins or a group-by has a condition. -/
  conditioned : (∃ join ∈ ast.joins, join.emitted (pythonHost repr) = true) ∨
    splitTopLevelCommas (pythonHost repr) groupBy ≠ [] →
      ∃ r, Entry.row r ∈ ast.rows ∧ r.compiles repr = true
  keyed : ∀ join ∈ ast.joins, join.emitted (pythonHost repr) = true →
    isCross join.joinType = false → ∃ key ∈ join.keys, key.usable (pythonHost repr) = true

variable {repr}

theorem alternation_ne_nil {kept : List (Text × Sql)} (hne : kept ≠ [])
    (h : ∀ fragment ∈ kept, fragment.2 ≠ []) : alternation kept ≠ [] := by
  cases kept with
  | nil => exact absurd rfl hne
  | cons fragment rest =>
    obtain ⟨combinator, f⟩ := fragment
    simpa [alternation] using fun hf => absurd hf (h (combinator, f) List.mem_cons_self)

/-- The predicate of a rule reads as it should when its first entry compiles to a condition, if any
does, and every condition has its operands. -/
theorem reads_compileAstToSql {ast : Ast Python.Number} {predicate : Sql}
    (declared : ast.Declared repr) (unescaped : ast.Unescaped repr)
    (strings : ast.StringsAre repr OneString)
    (h : compileAstToSql (pythonHost repr) ast qualify = some predicate) :
    ∃ kept, fragments (pythonHost repr) qualify ast.rows = some kept ∧
      (predicate = [] ↔ ∀ r, Entry.row r ∈ ast.rows → r.compiles repr = false) ∧
      ((predicate = [] ∨ Reads kept predicate) ↔
        (((∃ r, Entry.row r ∈ ast.rows ∧ r.compiles repr = true) →
          ∃ entry, ast.rows.head? = some entry ∧ entry.compiles repr = true) ∧
        ∀ r, Entry.row r ∈ ast.rows → r.compiles repr = true → r.filled repr = true)) := by
  have hsound := sound_compileAstToSql declared unescaped strings h
  have hspaced := spaced_compileAstToSql (fun _ _ => rfl) h
  obtain ⟨kept, hkept, hcases⟩ := compileAstToSql_cases h
  obtain ⟨hall, hnil, hconditional⟩ := mem_fragments declared.rows unescaped strings hkept
  have hkeptNe : ∀ fragment ∈ kept, fragment.2 ≠ [] := fun fragment hmem =>
    (hall fragment hmem).2.2.elim Conditional.ne_nil Broken.ne_nil
  have hnone : kept = [] → ((∀ r, Entry.row r ∈ ast.rows → r.compiles repr = false)) := hnil.mp
  have hempty : predicate = [] ↔ kept = [] := by
    rcases hcases with ⟨hrows, rfl⟩ | ⟨entry, entries, fragment, hrows, hfragment,
      ⟨hne, rfl⟩ | ⟨-, hk, rfl⟩ | ⟨-, hk, combinator, -, rfl⟩⟩
    · exact ⟨fun _ => hnil.mpr (by simp [hrows]), fun _ => rfl⟩
    · constructor
      · intro hpredicate
        by_contra hk
        exact alternation_ne_nil hk hkeptNe hpredicate
      · rintro rfl
        rfl
    · exact ⟨fun _ => hk, fun _ => rfl⟩
    · exact ⟨fun hp => by simp at hp, fun hk' => absurd hk' hk⟩
  refine ⟨kept, hkept, hempty.trans hnil, ?_⟩
  by_cases hk : kept = []
  · have hvacuous := hnone hk
    constructor
    · intro _
      refine ⟨?_, fun r hr hc => by simp [hvacuous r hr] at hc⟩
      rintro ⟨r, hr, hc⟩
      simp [hvacuous r hr] at hc
    · intro _
      exact .inl (hempty.mpr hk)
  · have hpredicate : predicate ≠ [] := fun hp => hk (hempty.mp hp)
    have hsome : ∃ r, Entry.row r ∈ ast.rows ∧ r.compiles repr = true := by
      by_contra hno
      push Not at hno
      exact hk (hnil.mpr fun r hr => by simpa using hno r hr)
    rw [← hconditional]
    simp only [hpredicate, false_or, hsome, true_implies]
    rcases hcases with ⟨-, rfl⟩ | ⟨entry, entries, fragment, hrows, hfragment,
      ⟨hne, rfl⟩ | ⟨-, hk', rfl⟩ | ⟨hfirst, -, combinator, -, rfl⟩⟩
    · exact absurd rfl hpredicate
    · rw [reads_iff hk hall hspaced hsound]
      refine (and_iff_right ⟨entry, by simp [hrows], ?_⟩).symm
      rcases entryFragment_compiled (fun r hr => declared.rows r (by simp [hrows, hr]))
        (fun r hr => unescaped r (by simp [hrows, hr]))
        (fun r hr => strings r (by simp [hrows, hr])) hfragment with ⟨hnil, -⟩ | ⟨r, rfl, hc, -⟩
      · exact absurd hnil hne
      · exact hc
    · exact absurd rfl hpredicate
    · have hentry : entry.compiles repr = false := by
        rcases entryFragment_compiled (fun r hr => declared.rows r (by simp [hrows, hr]))
          (fun r hr => unescaped r (by simp [hrows, hr]))
          (fun r hr => strings r (by simp [hrows, hr])) hfragment with ⟨-, hnot⟩ | ⟨r, rfl, -, hread⟩
        · exact hnot
        · exact absurd hfirst (hread.elim (fun h => h.1.ne_nil) fun h => h.1.ne_nil)
      constructor
      · rintro ⟨halternates, -⟩
        have hlength := congrArg List.length halternates
        simp only [List.length_cons] at hlength
        omega
      · rintro ⟨⟨first, hhead, hcompiles⟩, -⟩
        obtain rfl : entry = first := by simpa [hrows] using hhead
        simp [hentry] at hcompiles

/-- A compiled rule is well formed exactly when its parts are all there. -/
theorem wellFormed_iff_complete {ast : Ast Python.Number} {groupBy : Text} {body : Body}
    (declared : ast.Declared repr) (unescaped : ast.Unescaped repr)
    (strings : ast.StringsAre repr OneString)
    (h : compileLowcodeBody (pythonHost repr) ast groupBy = some body) :
    ∃ qualify kept predicate, fragments (pythonHost repr) qualify ast.rows = some kept ∧
      compileAstToSql (pythonHost repr) ast qualify = some predicate ∧ Around body predicate ∧
      (WellFormed repr ast kept predicate body ↔ ast.Complete repr groupBy) := by
  obtain ⟨joins, predicate, hjoins, hpredicate, hbody⟩ := compileLowcodeBody_cases _ h
  obtain ⟨kept, hkept, hempty, hreads⟩ :=
    reads_compileAstToSql declared unescaped strings hpredicate
  refine ⟨_, kept, predicate, hkept, hpredicate, ?_, ?_⟩
  · obtain ⟨-, -, rfl⟩ | ⟨columns, -, -, rfl⟩ | ⟨keyRefs, -, -, -, -, rfl⟩ | ⟨-, -, -, rfl⟩ := hbody
    · exact .inl rfl
    · exact .inr ⟨_, _, _, _, rfl⟩
    · exact .inr ⟨_, _, [], _, by rw [List.append_nil]⟩
    · exact .inr ⟨_, _, [], _, by rw [List.append_nil]⟩
  · have hquery : body.isQuery = true ↔ ((∃ join ∈ ast.joins, join.emitted (pythonHost repr) = true) ∨
        splitTopLevelCommas (pythonHost repr) groupBy ≠ []) := by
      have hnil := compileJoinsToSql_eq_nil hjoins
      have hemitted : joins ≠ [] ↔ ∃ join ∈ ast.joins, join.emitted (pythonHost repr) = true := by
        rw [Ne, hnil]
        simp
      rw [← hemitted]
      obtain ⟨hj, hc, rfl⟩ | ⟨columns, hc, -, rfl⟩ | ⟨keyRefs, hj, -, -, -, rfl⟩ | ⟨hj, -, -, rfl⟩ :=
        hbody
      · simp [Body.isQuery, hj, hc]
      · simp [Body.isQuery, hc]
      · simp [Body.isQuery, hj]
      · simp [Body.isQuery, hj]
    have hcondition : predicate ≠ [] ↔ ∃ r, Entry.row r ∈ ast.rows ∧ r.compiles repr = true := by
      rw [Ne, hempty]
      simp
    have hon : ∀ join ∈ ast.joins, join.emitted (pythonHost repr) = true →
        isCross join.joinType = false →
        ((∀ on, onCondition (pythonHost repr) join = some on → on ≠ []) ↔
          ∃ key ∈ join.keys, key.usable (pythonHost repr) = true) := by
      intro join hjoin hemitted hcross
      obtain ⟨on, hon⟩ : ∃ on, onCondition (pythonHost repr) join = some on := by
        simp only [compileJoinsToSql, bind, pure, Option.bind_eq_some_iff] at hjoins
        obtain ⟨parts, hparts, -⟩ := hjoins
        obtain ⟨q, -, hq⟩ := Lib.exists_of_forall₂_left (Lib.mapM_eq_some_iff_forall₂.mp hparts)
          (List.mem_filter.mpr ⟨hjoin, hemitted⟩)
        obtain ⟨head, on, hon, -⟩ := (joinSql_cases hq).2 hcross
        exact ⟨on, hon⟩
      have hnil := onCondition_eq_nil hon
      simp only [hon, Option.some.injEq, forall_eq', Ne, hnil]
      simp
    constructor
    · rintro ⟨hread, hnegated, hjoined⟩
      obtain ⟨hfirst, hfilled⟩ := hreads.mp hread
      refine ⟨hfirst, hfilled, fun h => hcondition.mp (hnegated (hquery.mpr h)), ?_⟩
      intro join hjoin hemitted hcross
      exact (hon join hjoin hemitted hcross).mp (hjoined join hjoin hemitted hcross)
    · rintro ⟨hfirst, hfilled, hconditioned, hkeyed⟩
      refine ⟨hreads.mpr ⟨hfirst, hfilled⟩,
        fun h => hcondition.mpr (hconditioned (hquery.mp h)), ?_⟩
      intro join hjoin hemitted hcross
      exact (hon join hjoin hemitted hcross).mpr (hkeyed join hjoin hemitted hcross)

theorem oneString_comparing : (comparing "O'Hara" "Rome").StringsAre id OneString := by
  intro row hrow value hvalue text htext
  rcases List.mem_cons.mp hrow with heq | hrow
  · obtain rfl := Entry.row.inj heq
    obtain rfl : value = .str "O'Hara".toList := List.mem_singleton.mp hvalue
    obtain rfl := Option.some.inj htext
    exact ⟨"O''Hara".toList, rfl⟩
  · obtain rfl := Entry.row.inj (List.mem_singleton.mp hrow)
    obtain rfl : value = .str "Rome".toList := List.mem_singleton.mp hvalue
    obtain rfl := Option.some.inj htext
    exact ⟨"Rome".toList, rfl⟩

theorem wellFormed_iff_complete_comparing :
    ∃ qualify kept predicate,
      fragments (pythonHost id) qualify (comparing "O'Hara" "Rome").rows = some kept ∧
      compileAstToSql (pythonHost id) (comparing "O'Hara" "Rome") qualify = some predicate ∧
      Around (compared "O'Hara" "Rome") predicate ∧
      (WellFormed id (comparing "O'Hara" "Rome") kept predicate (compared "O'Hara" "Rome") ↔
        (comparing "O'Hara" "Rome").Complete id []) :=
  wellFormed_iff_complete (declared_comparing _ _) (unescaped_comparing _ _) oneString_comparing rfl

/-- Without a column in its first row, a rule begins with the combinator of its second. -/
theorem incomplete_row_leads_with_combinator :
    ∃ (ast : Ast Python.Number) (kept : List (Text × Sql)) (predicate : Sql),
      ast.Declared id ∧
      compileLowcodeBody (pythonHost id) ast [] = some (.predicate predicate) ∧
      fragments (pythonHost id) false ast.rows = some kept ∧
      render predicate = "AND \x7b\x7bcity\x7d\x7d = 'Rome'".toList ∧
      ¬ WellFormed id ast kept predicate (.predicate predicate) := by
  let row : Row Python.Number :=
    ⟨.str "row".toList, .str "AND".toList, .null, .null, .str "equals".toList, .str "x".toList, .null⟩
  refine ⟨⟨[.row row, .row (comparison "city" "Rome")], []⟩,
    [("AND".toList, [.slot "city".toList, sql " = ", .quoted "Rome".toList])],
    [.raw "AND".toList, sql " ", .slot "city".toList, sql " = ", .quoted "Rome".toList],
    ⟨?_, fun _ hjoin => by cases hjoin⟩, rfl, rfl, rfl, ?_⟩
  · intro r hr
    rcases List.mem_cons.mp hr with heq | hr
    · obtain rfl := Entry.row.inj heq
      refine ⟨fun h => (by cases h), ?_, fun _ h => (by cases h), .inl rfl⟩
      intro value hvalue name hname
      obtain rfl := List.mem_singleton.mp hvalue
      cases hname
    · exact (declared_comparing "x" "Rome").rows r (List.mem_cons_of_mem _ hr)
  · rintro ⟨hnil | ⟨-, marks, rows, hread, -⟩, -, -⟩
    · cases hnil
    · have hnone : readCondition (lex (render [.raw "AND".toList, sql " ", .slot "city".toList,
          sql " = ", .quoted "Rome".toList])) = none := by
        exact rfl
      rw [hnone] at hread
      cases hread

end Dqx.LowCode
