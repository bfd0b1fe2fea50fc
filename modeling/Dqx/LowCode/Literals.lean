import Dqx.Lib.Entries
import Dqx.LowCode.Reassigned

/-! The literals of a low-code rule leave the structure of its SQL alone exactly when each string
among them is readable as it is written. -/

namespace Dqx.LowCode

open Lib.Sql

variable {repr : Text → Text} {qualify : Bool}

theorem sameKind_refl {ν : Type} (value : Json ν) : SameKind value value := by
  cases value <;> constructor

theorem sameLiteral_refl {ν : Type} (value : Json ν) : SameLiteral value value :=
  ⟨sameKind_refl value, rfl⟩

theorem sameValue_refl {ν : Type} (value : Json ν) : SameValue value value where
  literal := sameLiteral_refl value
  items := List.forall₂_same.mpr fun item _ => sameLiteral_refl item
  spec entries entries' h h' := by
    obtain rfl := Json.obj.inj (h.symm.trans h')
    exact ⟨rfl, rfl, sameKind_refl _⟩

theorem Row.Reassigned.sameValue {ν : Type} {row row' : Row ν} (h : row.Reassigned row') :
    SameValue row.value row'.value := by
  have hvalue := h.value
  split at hvalue
  · exact hvalue ▸ sameValue_refl row.value
  · exact hvalue

/-- The bounds of a range are two of its elements, or nulls. -/
theorem sameLiteral_bounds {ν : Type} {value value' : Json ν} (h : SameValue value value') :
    SameLiteral (Python.bounds value).1 (Python.bounds value').1 ∧
      SameLiteral (Python.bounds value).2 (Python.bounds value').2 := by
  obtain ⟨⟨hkind, -⟩, hitems, -⟩ := h
  cases hkind with
  | list items items' =>
    change List.Forall₂ SameLiteral items items' at hitems
    cases hitems with
    | nil => exact ⟨sameLiteral_refl _, sameLiteral_refl _⟩
    | cons hlow hrest =>
      cases hrest with
      | nil => exact ⟨sameLiteral_refl _, sameLiteral_refl _⟩
      | cons hhigh _ => exact ⟨hlow, hhigh⟩
  | _ => exact ⟨sameLiteral_refl _, sameLiteral_refl _⟩

theorem bounds_mem {ν : Type} (value : Json ν) :
    ((Python.bounds value).1 = .null ∨ (Python.bounds value).1 ∈ Python.items value) ∧
      ((Python.bounds value).2 = .null ∨ (Python.bounds value).2 ∈ Python.items value) := by
  unfold Python.bounds
  split
  · simp [Python.items]
  · simp

theorem twin_quoteList {values values' : List (Json Python.Number)} {q q' : Sql}
    (h : List.Forall₂ SameLiteral values values')
    (declared : ∀ value ∈ values, ∀ name, columnRefName value = some name → DeclaredName name)
    (hq : quoteList (pythonHost repr) values qualify = some q)
    (hq' : quoteList (pythonHost repr) values' qualify = some q') : List.Forall₂ Twin q q' := by
  simp only [quoteList, bind, pure, Option.bind_eq_some_iff, Option.some.injEq] at hq hq'
  obtain ⟨parts, hparts, rfl⟩ := hq
  obtain ⟨parts', hparts', rfl⟩ := hq'
  have hdeclared := (List.forall₂_and_left values values').mpr ⟨declared, h⟩
  apply twin_join rfl
  exact Lib.forall₂_of_mapM_eq_some hdeclared hparts hparts' fun _ _ _ _ hvalue =>
    twin_valueSql hvalue.2 hvalue.1

theorem fixed_validityType {name text : Text} (h : textOf validitySqlType name = some text) :
    fixedText text = true := by
  have hall : ((validitySqlType.map fun entry => (entry.1.toList, entry.2.toList)).all
      fun entry => fixedText entry.2) = true := by decide +kernel
  exact List.all_eq_true.mp hall _ (Lib.mem_of_lookup h)

theorem own_sql {text : Text} (h : fixedText text = true) : Own [.sql text] := by
  intro piece hpiece
  obtain rfl := List.mem_singleton.mp hpiece
  exact ⟨fixed_sql h, rfl⟩

theorem twin_operands {op : Operator} {value value' : Json Python.Number}
    {os os' : Option (List Sql)}
    (h : SameValue value value')
    (hvalidity : op.operandKind = .validity → value = value')
    (declared : ∀ v ∈ value :: Python.items value, ∀ name, columnRefName v = some name →
      DeclaredName name)
    (hinterval : op.operandKind = .interval →
      Plain (intervalText repr value) ∧ Plain (intervalText repr value'))
    (hos : operands (pythonHost repr) op.operandKind value qualify = some os)
    (hos' : operands (pythonHost repr) op.operandKind value' qualify = some os') :
    (os = none ∧ os' = none) ∨
      ∃ parts parts', os = some parts ∧ os' = some parts' ∧
        List.Forall₂ (List.Forall₂ Twin) parts parts' := by
  cases hkind : op.operandKind <;> rw [hkind] at hos hos' <;>
    simp only [operands, bind, pure, Option.map_eq_some_iff, Option.bind_eq_some_iff,
      Option.some.injEq] at hos hos'
  case unused =>
    subst hos hos'
    exact .inr ⟨[], [], rfl, rfl, .nil⟩
  case value =>
    obtain ⟨operand, hoperand, rfl⟩ := hos
    obtain ⟨operand', hoperand', rfl⟩ := hos'
    exact .inr ⟨_, _, rfl, rfl, .cons (twin_valueSql h.literal
      (declared value List.mem_cons_self) hoperand hoperand') .nil⟩
  case literal =>
    obtain ⟨operand, hoperand, rfl⟩ := hos
    obtain ⟨operand', hoperand', rfl⟩ := hos'
    exact .inr ⟨_, _, rfl, rfl, .cons (twin_quote h.literal.kind hoperand hoperand') .nil⟩
  case pair =>
    obtain ⟨low, hlow, high, hhigh, rfl⟩ := hos
    obtain ⟨low', hlow', high', hhigh', rfl⟩ := hos'
    have hbounds := sameLiteral_bounds h
    have hmem : ∀ v, (v = .null ∨ v ∈ Python.items value) → ∀ name,
        columnRefName v = some name → DeclaredName name := by
      rintro v (rfl | hv) name hname
      · cases hname
      · exact declared v (List.mem_cons_of_mem _ hv) name hname
    exact .inr ⟨_, _, rfl, rfl,
      .cons (twin_valueSql hbounds.1 (hmem _ (bounds_mem value).1) hlow hlow')
        (.cons (twin_valueSql hbounds.2 (hmem _ (bounds_mem value).2) hhigh hhigh') .nil)⟩
  case list =>
    obtain ⟨items, hitems, list, hlist, rfl⟩ := hos
    obtain ⟨items', hitems', list', hlist', rfl⟩ := hos'
    obtain rfl : Python.items value = items := Option.some.inj hitems
    obtain rfl : Python.items value' = items' := Option.some.inj hitems'
    exact .inr ⟨_, _, rfl, rfl, .cons (twin_quoteList h.items
      (fun v hv => declared v (List.mem_cons_of_mem _ hv)) hlist hlist') .nil⟩
  case interval =>
    obtain ⟨number, hnumber, unit, hunit, rfl⟩ := hos
    obtain ⟨number', hnumber', unit', hunit', rfl⟩ := hos'
    obtain rfl := Option.some.inj hnumber
    obtain rfl := Option.some.inj hunit
    obtain rfl := Option.some.inj hnumber'
    obtain rfl := Option.some.inj hunit'
    have hplain := hinterval hkind
    have hne : ∀ a b : Text, a ++ ' ' :: b ≠ [] := by simp
    exact .inr ⟨_, _, rfl, rfl,
      .cons (.cons (.interval (hne _ _) (hne _ _) hplain.1 hplain.2) .nil) .nil⟩
  case validity =>
    obtain rfl := hvalidity hkind
    obtain ⟨type, htype, rfl⟩ := hos
    obtain ⟨type', htype', rfl⟩ := hos'
    obtain rfl := Option.some.inj (htype.symm.trans htype')
    cases type with
    | none => exact .inl ⟨rfl, rfl⟩
    | some text =>
      have hfixed := fixed_validityType (Option.some.inj htype)
      exact .inr ⟨_, _, rfl, rfl, .cons (own_sql hfixed).twin .nil⟩

theorem name_of_isInLast {name : Text} (h : Operator.ofName name = some .isInLast) :
    name = "is in last".toList := by
  have hnames : ∀ entry ∈ operatorNames.map fun entry => (entry.1.toList, entry.2),
      entry.2 = Operator.isInLast → entry.1 = "is in last".toList := by
    decide
  exact hnames _ (Lib.mem_of_lookup h) rfl

theorem twin_rowSql {left left' q q' : Sql} {row row' : Row Python.Number}
    (h : row.Reassigned row') (hleft : List.Forall₂ Twin left left')
    (declared : row.Declared repr)
    (hinterval : row.operator = .str "is in last".toList →
      Plain (intervalText repr row.value) ∧ Plain (intervalText repr row'.value))
    (hq : rowSql (pythonHost repr) left row.operator row.value qualify = some q)
    (hq' : rowSql (pythonHost repr) left' row.operator row'.value qualify = some q') :
    List.Forall₂ Twin q q' := by
  unfold rowSql at hq hq'
  cases hoperator : row.operator with
  | str name =>
    rw [hoperator] at hq hq'
    cases hop : Operator.ofName name with
    | some op =>
      simp only [hop] at hq hq'
      obtain ⟨os, hos, rfl⟩ := Option.map_eq_some_iff.mp hq
      obtain ⟨os', hos', rfl⟩ := Option.map_eq_some_iff.mp hq'
      have hvalidity : op.operandKind = .validity → row.value = row'.value := by
        intro hkind
        have hvalue := h.value
        simpa [isValidity, hoperator, hop, hkind] using hvalue
      have hplain : op.operandKind = .interval →
          Plain (intervalText repr row.value) ∧ Plain (intervalText repr row'.value) := by
        intro hkind
        apply hinterval
        rw [hoperator]
        have hlast : op = .isInLast := by
          cases op <;> first | rfl | cases hkind
        subst hlast
        rw [name_of_isInLast hop]
      rcases twin_operands h.sameValue hvalidity declared.value hplain hos hos' with
        ⟨rfl, rfl⟩ | ⟨parts, parts', rfl, rfl, hparts⟩
      · exact .nil
      · exact twin_fill op.template_fixed hleft hparts
    | none =>
      simp only [hop] at hq hq'
      obtain rfl := Option.some.inj hq
      obtain rfl := Option.some.inj hq'
      exact .nil
  | _ =>
    simp only [hoperator, Option.some.injEq] at hq hq'
    subst hq hq'
    exact .nil

theorem twin_aggregateOperand {aggregate : Aggregate} {param param' : Json Python.Number}
    {q q' : Sql} (h : SameKind param param')
    (number : aggregate = .percentile ∨ aggregate = .percentileApprox →
      NumberOrNull param ∧ NumberOrNull param')
    (hq : aggregateOperand (pythonHost repr) aggregate param = some q)
    (hq' : aggregateOperand (pythonHost repr) aggregate param' = some q') :
    List.Forall₂ Twin q q' := by
  have hparam : NumberOrNull param → aggregateParam (pythonHost repr) param = some q →
      aggregateParam (pythonHost repr) param' = some q' → List.Forall₂ Twin q q' := by
    intro hnumber hq hq'
    rcases hnumber with rfl | ⟨n, rfl⟩
    · cases h
      obtain rfl := Option.some.inj hq
      obtain rfl := Option.some.inj hq'
      exact .cons (.word literalWord_half literalWord_half) .nil
    · cases h
      obtain rfl := Option.some.inj hq
      obtain rfl := Option.some.inj hq'
      exact .cons (.word (literalWord_number _) (literalWord_number _)) .nil
  cases aggregate <;> simp only [aggregateOperand] at hq hq'
  case percentile => exact hparam (number (.inl rfl)).1 hq hq'
  case percentileApprox => exact hparam (number (.inr rfl)).1 hq hq'
  all_goals
    obtain rfl := Option.some.inj hq
    obtain rfl := Option.some.inj hq'
    exact .nil

theorem aggregate_ne_inherited {ν : Type} (value : Json ν) (name : String) :
    Python.aggregate value ≠ some (.inherited name) := by
  cases value with
  | str s =>
    cases hname : Aggregate.ofName s <;> simp [Python.aggregate, hname]
  | _ => simp [Python.aggregate]

/-- Aggregates of the same column differ in their parameter at most. -/
theorem twin_aggExpr {spec spec' : AggregateSpec Python.Number} {q q' : Sql}
    {present present' : Bool}
    (haggregate : spec.aggregate = spec'.aggregate) (hcolumnRef : spec.columnRef = spec'.columnRef)
    (hparam : SameKind spec.param spec'.param)
    (declared : (pythonHost repr).truthy spec.columnRef = true → DeclaredColumn spec.columnRef)
    (number : spec.readsParam = true → NumberOrNull spec.param ∧ NumberOrNull spec'.param)
    (hq : aggExpr (pythonHost repr) spec qualify = some (q, present))
    (hq' : aggExpr (pythonHost repr) spec' qualify = some (q', present')) :
    List.Forall₂ Twin q q' ∧ present = present' := by
  unfold aggExpr at hq hq'
  rw [← haggregate, ← hcolumnRef] at hq'
  cases htruthy : (pythonHost repr).truthy spec.aggregate with
  | false =>
    simp only [htruthy, Bool.not_false, if_true, pure, Option.some.injEq, Prod.mk.injEq] at hq hq'
    obtain ⟨rfl, rfl⟩ := hq
    obtain ⟨rfl, rfl⟩ := hq'
    exact ⟨.nil, rfl⟩
  | true =>
    simp only [htruthy, Bool.not_true, Bool.false_eq_true, if_false, bind, pure,
      Option.bind_eq_some_iff] at hq hq'
    obtain ⟨entry, hentry, hq⟩ := hq
    obtain ⟨entry', hentry', hq'⟩ := hq'
    obtain rfl := Option.some.inj (hentry.symm.trans hentry')
    cases entry with
    | missing =>
      simp only [Option.some.injEq, Prod.mk.injEq] at hq hq'
      obtain ⟨rfl, rfl⟩ := hq
      obtain ⟨rfl, rfl⟩ := hq'
      exact ⟨.nil, rfl⟩
    | inherited name => exact absurd hentry (aggregate_ne_inherited _ name)
    | own aggregate =>
      cases hcolumn : (pythonHost repr).truthy spec.columnRef with
      | false =>
        simp only [hcolumn, Bool.not_false, if_true, Option.some.injEq, Prod.mk.injEq] at hq hq'
        obtain ⟨rfl, rfl⟩ := hq
        obtain ⟨rfl, rfl⟩ := hq'
        exact ⟨.nil, rfl⟩
      | true =>
        simp only [hcolumn, Bool.not_true, Bool.false_eq_true, if_false, Option.bind_eq_some_iff,
          Option.some.injEq, Prod.mk.injEq] at hq hq'
        obtain ⟨column, href, param, hoperand, rfl, rfl⟩ := hq
        obtain ⟨column', href', param', hoperand', rfl, rfl⟩ := hq'
        obtain rfl := Option.some.inj (href.symm.trans href')
        refine ⟨twin_fill aggregate.template_fixed (own_ref (declared hcolumn) href).twin
          (.cons (twin_aggregateOperand hparam ?_ hoperand hoperand') .nil), rfl⟩
        intro hpercentile
        apply number
        cases hname : spec.aggregate with
        | str name =>
          rw [hname] at hentry
          cases hfound : Aggregate.ofName name with
          | none =>
            simp [pythonHost, Python.host, Python.aggregate, hfound] at hentry
          | some found =>
            obtain rfl : found = aggregate := by
              simpa [pythonHost, Python.host, Python.aggregate, hfound] using hentry
            rcases hpercentile with rfl | rfl <;>
              simp [AggregateSpec.readsParam, hname, hfound]
        | _ => simp [hname, pythonHost, Python.host, Python.aggregate] at hentry

theorem twin_aggregatedRight {row row' : Row Python.Number} {q q' : Sql}
    (h : SameValue row.value row'.value) (declared : row.Declared repr)
    (number : ∀ entries entries', row.value = .obj entries → row'.value = .obj entries' →
      (AggregateSpec.ofEntries entries).readsParam = true →
        NumberOrNull (Json.field entries "aggregate_param") ∧
          NumberOrNull (Json.field entries' "aggregate_param"))
    (hq : aggregatedRight (pythonHost repr) row.value qualify = some q)
    (hq' : aggregatedRight (pythonHost repr) row'.value qualify = some q') :
    List.Forall₂ Twin q q' := by
  obtain ⟨⟨hkind, -⟩, -, hspec⟩ := h
  generalize hvalue : row.value = value at hkind hspec number hq
  generalize hvalue' : row'.value = value' at hkind hspec number hq'
  have hquote := @twin_quote repr
  cases hkind with
  | obj entries entries' =>
    obtain ⟨haggregate, hcolumn, hparam⟩ := hspec entries entries' rfl rfl
    simp only [aggregatedRight] at hq hq'
    rw [← haggregate] at hq'
    cases hget : Json.get entries "aggregate" with
    | none =>
      rw [hget] at hq hq'
      exact twin_quote (.obj _ _) hq hq'
    | some aggregate =>
      rw [hget] at hq hq'
      obtain ⟨⟨right, present⟩, hright, rfl⟩ := Option.map_eq_some_iff.mp hq
      obtain ⟨⟨right', present'⟩, hright', rfl⟩ := Option.map_eq_some_iff.mp hq'
      have hfield : Json.field entries "aggregate" = Json.field entries' "aggregate" := by
        rw [Json.field, Json.field, haggregate]
      exact (twin_aggExpr hfield hcolumn hparam (declared.spec entries hvalue)
        (number entries entries' rfl rfl) hright hright').1
  | null => exact hquote .null hq hq'
  | bool b b' => exact hquote (.bool b b') hq hq'
  | num n n' => exact hquote (.num n n') hq hq'
  | str s s' => exact hquote (.str s s') hq hq'
  | list items items' => exact hquote (.list items items') hq hq'

theorem twin_aggregatedSql {left left' q q' : Sql} {row row' : Row Python.Number}
    (h : row.Reassigned row') (hleft : List.Forall₂ Twin left left')
    (declared : row.Declared repr)
    (number : ∀ entries entries', row.value = .obj entries → row'.value = .obj entries' →
      (AggregateSpec.ofEntries entries).readsParam = true →
        NumberOrNull (Json.field entries "aggregate_param") ∧
          NumberOrNull (Json.field entries' "aggregate_param"))
    (hq : aggregatedSql (pythonHost repr) left row.operator row.value qualify = some q)
    (hq' : aggregatedSql (pythonHost repr) left' row.operator row'.value qualify = some q') :
    List.Forall₂ Twin q q' := by
  unfold aggregatedSql at hq hq'
  cases hoperator : row.operator with
  | str name =>
    simp only [hoperator] at hq hq'
    cases hop : Operator.ofName name with
    | some op =>
      simp only [hop] at hq hq'
      by_cases hcomparison : op.isComparison = true
      · rw [if_pos hcomparison] at hq hq'
        obtain ⟨right, hright, rfl⟩ := Option.map_eq_some_iff.mp hq
        obtain ⟨right', hright', rfl⟩ := Option.map_eq_some_iff.mp hq'
        exact twin_fill op.template_fixed hleft
          (.cons (twin_aggregatedRight h.sameValue declared number hright hright') .nil)
      · rw [if_neg hcomparison] at hq hq'
        have hbounds := sameLiteral_bounds h.sameValue
        cases op <;> simp only [bind, pure, Option.bind_eq_some_iff, Option.some.injEq] at hq hq'
        case isNull =>
          subst hq hq'
          exact twin_fill (Operator.template_fixed _) hleft .nil
        case isNotNull =>
          subst hq hq'
          exact twin_fill (Operator.template_fixed _) hleft .nil
        case between =>
          obtain ⟨low, hlow, high, hhigh, rfl⟩ := hq
          obtain ⟨low', hlow', high', hhigh', rfl⟩ := hq'
          exact twin_fill (Operator.template_fixed _) hleft
            (.cons (twin_quote hbounds.1.kind hlow hlow')
              (.cons (twin_quote hbounds.2.kind hhigh hhigh') .nil))
        all_goals
          subst hq hq'
          exact .nil
    | none =>
      simp only [hop, Option.some.injEq] at hq hq'
      subst hq hq'
      exact .nil
  | _ =>
    simp only [hoperator, Option.some.injEq] at hq hq'
    subst hq hq'
    exact .nil

theorem twin_compileRow {row row' : Row Python.Number} {q q' : Sql} (h : row.Reassigned row')
    (declared : row.Declared repr) (unescaped : row.Unescaped repr)
    (unescaped' : row'.Unescaped repr) (hq : compileRow (pythonHost repr) row qualify = some q)
    (hq' : compileRow (pythonHost repr) row' qualify = some q') : List.Forall₂ Twin q q' := by
  unfold compileRow at hq hq'
  rw [← h.kind, ← h.columnRef, ← h.operator] at hq'
  cases hkind : isRow row.kind with
  | true =>
    simp only [hkind, if_true, bind] at hq hq'
    cases htruthy : (pythonHost repr).truthy row.columnRef with
    | false =>
      simp only [htruthy, Bool.not_false, if_true, Option.some.injEq] at hq hq'
      subst hq hq'
      exact .nil
    | true =>
      simp only [htruthy, Bool.not_true, Bool.false_eq_true, if_false,
        Option.bind_eq_some_iff] at hq hq'
      obtain ⟨left, hleft, hq⟩ := hq
      obtain ⟨left', hleft', hq'⟩ := hq'
      obtain rfl := Option.some.inj (hleft.symm.trans hleft')
      refine twin_rowSql h (own_ref (declared.columnRef htruthy) hleft).twin declared ?_ hq hq'
      intro hoperator
      refine ⟨unescaped.interval hkind htruthy hoperator, ?_⟩
      rw [h.kind] at hkind
      rw [h.columnRef] at htruthy
      rw [h.operator] at hoperator
      exact unescaped'.interval hkind htruthy hoperator
  | false =>
    simp only [hkind, Bool.false_eq_true, if_false, bind, pure, Option.bind_eq_some_iff] at hq hq'
    obtain ⟨⟨left, present⟩, hleft, hq⟩ := hq
    obtain ⟨⟨left', present'⟩, hleft', hq'⟩ := hq'
    have hkind' : isRow row'.kind = false := h.kind ▸ hkind
    have hreads : row.spec.readsParam = row'.spec.readsParam := by
      rw [AggregateSpec.readsParam, AggregateSpec.readsParam, Row.spec, Row.spec, h.aggregate]
    obtain ⟨htwin, rfl⟩ := twin_aggExpr h.aggregate h.columnRef h.param declared.columnRef
      (fun hparam => ⟨unescaped.param hkind hparam, unescaped'.param hkind' (hreads ▸ hparam)⟩)
      hleft hleft'
    cases present with
    | false =>
      obtain rfl := Option.some.inj hq
      obtain rfl := Option.some.inj hq'
      exact .nil
    | true =>
      refine twin_aggregatedSql h htwin declared ?_ hq hq'
      intro entries entries' hvalue hvalue' hparam
      refine ⟨unescaped.valueParam hkind entries hvalue hparam, ?_⟩
      apply unescaped'.valueParam hkind' entries' hvalue'
      have hfield : Json.field entries "aggregate" = Json.field entries' "aggregate" := by
        rw [Json.field, Json.field, (h.sameValue.spec entries entries' hvalue hvalue').1]
      simpa only [AggregateSpec.readsParam, AggregateSpec.ofEntries, hfield] using hparam

theorem twin_entryFragment {entry entry' : Entry Python.Number} {q q' : Sql}
    (h : entry.Reassigned entry') (declared : ∀ r, entry = .row r → r.Declared repr)
    (unescaped : ∀ r, entry = .row r → r.Unescaped repr)
    (unescaped' : ∀ r, entry' = .row r → r.Unescaped repr)
    (hq : entryFragment (pythonHost repr) entry qualify = some q)
    (hq' : entryFragment (pythonHost repr) entry' qualify = some q') :
    List.Forall₂ Twin q q' := by
  cases h with
  | row r r' hrow =>
    exact twin_compileRow hrow (declared r rfl) (unescaped r rfl) (unescaped' r' rfl) hq hq'
  | null =>
    obtain rfl := Option.some.inj hq
    obtain rfl := Option.some.inj hq'
    exact .nil
  | scalar =>
    obtain rfl := Option.some.inj hq
    obtain rfl := Option.some.inj hq'
    exact .nil

theorem own_combinator {entry : Entry Python.Number}
    (declared : ∀ r, entry = .row r → r.Declared repr) {combinator : Text}
    (h : (pythonHost repr).combinator entry.combinator = some combinator) :
    Own [.raw combinator] := by
  have hand : combinator = "AND".toList ∨ combinator = "OR".toList := by
    cases entry with
    | row r =>
      rcases (declared r rfl).combinator with hr | hr
      · exact .inl (Option.some.inj (h.symm.trans hr))
      · exact .inr (Option.some.inj (h.symm.trans hr))
    | null => exact .inl (Option.some.inj h).symm
    | scalar => exact .inl (Option.some.inj h).symm
  intro piece hpiece
  obtain rfl := List.mem_singleton.mp hpiece
  rcases hand with rfl | rfl
  · exact ⟨fixed_raw rfl, rfl⟩
  · exact ⟨fixed_raw rfl, rfl⟩

theorem twin_entryPart {index : Nat} {entry entry' : Entry Python.Number} {q q' : Sql}
    (h : entry.Reassigned entry') (declared : ∀ r, entry = .row r → r.Declared repr)
    (unescaped : ∀ r, entry = .row r → r.Unescaped repr)
    (unescaped' : ∀ r, entry' = .row r → r.Unescaped repr)
    (hq : entryPart (pythonHost repr) index entry qualify = some q)
    (hq' : entryPart (pythonHost repr) index entry' qualify = some q') :
    List.Forall₂ Twin q q' := by
  simp only [entryPart, bind, pure, Option.bind_eq_some_iff] at hq hq'
  obtain ⟨fragment, hfragment, hq⟩ := hq
  obtain ⟨fragment', hfragment', hq'⟩ := hq'
  have htwin := twin_entryFragment h declared unescaped unescaped' hfragment hfragment'
  have hcombinator : entry.combinator = entry'.combinator := by
    cases h with
    | row r r' hrow => exact hrow.combinator
    | null => rfl
    | scalar => rfl
  rw [← twin_isEmpty htwin, ← hcombinator] at hq'
  split at hq
  · rename_i hfirst
    rw [if_pos hfirst] at hq'
    obtain rfl := Option.some.inj hq
    obtain rfl := Option.some.inj hq'
    exact htwin
  · rename_i hlater
    rw [if_neg hlater] at hq'
    simp only [Option.bind_eq_some_iff, Option.some.injEq] at hq hq'
    obtain ⟨combinator, hc, rfl⟩ := hq
    obtain ⟨combinator', hc', rfl⟩ := hq'
    obtain rfl := Option.some.inj (hc.symm.trans hc')
    exact twin_append (own_combinator declared hc).twin (twin_cons_sql rfl htwin)

theorem twin_compileEntries {index : Nat} {entries entries' : List (Entry Python.Number)}
    {parts parts' : List Sql} (h : List.Forall₂ Entry.Reassigned entries entries')
    (declared : ∀ r, Entry.row r ∈ entries → r.Declared repr)
    (unescaped : ∀ r, Entry.row r ∈ entries → r.Unescaped repr)
    (unescaped' : ∀ r, Entry.row r ∈ entries' → r.Unescaped repr)
    (hparts : compileEntries (pythonHost repr) index entries qualify = some parts)
    (hparts' : compileEntries (pythonHost repr) index entries' qualify = some parts') :
    List.Forall₂ (List.Forall₂ Twin) parts parts' := by
  induction h generalizing index parts parts' with
  | nil =>
    obtain rfl := Option.some.inj hparts
    obtain rfl := Option.some.inj hparts'
    exact .nil
  | cons hentry hentries ih =>
    simp only [compileEntries, bind, pure, Option.bind_eq_some_iff, Option.some.injEq]
      at hparts hparts'
    obtain ⟨part, hpart, rest, hrest, rfl⟩ := hparts
    obtain ⟨part', hpart', rest', hrest', rfl⟩ := hparts'
    have htwin := twin_entryPart hentry (fun r hr => declared r (by simp [hr]))
      (fun r hr => unescaped r (by simp [hr])) (fun r hr => unescaped' r (by simp [hr]))
      hpart hpart'
    have htail := ih (fun r hr => declared r (List.mem_cons_of_mem _ hr))
      (fun r hr => unescaped r (List.mem_cons_of_mem _ hr))
      (fun r hr => unescaped' r (List.mem_cons_of_mem _ hr)) hrest hrest'
    rw [← twin_isEmpty htwin]
    split
    · exact htail
    · exact .cons htwin htail

theorem own_mapM {α : Type} {f : α → Option Sql} {xs : List α} {parts : List Sql}
    (h : xs.mapM f = some parts) (hf : ∀ x ∈ xs, ∀ q, f x = some q → Own q) :
    ∀ part ∈ parts, Own part := by
  intro part hpart
  obtain ⟨x, hmem, hx⟩ := Lib.exists_of_forall₂_right (Lib.mapM_eq_some_iff_forall₂.mp h) hpart
  exact hf x hmem part hx

theorem fixed_joinType {joinType : Json Python.Number} {text : Text}
    (h : (pythonHost repr).joinType joinType = some text) : fixedText text = true := by
  have hall : (("INNER JOIN".toList ::
      (joinTypeSql.map fun entry => (entry.1.toList, entry.2.toList)).map Prod.snd).all
        fixedText) = true := by decide +kernel
  have htext := Option.some.inj h
  cases hfound : textOf joinTypeSql (Python.str (.ofRepr repr) joinType) with
  | none =>
    rw [hfound] at htext
    exact htext ▸ List.all_eq_true.mp hall _ List.mem_cons_self
  | some found =>
    rw [hfound] at htext
    obtain rfl : found = text := htext
    have hmem := Lib.mem_of_lookup hfound
    exact List.all_eq_true.mp hall _ (List.mem_cons_of_mem _ (List.mem_map_of_mem hmem))

theorem own_joinSql {j : Join Python.Number} {q : Sql}
    (declared : ∀ key ∈ j.keys, (pythonHost repr).truthy key.columnRef = true →
      DeclaredColumn key.columnRef)
    (h : joinSql (pythonHost repr) j = some q) : Own q := by
  simp only [joinSql, bind, pure, Option.bind_eq_some_iff] at h
  obtain ⟨path, -, target, htarget, joinType, hjoinType, h⟩ := h
  have hown := own_quoteIdentPath htarget
  have hhead : Own (.sql joinType :: sql " " :: target) :=
    (own_sql (fixed_joinType hjoinType)).append (Own.cons rfl hown)
  split at h
  · obtain rfl := Option.some.inj h
    exact hhead
  · simp only [Option.bind_eq_some_iff, Option.some.injEq] at h
    obtain ⟨conditions, hconditions, rfl⟩ := h
    have hon : ∀ condition ∈ conditions, Own condition := by
      apply own_mapM hconditions
      intro key hkey q hq
      obtain ⟨hmem, husable⟩ := List.mem_filter.mp hkey
      simp only [bind, pure, Option.bind_eq_some_iff, Option.some.injEq] at hq
      obtain ⟨path, -, joined, hjoined, own, hcolumn, rfl⟩ := hq
      have hcolumn := own_ref (declared key hmem (Bool.and_eq_true_iff.mp husable).2) hcolumn
      exact (hown.append (Own.cons rfl (own_quoteIdentPath hjoined))).append
        (Own.cons rfl hcolumn)
    exact hhead.append (Own.cons rfl (Own.join rfl hon))

theorem own_compileJoinsToSql {joins : List (Join Python.Number)} {q : Sql}
    (declared : ∀ join ∈ joins, ∀ key ∈ join.keys,
      (pythonHost repr).truthy key.columnRef = true → DeclaredColumn key.columnRef)
    (h : compileJoinsToSql (pythonHost repr) joins = some q) : Own q := by
  simp only [compileJoinsToSql, bind, pure, Option.bind_eq_some_iff, Option.some.injEq] at h
  obtain ⟨parts, hparts, rfl⟩ := h
  apply Own.join rfl
  exact own_mapM hparts fun join hjoin _ => own_joinSql (declared join (List.mem_filter.mp hjoin).1)

theorem own_joinKeyRefs {joins : List (Join Python.Number)} {refs : List Sql}
    (declared : ∀ join ∈ joins, ∀ key ∈ join.keys,
      (pythonHost repr).truthy key.columnRef = true → DeclaredColumn key.columnRef)
    (h : joinKeyRefs (pythonHost repr) joins = some refs) : ∀ key ∈ refs, Own key := by
  simp only [joinKeyRefs, bind, pure, Option.bind_eq_some_iff, Option.some.injEq] at h
  obtain ⟨all, hall, rfl⟩ := h
  intro key hkey
  refine own_mapM hall (fun key hkey _ hq => ?_) key (unseen_subset hkey)
  obtain ⟨hmem, htruthy⟩ := List.mem_filter.mp hkey
  obtain ⟨join, hjoin, hmem⟩ := List.mem_flatMap.mp hmem
  exact own_ref (declared join (List.mem_filter.mp hjoin).1 key hmem htruthy) hq

theorem own_slot {name : Text} (h : name.all isWordChar = true) : Own [.slot name] := by
  intro piece hpiece
  obtain rfl := List.mem_singleton.mp hpiece
  exact ⟨fixed_slot h, rfl⟩

theorem own_selectKeyProjection {ν : Type} {host : Host ν} {key : Sql} (h : Own key) :
    Own (selectKeyProjection host key) := by
  unfold selectKeyProjection
  split
  · exact (own_slot (by decide)).append
      ((Own.cons rfl h).append (Own.cons rfl h))
  · exact h

theorem twin_selectQuery {select : Option Sql} {predicate predicate' joins : Sql}
    (hselect : ∀ list ∈ select, Own list) (hpredicate : List.Forall₂ Twin predicate predicate')
    (hjoins : Own joins) :
    List.Forall₂ Twin (selectQuery select predicate joins) (selectQuery select predicate' joins) := by
  have hfrom : Own (fromClause joins) := by
    have hview := own_slot (show "input_view".toList.all isWordChar = true by decide)
    unfold fromClause
    split
    · exact hview
    · exact hview.append (Own.cons rfl hjoins)
  have hlist : Own (select.elim [] fun list => list ++ [sql ", "]) := by
    cases select with
    | none => exact Own.nil
    | some list => exact (hselect list rfl).append (Own.cons rfl Own.nil)
  have hclose : Own [sql ")"] := Own.cons rfl Own.nil
  have hfail : List.Forall₂ Twin (failCondition predicate) (failCondition predicate') :=
    twin_cons_sql rfl (twin_append hpredicate hclose.twin)
  exact twin_append (twin_append (Own.cons rfl hlist).twin
    (twin_cons_sql rfl hfail)) (Own.cons rfl hfrom).twin

/-- Group-by columns that read as whole tokens. -/
def WholeColumns (columns : List Text) : Prop :=
  ∀ column ∈ columns, fixedText column = true

/-- Rules that differ in their literals compile to pieces that do. -/
theorem twin_compileLowcodeBody {ast ast' : Ast Python.Number} {groupBy : Text} {body body' : Body}
    (h : ast.Reassigned ast') (declared : ast.Declared repr)
    (columns : WholeColumns (splitTopLevelCommas (pythonHost repr) groupBy))
    (unescaped : ast.Unescaped repr) (unescaped' : ast'.Unescaped repr)
    (hbody : compileLowcodeBody (pythonHost repr) ast groupBy = some body)
    (hbody' : compileLowcodeBody (pythonHost repr) ast' groupBy = some body') :
    List.Forall₂ Twin body.sql body'.sql := by
  simp only [compileLowcodeBody, bind, pure, Option.bind_eq_some_iff] at hbody hbody'
  rw [← h.joins] at hbody'
  obtain ⟨joins, hjoins, predicate, hpredicate, hbody⟩ := hbody
  obtain ⟨joins', hjoins', predicate', hpredicate', hbody'⟩ := hbody'
  obtain rfl := Option.some.inj (hjoins.symm.trans hjoins')
  have hjoinsOwn := own_compileJoinsToSql declared.keys hjoins
  have htwin : List.Forall₂ Twin predicate predicate' := by
    obtain ⟨parts, hparts, rfl⟩ := Option.map_eq_some_iff.mp hpredicate
    obtain ⟨parts', hparts', rfl⟩ := Option.map_eq_some_iff.mp hpredicate'
    exact twin_join rfl
      (twin_compileEntries h.rows declared.rows unescaped unescaped' hparts hparts')
  have hcolumns : ∀ column ∈ ((splitTopLevelCommas (pythonHost repr) groupBy).map fun column =>
      [Piece.raw column]), Own column := by
    intro column hcolumn
    obtain ⟨text, htext, rfl⟩ := List.mem_map.mp hcolumn
    intro piece hpiece
    obtain rfl := List.mem_singleton.mp hpiece
    exact ⟨fixed_raw (columns text htext), rfl⟩
  generalize (splitTopLevelCommas (pythonHost repr) groupBy).map
    (fun column => [Piece.raw column]) = columns at hbody hbody' hcolumns
  split at hbody
  · rename_i hnone
    rw [if_pos hnone] at hbody'
    obtain rfl := Option.some.inj hbody
    obtain rfl := Option.some.inj hbody'
    exact htwin
  · rename_i hsome
    rw [if_neg hsome] at hbody'
    split at hbody
    · rename_i hgrouped
      rw [if_pos hgrouped] at hbody'
      obtain rfl := Option.some.inj hbody
      obtain rfl := Option.some.inj hbody'
      refine twin_append (twin_selectQuery ?_ htwin hjoinsOwn)
        (Own.cons rfl (Own.join rfl hcolumns)).twin
      intro list hlist
      obtain rfl := Option.some.inj hlist
      apply Own.join rfl
      split
      · exact hcolumns
      · intro column hcolumn
        obtain ⟨key, hkey, rfl⟩ := List.mem_map.mp hcolumn
        exact own_selectKeyProjection (hcolumns key hkey)
    · rename_i hplain
      rw [if_neg hplain] at hbody'
      simp only [Option.bind_eq_some_iff] at hbody hbody'
      obtain ⟨keyRefs, hrefs, hbody⟩ := hbody
      obtain ⟨keyRefs', hrefs', hbody'⟩ := hbody'
      obtain rfl := Option.some.inj (hrefs.symm.trans hrefs')
      have hkeys := own_joinKeyRefs declared.keys hrefs
      split at hbody
      · rename_i hkeyed
        rw [if_pos hkeyed] at hbody'
        obtain rfl := Option.some.inj hbody
        obtain rfl := Option.some.inj hbody'
        apply twin_selectQuery _ htwin hjoinsOwn
        intro list hlist
        obtain rfl := Option.some.inj hlist
        apply Own.join rfl
        intro column hcolumn
        obtain ⟨key, hkey, rfl⟩ := List.mem_map.mp hcolumn
        exact own_selectKeyProjection (hkeys key hkey)
      · rename_i hunkeyed
        rw [if_neg hunkeyed] at hbody'
        obtain rfl := Option.some.inj hbody
        obtain rfl := Option.some.inj hbody'
        exact twin_selectQuery (by simp) htwin hjoinsOwn

end Dqx.LowCode
