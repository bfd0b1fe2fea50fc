import Dqx.Compare.Scope

/-! A filtered comparison reports the rows in scope whatever the rows out of scope are: the results
that the windows can give for two sources with the same rows in scope are the same, and where the
order of values leaves no ties between different values, there is only one. -/

namespace Dqx.Compare

open Lib

variable {k c : Nat} {V ρ σ : Type} [DecidableEq V]
  {valueOrder : (Fin c → Option V) → (Fin c → Option V) → Prop}

theorem oppositeCount_perm {nullSafe : Bool} {opposite opposite' : List (Row k c V σ)}
    (h : opposite.Perm opposite') (key : (Fin k → Option V) × (Fin c → Option V)) :
    oppositeCount nullSafe opposite key = oppositeCount nullSafe opposite' key :=
  h.countP_eq _

theorem mem_withOppositeCounts {nullSafe : Bool} {rows : List (Row k c V ρ)}
    {opposite : List (Row k c V σ)} :
    ∀ r ∈ withOppositeCounts nullSafe rows opposite,
      r.1 ∈ rows ∧ r.2 = oppositeCount nullSafe opposite r.1.exactKey := by
  intro r hr
  rw [withOppositeCounts_eq] at hr
  obtain ⟨row, hrow, rfl⟩ := List.mem_map.mp hr
  exact ⟨hrow, rfl⟩

section Windows

variable (windows : Windows k c V ρ σ valueOrder) (nullSafe : Bool) {df df' : List (Row k c V ρ)}
  (refDf : List (Row k c V σ))

theorem referenceRanked_eq (h : (df'.filter (·.scope)).Perm (df.filter (·.scope))) :
    referenceRanked windows nullSafe df' refDf = referenceRanked windows nullSafe df refDf := by
  rw [referenceRanked, referenceRanked, withOppositeCounts_eq, withOppositeCounts_eq]
  simp only [oppositeCount_perm h]

theorem filter_withOppositeCounts (rows : List (Row k c V ρ)) :
    (withOppositeCounts nullSafe rows refDf).filter (·.1.scope) =
      (rows.filter (·.scope)).map fun row => (row, oppositeCount nullSafe refDf row.exactKey) := by
  rw [withOppositeCounts_eq, List.filter_map]
  rfl

theorem maxScope_inScope {row : Row k c V ρ} (h : row ∈ df) (hscope : row.scope = true) :
    maxScope df row = 1 := maxScope_eq_one ⟨row, h, rfl, hscope⟩

/-- For a source with the same rows in scope there are windows that rank them alike. -/
theorem exists_sourceRanked (h : (df'.filter (·.scope)).Perm (df.filter (·.scope))) :
    ∃ sourceExact, (sourceRanked { windows with sourceExact } nullSafe df' refDf).filter
      (·.row.scope) = (sourceRanked windows nullSafe df refDf).filter (·.row.scope) := by
  let rows := withOppositeCounts nullSafe df refDf
  let rows' := withOppositeCounts nullSafe df' refDf
  have hperm : ((windows.sourceExact.run rows).filter (·.1.scope)).Perm
      (rows'.filter (·.1.scope)) := by
    refine ((windows.sourceExact.perm rows).filter _).trans ?_
    rw [filter_withOppositeCounts, filter_withOppositeCounts]
    exact (h.map _).symm
  obtain ⟨sourceExact, hrun⟩ := windows.sourceExact.exists_run_filter hperm
    ((windows.sourceExact.sorted rows).filter _) fun a b _ ha _ => by
      rw [ha]
      exact Bool.le_true _
  refine ⟨sourceExact, ?_⟩
  rw [sourceRanked, sourceRanked, withExactPairs_filter _ _ fun _ _ _ _ hle => hle,
    withExactPairs_filter _ _ fun _ _ _ _ hle => hle]
  dsimp only
  rw [hrun]
  apply List.map_congr_left
  rintro ⟨⟨row, count⟩, rank⟩ hmem
  have hrow : row ∈ df.filter (·.scope) ∧ row ∈ df'.filter (·.scope) := by
    have hfirst : (row, count) ∈ (windows.sourceExact.run rows).filter (·.1.scope) := by
      have hfst := List.mem_map_of_mem (f := Prod.fst) hmem
      rwa [number_map_fst] at hfst
    have hin := hperm.subset hfirst
    rw [filter_withOppositeCounts] at hin
    obtain ⟨row', hrow', heq⟩ := List.mem_map.mp hin
    cases heq
    exact ⟨h.subset hrow', hrow'⟩
  rw [List.mem_filter, List.mem_filter] at hrow
  dsimp only
  rw [maxScope_inScope hrow.1.1 hrow.1.2, maxScope_inScope hrow.2.1 hrow.2.2]

/-- For a source with the same rows in scope there are windows that place them, and the reference
rows, alike. -/
theorem exists_placed (h : (df'.filter (·.scope)).Perm (df.filter (·.scope))) :
    ∃ windows' : Windows k c V ρ σ valueOrder,
      (addExactValuePairingColumns windows' nullSafe df' refDf).1.filter (·.row.scope) =
        (addExactValuePairingColumns windows nullSafe df refDf).1.filter (·.row.scope) ∧
      (addExactValuePairingColumns windows' nullSafe df' refDf).2 =
        (addExactValuePairingColumns windows nullSafe df refDf).2 := by
  obtain ⟨sourceExact, hranked⟩ := exists_sourceRanked windows nullSafe refDf h
  let ranked := sourceRanked windows nullSafe df refDf
  let ranked' := sourceRanked { windows with sourceExact } nullSafe df' refDf
  have hperm : ((windows.sourceResidual.run ranked).filter (·.row.scope)).Perm
      (ranked'.filter (·.row.scope)) := by
    rw [hranked]
    exact (windows.sourceResidual.perm ranked).filter _
  obtain ⟨sourceResidual, hrun⟩ := windows.sourceResidual.exists_run_filter hperm
    ((windows.sourceResidual.sorted ranked).filter _) fun a b _ ha hb => by
      refine .inl ?_
      rw [ha, hb]
      decide
  have hle : ∀ a b : Ranked k c V ρ, residualOrder valueOrder a b → b.row.scope ≤ a.row.scope := by
    rintro a b (hlt | ⟨heq, -⟩)
    · exact hlt.le
    · exact heq.le
  refine ⟨{ windows with sourceExact, sourceResidual }, ?_, ?_⟩
  · rw [addExactValuePairingColumns_eq, addExactValuePairingColumns_eq, List.filter_map,
      List.filter_map]
    congr 1
    show (withResidualRanks sourceResidual ranked').filter (·.row.scope) =
      (withResidualRanks windows.sourceResidual ranked).filter (·.row.scope)
    rw [withResidualRanks_filter hle, withResidualRanks_filter hle, hrun]
  · rw [addExactValuePairingColumns_eq, addExactValuePairingColumns_eq]
    exact congrArg (fun rows => (withResidualRanks windows.referenceResidual rows).map Ranked.place)
      (referenceRanked_eq windows nullSafe refDf h)

end Windows

/-- What the pairing of a ranked row depends on. -/
def Ranked.view (r : Ranked k c V ρ) : ((Fin k → Option V) × (Fin c → Option V)) × Nat × Bool :=
  (r.row.exactKey, r.exactRank, r.exactPair)

/-- What the pairing of a placed row in scope depends on. -/
def Placed.view (a : Placed k c V ρ) : ((Fin k → Option V) × (Fin c → Option V)) × Nat × Nat :=
  (a.row.exactKey, a.phase, a.rowNumber)

section Views

/-- The exact pairs of rows in scope are counted out from their keys, values and opposite counts. -/
theorem withExactPairs_view {le : Row k c V ρ × Nat → Row k c V ρ × Nat → Prop}
    {window : Arrangement (fun r : Row k c V ρ × Nat => r.1.exactKey) le}
    {mayPair : Row k c V ρ → Bool} {inScopeKey : Row k c V ρ → Nat} {rows : List (Row k c V ρ × Nat)}
    (hle : ∀ a ∈ rows, ∀ b ∈ rows, le a b → b.1.scope ≤ a.1.scope)
    (hmay : ∀ row : Row k c V ρ, row.scope = true → mayPair row = true) :
    ((withExactPairs window mayPair inScopeKey rows).filter (·.row.scope)).map Ranked.view =
      (number Prod.fst (((window.run rows).filter (·.1.scope)).map
        fun r => (r.1.exactKey, r.2))).map fun r => (r.1.1, r.2, decide (r.2 ≤ r.1.2)) := by
  rw [withExactPairs_filter inScopeKey mayPair hle, ← number_map (fun r : Row k c V ρ × Nat =>
    (r.1.exactKey, r.2)) Prod.fst, List.map_map, List.map_map]
  apply List.map_congr_left
  rintro ⟨⟨row, count⟩, rank⟩ hmem
  have hscope : row.scope = true := by
    have hfst := List.mem_map_of_mem (f := Prod.fst) hmem
    rw [number_map_fst, List.mem_filter] at hfst
    exact hfst.2
  simp [Ranked.view, hmay row hscope]

/-- The same rows in scope, with counts that follow from keys and values, have the same exact
pairs. -/
theorem withExactPairs_view_perm {le le' : Row k c V ρ × Nat → Row k c V ρ × Nat → Prop}
    {window : Arrangement (fun r : Row k c V ρ × Nat => r.1.exactKey) le}
    {window' : Arrangement (fun r : Row k c V ρ × Nat => r.1.exactKey) le'}
    {mayPair : Row k c V ρ → Bool} {inScopeKey inScopeKey' : Row k c V ρ → Nat}
    {rows rows' : List (Row k c V ρ × Nat)}
    {f : (Fin k → Option V) × (Fin c → Option V) → Nat}
    (hle : ∀ a ∈ rows, ∀ b ∈ rows, le a b → b.1.scope ≤ a.1.scope)
    (hle' : ∀ a ∈ rows', ∀ b ∈ rows', le' a b → b.1.scope ≤ a.1.scope)
    (hmay : ∀ row : Row k c V ρ, row.scope = true → mayPair row = true)
    (hcount : ∀ r ∈ rows, r.2 = f r.1.exactKey)
    (hperm : (rows.filter (·.1.scope)).Perm (rows'.filter (·.1.scope))) :
    (((withExactPairs window mayPair inScopeKey rows).filter (·.row.scope)).map Ranked.view).Perm
      (((withExactPairs window' mayPair inScopeKey' rows').filter (·.row.scope)).map Ranked.view) := by
  rw [withExactPairs_view hle hmay, withExactPairs_view hle' hmay]
  refine List.Perm.map _ ?_
  have hrun : ((window.run rows).filter (·.1.scope)).Perm ((window'.run rows').filter (·.1.scope)) :=
    (((window.perm rows).filter _).trans hperm).trans ((window'.perm rows').filter _).symm
  have hall : ∀ r ∈ (window.run rows).filter (·.1.scope), r.2 = f r.1.exactKey := fun r hr =>
    hcount r (window.mem_run.mp (List.mem_filter.mp hr).1)
  have htrue : ∀ xs : List (((Fin k → Option V) × (Fin c → Option V)) × Nat),
      xs.Pairwise fun a b => a.1 = b.1 → True :=
    fun xs => List.pairwise_of_forall fun _ _ _ => trivial
  refine number_perm_of_sorted ?_ (htrue _) (htrue _) (hrun.map _)
  · intro a ha b hb hab _ _
    obtain ⟨r, hr, rfl⟩ := List.mem_map.mp ha
    obtain ⟨r', hr', rfl⟩ := List.mem_map.mp hb
    refine Prod.ext hab ?_
    show r.2 = r'.2
    rw [hall r hr, hall r' (hrun.symm.subset hr')]
    exact congrArg f hab

omit [DecidableEq V] in
theorem scope_le_of_residualOrder (a b : Ranked k c V ρ) (h : residualOrder valueOrder a b) :
    b.row.scope ≤ a.row.scope := by
  rcases h with hlt | ⟨heq, -⟩
  · exact hlt.le
  · exact heq.le

/-- The places of rows in scope, exact pairs and others. -/
theorem withResidualRanks_view
    (window : Arrangement (fun r : Ranked k c V ρ => (r.row.key, r.exactPair))
      (residualOrder valueOrder)) (rows : List (Ranked k c V ρ)) :
    let first := (window.run rows).filter (·.row.scope)
    ((((withResidualRanks window rows).map Ranked.place).filter (·.row.scope)).map
      Placed.view).Perm
        (((first.filter (·.exactPair)).map fun r => (r.row.exactKey, 1, r.exactRank)) ++
          (number (fun x => (x.1.1, x.2))
            ((first.filter fun r => !r.exactPair).map fun r => (r.row.exactKey, r.exactPair))).map
              fun x => (x.1.1, 0, x.2)) := by
  intro first
  let part := fun r : Ranked k c V ρ => (r.row.key, r.exactPair)
  have hplaced : (((withResidualRanks window rows).map Ranked.place).filter (·.row.scope)).map
      Placed.view = (number part first).map fun x => (x.1.row.exactKey, x.1.exactPair.toNat,
        if x.1.exactPair then x.1.exactRank else x.2) := by
    rw [List.filter_map]
    show (((withResidualRanks window rows).filter (·.row.scope)).map Ranked.place).map
      Placed.view = _
    rw [withResidualRanks_filter scope_le_of_residualOrder, List.map_map, List.map_map]
    rfl
  have hsplit := List.filter_append_perm (fun x : Ranked k c V ρ × Nat => x.1.exactPair)
    (number part first)
  have hexact : ∀ p : Ranked k c V ρ → Bool, (∀ r r', part r = part r' → p r = p r') →
      (number part first).filter (fun x => p x.1) = number part (first.filter p) := by
    intro p hp
    apply number_filter
    exact List.pairwise_of_forall fun a b hab hb => (hp a b hab).trans hb
  rw [hplaced]
  refine (hsplit.symm.map _).trans (List.Perm.of_eq ?_)
  rw [List.map_append, hexact (·.exactPair) fun _ _ h => (Prod.mk.inj h).2,
    hexact (fun r => !r.exactPair) fun _ _ h => congrArg (!·) (Prod.mk.inj h).2]
  congr 1
  · conv_rhs => rw [← number_map_fst part (first.filter (·.exactPair)), List.map_map]
    apply List.map_congr_left
    rintro ⟨r, rank⟩ hmem
    have hpair : r.exactPair = true := by
      have hfst := List.mem_map_of_mem (f := Prod.fst) hmem
      rw [number_map_fst, List.mem_filter] at hfst
      exact hfst.2
    simp [hpair]
  · rw [← number_map (fun r : Ranked k c V ρ => (r.row.exactKey, r.exactPair))
      (fun x => (x.1.1, x.2)), List.map_map]
    apply List.map_congr_left
    rintro ⟨r, rank⟩ hmem
    have hpair : r.exactPair = false := by
      have hfst := List.mem_map_of_mem (f := Prod.fst) hmem
      rw [number_map_fst, List.mem_filter] at hfst
      simpa using hfst.2
    simp [hpair]

/-- Where the order of values leaves no ties, the places follow from the exact pairs. -/
theorem withResidualRanks_view_perm
    {window window' : Arrangement (fun r : Ranked k c V ρ => (r.row.key, r.exactPair))
      (residualOrder valueOrder)} {rows rows' : List (Ranked k c V ρ)}
    (hties : ∀ x y, valueOrder x y → valueOrder y x → x = y)
    (hperm : ((rows.filter (·.row.scope)).map Ranked.view).Perm
      ((rows'.filter (·.row.scope)).map Ranked.view)) :
    ((((withResidualRanks window rows).map Ranked.place).filter (·.row.scope)).map
      Placed.view).Perm
        ((((withResidualRanks window' rows').map Ranked.place).filter (·.row.scope)).map
          Placed.view) := by
  refine (withResidualRanks_view window rows).trans
    (List.Perm.trans ?_ (withResidualRanks_view window' rows').symm)
  have hrun : (((window.run rows).filter (·.row.scope)).map Ranked.view).Perm
      (((window'.run rows').filter (·.row.scope)).map Ranked.view) :=
    ((((window.perm rows).filter _).map _).trans hperm).trans
      (((window'.perm rows').filter _).map _).symm
  have hfilter : ∀ (p : Bool → Bool) {β : Type}
      (f : ((Fin k → Option V) × (Fin c → Option V)) × Nat × Bool → β),
      ((((window.run rows).filter (·.row.scope)).filter fun r => p r.exactPair).map
        (f ∘ Ranked.view)).Perm
          ((((window'.run rows').filter (·.row.scope)).filter fun r => p r.exactPair).map
            (f ∘ Ranked.view)) := by
    intro p β f
    have h := ((hrun.filter fun x => p x.2.2).map f)
    rw [List.filter_map, List.filter_map, List.map_map, List.map_map] at h
    exact h
  refine (hfilter id fun x => (x.1, 1, x.2.1)).append (List.Perm.map _ ?_)
  have hsorted : ∀ (w : Arrangement (fun r : Ranked k c V ρ => (r.row.key, r.exactPair))
      (residualOrder valueOrder)) (ranked : List (Ranked k c V ρ)),
      ((((w.run ranked).filter (·.row.scope)).filter fun r => !r.exactPair).map fun r =>
        (r.row.exactKey, r.exactPair)).Pairwise fun x y =>
          (x.1.1, x.2) = (y.1.1, y.2) → valueOrder x.1.2 y.1.2 := by
    intro w ranked
    rw [List.pairwise_map]
    refine (((w.sorted ranked).filter _).filter _).imp_of_mem fun {a b} ha hb hab hpart => ?_
    have hscope : ∀ r ∈ ((w.run ranked).filter (·.row.scope)).filter (fun r => !r.exactPair),
        r.row.scope = true := fun r hr => (List.mem_filter.mp (List.mem_filter.mp hr).1).2
    rcases hab hpart with hlt | ⟨-, hvalues⟩
    · rw [hscope a ha, hscope b hb] at hlt
      exact absurd hlt (lt_irrefl _)
    · exact hvalues
  refine number_perm_of_sorted (fun a _ b _ hpart hab hba => ?_) (hsorted window rows)
    (hsorted window' rows') (hfilter (!·) fun x => (x.1, x.2.2))
  obtain ⟨hkey, hpair⟩ := Prod.mk.inj hpart
  exact Prod.ext (Prod.ext hkey (hties _ _ hab hba)) hpair

end Views

/-- The join condition of a row in scope, on what pairing depends on. -/
def pairsView (nullSafe : Bool)
    (a b : ((Fin k → Option V) × (Fin c → Option V)) × Nat × Nat) : Bool :=
  buildJoinCondition nullSafe a.1.1 b.1.1 && a.2.1 = b.2.1 && a.2.2 = b.2.2 &&
    (a.2.1 = 0 || buildJoinCondition true a.1.2 b.1.2)

theorem pairs_inScope {nullSafe : Bool} {a : Placed k c V ρ} (hscope : a.row.scope = true)
    (b : Placed k c V σ) : pairs true nullSafe a b = pairsView nullSafe a.view b.view := by
  rw [pairs, if_pos rfl, hscope, Bool.true_or, Bool.and_true]
  rfl

section Reports

variable {P Q : Type} (options : CompareOptions k c V P)

/-- Whether an input row is in scope. -/
def CompareOptions.inScope (row : InputRow k c V P) : Bool := (options.withScope row).scope

/-- What a result row says up to the choice among rows with the same key and values. -/
def Compared.view (row : Compared k c V P Q) :
    Option ((Fin k → Option V) × (Fin c → Option V)) ×
      Option ((Fin k → Option V) × (Fin c → Option V)) × Option (Status c) :=
  (row.source.map Row.exactKey, row.reference.map Row.exactKey, row.condition)

/-- What is said of a row in scope that is paired with a reference row, or with none. -/
def reportView (a : (Fin k → Option V) × (Fin c → Option V))
    (b : Option ((Fin k → Option V) × (Fin c → Option V))) :
    Option ((Fin k → Option V) × (Fin c → Option V)) ×
      Option ((Fin k → Option V) × (Fin c → Option V)) × Option (Status c) :=
  let changed := (List.finRange c).filter fun i =>
    options.differs i (a.2 i) (b.bind fun b => b.2 i) = some true
  (some a, b, if !(!b.isNone && changed.isEmpty) then some ⟨false, b.isNone, changed⟩ else none)

omit [DecidableEq V] in
theorem view_compared {a : Placed k c V (Option Bool × P)} (hfilter : a.row.rest.1 = some true)
    (b : Option (Placed k c V Q)) :
    (options.compared (some a, b)).view = reportView options a.row.exactKey
      (b.map (·.row.exactKey)) := by
  have hsource : absent (some a) = false := absent_some a
  have hcondition : ∀ joined : Joined k c V P Q, joined.1 = some a →
      options.compareCondition joined =
        if !(!absent joined.2 && (options.status joined).changed.isEmpty) then
          some (options.status joined) else none := by
    intro joined hjoined
    rw [CompareOptions.compareCondition]
    simp only [CompareOptions.status, hjoined, hsource, Option.bind_some, hfilter]
    simp
  cases b with
  | none =>
    rw [Compared.view, CompareOptions.compared, hcondition _ rfl, CompareOptions.status, absent_none,
      hsource]
    rfl
  | some b =>
    have hreference : absent (some b) = false := absent_some b
    rw [Compared.view, CompareOptions.compared, hcondition _ rfl, CompareOptions.status]
    dsimp only
    rw [hsource, hreference]
    rfl

/-- What is said of a missing reference row. -/
def missingView (b : (Fin k → Option V) × (Fin c → Option V)) :
    Option ((Fin k → Option V) × (Fin c → Option V)) ×
      Option ((Fin k → Option V) × (Fin c → Option V)) × Option (Status c) :=
  (none, some b, some ⟨true, false, (List.finRange c).filter fun i =>
    options.differs i none (b.2 i) = some true⟩)

omit [DecidableEq V] in
theorem missingView_compared (b : Placed k c V Q) :
    (options.compared ((none, some b) : Joined k c V P Q)).view =
      missingView options b.row.exactKey := by
  have hsource : absent (none : Option (Placed k c V (Option Bool × P))) = true := absent_none
  have hreference : absent (some b) = false := absent_some b
  rw [Compared.view, CompareOptions.compared, CompareOptions.compareCondition, CompareOptions.status]
  dsimp only
  rw [hsource, hreference]
  rfl

omit [DecidableEq V] in
theorem filter_of_inScope {row : InputRow k c V P} (h : (options.withScope row).scope = true) :
    (options.withScope row).rest.1 = some true := by
  rw [CompareOptions.withScope] at h ⊢
  dsimp only at h ⊢
  rcases hrow : options.rowFilter with _ | rowFilter
  · rfl
  · rw [hrow] at h
    dsimp only at h ⊢
    cases hvalue : rowFilter row with
    | none =>
      rw [hvalue] at h
      exact absurd h Bool.false_ne_true
    | some value =>
      rw [hvalue] at h
      exact congrArg some h

section Filtered

variable (windows windows' : Windows k c V (Option Bool × P) Q valueOrder)
  (df df' : List (InputRow k c V P)) (refDf : List (InputRow k c V Q))

/-- The places of a filtered comparison. -/
def CompareOptions.placed : List (Placed k c V (Option Bool × P)) × List (Placed k c V Q) :=
  addExactValuePairingColumns windows options.nullSafeRowMatching (df.map options.withScope)
    (refDf.map asReference)

variable {options} (hfilter : options.rowFilter.isSome = true)

include hfilter

theorem compareDatasets_filtered : options.compareDatasets windows df refDf =
    (matchPairedRows true options.nullSafeRowMatching options.checkMissingRecords
      (options.placed windows df refDf).1 (options.placed windows df refDf).2).map
        options.compared := by
  rw [CompareOptions.compareDatasets, hfilter]
  rfl

omit hfilter in
theorem placed_ownPlaces : OwnPlaces true (options.placed windows df refDf).2 :=
  (addLazyPairingColumns_reference windows options.nullSafeRowMatching true
    (df.map options.withScope) (refDf.map asReference)).2

theorem inScopeRows_filtered : inScopeRows (options.compareDatasets windows df refDf) =
    ((options.placed windows df refDf).1.filter (·.row.scope)).map fun a =>
      options.compared (some a, (options.placed windows df refDf).2.find?
        (pairs true options.nullSafeRowMatching a)) := by
  rw [compareDatasets_filtered windows df refDf hfilter]
  exact inScopeRows_compared options (placed_ownPlaces windows df refDf)

theorem missingRows_filtered {key : Fin k → Option V}
    (hkey : ∃ row ∈ df, row.key = key ∧ options.inScope row = true) :
    missingRows key (options.compareDatasets windows df refDf) =
      if options.checkMissingRecords then
        ((options.placed windows df refDf).2.filter fun b => b.row.key = key &&
          !((options.placed windows df refDf).1.filter (·.row.scope)).any fun a =>
            pairs true options.nullSafeRowMatching a b).map fun b => options.compared (none, some b)
      else [] := by
  rw [compareDatasets_filtered windows df refDf hfilter,
    missingRows_compared options key (placed_ownPlaces windows df refDf)]
  congr 2
  apply List.filter_congr
  intro b _
  by_cases hb : b.row.key = key
  · obtain ⟨row, hrow, hrowKey, hscope⟩ := hkey
    rw [CompareOptions.placed, any_pairs_inScope windows options.nullSafeRowMatching
      (df.map options.withScope) (refDf.map asReference)
      ⟨options.withScope row, List.mem_map_of_mem hrow, hrowKey.trans hb.symm, hscope⟩]
  · simp [hb]

end Filtered

/-- Two results say the same of the rows in scope, and of the reference rows missing under their
keys. -/
structure SameReports {β : Type} (view : Compared k c V P Q → β) (df : List (InputRow k c V P))
    (result result' : List (Compared k c V P Q)) : Prop where
  inScope : ((inScopeRows result').map view).Perm ((inScopeRows result).map view)
  missing : ∀ key, (∃ row ∈ df, row.key = key ∧ options.inScope row = true) →
    ((missingRows key result').map view).Perm ((missingRows key result).map view)

omit [DecidableEq V] in
theorem filter_withScope (df : List (InputRow k c V P)) :
    (df.map options.withScope).filter (·.scope) = (df.filter options.inScope).map
      options.withScope := by
  rw [List.filter_map]
  rfl

omit [DecidableEq V] in
theorem inScope_key_of_perm {df df' : List (InputRow k c V P)} {key : Fin k → Option V}
    (h : (df'.filter options.inScope).Perm (df.filter options.inScope))
    (hkey : ∃ row ∈ df, row.key = key ∧ options.inScope row = true) :
    ∃ row ∈ df', row.key = key ∧ options.inScope row = true := by
  obtain ⟨row, hrow, hrowKey, hscope⟩ := hkey
  have hmem := h.symm.subset (List.mem_filter.mpr ⟨hrow, hscope⟩)
  exact ⟨row, (List.mem_filter.mp hmem).1, hrowKey, hscope⟩

section TwoRuns

variable {options} {df df' : List (InputRow k c V P)} {refDf : List (InputRow k c V Q)}
  (hfilter : options.rowFilter.isSome = true)
  (h : (df'.filter options.inScope).Perm (df.filter options.inScope))

include hfilter h

/-- Whatever the windows report for one source, some windows report for the other. -/
theorem exists_sameReports (windows : Windows k c V (Option Bool × P) Q valueOrder) :
    ∃ windows' : Windows k c V (Option Bool × P) Q valueOrder,
      SameReports options id df (options.compareDatasets windows df refDf)
        (options.compareDatasets windows' df' refDf) := by
  have hscope : ((df'.map options.withScope).filter (·.scope)).Perm
      ((df.map options.withScope).filter (·.scope)) := by
    rw [filter_withScope, filter_withScope]
    exact h.map _
  obtain ⟨windows', hsource, hreference⟩ := exists_placed windows options.nullSafeRowMatching
    (refDf.map asReference) hscope
  refine ⟨windows', ⟨List.Perm.of_eq ?_, fun key hkey => List.Perm.of_eq ?_⟩⟩
  · rw [inScopeRows_filtered windows df refDf hfilter,
      inScopeRows_filtered windows' df' refDf hfilter]
    simp only [CompareOptions.placed, hsource, hreference]
  · rw [missingRows_filtered windows df refDf hfilter hkey,
      missingRows_filtered windows' df' refDf hfilter (inScope_key_of_perm options h hkey)]
    simp only [CompareOptions.placed, hsource, hreference]

omit hfilter h in
theorem scope_of_mem_placedReference (windows : Windows k c V (Option Bool × P) Q valueOrder) :
    ∀ b ∈ (options.placed windows df refDf).2, b.row.scope = true := by
  intro b hb
  have hperm := (addLazyPairingColumns_reference windows options.nullSafeRowMatching true
    (df.map options.withScope) (refDf.map asReference)).1
  have hmem := hperm.subset (List.mem_map_of_mem hb)
  obtain ⟨row, -, hrow⟩ := List.mem_map.mp hmem
  rw [← hrow]
  rfl

omit hfilter in
/-- Without ties between different values, the rows in scope get the same places. -/
theorem placed_view_perm (hties : ∀ x y, valueOrder x y → valueOrder y x → x = y)
    (windows windows' : Windows k c V (Option Bool × P) Q valueOrder) :
    (((options.placed windows' df' refDf).1.filter (·.row.scope)).map Placed.view).Perm
        (((options.placed windows df refDf).1.filter (·.row.scope)).map Placed.view) ∧
      ((options.placed windows' df' refDf).2.map Placed.view).Perm
        ((options.placed windows df refDf).2.map Placed.view) := by
  have hscope : ((df'.map options.withScope).filter (·.scope)).Perm
      ((df.map options.withScope).filter (·.scope)) := by
    rw [filter_withScope, filter_withScope]
    exact h.map _
  constructor
  · refine withResidualRanks_view_perm hties (withExactPairs_view_perm
      (f := oppositeCount options.nullSafeRowMatching (refDf.map asReference))
      (fun _ _ _ _ hle => hle) (fun _ _ _ _ hle => hle) (fun _ hrow => hrow)
      (fun r hr => (mem_withOppositeCounts r hr).2) ?_)
    rw [filter_withOppositeCounts, filter_withOppositeCounts]
    exact hscope.map _
  · have hall : ∀ (w : Windows k c V (Option Bool × P) Q valueOrder) (rows : List (InputRow k c V P)),
        (options.placed w rows refDf).2.filter (·.row.scope) = (options.placed w rows refDf).2 :=
      fun w rows => List.filter_eq_self.mpr (scope_of_mem_placedReference w)
    have hle : ∀ opposite : List (SourceRow k c V P),
        ∀ a ∈ withOppositeCounts options.nullSafeRowMatching (refDf.map asReference) opposite,
        ∀ b ∈ withOppositeCounts options.nullSafeRowMatching (refDf.map asReference) opposite,
          True → b.1.scope ≤ a.1.scope := by
      intro opposite a ha b _ _
      obtain ⟨row, -, hrow⟩ := List.mem_map.mp (mem_withOppositeCounts a ha).1
      rw [← hrow]
      exact Bool.le_true _
    rw [← hall windows df, ← hall windows' df']
    refine withResidualRanks_view_perm hties (withExactPairs_view_perm
      (f := oppositeCount options.nullSafeRowMatching
        ((df'.map options.withScope).filter (·.scope)))
      (hle _) (hle _) (fun _ _ => rfl) (fun r hr => (mem_withOppositeCounts r hr).2) ?_)
    rw [withOppositeCounts_eq, withOppositeCounts_eq]
    simp only [oppositeCount_perm hscope]
    exact .refl _

omit hfilter h in
theorem pairs_eq_view {a : Placed k c V (Option Bool × P)} (hscope : a.row.scope = true) :
    pairs (σ := Q) true options.nullSafeRowMatching a =
      pairsView options.nullSafeRowMatching a.view ∘ Placed.view :=
  funext fun b => pairs_inScope hscope b

omit h in
/-- What is said of the rows in scope follows from the places. -/
theorem inScopeRows_view (windows : Windows k c V (Option Bool × P) Q valueOrder) :
    (inScopeRows (options.compareDatasets windows df refDf)).map Compared.view =
      (((options.placed windows df refDf).1.filter (·.row.scope)).map Placed.view).map fun a =>
        reportView options a.1 ((((options.placed windows df refDf).2.map Placed.view).find?
          (pairsView options.nullSafeRowMatching a)).map Prod.fst) := by
  rw [inScopeRows_filtered windows df refDf hfilter, List.map_map, List.map_map]
  apply List.map_congr_left
  intro a ha
  rw [List.mem_filter] at ha
  have hfilterValue : a.row.rest.1 = some true := by
    obtain ⟨row, -, hrow⟩ := List.mem_map.mp (mem_placedSource windows _ _ _ ha.1).1
    rw [← hrow]
    apply filter_of_inScope
    rw [hrow]
    exact ha.2
  show (options.compared (some a, _)).view = _
  rw [view_compared options hfilterValue, pairs_eq_view ha.2]
  show _ = reportView options a.row.exactKey ((List.find? _ (List.map _ _)).map Prod.fst)
  rw [List.find?_map, Option.map_map]
  rfl

omit h in
theorem missingRows_view {windows : Windows k c V (Option Bool × P) Q valueOrder}
    {key : Fin k → Option V} (hkey : ∃ row ∈ df, row.key = key ∧ options.inScope row = true) :
    (missingRows key (options.compareDatasets windows df refDf)).map Compared.view =
      if options.checkMissingRecords then
        (((options.placed windows df refDf).2.map Placed.view).filter fun b => b.1.1 = key &&
          !(((options.placed windows df refDf).1.filter (·.row.scope)).map Placed.view).any fun a =>
            pairsView options.nullSafeRowMatching a b).map fun b => missingView options b.1
      else [] := by
  rw [missingRows_filtered windows df refDf hfilter hkey]
  split
  · rw [List.filter_map, List.map_map, List.map_map]
    have hpairs : ∀ b : Placed k c V Q,
        (((options.placed windows df refDf).1.filter (·.row.scope)).any fun a =>
          pairs true options.nullSafeRowMatching a b) =
        ((((options.placed windows df refDf).1.filter (·.row.scope)).map Placed.view).any fun a =>
          pairsView options.nullSafeRowMatching a b.view) := by
      intro b
      rw [List.any_map, Bool.eq_iff_iff, List.any_eq_true, List.any_eq_true]
      refine exists_congr fun a => and_congr_right fun ha => ?_
      rw [pairs_inScope (List.mem_filter.mp ha).2]
      rfl
    refine congrArg₂ List.map ?_ (List.filter_congr fun b _ => ?_)
    · exact funext fun b => missingView_compared options b
    · rw [hpairs]
      rfl
  · rfl

/-- Without ties between different values, any windows report the same. -/
theorem sameReports_of_noTies (hties : ∀ x y, valueOrder x y → valueOrder y x → x = y)
    (windows windows' : Windows k c V (Option Bool × P) Q valueOrder) :
    SameReports options Compared.view df (options.compareDatasets windows df refDf)
      (options.compareDatasets windows' df' refDf) := by
  obtain ⟨hsource, hreference⟩ := placed_view_perm h hties windows windows'
  constructor
  · rw [inScopeRows_view hfilter, inScopeRows_view hfilter]
    refine (hsource.map _).trans (List.Perm.of_eq (List.map_congr_left fun a ha => ?_))
    obtain ⟨placed, hplaced, rfl⟩ := List.mem_map.mp ha
    have hone : ((options.placed windows' df' refDf).2.filter
        (pairs true options.nullSafeRowMatching placed)).length ≤ 1 :=
      (placed_ownPlaces windows' df' refDf).length_le_one placed
    rw [pairs_eq_view (List.mem_filter.mp hplaced).2] at hone
    rw [find?_eq_of_perm hreference]
    rw [List.filter_map, List.length_map]
    exact hone
  · intro key hkey
    rw [missingRows_view hfilter hkey,
      missingRows_view hfilter (inScope_key_of_perm options h hkey)]
    split
    · refine List.Perm.map _ ?_
      have hany : ∀ b : ((Fin k → Option V) × (Fin c → Option V)) × Nat × Nat,
          ((((options.placed windows' df' refDf).1.filter (·.row.scope)).map Placed.view).any
            fun a => pairsView options.nullSafeRowMatching a b) =
          ((((options.placed windows df refDf).1.filter (·.row.scope)).map Placed.view).any
            fun a => pairsView options.nullSafeRowMatching a b) := fun b => hsource.any_eq
      simp only [hany]
      exact hreference.filter _
    · exact .refl _

end TwoRuns

end Reports

end Dqx.Compare
