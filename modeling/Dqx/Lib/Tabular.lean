import Mathlib.Data.List.Nodup
import Mathlib.Data.List.Perm.Basic
import Mathlib.Logic.Function.Basic

/-! Tables with named columns, expressions over their columns, and what it is for one table to hold
the rows of another, in any order and with more columns. -/

namespace Dqx.Lib.Tabular

variable {ν κ α β γ : Type}

/-- A table: its columns in order, and in every row a cell under each name. -/
structure Frame (ν κ : Type) where
  columns : List ν
  rows : List (ν → κ)

/-- Two rows have the same cells under these names. -/
def Agree (names : List ν) (r r' : ν → κ) : Prop := ∀ n ∈ names, r n = r' n

/-- An expression over the columns of a table. What it reads decides what it gives. -/
structure Column (ν κ α : Type) where
  reads : List ν
  eval : (ν → κ) → α
  eval_congr : ∀ {r r' : ν → κ}, Agree reads r r' → eval r = eval r'

/-! ### Rows that agree -/

theorem Agree.refl (names : List ν) (r : ν → κ) : Agree names r r := fun _ _ => rfl

theorem Agree.symm {names : List ν} {r r' : ν → κ} (h : Agree names r r') : Agree names r' r :=
  fun n hn => (h n hn).symm

theorem Agree.trans {names : List ν} {r r' r'' : ν → κ} (h : Agree names r r')
    (h' : Agree names r' r'') : Agree names r r'' :=
  fun n hn => (h n hn).trans (h' n hn)

theorem Agree.mono {names names' : List ν} {r r' : ν → κ} (h : Agree names r r')
    (hsub : names' ⊆ names) : Agree names' r r' :=
  fun n hn => h n (hsub hn)

theorem Agree.update [DecidableEq ν] {names : List ν} {n : ν} (hn : n ∉ names) (r : ν → κ) (c : κ) :
    Agree names r (Function.update r n c) :=
  fun m hm => (Function.update_of_ne (fun h : m = n => hn (h ▸ hm)) c r).symm

/-! ### Expressions -/

namespace Column

/-- `F.lit` -/
def lit (a : α) : Column ν κ α := ⟨[], fun _ => a, fun _ => rfl⟩

/-- `F.col` -/
def col (n : ν) : Column ν κ κ := ⟨[n], fun r => r n, fun h => h n List.mem_cons_self⟩

def map (f : α → β) (c : Column ν κ α) : Column ν κ β :=
  ⟨c.reads, fun r => f (c.eval r), fun h => congrArg f (c.eval_congr h)⟩

def zip (c : Column ν κ α) (d : Column ν κ β) : Column ν κ (α × β) where
  reads := c.reads ++ d.reads
  eval r := (c.eval r, d.eval r)
  eval_congr h := Prod.ext (c.eval_congr (h.mono (List.subset_append_left _ _)))
    (d.eval_congr (h.mono (List.subset_append_right _ _)))

/-- The values of several expressions. -/
def all (cs : List (Column ν κ α)) : Column ν κ (List α) where
  reads := cs.flatMap reads
  eval r := cs.map fun c => c.eval r
  eval_congr h := List.map_congr_left fun c hc =>
    c.eval_congr (h.mono fun _ hn => List.mem_flatMap.mpr ⟨c, hc, hn⟩)

@[simp] theorem eval_lit (a : α) (r : ν → κ) : (lit a : Column ν κ α).eval r = a := rfl

@[simp] theorem eval_col (n : ν) (r : ν → κ) : (col n).eval r = r n := rfl

@[simp] theorem eval_map (f : α → β) (c : Column ν κ α) (r : ν → κ) :
    (c.map f).eval r = f (c.eval r) := rfl

@[simp] theorem eval_zip (c : Column ν κ α) (d : Column ν κ β) (r : ν → κ) :
    (c.zip d).eval r = (c.eval r, d.eval r) := rfl

@[simp] theorem eval_all (cs : List (Column ν κ α)) (r : ν → κ) :
    (all cs).eval r = cs.map fun c => c.eval r := rfl

variable [DecidableEq ν]

/-- Every name that the expression reads is that of one column. -/
def resolves (c : Column ν κ α) (columns : List ν) : Bool :=
  c.reads.all fun n => columns.count n = 1

theorem resolves_iff {c : Column ν κ α} {columns : List ν} (h : columns.Nodup) :
    c.resolves columns = true ↔ c.reads ⊆ columns := by
  rw [resolves, List.all_eq_true]
  refine forall₂_congr fun n _ => ?_
  rw [decide_eq_true_eq, ← List.count_pos_iff]
  have hle := List.nodup_iff_count_le_one.mp h n
  omega

@[simp] theorem resolves_lit (a : α) (columns : List ν) :
    (lit a : Column ν κ α).resolves columns = true := rfl

@[simp] theorem resolves_map (f : α → β) (c : Column ν κ α) (columns : List ν) :
    (c.map f).resolves columns = c.resolves columns := rfl

@[simp] theorem resolves_zip (c : Column ν κ α) (d : Column ν κ β) (columns : List ν) :
    (c.zip d).resolves columns = (c.resolves columns && d.resolves columns) := List.all_append

theorem resolves_all {cs : List (Column ν κ α)} {columns : List ν} :
    (all cs).resolves columns = true ↔ ∀ c ∈ cs, c.resolves columns = true := by
  simp only [resolves, all, List.all_flatMap, List.all_eq_true]

theorem reads_subset {c : Column ν κ α} {columns : List ν} (h : c.resolves columns = true) :
    c.reads ⊆ columns := by
  intro n hn
  have hone := List.all_eq_true.mp h n hn
  rw [decide_eq_true_eq] at hone
  exact List.count_pos_iff.mp (by omega)

theorem resolves_mono {c : Column ν κ α} {columns columns' : List ν}
    (h : c.resolves columns = true) (hsub : columns ⊆ columns') (hnodup : columns'.Nodup) :
    c.resolves columns' = true :=
  (resolves_iff hnodup).mpr (List.Subset.trans (reads_subset h) hsub)

theorem resolves_col {n : ν} {columns : List ν} (hn : n ∈ columns) (hnodup : columns.Nodup) :
    (col n : Column ν κ κ).resolves columns = true :=
  (resolves_iff hnodup).mpr (List.cons_subset.mpr ⟨hn, List.nil_subset _⟩)

theorem eval_eq_of_resolves {c : Column ν κ α} {columns : List ν} (h : c.resolves columns = true)
    {r r' : ν → κ} (hagree : Agree columns r r') : c.eval r = c.eval r' :=
  c.eval_congr (hagree.mono (reads_subset h))

end Column

/-! ### Rows in any order -/

/-- The elements of two lists correspond, one to one, in some order. -/
def Paired (R : α → β → Prop) (l : List α) (m : List β) : Prop :=
  ∃ m', List.Forall₂ R l m' ∧ m'.Perm m

namespace Paired

variable {R : α → β → Prop} {S : β → γ → Prop} {l : List α} {m : List β} {n : List γ}

theorem of_forall₂ (h : List.Forall₂ R l m) : Paired R l m := ⟨m, h, .rfl⟩

theorem map_self {f : α → β} (h : ∀ a ∈ l, R a (f a)) : Paired R l (l.map f) := by
  refine of_forall₂ (List.forall₂_map_right_iff.mpr ?_)
  exact List.forall₂_same.mpr h

theorem mono {R' : α → β → Prop} (h : Paired R l m) (hR : ∀ a b, R a b → R' a b) :
    Paired R' l m := by
  obtain ⟨m', hforall, hperm⟩ := h
  exact ⟨m', hforall.imp hR, hperm⟩

theorem trans (h : Paired R l m) (h' : Paired S m n) :
    Paired (fun a c => ∃ b, R a b ∧ S b c) l n := by
  obtain ⟨m', hforall, hperm⟩ := h
  obtain ⟨n', hforall', hperm'⟩ := h'
  obtain ⟨n'', hforall'', hperm''⟩ := List.perm_comp_forall₂ hperm hforall'
  refine ⟨n'', ?_, hperm''.trans hperm'⟩
  clear hperm hperm' hforall' hperm''
  induction hforall generalizing n'' with
  | nil =>
    cases hforall''
    exact .nil
  | cons hab _ ih =>
    cases hforall'' with
    | cons hbc hrest => exact .cons ⟨_, hab, hbc⟩ (ih _ hrest)

theorem symm (h : Paired R l m) : Paired (fun b a => R a b) m l := by
  obtain ⟨m', hforall, hperm⟩ := h
  exact List.perm_comp_forall₂ hperm.symm hforall.flip

theorem length_eq (h : Paired R l m) : l.length = m.length := by
  obtain ⟨m', hforall, hperm⟩ := h
  exact hforall.length_eq.trans hperm.length_eq

theorem filter (h : Paired R l m) {p : α → Bool} {q : β → Bool} (hpq : ∀ a b, R a b → p a = q b) :
    Paired R (l.filter p) (m.filter q) := by
  obtain ⟨m', hforall, hperm⟩ := h
  refine ⟨m'.filter q, ?_, hperm.filter q⟩
  clear hperm
  induction hforall with
  | nil => exact .nil
  | @cons a b l m' hab _ ih =>
    rw [List.filter_cons, List.filter_cons, hpq a b hab]
    split
    · exact .cons hab ih
    · exact ih

theorem countP_eq (h : Paired R l m) {p : α → Bool} {q : β → Bool}
    (hpq : ∀ a b, R a b → p a = q b) : l.countP p = m.countP q := by
  rw [List.countP_eq_length_filter, List.countP_eq_length_filter]
  exact (h.filter hpq).length_eq

theorem map_right {f : β → γ} {T : α → γ → Prop} (h : Paired R l m)
    (hT : ∀ a b, R a b → T a (f b)) : Paired T l (m.map f) := by
  obtain ⟨m', hforall, hperm⟩ := h
  refine ⟨m'.map f, ?_, hperm.map f⟩
  exact List.forall₂_map_right_iff.mpr (hforall.imp hT)

theorem exists_left {b : β} (h : Paired R l m) (hb : b ∈ m) : ∃ a ∈ l, R a b := by
  obtain ⟨m', hforall, hperm⟩ := h
  have hmem := hperm.mem_iff.mpr hb
  clear hperm hb
  induction hforall with
  | nil => cases hmem
  | cons hab _ ih =>
    rcases List.mem_cons.mp hmem with rfl | hmem
    · exact ⟨_, List.mem_cons_self, hab⟩
    · obtain ⟨a, ha, hR⟩ := ih hmem
      exact ⟨a, List.mem_cons_of_mem _ ha, hR⟩

end Paired

/-! ### Operations -/

namespace Frame

variable [DecidableEq ν]

/-- `df.withColumn`: a new column stands last, one that is replaced keeps its place. -/
def withColumn (f : Frame ν κ) (n : ν) (c : Column ν κ κ) : Option (Frame ν κ) :=
  if c.resolves f.columns then
    some
      { columns := if n ∈ f.columns then f.columns else f.columns ++ [n]
        rows := f.rows.map fun r => Function.update r n (c.eval r) }
  else none

/-- A row with the cells of `select`. -/
def also (named : List (ν × κ)) (r : ν → κ) : ν → κ :=
  named.foldl (fun r entry => Function.update r entry.1 entry.2) r

/-- `df.select("*", …)` with literals under these names. -/
def selectAlso (f : Frame ν κ) (named : List (ν × κ)) : Frame ν κ where
  columns := f.columns ++ named.map Prod.fst
  rows := f.rows.map (also named)

/-- `df.crossJoin` with a table of one row. -/
def crossJoin (f : Frame ν κ) (named : List (ν × κ)) : Frame ν κ := f.selectAlso named

/-- `df.drop` -/
def drop (f : Frame ν κ) (names : List ν) : Frame ν κ :=
  { f with columns := f.columns.filter (· ∉ names) }

/-- `df.where` -/
def filterRows (f : Frame ν κ) (c : Column ν κ Bool) : Option (Frame ν κ) :=
  if c.resolves f.columns then some { f with rows := f.rows.filter c.eval } else none

theorem withColumn_new {f : Frame ν κ} {n : ν} {c : Column ν κ κ} (hn : n ∉ f.columns)
    (hc : c.resolves f.columns = true) :
    f.withColumn n c = some ⟨f.columns ++ [n],
      f.rows.map fun r => Function.update r n (c.eval r)⟩ := by
  rw [withColumn, if_pos hc, if_neg hn]

theorem also_of_not_mem {named : List (ν × κ)} {n : ν} (hn : n ∉ named.map Prod.fst) (r : ν → κ) :
    also named r n = r n := by
  induction named generalizing r with
  | nil => rfl
  | cons entry named ih =>
    rw [List.map_cons, List.mem_cons, not_or] at hn
    rw [also, List.foldl_cons]
    exact (ih hn.2 _).trans (Function.update_of_ne hn.1 _ _)

theorem also_of_mem {named : List (ν × κ)} (hnodup : (named.map Prod.fst).Nodup) {n : ν} {c : κ}
    (h : (n, c) ∈ named) (r : ν → κ) : also named r n = c := by
  induction named generalizing r with
  | nil => cases h
  | cons entry named ih =>
    rw [List.map_cons, List.nodup_cons] at hnodup
    rw [also, List.foldl_cons]
    rcases List.mem_cons.mp h with rfl | h
    · exact (also_of_not_mem hnodup.1 _).trans (Function.update_self _ _ _)
    · exact ih hnodup.2 h _

theorem withColumn_old {f : Frame ν κ} {n : ν} {c : Column ν κ κ} (hn : n ∈ f.columns)
    (hc : c.resolves f.columns = true) :
    f.withColumn n c = some ⟨f.columns, f.rows.map fun r => Function.update r n (c.eval r)⟩ := by
  rw [withColumn, if_pos hc, if_pos hn]

theorem selectAlso_nil (f : Frame ν κ) : f.selectAlso [] = f := by
  have hrows : f.rows.map (also []) = f.rows := List.map_id _
  rw [selectAlso, List.map_nil, List.append_nil, hrows]

theorem selectAlso_extends {f : Frame ν κ} {named : List (ν × κ)}
    (hnodup : (f.columns ++ named.map Prod.fst).Nodup) :
    f.columns ⊆ (f.selectAlso named).columns ∧ (f.selectAlso named).columns.Nodup ∧
      Paired (fun r r' => Agree f.columns r r' ∧ ∀ entry ∈ named, r' entry.1 = entry.2)
        f.rows (f.selectAlso named).rows := by
  have hparts := List.nodup_append.mp hnodup
  refine ⟨List.subset_append_left _ _, hnodup, ⟨_, ?_, .rfl⟩⟩
  refine List.forall₂_map_right_iff.mpr (List.forall₂_same.mpr fun r _ => ⟨fun n hn => ?_, ?_⟩)
  · exact (also_of_not_mem (fun hname => hparts.2.2 n hn n hname rfl) r).symm
  · exact fun entry hentry => also_of_mem hparts.2.1 hentry r

@[simp] theorem rows_drop (f : Frame ν κ) (names : List ν) : (f.drop names).rows = f.rows := rfl

@[simp] theorem mem_columns_drop {f : Frame ν κ} {names : List ν} {n : ν} :
    n ∈ (f.drop names).columns ↔ n ∈ f.columns ∧ n ∉ names := by
  simp [drop]

theorem nodup_drop {f : Frame ν κ} (h : f.columns.Nodup) (names : List ν) :
    (f.drop names).columns.Nodup :=
  h.filter _

end Frame

/-- A table that has the rows of another, in any order, and maybe more columns. -/
structure Frame.Extends (f g : Frame ν κ) : Prop where
  columns : f.columns ⊆ g.columns
  nodup : g.columns.Nodup
  rows : Paired (Agree f.columns) f.rows g.rows

theorem Frame.Extends.refl {f : Frame ν κ} (h : f.columns.Nodup) : f.Extends f where
  columns := List.Subset.refl _
  nodup := h
  rows := .of_forall₂ (List.forall₂_same.mpr fun r _ => .refl _ r)

theorem Frame.Extends.trans {f g k : Frame ν κ} (h : f.Extends g) (h' : g.Extends k) :
    f.Extends k where
  columns := List.Subset.trans h.columns h'.columns
  nodup := h'.nodup
  rows := by
    refine (h.rows.trans h'.rows).mono ?_
    rintro _ _ ⟨_, hab, hbc⟩
    exact hab.trans (hbc.mono h.columns)

/-- What can be resolved does not change with columns that the expression does not read. -/
theorem Column.resolves_eq [DecidableEq ν] {columns columns' : List ν} (hsub : columns ⊆ columns')
    (hnodup : columns'.Nodup) (hcolumns : columns.Nodup) {c : Column ν κ α}
    (hreads : ∀ n ∈ c.reads, n ∈ columns' → n ∈ columns) :
    c.resolves columns' = c.resolves columns := by
  rw [Bool.eq_iff_iff, resolves_iff hnodup, resolves_iff hcolumns]
  exact ⟨fun h n hn => hreads n hn (h hn), fun h n hn => hsub (h hn)⟩

end Dqx.Lib.Tabular
