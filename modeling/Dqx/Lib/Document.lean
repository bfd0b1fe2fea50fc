import Mathlib.Data.List.TakeWhile
import Mathlib.Tactic.Common

/-! Documents of nested arrays and objects and their texts. A text is the text of one document. -/

namespace Dqx.Lib

/-- An atom stands as its own text. -/
inductive Document where
  | atom (text : List Char)
  | str (s : List Char)
  | arr (items : List Document)
  | obj (fields : List (List Char × Document))

namespace Document

/-- Induction on a document: what holds of the parts of an array or object holds of it. -/
@[elab_as_elim]
theorem induct {motive : Document → Prop} (atom : ∀ text, motive (.atom text))
    (str : ∀ s, motive (.str s)) (arr : ∀ items, (∀ item ∈ items, motive item) → motive (.arr items))
    (obj : ∀ fields, (∀ field ∈ fields, motive field.2) → motive (.obj fields)) :
    ∀ d, motive d :=
  @Document.rec motive (fun items => ∀ item ∈ items, motive item)
    (fun fields => ∀ field ∈ fields, motive field.2) (fun field => motive field.2)
    atom str arr obj (by simp)
    (fun _ _ hitem hrest => List.forall_mem_cons.mpr ⟨hitem, hrest⟩) (by simp)
    (fun _ _ hfield hrest => List.forall_mem_cons.mpr ⟨hfield, hrest⟩) (fun _ _ h => h)

/-- What follows a part of a document. -/
def ends : List Char := [',', ']', '}']

def Follows (r : List Char) : Prop := ∀ c ∈ r.head?, c ∈ ends

def marks : List Char := '"' :: '[' :: '{' :: ends

mutual

/-- No atom is empty or has a mark of the document in it. -/
def Plain : Document → Prop
  | .atom text => text ≠ [] ∧ ∀ c ∈ text, c ∉ marks
  | .str _ => True
  | .arr items => PlainItems items
  | .obj fields => PlainFields fields

def PlainItems : List Document → Prop
  | [] => True
  | item :: rest => Plain item ∧ PlainItems rest

def PlainFields : List (List Char × Document) → Prop
  | [] => True
  | (_, item) :: rest => Plain item ∧ PlainFields rest

end

@[simp] theorem plainItems_iff (items : List Document) :
    PlainItems items ↔ ∀ item ∈ items, Plain item := by
  induction items with
  | nil => simp [PlainItems]
  | cons item rest ih => rw [PlainItems, ih, List.forall_mem_cons]

@[simp] theorem plainFields_iff (fields : List (List Char × Document)) :
    PlainFields fields ↔ ∀ field ∈ fields, Plain field.2 := by
  induction fields with
  | nil => simp [PlainFields]
  | cons field rest ih => rw [PlainFields, ih, List.forall_mem_cons]

/-! ### Sequences -/

section Sequence

variable {α : Type} (w : α → List Char)

/-- The texts of some parts with commas between them. -/
def joined : List α → List Char
  | [] => []
  | [x] => w x
  | x :: rest => w x ++ ',' :: ' ' :: joined rest

/-- The parts after the first one, each with its comma. -/
def continued (xs : List α) : List Char := xs.flatMap fun x => ',' :: ' ' :: w x

theorem joined_cons (x : α) (xs : List α) : joined w (x :: xs) = w x ++ continued w xs := by
  induction xs generalizing x with
  | nil => simp [joined, continued]
  | cons y xs ih => simp [joined, ih y, continued]

theorem joined_congr {v w : α → List Char} {xs : List α} (h : ∀ x ∈ xs, v x = w x) :
    joined v xs = joined w xs := by
  cases xs with
  | nil => rfl
  | cons x xs =>
    have hrest : ∀ y ∈ xs, ',' :: ' ' :: v y = ',' :: ' ' :: w y :=
      fun y hy => by rw [h y (List.mem_cons_of_mem _ hy)]
    rw [joined_cons, joined_cons, h x List.mem_cons_self, continued, continued, List.flatMap_def,
      List.flatMap_def, List.map_congr_left hrest]

theorem joined_map {β : Type} (f : β → α) (xs : List β) :
    joined w (xs.map f) = joined (fun x => w (f x)) xs := by
  cases xs with
  | nil => rfl
  | cons x xs => simp [joined_cons, continued, List.flatMap_map]

/-- A change of letters that keeps commas and blanks. -/
theorem map_joined {g : Char → Char} (hcomma : g ',' = ',') (hblank : g ' ' = ' ') (xs : List α) :
    (joined w xs).map g = joined (fun x => (w x).map g) xs := by
  cases xs with
  | nil => rfl
  | cons x xs => simp [joined_cons, continued, List.map_flatMap, hcomma, hblank]

variable {w} {xs ys : List α} {close : Char} {r r' : List Char}

theorem follows_continued (hclose : close ∈ ends) : Follows (continued w xs ++ close :: r) := by
  cases xs with
  | nil => simpa [Follows, continued] using hclose
  | cons x xs => simp [Follows, continued, ends]

/-- No two parts begin one text, whatever follows them. -/
def Unambiguous (w : α → List Char) (xs ys : List α) : Prop :=
  ∀ x ∈ xs, ∀ y ∈ ys, ∀ r r', Follows r → Follows r' → w x ++ r = w y ++ r' → x = y ∧ r = r'

theorem continued_append (hw : Unambiguous w xs ys) (hclose : close ∈ ends) (hcomma : close ≠ ',')
    (h : continued w xs ++ close :: r = continued w ys ++ close :: r') : xs = ys ∧ r = r' := by
  induction xs generalizing ys with
  | nil =>
    cases ys with
    | nil => simpa [continued] using h
    | cons y ys => exact absurd (List.cons.inj h).1 hcomma
  | cons x xs ih =>
    cases ys with
    | nil => exact absurd (List.cons.inj h).1.symm hcomma
    | cons y ys =>
      simp only [continued, List.flatMap_cons, List.cons_append, List.append_assoc, List.cons.injEq,
        true_and] at h
      obtain ⟨rfl, hrest⟩ := hw x List.mem_cons_self y List.mem_cons_self _ _
        (follows_continued hclose) (follows_continued hclose) h
      obtain ⟨rfl, rfl⟩ := ih (fun a ha b hb => hw a (List.mem_cons_of_mem _ ha) b
        (List.mem_cons_of_mem _ hb)) hrest
      exact ⟨rfl, rfl⟩

/-- A sequence is told from the others by its text up to what closes it. -/
theorem joined_append (hw : Unambiguous w xs ys) (hclose : close ∈ ends) (hcomma : close ≠ ',')
    (hopens : ∀ x ∈ xs ++ ys, ∃ c t, w x = c :: t ∧ c ≠ close)
    (h : joined w xs ++ close :: r = joined w ys ++ close :: r') : xs = ys ∧ r = r' := by
  cases xs with
  | nil =>
    cases ys with
    | nil => simpa [joined] using h
    | cons y ys =>
      obtain ⟨c, t, hc, hne⟩ := hopens y (by simp)
      rw [joined_cons, hc] at h
      exact absurd (List.cons.inj h).1.symm hne
  | cons x xs =>
    cases ys with
    | nil =>
      obtain ⟨c, t, hc, hne⟩ := hopens x (by simp)
      rw [joined_cons, hc] at h
      exact absurd (List.cons.inj h).1 hne
    | cons y ys =>
      rw [joined_cons, joined_cons, List.append_assoc, List.append_assoc] at h
      obtain ⟨rfl, hrest⟩ := hw x List.mem_cons_self y List.mem_cons_self _ _
        (follows_continued hclose) (follows_continued hclose) h
      obtain ⟨rfl, rfl⟩ := continued_append (fun a ha b hb => hw a (List.mem_cons_of_mem _ ha) b
        (List.mem_cons_of_mem _ hb)) hclose hcomma hrest
      exact ⟨rfl, rfl⟩

end Sequence

/-! ### Texts -/

variable (escape : Char → List Char)

/-- How the characters of a string are written: none of them begins with a quote, and each is told
from the others by how it is written. -/
structure Code : Prop where
  opens : ∀ c, ∃ d t, escape c = d :: t ∧ d ≠ '"'
  unique : ∀ {c c' r r'}, escape c ++ r = escape c' ++ r' → c = c' ∧ r = r'

def quote (s : List Char) : List Char := '"' :: (s.flatMap escape ++ ['"'])

mutual

def write : Document → List Char
  | .atom text => text
  | .str s => quote escape s
  | .arr items => '[' :: (writeItems items ++ [']'])
  | .obj fields => '{' :: (writeFields fields ++ ['}'])

def writeItems : List Document → List Char
  | [] => []
  | [item] => write item
  | item :: rest => write item ++ ',' :: ' ' :: writeItems rest

def writeFields : List (List Char × Document) → List Char
  | [] => []
  | [(key, item)] => quote escape key ++ ':' :: ' ' :: write item
  | (key, item) :: rest =>
    quote escape key ++ ':' :: ' ' :: write item ++ ',' :: ' ' :: writeFields rest

end

def writeField (field : List Char × Document) : List Char :=
  quote escape field.1 ++ ':' :: ' ' :: write escape field.2

theorem writeItems_eq (items : List Document) :
    writeItems escape items = joined (write escape) items := by
  induction items with
  | nil => rfl
  | cons item rest ih =>
    cases rest with
    | nil => rfl
    | cons next rest =>
      show write escape item ++ ',' :: ' ' :: writeItems escape (next :: rest) = _
      rw [ih]
      rfl

theorem writeFields_eq (fields : List (List Char × Document)) :
    writeFields escape fields = joined (writeField escape) fields := by
  induction fields with
  | nil => rfl
  | cons field rest ih =>
    cases rest with
    | nil => rfl
    | cons next rest =>
      show writeField escape field ++ ',' :: ' ' :: writeFields escape (next :: rest) = _
      rw [ih]
      rfl

variable {escape}

theorem quote_append (hcode : Code escape) {s s' r r' : List Char}
    (h : quote escape s ++ r = quote escape s' ++ r') : s = s' ∧ r = r' := by
  simp only [quote, List.cons_append, List.append_assoc, List.cons.injEq, true_and,
    List.nil_append] at h
  induction s generalizing s' with
  | nil =>
    cases s' with
    | nil => simpa using h
    | cons c s' =>
      obtain ⟨d, t, hc, hne⟩ := hcode.opens c
      rw [List.flatMap_cons, hc] at h
      exact absurd (List.cons.inj h).1.symm hne
  | cons c s ih =>
    cases s' with
    | nil =>
      obtain ⟨d, t, hc, hne⟩ := hcode.opens c
      rw [List.flatMap_cons, hc] at h
      exact absurd (List.cons.inj h).1 hne
    | cons c' s' =>
      rw [List.flatMap_cons, List.flatMap_cons, List.append_assoc, List.append_assoc] at h
      obtain ⟨rfl, hrest⟩ := hcode.unique h
      obtain ⟨rfl, rfl⟩ := ih hrest
      exact ⟨rfl, rfl⟩

/-- The first character of a text tells what kind of document it is. -/
theorem write_opens {d : Document} (h : d.Plain) : ∃ c t, write escape d = c :: t ∧ c ∉ ends := by
  cases d with
  | atom text =>
    obtain ⟨hne, hmarks⟩ := h
    obtain ⟨c, t, rfl⟩ := List.exists_cons_of_ne_nil hne
    exact ⟨c, t, rfl, fun hc => hmarks c List.mem_cons_self (by simp [marks, hc])⟩
  | str s => exact ⟨'"', _, rfl, by decide⟩
  | arr items => exact ⟨'[', _, rfl, by decide⟩
  | obj fields => exact ⟨'{', _, rfl, by decide⟩

theorem atom_append {text text' r r' : List Char} (htext : ∀ c ∈ text, c ∉ marks)
    (htext' : ∀ c ∈ text', c ∉ marks) (hr : Follows r) (hr' : Follows r')
    (h : text ++ r = text' ++ r') : text = text' ∧ r = r' := by
  have hsplit : ∀ {text r : List Char}, (∀ c ∈ text, c ∉ marks) → Follows r →
      (text ++ r).takeWhile (· ∉ ends) = text := by
    intro text r htext hr
    rw [List.takeWhile_append_of_pos]
    · cases r with
      | nil => simp
      | cons c r => rw [List.takeWhile_cons_of_neg (by simpa using hr c rfl), List.append_nil]
    · intro c hc
      simpa using fun hends => htext c hc (by simp [marks, hends])
  have heq : text = text' := by rw [← hsplit htext hr, h, hsplit htext' hr']
  subst heq
  exact ⟨rfl, List.append_cancel_left h⟩

theorem atom_ne {text t r : List Char} {c : Char} (h : Plain (.atom text)) (hc : c ∈ marks) :
    text ++ r ≠ c :: t := by
  obtain ⟨hne, hmarks⟩ := h
  obtain ⟨d, s, rfl⟩ := List.exists_cons_of_ne_nil hne
  intro heq
  exact hmarks d List.mem_cons_self ((List.cons.inj heq).1 ▸ hc)

/-- A document is told from the others by its text, whatever follows it. -/
theorem write_append (hcode : Code escape) {d d' : Document} (hd : d.Plain) (hd' : d'.Plain)
    {r r' : List Char} (hr : Follows r) (hr' : Follows r')
    (h : write escape d ++ r = write escape d' ++ r') : d = d' ∧ r = r' := by
  induction d using induct generalizing d' r r' with
  | atom text =>
    cases d' with
    | atom text' =>
      obtain ⟨rfl, hrest⟩ := atom_append hd.2 hd'.2 hr hr' h
      exact ⟨rfl, hrest⟩
    | str s => exact absurd h (atom_ne hd (by decide))
    | arr items => exact absurd h (atom_ne hd (by decide))
    | obj fields => exact absurd h (atom_ne hd (by decide))
  | str s =>
    cases d' with
    | atom text => exact absurd h.symm (atom_ne hd' (by decide))
    | str s' =>
      obtain ⟨rfl, hrest⟩ := quote_append hcode h
      exact ⟨rfl, hrest⟩
    | arr items => exact absurd (List.cons.inj h).1 (by decide)
    | obj fields => exact absurd (List.cons.inj h).1 (by decide)
  | arr items ih =>
    cases d' with
    | atom text => exact absurd h.symm (atom_ne hd' (by decide))
    | str s => exact absurd (List.cons.inj h).1 (by decide)
    | arr items' =>
      simp only [Plain, plainItems_iff] at hd hd'
      simp only [write, writeItems_eq, List.cons_append, List.append_assoc, List.cons.injEq,
        true_and, List.nil_append] at h
      have hw : Unambiguous (write escape) items items' :=
        fun x hx y hy r r' hr hr' hxy => ih x hx (hd x hx) (hd' y hy) hr hr' hxy
      have hopens : ∀ x ∈ items ++ items', ∃ c t, write escape x = c :: t ∧ c ≠ ']' := by
        intro x hx
        obtain ⟨c, t, hc, hne⟩ := @write_opens escape x
          ((List.mem_append.mp hx).elim (hd x) (hd' x))
        exact ⟨c, t, hc, fun hclose => hne (by rw [hclose]; decide)⟩
      obtain ⟨rfl, hrest⟩ := joined_append hw (by decide) (by decide) hopens h
      exact ⟨rfl, hrest⟩
    | obj fields => exact absurd (List.cons.inj h).1 (by decide)
  | obj fields ih =>
    cases d' with
    | atom text => exact absurd h.symm (atom_ne hd' (by decide))
    | str s => exact absurd (List.cons.inj h).1 (by decide)
    | arr items => exact absurd (List.cons.inj h).1 (by decide)
    | obj fields' =>
      simp only [Plain, plainFields_iff] at hd hd'
      simp only [write, writeFields_eq, List.cons_append, List.append_assoc, List.cons.injEq,
        true_and, List.nil_append] at h
      have hw : Unambiguous (writeField escape) fields fields' := by
        intro x hx y hy r r' hr hr' hxy
        simp only [writeField, List.append_assoc, List.cons_append] at hxy
        obtain ⟨hkey, hvalue⟩ := quote_append hcode hxy
        simp only [List.cons.injEq, true_and] at hvalue
        obtain ⟨hitem, hrest⟩ := ih x hx (hd x hx) (hd' y hy) hr hr' hvalue
        exact ⟨Prod.ext hkey hitem, hrest⟩
      obtain ⟨rfl, hrest⟩ := joined_append hw (by decide) (by decide)
        (fun x _ => ⟨'"', _, rfl, by decide⟩) h
      exact ⟨rfl, hrest⟩

theorem write_injective (hcode : Code escape) {d d' : Document} (hd : d.Plain) (hd' : d'.Plain)
    (h : write escape d = write escape d') : d = d' :=
  (@write_append escape hcode d d' hd hd' [] [] nofun nofun (by rw [h])).1

end Document

end Dqx.Lib
