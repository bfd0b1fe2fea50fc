import Mathlib.Data.List.Basic

/-! A scan that remembers what was first seen under each key and compares what comes later under the
same key with that alone. Where the comparisons are symmetric and transitive, nothing is reported
exactly if any two things under the same key agree. -/

namespace Dqx.Lib.FirstSeen

variable {κ β ι : Type} (same : κ → κ → Bool) (agrees : β → β → Bool) (report : κ → β → β → ι)

def lookup (seen : List (κ × β)) (key : κ) : Option β :=
  (seen.find? fun entry => same entry.1 key).map (·.2)

/-- The scan of a list, where what has no key is skipped. -/
def scanFrom (seen : List (κ × β)) : List (Option (κ × β)) → List ι
  | [] => []
  | none :: items => scanFrom seen items
  | some (key, found) :: items =>
    match lookup same seen key with
    | none => scanFrom (seen ++ [(key, found)]) items
    | some first =>
      if agrees first found then scanFrom seen items
      else report key first found :: scanFrom seen items

def scan (items : List (Option (κ × β))) : List ι :=
  scanFrom same agrees report [] items

/-- Two things agree unless they have the same key and differ. -/
def Agree (a b : Option (κ × β)) : Prop :=
  ∀ x ∈ a, ∀ y ∈ b, same x.1 y.1 = true → agrees x.2 y.2 = true

/-- Both comparisons are symmetric and transitive on the things that a scan may meet. -/
structure Lawful (valid : κ × β → Prop) : Prop where
  same_symm : ∀ x y, valid x → valid y → same x.1 y.1 = true → same y.1 x.1 = true
  same_trans : ∀ a b c, same a b = true → same b c = true → same a c = true
  agrees_symm : ∀ x y, valid x → valid y → agrees x.2 y.2 = true → agrees y.2 x.2 = true
  agrees_trans : ∀ a b c, agrees a b = true → agrees b c = true → agrees a c = true

variable {same agrees report} {valid : κ × β → Prop}

theorem agree_symm (lawful : Lawful same agrees valid) {a b : Option (κ × β)}
    (ha : ∀ x ∈ a, valid x) (hb : ∀ x ∈ b, valid x) (h : Agree same agrees a b) :
    Agree same agrees b a := by
  intro y hy x hx hsame
  have hx' := ha x hx
  have hy' := hb y hy
  exact lawful.agrees_symm x y hx' hy' (h x hx y hy (lawful.same_symm y x hy' hx' hsame))

/-- The things seen have keys of their own. -/
def Firsts (same : κ → κ → Bool) (seen : List (κ × β)) : Prop :=
  ∀ x ∈ seen, ∀ y ∈ seen, same x.1 y.1 = true → x = y

theorem firsts_append (lawful : Lawful same agrees valid) {seen : List (κ × β)} {found : κ × β}
    (hfirst : Firsts same seen) (hseen : ∀ x ∈ seen, valid x) (hfound : valid found)
    (hnew : ∀ x ∈ seen, same x.1 found.1 = false) : Firsts same (seen ++ [found]) := by
  intro x hx y hy hsame
  rcases List.mem_append.mp hx with hx | hx <;> rcases List.mem_append.mp hy with hy | hy
  · exact hfirst x hx y hy hsame
  · rw [List.mem_singleton.mp hy, hnew x hx] at hsame
    cases hsame
  · rw [List.mem_singleton.mp hx] at hsame
    have hback := lawful.same_symm found y hfound (hseen y hy) hsame
    rw [hnew y hy] at hback
    cases hback
  · rw [List.mem_singleton.mp hx, List.mem_singleton.mp hy]

/-- What a scan still has to check of the things to come: that they agree with what was first seen
and with each other. -/
theorem scanFrom_eq_nil_iff (lawful : Lawful same agrees valid) {items : List (Option (κ × β))}
    {seen : List (κ × β)} (hitems : ∀ item ∈ items, ∀ x ∈ item, valid x)
    (hseen : ∀ x ∈ seen, valid x) (hfirst : Firsts same seen) :
    scanFrom same agrees report seen items = [] ↔
      (∀ x ∈ seen, ∀ item ∈ items, Agree same agrees (some x) item) ∧
        items.Pairwise (Agree same agrees) := by
  induction items generalizing seen with
  | nil => simp [scanFrom]
  | cons item items ih =>
    have hrest : ∀ item ∈ items, ∀ x ∈ item, valid x := fun item hitem =>
      hitems item (List.mem_cons_of_mem _ hitem)
    cases item with
    | none =>
      rw [scanFrom, ih hrest hseen hfirst]
      simp [Agree]
    | some found =>
      obtain ⟨key, value⟩ := found
      have hfound : valid (key, value) := hitems _ List.mem_cons_self _ rfl
      rw [scanFrom, List.pairwise_cons]
      cases hlookup : lookup same seen key with
      | none =>
        have hnew : ∀ x ∈ seen, same x.1 key = false := by
          simpa [lookup] using hlookup
        have hseen' : ∀ x ∈ seen ++ [(key, value)], valid x := by
          simpa [or_imp, forall_and, hfound] using hseen
        have hfirst' := firsts_append lawful hfirst hseen hfound hnew
        have hagree : ∀ x ∈ seen, Agree same agrees (some x) (some (key, value)) := by
          intro x hx _ hx' _ hy hsame
          obtain rfl := Option.some.inj hx'
          obtain rfl := Option.some.inj hy
          rw [hnew x hx] at hsame
          cases hsame
        dsimp only
        rw [ih hrest hseen' hfirst']
        constructor
        · rintro ⟨hall, hpairs⟩
          refine ⟨fun x hx item hitem => ?_, fun item hitem => ?_, hpairs⟩
          · rcases List.mem_cons.mp hitem with rfl | hitem
            · exact hagree x hx
            · exact hall x (List.mem_append_left _ hx) item hitem
          · exact hall _ (List.mem_append_right _ (List.mem_singleton.mpr rfl)) item hitem
        · rintro ⟨hall, hlater, hpairs⟩
          refine ⟨fun x hx item hitem => ?_, hpairs⟩
          rcases List.mem_append.mp hx with hx | hx
          · exact hall x hx item (List.mem_cons_of_mem _ hitem)
          · rw [List.mem_singleton.mp hx]
            exact hlater item hitem
      | some first =>
        obtain ⟨⟨key', first'⟩, hfind, rfl⟩ := Option.map_eq_some_iff.mp hlookup
        have hmem := List.mem_of_find?_eq_some hfind
        have hkey : same key' key = true := by simpa using List.find?_some hfind
        have hvalid := hseen _ hmem
        have hkey' := lawful.same_symm (key', first') (key, value) hvalid hfound hkey
        have hone : ∀ x ∈ seen, same x.1 key = true → x = (key', first') := fun x hx hsame =>
          hfirst x hx _ hmem (lawful.same_trans _ _ _ hsame hkey')
        dsimp only
        cases hagrees : agrees first' value with
        | false =>
          simp only [Bool.false_eq_true, if_false, reduceCtorEq, false_iff]
          rintro ⟨hall, -⟩
          have h := hall _ hmem _ List.mem_cons_self _ rfl _ rfl hkey
          rw [hagrees] at h
          cases h
        | true =>
          rw [if_pos rfl, ih hrest hseen hfirst]
          constructor
          · rintro ⟨hall, hpairs⟩
            refine ⟨fun x hx item hitem => ?_, fun item hitem => ?_, hpairs⟩
            · rcases List.mem_cons.mp hitem with rfl | hitem
              · intro _ hx' _ hy hsame
                obtain rfl := Option.some.inj hx'
                obtain rfl := Option.some.inj hy
                rw [hone x hx hsame]
                exact hagrees
              · exact hall x hx item hitem
            · intro _ hx y hy hsame
              obtain rfl := Option.some.inj hx
              have hlater := hall _ hmem item hitem _ rfl y hy
                (lawful.same_trans _ _ _ hkey hsame)
              exact lawful.agrees_trans _ _ _
                (lawful.agrees_symm (key', first') (key, value) hvalid hfound hagrees) hlater
          · rintro ⟨hall, -, hpairs⟩
            exact ⟨fun x hx item hitem => hall x hx item (List.mem_cons_of_mem _ hitem), hpairs⟩

theorem scan_eq_nil_iff (lawful : Lawful same agrees valid) {items : List (Option (κ × β))}
    (hitems : ∀ item ∈ items, ∀ x ∈ item, valid x) :
    scan same agrees report items = [] ↔ items.Pairwise (Agree same agrees) := by
  rw [scan, scanFrom_eq_nil_iff lawful hitems (by simp) (by simp [Firsts])]
  simp

/-- What holds of any two things in a list, whatever their places in it. -/
theorem pairwise_zipIdx {α γ : Type} {l : List α} {f : α × Nat → γ} {r : γ → γ → Prop}
    {s : α → α → Prop} (h : ∀ x y, r (f x) (f y) ↔ s x.1 y.1) :
    (l.zipIdx.map f).Pairwise r ↔ l.Pairwise s := by
  have hmap : l.zipIdx.map Prod.fst = l := List.zipIdx_map_fst 0 l
  rw [List.pairwise_map, ← hmap, List.pairwise_map, hmap]
  exact List.Pairwise.iff h

end Dqx.Lib.FirstSeen
