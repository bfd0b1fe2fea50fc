import Dqx.Checks.CaseFold
import Dqx.Lib.Entries
import Dqx.LowCode.Hosts

/-! The identity that the rules catalog gives a check, and what two checks of one identity have in
common. -/

namespace Dqx.Catalog

open Lib Lib.Sql Checks

/-- A JSON object. -/
abbrev Fields := List (String × Json)

inductive SaveError where
  | invalidSource (source : Text)
  | invalidFqn (fqn : Text)
  | unsafeSqlQuery
  | allExist
  | attribute
  | type
  deriving DecidableEq

/-- The messages that do not quote what was given. -/
def SaveError.message : SaveError → Option String
  | .unsafeSqlQuery => some ("The SQL query in this check contains prohibited statements " ++
      "(e.g. DROP, INSERT, UPDATE) and cannot be saved.")
  | .allExist => some ("All submitted checks already exist for this table. " ++
      "Duplicate rules cannot be created.")
  | _ => none

/-- `_IDENTITY_ARGS` -/
def identityArgs : List String :=
  ["column", "columns", "col_name", "expression", "msg", "query", "allowed", "forbidden", "limit",
    "min_limit", "max_limit", "regex", "date_format", "timestamp_format"]

/-- What a check calls, and the arguments it calls it with. -/
structure Definition where
  function : Json
  arguments : Fields

/-- `check.get("check", check)` -/
def innerOf (check : Fields) : Except SaveError Fields :=
  match check.lookup "check" with
  | none => .ok check
  | some (.obj inner) => .ok inner
  | some _ => .error .attribute

def argumentsOf (inner : Fields) : Except SaveError Fields :=
  match inner.lookup "arguments" with
  | none => .ok []
  | some (.obj arguments) => .ok arguments
  | some _ => .error .attribute

def definitionOf (check : Fields) : Except SaveError Definition := do
  let inner ← innerOf check
  let arguments ← argumentsOf inner
  .ok ⟨(inner.lookup "function").getD (.str ""), arguments⟩

namespace Definition

def identityArguments (d : Definition) : Fields :=
  d.arguments.filter fun field => identityArgs.contains field.1

def identity (d : Definition) : Json :=
  .obj [("function", d.function), ("arguments", .obj d.identityArguments)]

/-- `json.dumps(..., sort_keys=True).lower()`: the text has no characters outside of ASCII. -/
def signature (d : Definition) : Text := d.identity.sorted.write.map Char.toLower

end Definition

def checkSignature (check : Fields) : Except SaveError Text :=
  (definitionOf check).map Definition.signature

/-! ### What an identity tells -/

namespace Definition

/-- The same function, and the same arguments of these names, up to the case of letters. -/
structure SameOn (names : String → Bool) (a b : Definition) : Prop where
  function : a.function.caseless = b.function.caseless
  arguments : ∀ name, names name = true →
    (a.arguments.lookup name).map Json.caseless = (b.arguments.lookup name).map Json.caseless

def Valid (d : Definition) : Prop :=
  d.function.Valid ∧ (Json.obj d.arguments).Valid

theorem SameOn.mono {names names' : String → Bool} {a b : Definition} (h : SameOn names a b)
    (hsub : ∀ name, names' name = true → names name = true) : SameOn names' a b :=
  ⟨h.function, fun name hname => h.arguments name (hsub name hname)⟩

/-- A name and a value up to the case of letters. -/
def lowered (field : String × Document) : Text × Document :=
  (field.1.toList.map Char.toLower, field.2)

theorem caseless_obj (fields : Fields) :
    (Json.obj fields).caseless =
      .obj ((sortByKey (· ≤ ·) (fields.map fun field => (field.1, field.2.caseless))).map
        lowered) := by
  have hfold := sortByKey_map (· ≤ ·) Json.folded
    (fields.map fun field => (field.1, field.2.sorted))
  rw [List.map_map] at hfold
  rw [Json.caseless, Json.sorted, Json.folded, Json.foldedFields_eq, Json.sortedFields_eq]
  show _ = Document.obj ((sortByKey _ (fields.map ((fun field => (field.1, field.2.folded)) ∘
    fun field => (field.1, field.2.sorted)))).map lowered)
  rw [← hfold, List.map_map]
  rfl

/-- The arguments of the identity up to the case of letters in their values. -/
def caselessArguments (d : Definition) : List (String × Document) :=
  d.identityArguments.map fun field => (field.1, field.2.caseless)

def sortedArguments (d : Definition) : List (String × Document) :=
  sortByKey (· ≤ ·) d.caselessArguments

theorem caseless_identity (d : Definition) :
    d.identity.caseless = .obj
      [("arguments".toList, .obj (d.sortedArguments.map lowered)),
        ("function".toList, d.function.caseless)] := by
  have hle : ¬("function" : String) ≤ "arguments" := by decide
  have hfunction : "function".toList.map Char.toLower = "function".toList := by decide
  have harguments : "arguments".toList.map Char.toLower = "arguments".toList := by decide
  rw [identity, caseless_obj]
  simp only [sortByKey, List.map_cons, List.map_nil, List.insertionSort_cons, List.insertionSort_nil,
    List.orderedInsert, if_neg hle, caseless_obj, lowered, hfunction, harguments]
  rfl

/-- The names of the identity's arguments are in lower case. -/
theorem ofList_toLower {name : String} (h : identityArgs.contains name = true) :
    String.ofList (name.toList.map Char.toLower) = name := by
  have hall : ∀ n ∈ identityArgs, String.ofList (n.toList.map Char.toLower) = n := by
    decide +kernel
  exact hall name (List.contains_iff_mem.mp h)

theorem mem_sortedArguments {d : Definition} {field : String × Document}
    (h : field ∈ d.sortedArguments) : identityArgs.contains field.1 = true := by
  rw [sortedArguments, (sortByKey_perm _ _).mem_iff, caselessArguments, List.mem_map] at h
  obtain ⟨original, horiginal, rfl⟩ := h
  exact (List.mem_filter.mp horiginal).2

theorem lowered_injective {a b : Definition}
    (h : a.sortedArguments.map lowered = b.sortedArguments.map lowered) :
    a.sortedArguments = b.sortedArguments := by
  have hback : ∀ d : Definition, (d.sortedArguments.map lowered).map
      (fun field => (String.ofList field.1, field.2)) = d.sortedArguments := by
    intro d
    rw [List.map_map]
    refine (List.map_congr_left fun field hfield => ?_).trans (List.map_id _)
    exact Prod.ext (ofList_toLower (mem_sortedArguments hfield)) rfl
  rw [← hback a, h, hback b]

theorem nodup_caselessArguments {d : Definition} (h : d.Valid) :
    (d.caselessArguments.map Prod.fst).Nodup := by
  rw [caselessArguments, List.map_map]
  exact (Json.valid_obj.mp h.2).1.sublist (List.filter_sublist.map Prod.fst)

theorem lookup_caselessArguments (d : Definition) (name : String) :
    d.caselessArguments.lookup name =
      if identityArgs.contains name then (d.arguments.lookup name).map Json.caseless else none := by
  rw [caselessArguments, lookup_map, identityArguments, lookup_filter_key (identityArgs.contains ·)]
  split <;> rfl

theorem valid_identity {d : Definition} (h : d.Valid) : d.identity.Valid := by
  obtain ⟨hnodup, hfields⟩ := Json.valid_obj.mp h.2
  have harguments : (Json.obj d.identityArguments).Valid :=
    Json.valid_obj.mpr ⟨hnodup.sublist (List.filter_sublist.map Prod.fst),
      fun field hfield => hfields field (List.mem_of_mem_filter hfield)⟩
  refine Json.valid_obj.mpr ⟨by simp, ?_⟩
  simp only [List.forall_mem_cons]
  exact ⟨h.1, harguments, nofun⟩

theorem sortedArguments_perm (d : Definition) : d.sortedArguments.Perm d.caselessArguments :=
  sortByKey_perm _ _

theorem sortedArguments_increasing (d : Definition) :
    (d.sortedArguments.map Prod.fst).Pairwise (· ≤ ·) := by
  rw [sortedArguments, sortByKey_keys]
  exact List.pairwise_insertionSort _ _

theorem sortedArguments_eq_iff {a b : Definition} (ha : a.Valid) (hb : b.Valid) :
    a.sortedArguments = b.sortedArguments ↔ ∀ name, identityArgs.contains name = true →
      (a.arguments.lookup name).map Json.caseless = (b.arguments.lookup name).map Json.caseless := by
  have hperm : a.sortedArguments = b.sortedArguments ↔
      a.caselessArguments.Perm b.caselessArguments := by
    constructor
    · intro h
      exact (sortedArguments_perm a).symm.trans (h ▸ sortedArguments_perm b)
    · intro h
      have hnodup : (a.sortedArguments.map Prod.fst).Nodup :=
        ((sortedArguments_perm a).map Prod.fst).nodup_iff.mpr (nodup_caselessArguments ha)
      refine eq_of_perm_of_increasing ((sortedArguments_perm a).trans
        (h.trans (sortedArguments_perm b).symm)) ?_ (sortedArguments_increasing b)
      exact (sortedArguments_increasing a).imp₂ (fun _ _ hle hne => lt_of_le_of_ne hle hne) hnodup
  rw [hperm, perm_iff_lookup (nodup_caselessArguments ha) (nodup_caselessArguments hb)]
  refine forall_congr' fun name => ?_
  rw [lookup_caselessArguments, lookup_caselessArguments]
  split
  · next hname => exact ⟨fun h _ => h, fun h => h hname⟩
  · next hname => exact ⟨fun _ h => absurd h hname, fun _ => rfl⟩

/-- Two checks have one signature where they call the same function with the same arguments of the
identity, up to the case of letters. -/
theorem signature_eq_iff {a b : Definition} (ha : a.Valid) (hb : b.Valid) :
    a.signature = b.signature ↔ SameOn identityArgs.contains a b := by
  rw [signature, signature, Json.lowered_eq_iff (valid_identity ha) (valid_identity hb),
    caseless_identity, caseless_identity]
  simp only [Document.obj.injEq, List.cons.injEq, Prod.mk.injEq, true_and, and_true]
  constructor
  · rintro ⟨harguments, hfunction⟩
    exact ⟨hfunction, (sortedArguments_eq_iff ha hb).mp (lowered_injective harguments)⟩
  · rintro ⟨hfunction, harguments⟩
    rw [(sortedArguments_eq_iff ha hb).mpr harguments]
    exact ⟨rfl, hfunction⟩

end Definition

end Dqx.Catalog
