import Mathlib.Data.Finset.Basic
import Dqx.Lib.Traverse
import Dqx.Scheduler.TmpViews
import Dqx.Utils.SqlText

/-! The grants on an object as they are enforced and as they are shown. -/

namespace Dqx.Permissions

open Lib.Sql LowCode Utils

inductive Privilege where
  | select | modify | apply | execute | manage | allPrivileges
  deriving DecidableEq

inductive ObjectType where
  | registryRule | monitoredTable | dataProduct
  deriving DecidableEq

def Privilege.value : Privilege → Text
  | .select => "SELECT".toList
  | .modify => "MODIFY".toList
  | .apply => "APPLY".toList
  | .execute => "EXECUTE".toList
  | .manage => "MANAGE".toList
  | .allPrivileges => "ALL_PRIVILEGES".toList

def ObjectType.value : ObjectType → Text
  | .registryRule => "registry_rule".toList
  | .monitoredTable => "monitored_table".toList
  | .dataProduct => "data_product".toList

/-- `Privilege(token)` -/
def Privilege.ofText (token : Text) : Option Privilege :=
  [.select, .modify, .apply, .execute, .manage, .allPrivileges].find? fun privilege =>
    privilege.value = token

/-- `ObjectType(object_type)` -/
def ObjectType.ofText (objectType : Text) : Option ObjectType :=
  [.registryRule, .monitoredTable, .dataProduct].find? fun kind => kind.value = objectType

def usersGroupPrincipalId : Text := "users".toList

def isUsersGroup (principalId : Text) : Bool :=
  principalId = usersGroupPrincipalId

def childToParentType : ObjectType → Option ObjectType
  | .monitoredTable => some .dataProduct
  | .registryRule | .dataProduct => none

def concretePrivileges : Finset Privilege :=
  {.select, .modify, .apply, .execute}

def expandPrivileges (privileges : Finset Privilege) : Finset Privilege :=
  (if .allPrivileges ∈ privileges then concretePrivileges
    else privileges.filter (· ∈ concretePrivileges)) ∪
    if .manage ∈ privileges then {.manage} else ∅

def parsePrivileges (raw : Option Text) : Finset Privilege :=
  (((raw.getD []).splitOn ',').filterMap fun token =>
    Privilege.ofText (Scheduler.strip token)).toFinset

/-- A row of `dq_object_grants`. -/
structure GrantRow where
  objectType : Text
  objectId : Text
  principalId : Text
  principalType : Text
  principalName : Option Text
  privileges : Option Text
  inherit : Text
  grantor : Option Text

/-- A row of `dq_data_product_members`. -/
structure MemberRow where
  productId : Option Text
  bindingId : Text

structure ObjectGrant where
  objectType : Text
  objectId : Text
  principalId : Text
  principalType : Text
  principalName : Option Text
  privileges : Finset Privilege
  inherit : Bool
  grantor : Option Text
  inheritedFrom : Option (Text × Text)
  deriving DecidableEq

structure Database where
  grants : List GrantRow
  members : List MemberRow
  /-- The order of the backend by the name and the id of the principal. -/
  byPrincipal : GrantRow → GrantRow → Bool
  unicode : Unicode

namespace Database

variable (db : Database)

/-- `_as_bool` -/
def asBool (value : Text) : Bool :=
  lower db.unicode (Scheduler.strip value) = "true".toList

/-- A text that is not empty. -/
def nonempty (cell : Option Text) : Option Text :=
  cell.filter fun text => !text.isEmpty

def rowToGrant (row : GrantRow) : ObjectGrant where
  objectType := row.objectType
  objectId := row.objectId
  principalId := row.principalId
  principalType := row.principalType
  principalName := nonempty row.principalName
  privileges := parsePrivileges row.privileges
  inherit := db.asBool row.inherit
  grantor := nonempty row.grantor
  inheritedFrom := none

/-- `\A[a-zA-Z0-9_-]{1,128}\Z` -/
def validObjectId (objectId : Text) : Bool :=
  !objectId.isEmpty && objectId.length ≤ 128 &&
    objectId.all fun c => c.isAlphanum || c = '_' || c = '-'

/-- The grants on an object; there are none to be had if its id is rejected. -/
def listGrants (objectType objectId : Text) : Option (List ObjectGrant) :=
  if validObjectId objectId then
    some (((db.grants.filter fun row =>
      row.objectType = objectType && row.objectId = objectId).mergeSort db.byPrincipal).map
        db.rowToGrant)
  else none

def parentRefs (objectType objectId : Text) : List (ObjectType × Text) :=
  match (ObjectType.ofText objectType).bind childToParentType with
  | none => []
  | some parentType =>
    ((db.members.filter fun row => row.bindingId = objectId).filterMap fun row =>
      nonempty row.productId).map (parentType, ·)

/-- A grant on a parent as it is shown on the child. -/
def inherited (objectType objectId : Text) (parent : ObjectType × Text) (grant : ObjectGrant) :
    ObjectGrant :=
  { grant with objectType, objectId, inheritedFrom := some (parent.1.value, parent.2) }

/-- A grant on a parent that holds on its children too. -/
def flows (grant : ObjectGrant) : Bool :=
  grant.inherit && !isUsersGroup grant.principalId

/-- The grants that flow from the parents of an object, but for those that are not kept. -/
def flowing (objectType objectId : Text) (keeps : ObjectGrant → Bool) :
    Option (List (List ObjectGrant)) :=
  (db.parentRefs objectType objectId).mapM fun parent =>
    (db.listGrants parent.1.value parent.2).map fun grants =>
      (grants.filter fun grant => flows grant && keeps grant).map
        (inherited objectType objectId parent)

/-- The grants on the object, and those on its parents for other principals. -/
def listEffectiveGrants (objectType objectId : Text) : Option (List ObjectGrant) := do
  let direct ← db.listGrants objectType objectId
  let directPrincipals := direct.map (·.principalId)
  let rest ← db.flowing objectType objectId fun grant =>
    !directPrincipals.contains grant.principalId
  return direct ++ rest.flatten

/-- The inheritable grants on the parents that are not shown, as their principals have a grant on the
object itself. -/
def shadowedGrants (objectType objectId : Text) : Option (List ObjectGrant) := do
  let direct ← db.listGrants objectType objectId
  let directPrincipals := direct.map (·.principalId)
  let rest ← db.flowing objectType objectId fun grant =>
    directPrincipals.contains grant.principalId
  return rest.flatten

/-- The caller's principal ids, of the user and the groups, and the email. -/
structure Caller where
  principalIds : List Text
  principalEmail : Option Text

def grantTargetsEmail (grant : ObjectGrant) (email : Text) : Bool :=
  lower db.unicode (Scheduler.strip grant.principalId) = lower db.unicode (Scheduler.strip email)

/-- `_matches` -/
def isFor (caller : Caller) (grant : ObjectGrant) : Bool :=
  isUsersGroup grant.principalId || caller.principalIds.contains grant.principalId ||
    (nonempty caller.principalEmail).any (db.grantTargetsEmail grant)

/-- What some grants confer on the caller. -/
def conferred (caller : Caller) (grants : List ObjectGrant) : Finset Privilege :=
  grants.foldl (fun privileges grant =>
    if db.isFor caller grant then privileges ∪ expandPrivileges grant.privileges else privileges) ∅

def effectivePrivileges (objectType objectId : Text) (caller : Caller) :
    Option (Finset Privilege) := do
  let direct ← db.listGrants objectType objectId
  let rest ← (db.parentRefs objectType objectId).mapM fun parent =>
    (db.listGrants parent.1.value parent.2).map fun grants =>
      db.conferred caller (grants.filter flows)
  return rest.foldl (· ∪ ·) (db.conferred caller direct)

/-! ### What is shown and what is enforced -/

variable {db} {caller : Caller} {privilege : Privilege} {objectType objectId : Text}
  {direct : List ObjectGrant}

theorem mem_conferred {grants : List ObjectGrant} : privilege ∈ db.conferred caller grants ↔
    ∃ grant ∈ grants, db.isFor caller grant = true ∧
      privilege ∈ expandPrivileges grant.privileges := by
  have hfold : ∀ privileges, privilege ∈ grants.foldl (fun privileges grant =>
      if db.isFor caller grant then privileges ∪ expandPrivileges grant.privileges else privileges)
        privileges ↔ privilege ∈ privileges ∨
          ∃ grant ∈ grants, db.isFor caller grant = true ∧
            privilege ∈ expandPrivileges grant.privileges := by
    induction grants with
    | nil => simp
    | cons grant grants ih =>
      intro privileges
      rw [List.foldl_cons, ih]
      cases hfor : db.isFor caller grant <;> simp [hfor, or_assoc]
  simpa [conferred] using hfold ∅

theorem mem_foldl_union {sets : List (Finset Privilege)} {first : Finset Privilege} :
    privilege ∈ sets.foldl (· ∪ ·) first ↔ privilege ∈ first ∨ ∃ set ∈ sets, privilege ∈ set := by
  induction sets generalizing first with
  | nil => simp
  | cons set sets ih => simp [ih, or_assoc]

/-- Whether the ids of the parents of an object are accepted. -/
def Readable (db : Database) (objectType objectId : Text) : Prop :=
  ∀ parent ∈ db.parentRefs objectType objectId,
    ∃ grants, db.listGrants parent.1.value parent.2 = some grants

/-- A grant on a parent of an object that holds on the object too. -/
def Flows (db : Database) (objectType objectId : Text) (parent : ObjectType × Text)
    (source : ObjectGrant) : Prop :=
  parent ∈ db.parentRefs objectType objectId ∧
    ∃ grants, db.listGrants parent.1.value parent.2 = some grants ∧ source ∈ grants ∧
      flows source = true

theorem exists_flowing (readable : db.Readable objectType objectId) (keeps : ObjectGrant → Bool) :
    ∃ lists, db.flowing objectType objectId keeps = some lists ∧ ∀ grant, grant ∈ lists.flatten ↔
      ∃ parent source, db.Flows objectType objectId parent source ∧ keeps source = true ∧
        inherited objectType objectId parent source = grant := by
  have hsome : ∀ parent ∈ db.parentRefs objectType objectId, ∃ list,
      (db.listGrants parent.1.value parent.2).map (fun grants =>
        (grants.filter fun grant => flows grant && keeps grant).map
          (inherited objectType objectId parent)) = some list := by
    intro parent hparent
    obtain ⟨grants, hgrants⟩ := readable parent hparent
    exact ⟨_, by rw [hgrants, Option.map_some]⟩
  obtain ⟨lists, hlists⟩ := Lib.exists_mapM_eq_some hsome
  refine ⟨lists, hlists, fun grant => ?_⟩
  simp only [List.mem_flatten, Lib.mem_iff_of_mapM_eq_some hlists, Option.map_eq_some_iff]
  constructor
  · rintro ⟨_, ⟨parent, hparent, grants, hgrants, rfl⟩, hmem⟩
    obtain ⟨source, hsource, hinherited⟩ := List.mem_map.mp hmem
    obtain ⟨hsource, hkept⟩ := List.mem_filter.mp hsource
    obtain ⟨hflows, hkeeps⟩ := Bool.and_eq_true_iff.mp hkept
    exact ⟨parent, source, ⟨hparent, grants, hgrants, hsource, hflows⟩, hkeeps, hinherited⟩
  · rintro ⟨parent, source, ⟨hparent, grants, hgrants, hsource, hflows⟩, hkeeps, hinherited⟩
    have hkept : (flows source && keeps source) = true := by rw [hflows, hkeeps]; rfl
    exact ⟨_, ⟨parent, hparent, grants, hgrants, rfl⟩,
      List.mem_map.mpr ⟨source, List.mem_filter.mpr ⟨hsource, hkept⟩, hinherited⟩⟩

/-- What the kept grants that flow from the parents confer. -/
theorem mem_conferred_flowing {grants : List ObjectGrant} {keeps : ObjectGrant → Bool}
    (hmem : ∀ grant, grant ∈ grants ↔ ∃ parent source,
      db.Flows objectType objectId parent source ∧ keeps source = true ∧
        inherited objectType objectId parent source = grant) :
    privilege ∈ db.conferred caller grants ↔ ∃ parent source,
      db.Flows objectType objectId parent source ∧ keeps source = true ∧
        db.isFor caller source = true ∧ privilege ∈ expandPrivileges source.privileges := by
  rw [mem_conferred]
  constructor
  · rintro ⟨grant, hgrant, hfor, hprivilege⟩
    obtain ⟨parent, source, hflows, hkeeps, rfl⟩ := (hmem grant).mp hgrant
    exact ⟨parent, source, hflows, hkeeps, hfor, hprivilege⟩
  · rintro ⟨parent, source, hflows, hkeeps, hfor, hprivilege⟩
    exact ⟨_, (hmem _).mpr ⟨parent, source, hflows, hkeeps, rfl⟩, hfor, hprivilege⟩

theorem conferred_append {a b : List ObjectGrant} :
    privilege ∈ db.conferred caller (a ++ b) ↔
      privilege ∈ db.conferred caller a ∨ privilege ∈ db.conferred caller b := by
  simp only [mem_conferred, List.mem_append, or_and_right, exists_or]

/-- What the caller has: what the grants on the object confer, and what those that flow from its
parents do. -/
theorem exists_effectivePrivileges (hdirect : db.listGrants objectType objectId = some direct)
    (readable : db.Readable objectType objectId) (caller : Caller) :
    ∃ privileges, db.effectivePrivileges objectType objectId caller = some privileges ∧
      ∀ privilege, privilege ∈ privileges ↔ privilege ∈ db.conferred caller direct ∨
        ∃ parent source, db.Flows objectType objectId parent source ∧
          db.isFor caller source = true ∧ privilege ∈ expandPrivileges source.privileges := by
  have hsome : ∀ parent ∈ db.parentRefs objectType objectId, ∃ set,
      (db.listGrants parent.1.value parent.2).map (fun grants =>
        db.conferred caller (grants.filter flows)) = some set := by
    intro parent hparent
    obtain ⟨grants, hgrants⟩ := readable parent hparent
    exact ⟨_, by rw [hgrants, Option.map_some]⟩
  obtain ⟨sets, hsets⟩ := Lib.exists_mapM_eq_some hsome
  refine ⟨sets.foldl (· ∪ ·) (db.conferred caller direct), ?_, fun privilege => ?_⟩
  · rw [effectivePrivileges, hdirect, hsets]
    rfl
  · rw [mem_foldl_union]
    refine or_congr_right ?_
    simp only [Lib.mem_iff_of_mapM_eq_some hsets, Option.map_eq_some_iff]
    constructor
    · rintro ⟨_, ⟨parent, hparent, grants, hgrants, rfl⟩, hmem⟩
      obtain ⟨source, hsource, hfor, hprivilege⟩ := mem_conferred.mp hmem
      obtain ⟨hsource, hflows⟩ := List.mem_filter.mp hsource
      exact ⟨parent, source, ⟨hparent, grants, hgrants, hsource, hflows⟩, hfor, hprivilege⟩
    · rintro ⟨parent, source, ⟨hparent, grants, hgrants, hsource, hflows⟩, hfor, hprivilege⟩
      exact ⟨_, ⟨parent, hparent, grants, hgrants, rfl⟩,
        mem_conferred.mpr ⟨source, List.mem_filter.mpr ⟨hsource, hflows⟩, hfor, hprivilege⟩⟩

/-- Nothing is shown or enforced of an object if an id is rejected. -/
theorem effective_eq_none (h : db.listGrants objectType objectId = none ∨
    ¬db.Readable objectType objectId) :
    db.listEffectiveGrants objectType objectId = none ∧
      ∀ caller, db.effectivePrivileges objectType objectId caller = none := by
  cases hdirect : db.listGrants objectType objectId with
  | none =>
    constructor
    · rw [listEffectiveGrants, hdirect]
      rfl
    · intro caller
      rw [effectivePrivileges, hdirect]
      rfl
  | some direct =>
    have hreadable := h.resolve_left (by rw [hdirect]; nofun)
    rw [Readable] at hreadable
    push Not at hreadable
    obtain ⟨parent, hparent, hnone⟩ := hreadable
    have hgrants : db.listGrants parent.1.value parent.2 = none :=
      Option.eq_none_iff_forall_ne_some.mpr hnone
    constructor
    · have hflowing : ∀ keeps, db.flowing objectType objectId keeps = none := fun _ =>
        Lib.mapM_eq_none hparent (by rw [hgrants, Option.map_none])
      rw [listEffectiveGrants, hdirect, Option.bind_eq_bind, Option.bind_some]
      dsimp only
      rw [hflowing]
      rfl
    · intro caller
      rw [effectivePrivileges, hdirect,
        Lib.mapM_eq_none hparent (by rw [hgrants, Option.map_none])]
      rfl

theorem inheritedFrom_of_listGrants (hdirect : db.listGrants objectType objectId = some direct)
    {grant : ObjectGrant} (h : grant ∈ direct) : grant.inheritedFrom = none := by
  unfold listGrants at hdirect
  split at hdirect
  · obtain rfl := Option.some.inj hdirect
    obtain ⟨row, -, rfl⟩ := List.mem_map.mp h
    rfl
  · cases hdirect

/-- A grant on the object to the same principal, or to everyone, that confers a privilege. -/
def Covers (shown : List ObjectGrant) (principalId : Text) (privilege : Privilege) : Prop :=
  ∃ grant ∈ shown, grant.inheritedFrom = none ∧
    (grant.principalId = principalId ∨ isUsersGroup grant.principalId = true) ∧
      privilege ∈ expandPrivileges grant.privileges

/-- A grant to a principal matches every caller that another one to the same principal matches. -/
theorem isFor_congr {a b : ObjectGrant} (h : a.principalId = b.principalId) (caller : Caller) :
    db.isFor caller a = db.isFor caller b := by
  unfold isFor grantTargetsEmail
  rw [h]

theorem isFor_of_isUsersGroup {grant : ObjectGrant} (h : isUsersGroup grant.principalId = true)
    (caller : Caller) : db.isFor caller grant = true := by
  rw [isFor, h]
  rfl

/-- What is enforced is what the shown grants confer on the caller, and what the shadowed ones do:
the inheritable grants whose principal has a grant on the object itself. It is what the shown ones
confer, for every caller, exactly if a grant on the object covers each privilege of a shadowed one. -/
theorem effectivePrivileges_eq (db : Database) (objectType objectId : Text) :
    (db.listEffectiveGrants objectType objectId = none ∧
      ∀ caller, db.effectivePrivileges objectType objectId caller = none) ∨
    ∃ shown shadowed, db.listEffectiveGrants objectType objectId = some shown ∧
      db.shadowedGrants objectType objectId = some shadowed ∧
      (∀ caller, db.effectivePrivileges objectType objectId caller =
        some (db.conferred caller shown ∪ db.conferred caller shadowed)) ∧
      (∀ grant ∈ shadowed, ∃ direct ∈ shown, direct.inheritedFrom = none ∧
        direct.principalId = grant.principalId) ∧
      ((∀ caller, db.effectivePrivileges objectType objectId caller =
          some (db.conferred caller shown)) ↔
        ∀ grant ∈ shadowed, ∀ privilege ∈ expandPrivileges grant.privileges,
          Covers shown grant.principalId privilege) := by
  cases hdirect : db.listGrants objectType objectId with
  | none => exact .inl (effective_eq_none (.inl hdirect))
  | some direct =>
    by_cases readable : db.Readable objectType objectId
    case neg => exact .inl (effective_eq_none (.inr readable))
    right
    obtain ⟨others, hothers, hmemOthers⟩ := exists_flowing readable fun grant =>
      !(direct.map (·.principalId)).contains grant.principalId
    obtain ⟨same, hsame, hmemSame⟩ := exists_flowing readable fun grant =>
      (direct.map (·.principalId)).contains grant.principalId
    have hshown : db.listEffectiveGrants objectType objectId = some (direct ++ others.flatten) := by
      rw [listEffectiveGrants, hdirect, Option.bind_eq_bind, Option.bind_some]
      dsimp only
      rw [hothers]
      rfl
    have hshadowed : db.shadowedGrants objectType objectId = some same.flatten := by
      rw [shadowedGrants, hdirect, Option.bind_eq_bind, Option.bind_some]
      dsimp only
      rw [hsame]
      rfl
    have henforced : ∀ caller, db.effectivePrivileges objectType objectId caller =
        some (db.conferred caller (direct ++ others.flatten) ∪
          db.conferred caller same.flatten) := by
      intro caller
      obtain ⟨privileges, hprivileges, hmem⟩ := exists_effectivePrivileges hdirect readable caller
      rw [hprivileges]
      congr 1
      ext privilege
      rw [hmem, Finset.mem_union, conferred_append, or_assoc, mem_conferred_flowing hmemOthers,
        mem_conferred_flowing hmemSame]
      refine or_congr_right ⟨?_, ?_⟩
      · rintro ⟨parent, source, hflows, hfor, hprivilege⟩
        cases hcontains : (direct.map (·.principalId)).contains source.principalId with
        | false => exact .inl ⟨parent, source, hflows, by rw [hcontains]; rfl, hfor, hprivilege⟩
        | true => exact .inr ⟨parent, source, hflows, hcontains, hfor, hprivilege⟩
      · rintro (⟨parent, source, hflows, -, hfor, hprivilege⟩ |
          ⟨parent, source, hflows, -, hfor, hprivilege⟩)
        · exact ⟨parent, source, hflows, hfor, hprivilege⟩
        · exact ⟨parent, source, hflows, hfor, hprivilege⟩
    have hsources : ∀ grant ∈ same.flatten, ∃ own ∈ direct, own.principalId = grant.principalId := by
      intro grant hgrant
      obtain ⟨parent, source, -, hcontains, rfl⟩ := (hmemSame grant).mp hgrant
      obtain ⟨own, hown, heq⟩ := List.mem_map.mp (List.contains_iff_mem.mp hcontains)
      exact ⟨own, hown, heq⟩
    refine ⟨direct ++ others.flatten, same.flatten, hshown, hshadowed, henforced, ?_, ?_⟩
    · intro grant hgrant
      obtain ⟨own, hown, heq⟩ := hsources grant hgrant
      exact ⟨own, List.mem_append_left _ hown, inheritedFrom_of_listGrants hdirect hown, heq⟩
    · constructor
      · -- the caller who is the principal of the grant alone
        intro hagree grant hgrant privilege hprivilege
        have hmem : privilege ∈ db.conferred ⟨[grant.principalId], none⟩
            (direct ++ others.flatten) := by
          have heq := (henforced ⟨[grant.principalId], none⟩).symm.trans (hagree _)
          rw [← Option.some.inj heq]
          refine Finset.mem_union_right _ (mem_conferred.mpr ⟨grant, hgrant, ?_, hprivilege⟩)
          simp [isFor]
        obtain ⟨found, hfound, hfor, hconfers⟩ := mem_conferred.mp hmem
        have hprincipal : isUsersGroup found.principalId = true ∨
            found.principalId = grant.principalId := by
          simpa [isFor, nonempty] using hfor
        rcases List.mem_append.mp hfound with hfound | hfound
        · exact ⟨found, List.mem_append_left _ hfound, inheritedFrom_of_listGrants hdirect hfound,
            hprincipal.symm, hconfers⟩
        · obtain ⟨parent, source, ⟨-, grants, -, -, hflows⟩, hkept, rfl⟩ :=
            (hmemOthers found).mp hfound
          exfalso
          rcases hprincipal with husers | heq
          · have husers : isUsersGroup source.principalId = true := husers
            rw [flows, husers, Bool.not_true, Bool.and_false] at hflows
            cases hflows
          · have heq : source.principalId = grant.principalId := heq
            obtain ⟨own, hown, hown'⟩ := hsources grant hgrant
            have hcontains : (direct.map (·.principalId)).contains source.principalId = true :=
              List.contains_iff_mem.mpr (List.mem_map.mpr ⟨own, hown, hown'.trans heq.symm⟩)
            rw [hcontains] at hkept
            cases hkept
      · intro hcovers caller
        rw [henforced caller]
        congr 1
        refine Finset.union_eq_left.mpr fun privilege hprivilege => ?_
        obtain ⟨grant, hgrant, hfor, hconfers⟩ := mem_conferred.mp hprivilege
        obtain ⟨own, hown, -, hprincipal, hcovered⟩ := hcovers grant hgrant privilege hconfers
        refine mem_conferred.mpr ⟨own, hown, ?_, hcovered⟩
        rcases hprincipal with hsame | husers
        · rw [isFor_congr hsame, hfor]
        · exact isFor_of_isUsersGroup husers caller

end Database

def tableGrant : GrantRow :=
  ⟨"monitored_table".toList, "t1".toList, "u1".toList, "user".toList, none, some "SELECT".toList,
    "false".toList, none⟩

def productGrant : GrantRow :=
  ⟨"data_product".toList, "p1".toList, "u1".toList, "user".toList, none, some "MODIFY".toList,
    "true".toList, none⟩

/-- A table in a product, with a grant on each for one user. -/
def sharedTable : Database where
  grants := [tableGrant, productGrant]
  members := [⟨some "p1".toList, "t1".toList⟩]
  byPrincipal _ _ := true
  unicode := ⟨fun _ => false, fun c => [c]⟩

theorem listGrants_sharedTable {objectType objectId : Text} {row : GrantRow}
    (hid : Database.validObjectId objectId = true)
    (h : (sharedTable.grants.filter fun row =>
      row.objectType = objectType && row.objectId = objectId) = [row]) :
    sharedTable.listGrants objectType objectId = some [sharedTable.rowToGrant row] := by
  rw [Database.listGrants, if_pos hid, h, List.mergeSort_singleton]
  rfl

/-- The user may modify the table, though the only grant shown is one to select from it. -/
theorem sharedTable_hides_modify :
    (sharedTable.listEffectiveGrants "monitored_table".toList "t1".toList).map (fun shown =>
        (shown.length, sharedTable.conferred ⟨["u1".toList], none⟩ shown)) = some (1, {.select}) ∧
      sharedTable.effectivePrivileges "monitored_table".toList "t1".toList ⟨["u1".toList], none⟩ =
        some {.select, .modify} := by
  have htable : sharedTable.listGrants "monitored_table".toList "t1".toList =
      some [sharedTable.rowToGrant tableGrant] := listGrants_sharedTable (by decide) rfl
  have hproduct : sharedTable.listGrants (ObjectType.value .dataProduct) "p1".toList =
      some [sharedTable.rowToGrant productGrant] := listGrants_sharedTable (by decide) rfl
  have hparents : sharedTable.parentRefs "monitored_table".toList "t1".toList =
      [(.dataProduct, "p1".toList)] := by decide
  have hflowing (keeps) : sharedTable.flowing "monitored_table".toList "t1".toList keeps =
      some [([sharedTable.rowToGrant productGrant].filter fun grant =>
        Database.flows grant && keeps grant).map (Database.inherited "monitored_table".toList
          "t1".toList (.dataProduct, "p1".toList))] := by
    rw [Database.flowing, hparents, List.mapM_cons, hproduct]
    rfl
  constructor
  · rw [Database.listEffectiveGrants, htable]
    simp only [Option.bind_eq_bind, Option.bind_some, hflowing]
    decide
  · rw [Database.effectivePrivileges, htable, hparents, List.mapM_cons, hproduct]
    decide

end Dqx.Permissions
