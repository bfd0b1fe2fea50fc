import Dqx.Lib.Interleave
import Dqx.LowCode.Hosts
import Dqx.Scheduler.Tracker

/-! The calls of the data product service on one product, statement by statement: the review
lifecycle, the edits of the product and those of its members. -/

namespace Dqx.Products

open Lib

inductive Status where
  | draft | pendingApproval | approved | rejected
  deriving DecidableEq, Repr

def Status.text : Status → String
  | draft => "draft"
  | pendingApproval => "pending_approval"
  | approved => "approved"
  | rejected => "rejected"

/-- The row of the product in `dq_data_products`. -/
structure DataProduct where
  name : String
  description : Option String
  owner : Option String
  ownerDisplayName : Option String
  scheduleCron : Option String
  scheduleTz : Option String
  scheduleKind : Scheduler.ScheduleKind
  scheduleSampleSize : Option Int
  status : Status
  version : Nat
  pendingRationale : Option String
  lastDecisionRationale : Option String
  updatedBy : String

/-- A row of `dq_data_product_members`. -/
structure Member where
  id : String
  bindingId : String
  pinnedVersion : Option Nat
  deriving DecidableEq, Repr

/-- A monitored table that may become a member. -/
structure Binding where
  tableFqn : String
  status : Status
  version : Nat

/-- What the calls read and write: the product and its members, and what they only read, which is the
names of the other products, the monitored tables and the default of new pins. The members have a
unique constraint on Postgres. -/
structure Store where
  product : DataProduct
  members : List Member
  otherNames : List String
  bindings : String → Option Binding
  autoUpgrade : Bool
  unique : Bool

/-- The statements, by what they do to the product and its members. -/
inductive Event where
  | read
  | submit
  /-- The version is that of the product as the call read it. -/
  | approve (version : Nat)
  /-- The end of a review by a rejection or a withdrawal. -/
  | close
  | update
  | memberWrite
  | flip
  deriving DecidableEq, Repr

inductive Error where
  | value (message : String)
  | duplicateName (message : String)
  | lookup (message : String)
  | invalidStatusTransition (message : String)
  | runtime (message : String)
  | bindingNotApproved (message : String)
  /-- The error of the database on an insert that breaks the unique constraint. -/
  | unique

inductive Reply where
  | product (product : DataProduct)
  | approved (product : DataProduct)
  | member (member : Member)
  | removed

abbrev Result := Except Error Reply

abbrev ProductCall := Call Store Event Result

/-- A call has approved the product. -/
def isApproval : Result → Bool
  | .ok (.approved _) => true
  | _ => false

def fail (error : Error) : ProductCall := .done (.error error)

def fetchProduct (next : DataProduct → ProductCall) : ProductCall :=
  .stmt .read id fun store => next store.product

def writeProduct (event : Event) (write : DataProduct → DataProduct) (reply : Reply) : ProductCall :=
  .stmt event (fun store => { store with product := write store.product }) fun _ => .done (.ok reply)

/-! ### The review lifecycle -/

def submit (productId user : String) (rationale : Option String) : ProductCall :=
  fetchProduct fun product =>
    if product.status = .approved then
      fail (.invalidStatusTransition
        s!"Cannot submit Table Space {productId}: already approved with no changes to submit")
    else
      let write (p : DataProduct) : DataProduct :=
        { p with status := .pendingApproval, pendingRationale := rationale, updatedBy := user }
      writeProduct .submit write (.product (write product))

/-- A call that needs the product to be `pending_approval`. -/
def whenPending (verb productId : String) (next : DataProduct → ProductCall) : ProductCall :=
  fetchProduct fun product =>
    if product.status = .pendingApproval then next product
    else
      let status := product.status.text
      fail (.invalidStatusTransition
        s!"Cannot {verb} Table Space {productId}: status is '{status}', expected 'pending_approval'")

def approve (productId user : String) (rationale : Option String) : ProductCall :=
  whenPending "approve" productId fun product =>
    let write (p : DataProduct) : DataProduct :=
      { p with
        status := .approved
        version := product.version + 1
        pendingRationale := none
        lastDecisionRationale := rationale
        updatedBy := user }
    writeProduct (.approve product.version) write (.approved (write product))

def reject (productId user : String) (rationale : Option String) : ProductCall :=
  whenPending "reject" productId fun product =>
    let write (p : DataProduct) : DataProduct :=
      { p with
        status := .rejected
        pendingRationale := none
        lastDecisionRationale := rationale
        updatedBy := user }
    writeProduct .close write (.product (write product))

def revert (productId user : String) : ProductCall :=
  whenPending "revert" productId fun product =>
    let write (p : DataProduct) : DataProduct :=
      { p with status := .draft, pendingRationale := none, updatedBy := user }
    writeProduct .close write (.product (write product))

/-! ### Edits of the product -/

/-- The keys that a partial update supplies, with their values. -/
structure Updates where
  name : Option (Option String)
  description : Option (Option String)
  owner : Option (Option String)
  ownerDisplayName : Option (Option String)
  scheduleCron : Option (Option String)
  scheduleTz : Option (Option String)
  scheduleKind : Option (Option Scheduler.ScheduleKind)
  scheduleSampleSize : Option (Option Int)

def maxScheduleSampleSize : Int := 10000000

def normalizeScheduleSampleSize : Option Int → Option Int
  | none => none
  | some size => if size ≤ 0 then none else some (min size maxScheduleSampleSize)

/-- There are keys, and all of them are schedule fields. -/
def Updates.scheduleOnly (updates : Updates) : Bool :=
  (updates.scheduleCron.isSome || updates.scheduleTz.isSome || updates.scheduleKind.isSome ||
      updates.scheduleSampleSize.isSome) &&
    !(updates.name.isSome || updates.description.isSome || updates.owner.isSome ||
      updates.ownerDisplayName.isSome)

/-- An owner without a display name is looked up among the principals. -/
def Updates.resolveOwner (canonicalizeOwner : Option String → Option String × Option String)
    (updates : Updates) : Updates :=
  match updates.owner, updates.ownerDisplayName with
  | some owner, none =>
    let (canonical, displayName) := canonicalizeOwner owner
    { updates with
      owner := some (match canonical with
        | some identity => if identity = "" then owner else some identity
        | none => owner)
      ownerDisplayName := some displayName }
  | _, _ => updates

/-- The sample size that an update writes, if it writes one. Without a cron there is none. -/
def Updates.sampleSize (updates : Updates) : Option (Option Int) :=
  if updates.scheduleCron = some none then some none
  else updates.scheduleSampleSize.map normalizeScheduleSampleSize

def Updates.apply (updates : Updates) (user : String) (p : DataProduct) : DataProduct where
  name := (updates.name.getD none).getD p.name
  description := updates.description.getD p.description
  owner := updates.owner.getD p.owner
  ownerDisplayName := updates.ownerDisplayName.getD p.ownerDisplayName
  scheduleCron := updates.scheduleCron.getD p.scheduleCron
  scheduleTz := updates.scheduleTz.getD p.scheduleTz
  scheduleKind := (updates.scheduleKind.getD none).getD p.scheduleKind
  scheduleSampleSize := updates.sampleSize.getD p.scheduleSampleSize
  status := if updates.scheduleOnly then p.status else .draft
  version := p.version
  pendingRationale := p.pendingRationale
  lastDecisionRationale := p.lastDecisionRationale
  updatedBy := user

def isBlank (text : String) : Bool :=
  text.toList.all fun c => LowCode.Python.spaces.contains c.toNat

def writeUpdates (canonicalizeOwner : Option String → Option String × Option String)
    (updates : Updates) (user : String) (product : DataProduct) : ProductCall :=
  let write := (updates.resolveOwner canonicalizeOwner).apply user
  writeProduct .update write (.product (write product))

def update (canonicalizeOwner : Option String → Option String × Option String) (updates : Updates)
    (user : String) : ProductCall :=
  fetchProduct fun product =>
    let write := writeUpdates canonicalizeOwner updates user product
    match updates.name with
    | none => write
    | some newName =>
      let name := newName.getD ""
      if isBlank name then fail (.value "Data product name must not be empty.")
      else if name = product.name then write
      else .stmt .read id fun store =>
        if store.otherNames.contains name then
          fail (.duplicateName s!"A data product named '{name}' already exists.")
        else write

/-! ### Edits of the members -/

def flipToDraft (user : String) (reply : Reply) : ProductCall :=
  writeProduct .flip (fun p => { p with status := .draft, updatedBy := user }) reply

def updatePin (memberId : String) (pinnedVersion : Option Nat) (store : Store) : Store :=
  { store with
    members := store.members.map fun m => if m.id = memberId then { m with pinnedVersion } else m }

/-- The id of the first row with the binding. -/
def Store.memberOf (store : Store) (bindingId : String) : Option String :=
  (store.members.find? (·.bindingId = bindingId)).map (·.id)

/-- The pin of a member that exists changes, and the product becomes a draft. -/
def repin (memberId bindingId user : String) (pinnedVersion : Option Nat) : ProductCall :=
  .stmt .memberWrite (updatePin memberId pinnedVersion) fun _ =>
    flipToDraft user (.member ⟨memberId, bindingId, pinnedVersion⟩)

/-- The insert of a new member fails on a row with its binding, if there is a unique constraint; the
call then changes the pin of that row. -/
def insertMember (member : Member) (user : String) : ProductCall :=
  let fails (store : Store) : Bool := store.unique && (store.memberOf member.bindingId).isSome
  .stmt .memberWrite
    (fun store =>
      if fails store then store else { store with members := store.members ++ [member] })
    fun store =>
      if fails store then
        .stmt .read id fun store =>
          match store.memberOf member.bindingId with
          | some memberId => repin memberId member.bindingId user member.pinnedVersion
          | none => fail .unique
      else flipToDraft user (.member member)

def Binding.isRunnable (binding : Binding) : Bool :=
  binding.status = .approved && 0 < binding.version

def notApproved (binding : Binding) : Error :=
  let status := binding.status.text
  let tableFqn := binding.tableFqn
  let reason := if binding.version = 0 then "it has never been approved"
    else s!"its status is '{status}', expected 'approved'"
  .bindingNotApproved (s!"Cannot add table '{tableFqn}' to this table space: {reason}. " ++
    "Only approved tables can join a table space.")

/-- A new member has the next unused id. -/
def addMember (newId bindingId : String) (pinnedVersion : Option Nat) (user : String) : ProductCall :=
  fetchProduct fun _ => .stmt .read id fun store =>
    match store.memberOf bindingId with
    | some memberId => repin memberId bindingId user pinnedVersion
    | none => .stmt .read id fun store =>
      match store.bindings bindingId with
      | none => fail (.runtime s!"Monitored table not found: {bindingId}")
      | some binding =>
        if !binding.isRunnable then fail (notApproved binding)
        else match pinnedVersion with
          | some pin => insertMember ⟨newId, bindingId, some pin⟩ user
          | none => .stmt .read id fun store =>
            let pin := if store.autoUpgrade then none else some binding.version
            insertMember ⟨newId, bindingId, pin⟩ user

def removeMember (memberId user : String) : ProductCall :=
  fetchProduct fun _ => .stmt .read id fun store =>
    if store.members.any (·.id = memberId) then
      .stmt .memberWrite
        (fun store => { store with members := store.members.filter (·.id ≠ memberId) })
        fun _ => flipToDraft user .removed
    else fail (.lookup s!"Data product member not found: {memberId}")

/-- A call of the service on the product. -/
inductive Operation where
  | submit (productId user : String) (rationale : Option String)
  | approve (productId user : String) (rationale : Option String)
  | reject (productId user : String) (rationale : Option String)
  | revert (productId user : String)
  | update (canonicalizeOwner : Option String → Option String × Option String) (updates : Updates)
      (user : String)
  | addMember (newId bindingId : String) (pinnedVersion : Option Nat) (user : String)
  | removeMember (memberId user : String)

def Operation.call : Operation → ProductCall
  | submit productId user rationale => Products.submit productId user rationale
  | approve productId user rationale => Products.approve productId user rationale
  | reject productId user rationale => Products.reject productId user rationale
  | revert productId user => Products.revert productId user
  | update canonicalizeOwner updates user => Products.update canonicalizeOwner updates user
  | addMember newId bindingId pinnedVersion user =>
    Products.addMember newId bindingId pinnedVersion user
  | removeMember memberId user => Products.removeMember memberId user

end Dqx.Products
