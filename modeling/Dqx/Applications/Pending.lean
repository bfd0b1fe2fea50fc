import Dqx.Applications.Applied

/-! The calls that record pending applications, and those that apply them once their rule is
published. -/

namespace Dqx.Applications

open Lib

inductive Reply where
  | recorded (pending : PendingApplication)
  | activated
  | outage

abbrev Result := Except Error Reply

def fail (error : Error) : AppCall Result := .done (.error error)

/-- `PendingApplicationService._get_by_natural_key` -/
def Store.pendingAt (store : Store) (bindingId ruleId : String) : Option PendingApplication :=
  store.pending.find? (PendingApplication.hasKey bindingId ruleId)

def record (bindingId ruleId : String) (application : Application) (user : String) : AppCall Result :=
  let application := { application with rowFilter := cleanRowFilter application.rowFilter }
  sql .read fail fun store =>
    match store.pendingAt bindingId ruleId with
    | some existing =>
      sql (.updatePending existing.id bindingId ruleId application) fail fun _ =>
        .done (.ok (.recorded { existing with toApplication := application }))
    | none =>
      sql (.insertPending bindingId ruleId user application) fail fun store =>
        .done (.ok (.recorded { application with
          id := store.nextId, bindingId, ruleId, createdBy := some user }))

/-- `p.created_by or approver` -/
def PendingApplication.appliedBy (pending : PendingApplication) (approver : String) : String :=
  match pending.createdBy with
  | some user => if user = "" then approver else user
  | none => approver

section Activate

variable (functions : Functions) (ruleId approver : String)

/-- One application that fails is skipped. -/
def activateEach : List PendingApplication → AppCall Result
  | [] => .done (.ok .activated)
  | pending :: rest =>
    let skip := activateEach rest
    applyRule functions pending.bindingId ruleId pending.toApplication (pending.appliedBy approver)
      none none none (fun _ => skip) fun _ => sql (.deletePending pending) (fun _ => skip) fun _ => skip

/-- `_activate_pending_applications` -/
def activatePendingApplications : AppCall Result :=
  sql .read (fun _ => .done (.ok .activated)) fun store =>
    activateEach functions ruleId approver (store.pending.filter fun row => row.ruleId = ruleId)

end Activate

/-- The calls, and what happens to the database. -/
inductive Operation where
  | record (bindingId ruleId : String) (application : Application) (user : String)
  | activatePendingApplications (ruleId approver : String)
  | outage

def Operation.call (functions : Functions) : Operation → AppCall Result
  | .record bindingId ruleId application user => Applications.record bindingId ruleId application user
  | .activatePendingApplications ruleId approver =>
    Applications.activatePendingApplications functions ruleId approver
  | .outage => .stmt .outage Event.outage.after fun _ => .done (.ok .outage)

end Dqx.Applications
