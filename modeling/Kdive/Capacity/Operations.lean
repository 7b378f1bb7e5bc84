import Kdive.Capacity.Release

/-!
Every transaction that touches the allocation tables, as one type of operations. The catalog
writes stand for the tools that register hosts, price classes and Systems.
-/
namespace Kdive.Capacity
open Table

/-- `allocations.request`: the host is the row placement has just read. -/
def requestAllocation (bounds : LeaseBounds) (request : AllocationRequest) (now : Instant)
    (id : Uuid) : AllocTxn (Option AdmissionOutcome) := do
  let db ← Txn.get
  match find db.resources request.resource.id with
  | none => pure none
  | some host =>
    let outcome ← admitAllocation bounds { request with resource := host } now id
    pure (some outcome)

structure CatalogChange where
  resources : Keyed Resource Uuid Resource.id → Keyed Resource Uuid Resource.id
  costClasses : Keyed CostClass String CostClass.name → Keyed CostClass String CostClass.name
  systems : Keyed SystemRow Uuid SystemRow.id → Keyed SystemRow Uuid SystemRow.id

def AllocDb.changeCatalog (db : AllocDb) (change : CatalogChange) : AllocDb :=
  { db with
    resources := change.resources db.resources
    costClasses := change.costClasses db.costClasses
    systems := change.systems db.systems }

/-- Who asks for a release: a member of the project, or a platform principal. -/
inductive Actor where
  | member (ctx : RequestContext)
  | platform (principal : String)

def Actor.writer : Actor → AuditWriter
  | .member ctx => record ctx
  | .platform principal => recordSystem principal

inductive Operation where
  | request (bounds : LeaseBounds) (input : AllocationRequest) (now : Instant) (id : Uuid)
  | promote (bounds : LeaseBounds) (now : Instant) (id : Uuid)
  | reapQueued (selected now : Instant) (maxWait : Duration) (id : Uuid)
  | release (boot : BootGuard) (actor : Actor) (now : Instant) (id : Uuid)
  | reclaim (boot : BootGuard) (now : Instant) (stillOrphaned : Bool) (id : Uuid)
  | expire (boot : BootGuard) (selected now : Instant) (id : Uuid)
  | renew (bounds : LeaseBounds) (ctx : RequestContext) (now : Instant) (id : Uuid)
      (extend : WindowInput) (key : Option String)
  | activate (ctx : RequestContext) (id systemId : Uuid) (accel : Option String)
      (withinQuota : Bool)
  | openBilling (system id : Uuid) (now : Instant)
  | setBudget (ctx : RequestContext) (project : String) (limit : ℚ)
  | setQuota (ctx : RequestContext) (project : String) (maxConcurrent maxPending : Int)
  | changeCatalog (change : CatalogChange)

def unanswered {α : Type} (p : AllocTxn α) : AllocTxn Unit := do
  let _ ← p
  pure ()

def Operation.program : Operation → AllocTxn Unit
  | .request bounds input now id => unanswered (requestAllocation bounds input now id)
  | .promote bounds now id => unanswered (promoteOne bounds now id)
  | .reapQueued selected now maxWait id => unanswered (reapOne selected now maxWait id)
  | .release boot actor now id => unanswered (releaseAllocation boot actor.writer now id)
  | .reclaim boot now stillOrphaned id =>
    unanswered (reclaimOrphanedActive boot now stillOrphaned id)
  | .expire boot selected now id => unanswered (expireOne boot selected now id)
  | .renew bounds ctx now id extend key =>
    unanswered (Capacity.renew bounds ctx now id extend key)
  | .activate ctx id systemId accel withinQuota =>
    unanswered (Capacity.activate ctx id systemId accel withinQuota)
  | .openBilling system id now => openBillingInterval system id now
  | .setBudget ctx project limit => unanswered (Capacity.setBudget ctx project limit)
  | .setQuota ctx project maxConcurrent maxPending =>
    unanswered (Capacity.setQuota ctx project maxConcurrent maxPending)
  | .changeCatalog change => Txn.modify (fun db => db.changeCatalog change)

end Kdive.Capacity
