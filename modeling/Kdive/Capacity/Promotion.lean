import Kdive.Capacity.Admission

/-!
The queue: a promotion re-resolves the hosts of a queued request from its persisted inputs and
replays the admission gate on each of them under PROJECT, RESOURCE and ALLOCATION; the reaper
ends the requests that waited too long.
-/
namespace Kdive.Capacity
open Table

section Placement

structure PlacementRequest where
  resourceId : Option Uuid
  kind : Option String
  pool : Option String
  pcieSpecs : List String
  project : Option String
  arch : Option String

def resourceSupportsArch (r : Resource) (arch : String) : Bool :=
  r.guestArches = [] ∨ arch ∈ r.guestArches.map Prod.fst

def placeable (r : Resource) (project arch : Option String) : Bool :=
  project.all (projectMayPlace r) && arch.all (resourceSupportsArch r)

def schedulable (r : Resource) : Bool := r.status = .available ∧ r.cordoned = false

def olderFirst (a b : Instant × Uuid) : Bool := a.1 < b.1 ∨ (a.1 = b.1 ∧ a.2 ≤ b.2)

def labelCandidates (db : AllocDb) (label : Resource → Bool) (project arch : Option String) :
    List Resource :=
  ((db.resources.rows.filter (fun r => label r && schedulable r)).mergeSort
    (fun a b => olderFirst (a.createdAt, a.id) (b.createdAt, b.id))).filter
      (fun r => placeable r project arch)

def schedulableCandidates (db : AllocDb) (request : PlacementRequest) : List Resource :=
  match request.resourceId, request.pool, request.kind with
  | some id, _, _ =>
    match find db.resources id with
    | none => []
    | some r => if schedulable r && placeable r request.project request.arch then [r] else []
  | none, some pool, _ =>
    labelCandidates db (fun r => r.pool = some pool) request.project request.arch
  | none, none, some kind =>
    labelCandidates db (fun r => r.kind = kind) request.project request.arch
  | none, none, none => []

def withFreeDevices (specs : List String) : List Resource → AllocTxn (List Resource)
  | [] => pure []
  | r :: rest => do
    let claims ← activeClaims r.id
    let resolution ← liftExcept (resolveMultiset specs r.pcieDevices claims)
    let others ← withFreeDevices specs rest
    pure (if resolution.outcome = .matched then r :: others else others)

def resolvePlacementCandidates (request : PlacementRequest) : AllocTxn (List Resource) := do
  let db ← Txn.get
  let candidates := schedulableCandidates db request
  if request.pcieSpecs = [] then pure candidates
  else withFreeDevices request.pcieSpecs candidates

end Placement

def candidateHosts (a : Allocation) : AllocTxn (List Resource) :=
  match parseMatchSpecs a.requestedPcieSpecs with
  | .error _ => pure []
  | .ok _ => resolvePlacementCandidates
      ⟨a.requestedResourceId, a.requestedKind, a.requestedPool, a.requestedPcieSpecs,
        some a.project, a.requestedArch⟩

def selectorFromSnapshot (a : Allocation) : Except AllocError Selector :=
  match a.requestedVcpus, a.requestedMemoryGb with
  | some vcpus, some memoryGb => .ok ⟨vcpus, memoryGb⟩
  | vcpus, memoryGb => .error (.missingSnapshot a.id
      ((if vcpus = none then ["requested_vcpus"] else []) ++
        (if memoryGb = none then ["requested_memory_gb"] else [])))

def requestFromQueued (a : Allocation) (r : Resource) : Except AllocError AllocationRequest :=
  match selectorFromSnapshot a with
  | .error e => .error e
  | .ok selector => .ok {
      ctx := ⟨a.principal, [a.project]⟩
      resource := r
      project := a.project
      selector := selector
      window := none
      idempotencyKey := none
      diskGb := a.requestedDiskGb
      shape := a.shape
      pcieSpecs := a.requestedPcieSpecs
      onCapacity := .deny
      requestedKind := a.requestedKind
      requestedResourceId := a.requestedResourceId
      requestedPool := a.requestedPool
      arch := a.requestedArch }

def systemPrincipal : String := "system:reconciler"

def Allocation.grantOn (resource : Uuid) (lease : Instant) (devices : List PCIeClaim)
    (a : Allocation) : Allocation :=
  { a with
    state := .granted
    resourceId := some resource
    leaseExpiry := some lease
    pcieClaim := devices }

@[simp] theorem Allocation.grantOn_id (resource : Uuid) (lease : Instant)
    (devices : List PCIeClaim) (a : Allocation) :
    (a.grantOn resource lease devices).id = a.id := rfl

/-- `UPDATE … WHERE id = … AND state = 'requested'`; when no row matches nothing is charged. -/
def grantQueued (a : Allocation) (resource : Uuid) (now : Instant) (windowHours estimate : ℚ)
    (devices : List PCIeClaim) : AllocTxn Bool := do
  let lease := leaseEnd now windowHours
  if AllocationState.granted ∉ a.state.next then Txn.throw (.illegalTransition a.state .granted)
  else
    let db ← Txn.get
    match (find db.allocations a.id).filter (fun row => row.state = .requested) with
    | none => pure false
    | some _ =>
      Txn.modify (fun db => db.updateAllocations
        (fun row => row.id = a.id ∧ row.state = .requested)
        (Allocation.grantOn resource lease devices) (Allocation.grantOn_id resource lease devices))
      reserve (a.grantOn resource lease devices) estimate
      recordSystem a.principal a.project "allocations.request" a.id (.moved .requested .granted)
      pure true

def Allocation.failWith (category : ErrorCategory) (a : Allocation) : Allocation :=
  { a with failureCategory := some category }

@[simp] theorem Allocation.failWith_id (category : ErrorCategory) (a : Allocation) :
    (a.failWith category).id = a.id := rfl

/-- A queued row ends as failed; it was never charged, so the ledger is left alone. -/
def failQueued (a : Allocation) (category : ErrorCategory) (tool : String) : AllocTxn Unit := do
  updateState a.id .failed
  Txn.modify (fun db =>
    db.updateAllocation a.id (Allocation.failWith category) (Allocation.failWith_id category))
  recordSystem systemPrincipal a.project tool a.id (.moved .requested .failed)

def terminate (a : Allocation) : AllocTxn Unit :=
  failQueued a .allocationDenied "allocations.request"

def isBudgetTerminate (denial : Denial) : Bool :=
  denial.category = .allocationDenied ∧ denial.reason = some .budgetExceeded ∧
    denial.queueable = false

inductive HostAttempt where
  | granted | terminated | wait
  deriving DecidableEq

def tryOneHost (bounds : LeaseBounds) (now : Instant) (a : Allocation) (r : Resource) :
    AllocTxn HostAttempt := do
  let request ← liftExcept (requestFromQueued a r)
  let (windowHours, estimate) ← priceWindowAndEstimate bounds request
  Txn.acquire (.resource r.id)
  Txn.acquire (.allocation a.id)
  match ← admissionGate request estimate with
  | .devices claims =>
    let granted ← grantQueued a r.id now windowHours estimate claims
    pure (if granted then .granted else .wait)
  | .denied denial =>
    if isBudgetTerminate denial then
      terminate a
      pure .terminated
    else pure .wait

def placeOrTerminate (bounds : LeaseBounds) (now : Instant) (a : Allocation) :
    List Resource → AllocTxn Bool
  | [] => pure false
  | r :: rest => do
    match ← tryOneHost bounds now a r with
    | .granted => pure true
    | .terminated => pure false
    | .wait => placeOrTerminate bounds now a rest

def promoteOne (bounds : LeaseBounds) (now : Instant) (id : Uuid) :
    AllocTxn (Option Allocation) := do
  match ← getAllocation id with
  | none => pure none
  | some candidate =>
    Txn.acquire (.project candidate.project)
    match (← getAllocation id).filter (fun a => a.state = .requested) with
    | none => pure none
    | some a =>
      let hosts ← candidateHosts a
      let granted ← placeOrTerminate bounds now a hosts
      pure (if granted then some a else none)

def agedRequested (now : Instant) (maxWait : Duration) (a : Allocation) : Bool :=
  a.state = .requested ∧ a.createdAt < now - maxWait

def reapOne (selected now : Instant) (maxWait : Duration) (id : Uuid) : AllocTxn Bool := do
  match (← getAllocation id).filter (agedRequested selected maxWait) with
  | none => pure false
  | some candidate =>
    Txn.acquire (.project candidate.project)
    Txn.acquire (.allocation id)
    match (← getAllocation id).filter (agedRequested now maxWait) with
    | none => pure false
    | some _ =>
      match ← getAllocation id with
      | none => pure false
      | some a =>
        failQueued a .queueTimeout "reconciler.reap_queue_timeout"
        pure true

end Kdive.Capacity
