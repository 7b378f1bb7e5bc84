import Kdive.Capacity.Ledger
import Kdive.Capacity.Pcie

/-!
Fail-closed admission: the idempotent replay, the gate (affinity, quota, budget, host cap,
PCIe devices) evaluated under PROJECT and RESOURCE, and the grant or the queue position that
follows from it, all in one transaction.
-/
namespace Kdive.Capacity
open Table

section Idempotency

def withinBudget (project : String) (estimate : ℚ) : AllocTxn Bool := do
  let db ← Txn.get
  match find db.budgets project with
  | none => pure false
  | some b => pure (estimate ≤ decimal (b.limitKcu - b.spentKcu))

def budgetSnapshot (project : String) : AllocTxn (Option (ℚ × ℚ)) := do
  let db ← Txn.get
  pure ((find db.budgets project).map (fun b => (b.limitKcu, b.spentKcu)))

def resolveReplay (principal key kind : String) : AllocTxn (Option Allocation) := do
  let db ← Txn.get
  match (find db.idempotencyKeys (principal, key)).filter (fun k => k.kind = kind) with
  | none => pure none
  | some stored =>
    match ← getAllocation stored.allocationId with
    | none => Txn.throw (.danglingKey principal key stored.allocationId)
    | some a => pure (some a)

def replayIfSent (principal : String) (key : Option String) (kind : String) :
    AllocTxn (Option Allocation) :=
  match key with
  | none => pure none
  | some k => resolveReplay principal k kind

def recordKey (key : IdempotencyKey) : AllocTxn Unit := do
  Txn.acquire (.idempotencyKey key.principal key.key)
  let db ← Txn.get
  match find db.idempotencyKeys key.owner with
  | some _ => Txn.throw (.keyInUse key.principal key.key)
  | none => Txn.modify (fun db => db.insertKey key)

def recordKeyIfSent (principal : String) (key : Option String) (project kind : String)
    (allocation : Uuid) : AllocTxn Unit :=
  match key with
  | none => pure ()
  | some k => recordKey ⟨principal, k, project, kind, allocation⟩

end Idempotency

def insertAllocation (row : Allocation) : AllocTxn Unit := do
  Txn.acquire (.allocationKey row.id)
  let db ← Txn.get
  match find db.allocations row.id with
  | some _ => Txn.throw (.duplicateId row.id)
  | none => Txn.modify (fun db => db.insertAllocation row)

def requestKind : String := "allocations.request"

inductive OnCapacity where
  | deny | queue
  deriving DecidableEq

structure AllocationRequest where
  ctx : RequestContext
  resource : Resource
  project : String
  selector : Selector
  window : Option WindowInput
  idempotencyKey : Option String
  diskGb : Option Int
  shape : Option String
  pcieSpecs : List String
  onCapacity : OnCapacity
  requestedKind : Option String
  requestedResourceId : Option Uuid
  requestedPool : Option String
  arch : Option String

structure OccupancyBreakdown where
  ownProjects : Nat
  otherProjects : Nat
  granted : Nat
  active : Nat
  releasing : Nat

def OccupancyBreakdown.inUse (o : OccupancyBreakdown) : Nat := o.ownProjects + o.otherProjects

inductive UnmetGate where
  | quota (current required : Nat) (limit : Option Int)
  | budget (required requiredLimit : ℚ) (figures : Option (ℚ × ℚ × ℚ))

inductive DenialReason where
  | budgetExceeded | affinityDenied | atCapacity
  deriving DecidableEq

structure Denial where
  category : ErrorCategory
  reason : Option DenialReason
  capacity : Option (Nat × OccupancyBreakdown)
  queueable : Bool
  unmet : List UnmetGate

def Denial.plain (category : ErrorCategory) (reason : Option DenialReason) (queueable : Bool) :
    Denial :=
  ⟨category, reason, none, queueable, []⟩

inductive AdmissionOutcome where
  | granted (allocation : Allocation)
  | denied (denial : Denial)

section Pricing

def pricingAccel (request : AllocationRequest) : Except AllocError (Option String) :=
  match request.arch with
  | none => .ok none
  | some arch => resolveAccel request.resource.guestArches arch

def priceWindowAndEstimate (bounds : LeaseBounds) (request : AllocationRequest) :
    AllocTxn (ℚ × ℚ) := do
  let windowHours ← liftExcept (resolveWindowHours request.window bounds)
  liftExcept (validateSize request.selector)
  liftExcept (validateAgainstResource request.selector request.resource)
  liftExcept (validateDiskAgainstResource request.diskGb request.resource)
  let coeff ← resolveCoeff request.resource.costClass
  let accel ← liftExcept (pricingAccel request)
  let estimate ← liftExcept (quantizeKcu (cost
    (rate coeff request.selector.vcpus request.selector.memoryGb accel) windowHours))
  pure (windowHours, estimate)

end Pricing

section Gate

def projectMayPlace (r : Resource) (project : String) : Bool :=
  match r.ownerProject with
  | none => true
  | some owner => decide (project = owner) || decide (project ∈ r.affinityAllowlist)

def Allocation.occupies (a : Allocation) : Bool := a.state.occupying

def projectOccupying (db : AllocDb) (project : String) : List Allocation :=
  db.allocations.rows.filter (fun a => a.project = project ∧ a.occupies)

def resourceOccupying (db : AllocDb) (resource : Uuid) : List Allocation :=
  db.allocations.rows.filter (fun a => a.resourceId = some resource ∧ a.occupies)

def countProjectOccupying (project : String) : AllocTxn Nat := do
  let db ← Txn.get
  pure (projectOccupying db project).length

def quotaStatus (project : String) : AllocTxn (Option Int × Nat) := do
  let db ← Txn.get
  let limit := (find db.quotas project).map Quota.maxConcurrentAllocations
  let count ← countProjectOccupying project
  pure (limit, count)

def withinAllocQuota (project : String) : AllocTxn Bool := do
  match ← quotaStatus project with
  | (none, _) => pure false
  | (some limit, count) => pure ((count : Int) < limit)

def countOccupying (resource : Uuid) (project : String) : AllocTxn OccupancyBreakdown := do
  let db ← Txn.get
  let rows := resourceOccupying db resource
  pure {
    ownProjects := rows.countP (fun a => a.project = project)
    otherProjects := rows.countP (fun a => ¬ a.project = project)
    granted := rows.countP (fun a => a.state = .granted)
    active := rows.countP (fun a => a.state = .active)
    releasing := rows.countP (fun a => a.state = .releasing) }

def hostCapCheck (r : Resource) (project : String) : AllocTxn (Option Denial) := do
  match r.allocationCap with
  | none => Txn.throw (.noAllocationCap r.id)
  | some cap =>
    let occupancy ← countOccupying r.id project
    if cap ≤ occupancy.inUse then
      pure (some ⟨.allocationDenied, some .atCapacity, some (cap, occupancy), true, []⟩)
    else pure none

def claimsOn (db : AllocDb) (resource : Uuid) : List PCIeClaim :=
  (db.allocations.rows.filter (fun a => a.resourceId = some resource ∧ ¬ a.state.terminal)).flatMap
    Allocation.pcieClaim

def activeClaims (resource : Uuid) : AllocTxn (List PCIeClaim) := do
  let db ← Txn.get
  pure (claimsOn db resource)

def claimsFrom (devices : List PCIeDescriptor) : List PCIeClaim :=
  devices.map (fun d => ⟨d.bdf, d.vendorId, d.deviceId⟩)

inductive GateResult where
  | denied (denial : Denial)
  | devices (claims : List PCIeClaim)

def resolvePcieClaim (request : AllocationRequest) : AllocTxn GateResult :=
  if request.pcieSpecs = [] then pure (.devices [])
  else do
    let claims ← activeClaims request.resource.id
    let resolution ← liftExcept
      (resolveMultiset request.pcieSpecs request.resource.pcieDevices claims)
    match resolution.outcome with
    | .matched => pure (.devices (claimsFrom resolution.devices))
    | .config => pure (.denied (.plain .configurationError none false))
    | .capacity => pure (.denied (.plain .allocationDenied none true))

def admissionGate (request : AllocationRequest) (estimate : ℚ) : AllocTxn GateResult := do
  if !projectMayPlace request.resource request.project then
    return .denied (.plain .allocationDenied (some .affinityDenied) false)
  if !(← withinAllocQuota request.project) then
    return .denied (.plain .quotaExceeded none true)
  if !(← withinBudget request.project estimate) then
    return .denied (.plain .allocationDenied (some .budgetExceeded) false)
  match ← hostCapCheck request.resource request.project with
  | some denial => return .denied denial
  | none => resolvePcieClaim request

end Gate

section Outcome

def leaseEnd (now : Instant) (windowHours : ℚ) : Instant := now + wholeSeconds windowHours

def grantedRow (request : AllocationRequest) (now : Instant) (id : Uuid) (windowHours : ℚ)
    (devices : List PCIeClaim) : Allocation where
  id := id
  createdAt := now
  principal := request.ctx.principal
  project := request.project
  resourceId := some request.resource.id
  state := .granted
  leaseExpiry := some (leaseEnd now windowHours)
  requestedVcpus := some request.selector.vcpus
  requestedMemoryGb := some request.selector.memoryGb
  requestedDiskGb := request.diskGb
  requestedArch := request.arch
  shape := request.shape
  pcieClaim := devices
  requestedPcieSpecs := []
  requestedKind := none
  requestedResourceId := none
  requestedPool := none
  activeStartedAt := none
  activeEndedAt := none
  failureCategory := none

def grant (request : AllocationRequest) (now : Instant) (id : Uuid) (windowHours estimate : ℚ)
    (devices : List PCIeClaim) : AllocTxn AdmissionOutcome := do
  let allocation := grantedRow request now id windowHours devices
  insertAllocation allocation
  reserve allocation estimate
  recordKeyIfSent request.ctx.principal request.idempotencyKey request.project requestKind id
  record request.ctx request.project "allocations.request" id (.opened .granted)
  pure (.granted allocation)

def withinPendingQuota (project : String) : AllocTxn Bool := do
  let db ← Txn.get
  match find db.quotas project with
  | none => pure false
  | some q =>
    let db ← Txn.get
    let pending := db.allocations.rows.countP
      (fun a => a.project = project ∧ a.state = .requested)
    pure ((pending : Int) < q.maxPendingAllocations)

def queuedRow (request : AllocationRequest) (now : Instant) (id : Uuid) : Allocation where
  id := id
  createdAt := now
  principal := request.ctx.principal
  project := request.project
  resourceId := none
  state := .requested
  leaseExpiry := none
  requestedVcpus := some request.selector.vcpus
  requestedMemoryGb := some request.selector.memoryGb
  requestedDiskGb := request.diskGb
  requestedArch := request.arch
  shape := request.shape
  pcieClaim := []
  requestedPcieSpecs := request.pcieSpecs
  requestedKind := request.requestedKind
  requestedResourceId := request.requestedResourceId
  requestedPool := request.requestedPool
  activeStartedAt := none
  activeEndedAt := none
  failureCategory := none

def enqueue (request : AllocationRequest) (now : Instant) (id : Uuid) :
    AllocTxn AdmissionOutcome := do
  if !(← withinPendingQuota request.project) then
    return .denied (.plain .quotaExceeded none false)
  insertAllocation (queuedRow request now id)
  recordKeyIfSent request.ctx.principal request.idempotencyKey request.project requestKind id
  record request.ctx request.project "allocations.request" id (.opened .requested)
  pure (.granted (queuedRow request now id))

def budgetUnmetEntry (project : String) (estimate : ℚ) : AllocTxn (Option UnmetGate) := do
  match ← budgetSnapshot project with
  | none => pure (some (.budget estimate estimate none))
  | some (limit, spent) =>
    let remaining := decimal (limit - spent)
    if estimate ≤ remaining then pure none
    else pure (some (.budget estimate (decimal (spent + estimate)) (some (limit, spent, remaining))))

def fundingUnmet (project : String) (estimate : ℚ) : AllocTxn (List UnmetGate) := do
  let (limit, count) ← quotaStatus project
  let budget ← budgetUnmetEntry project estimate
  let quota := match limit with
    | none => [UnmetGate.quota count (count + 1) none]
    | some cap => if cap ≤ (count : Int) then [.quota count (count + 1) (some cap)] else []
  pure (quota ++ budget.toList)

def isFundingDenial (denial : Denial) : Bool :=
  denial.category = .quotaExceeded ∨
    (denial.category = .allocationDenied ∧ denial.reason = some .budgetExceeded)

def enrichFundingDenial (project : String) (estimate : ℚ) (denial : Denial) : AllocTxn Denial :=
  if isFundingDenial denial then do
    let unmet ← fundingUnmet project estimate
    pure { denial with unmet := unmet }
  else pure denial

def denyOrEnqueue (request : AllocationRequest) (now : Instant) (id : Uuid) (denial : Denial)
    (estimate : ℚ) : AllocTxn AdmissionOutcome :=
  if request.onCapacity = .queue ∧ denial.queueable then enqueue request now id
  else do
    let enriched ← enrichFundingDenial request.project estimate denial
    pure (.denied enriched)

def admitUnderProjectLock (request : AllocationRequest) (now : Instant) (id : Uuid)
    (windowHours estimate : ℚ) : AllocTxn AdmissionOutcome := do
  match ← replayIfSent request.ctx.principal request.idempotencyKey requestKind with
  | some stored =>
    if stored.project = request.project then pure (.granted stored)
    else pure (.denied (.plain .configurationError none false))
  | none =>
    Txn.acquire (.resource request.resource.id)
    match ← admissionGate request estimate with
    | .denied denial => denyOrEnqueue request now id denial estimate
    | .devices claims => grant request now id windowHours estimate claims

def admitAllocation (bounds : LeaseBounds) (request : AllocationRequest) (now : Instant)
    (id : Uuid) : AllocTxn AdmissionOutcome := do
  let (windowHours, estimate) ← priceWindowAndEstimate bounds request
  Txn.acquire (.project request.project)
  admitUnderProjectLock request now id windowHours estimate

end Outcome

end Kdive.Capacity
