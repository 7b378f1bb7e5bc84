import Mathlib.Data.Rat.Defs
import Kdive.Domain
import Kdive.Lib.Table
import Kdive.Lib.Txn

/-!
The rows the allocation services read and write, the advisory locks they take, and the
errors they raise. Amounts of kcu are exact rationals, as in the database.
-/
namespace Kdive.Capacity
open Table

/-- The advisory locks in their global order, and the entries of the unique indexes that an
`INSERT` holds until its transaction ends. -/
inductive LockScope where
  | project (name : String)
  | resource (id : Uuid)
  | allocation (id : Uuid)
  | system (id : Uuid)
  | allocationKey (id : Uuid)
  | idempotencyKey (principal key : String)

structure PCIeDescriptor where
  bdf : String
  vendorId : String
  deviceId : String
  classCode : String
  label : String
  deriving DecidableEq

structure PCIeClaim where
  bdf : String
  vendorId : String
  deviceId : String
  deriving DecidableEq

inductive ResourceStatus where
  | available | degraded | offline
  deriving DecidableEq

/-- A host, with the advertised capabilities already validated: a ceiling that is missing
or not a non-negative integer is `none`. -/
structure Resource where
  id : Uuid
  createdAt : Instant
  kind : String
  pool : Option String
  costClass : String
  status : ResourceStatus
  cordoned : Bool
  ownerProject : Option String
  affinityAllowlist : List String
  allocationCap : Option Nat
  vcpus : Option Nat
  memoryMb : Option Nat
  diskGb : Option Nat
  guestArches : List (String × String)
  pcieDevices : List PCIeDescriptor
  deriving DecidableEq

structure Allocation where
  id : Uuid
  createdAt : Instant
  principal : String
  project : String
  resourceId : Option Uuid
  state : AllocationState
  leaseExpiry : Option Instant
  requestedVcpus : Option Int
  requestedMemoryGb : Option Int
  requestedDiskGb : Option Int
  requestedArch : Option String
  shape : Option String
  pcieClaim : List PCIeClaim
  requestedPcieSpecs : List String
  requestedKind : Option String
  requestedResourceId : Option Uuid
  requestedPool : Option String
  activeStartedAt : Option Instant
  activeEndedAt : Option Instant
  failureCategory : Option ErrorCategory
  deriving DecidableEq

structure Budget where
  project : String
  limitKcu : ℚ
  spentKcu : ℚ
  deriving DecidableEq

structure Quota where
  project : String
  maxConcurrentAllocations : Int
  maxPendingAllocations : Int
  deriving DecidableEq

inductive LedgerEventType where
  | reserved | reconciled
  deriving DecidableEq

structure LedgerEntry where
  project : String
  allocationId : Uuid
  resourceId : Option Uuid
  costClass : String
  eventType : LedgerEventType
  kcuDelta : ℚ
  deriving DecidableEq

structure CostClass where
  name : String
  coeff : ℚ
  deriving DecidableEq

structure SystemRow where
  id : Uuid
  allocationId : Uuid
  accel : Option String
  deriving DecidableEq

structure IdempotencyKey where
  principal : String
  key : String
  project : String
  kind : String
  allocationId : Uuid
  deriving DecidableEq

def IdempotencyKey.owner (k : IdempotencyKey) : String × String := (k.principal, k.key)

inductive Transition where
  | opened (state : AllocationState)
  | moved (source target : AllocationState)
  | renewed (addedHours : ℚ)
  | systemOpened
  | applied
  deriving DecidableEq

structure AuditRow where
  principal : String
  project : String
  tool : String
  objectId : Uuid
  transition : Transition
  deriving DecidableEq

structure RequestContext where
  principal : String
  projects : List String

structure AllocDb where
  allocations : Keyed Allocation Uuid Allocation.id
  resources : Keyed Resource Uuid Resource.id
  budgets : Keyed Budget String Budget.project
  quotas : Keyed Quota String Quota.project
  costClasses : Keyed CostClass String CostClass.name
  systems : Keyed SystemRow Uuid SystemRow.id
  idempotencyKeys : Keyed IdempotencyKey (String × String) IdempotencyKey.owner
  ledger : List LedgerEntry
  audit : List AuditRow
  deriving DecidableEq

inductive AllocError where
  | sizeRejected (field : String) (value : Int) (requirement : String)
  | windowRejected (requirement : String)
  | valueTooLarge (value : ℚ)
  | noSizeCeiling (resource : Uuid)
  | exceedsCeiling (field : String) (requested ceiling : Int) (resource : Uuid)
  | noCostClass (costClass : String)
  | unsupportedArch (arch : String) (supported : List String)
  | noAllocationCap (resource : Uuid)
  | malformedSpec (spec : String)
  | missingResource (allocation : Uuid) (resource : Option Uuid)
  | noBudgetRow (project : String)
  | noPersistedSize (allocation : Uuid)
  | keyInUse (principal key : String)
  | duplicateId (allocation : Uuid)
  | missingSnapshot (allocation : Uuid) (missing : List String)
  | danglingKey (principal key : String) (allocation : Uuid)
  | externalBootDenied (system : Uuid)
  | illegalTransition (source target : AllocationState)
  | objectNotFound (allocation : Uuid)
  | notGranted (project principal : String)
  | decimalOverflow
  | overflow
  deriving DecidableEq

def AllocError.category : AllocError → Option ErrorCategory
  | .externalBootDenied _ => some .conflict
  | .danglingKey _ _ _ => none
  | .duplicateId _ => none
  | .illegalTransition _ _ => none
  | .objectNotFound _ => none
  | .notGranted _ _ => none
  | .decimalOverflow => none
  | .overflow => none
  | _ => some .configurationError

abbrev AllocTxn := Txn.Program AllocDb LockScope AllocError

section Writes

variable (db : AllocDb)

def AllocDb.updateAllocations (p : Allocation → Bool) (f : Allocation → Allocation)
    (keeps : ∀ a, (f a).id = a.id) : AllocDb :=
  { db with allocations := Table.update db.allocations p f keeps }

/-- `UPDATE allocations SET f WHERE id = …`. -/
def AllocDb.updateAllocation (id : Uuid) (f : Allocation → Allocation)
    (keeps : ∀ a, (f a).id = a.id) : AllocDb :=
  db.updateAllocations (fun a => a.id = id) f keeps

def AllocDb.insertAllocation (row : Allocation) : AllocDb :=
  { db with allocations := Table.insert db.allocations row }

def AllocDb.appendLedger (entry : LedgerEntry) : AllocDb :=
  { db with ledger := db.ledger ++ [entry] }

def Budget.charge (delta : ℚ) (b : Budget) : Budget := { b with spentKcu := b.spentKcu + delta }

@[simp] theorem Budget.charge_project (delta : ℚ) (b : Budget) :
    (b.charge delta).project = b.project := rfl

/-- `UPDATE budgets SET spent_kcu = spent_kcu + delta WHERE project = …`. -/
def AllocDb.charge (project : String) (delta : ℚ) : AllocDb :=
  { db with
    budgets := Table.update db.budgets (fun b => b.project = project) (Budget.charge delta)
      (Budget.charge_project delta) }

def AllocDb.insertKey (key : IdempotencyKey) : AllocDb :=
  { db with idempotencyKeys := Table.insert db.idempotencyKeys key }

def AllocDb.appendAudit (row : AuditRow) : AllocDb := { db with audit := db.audit ++ [row] }

def AllocDb.insertSystem (row : SystemRow) : AllocDb :=
  { db with systems := Table.insert db.systems row }

end Writes

end Kdive.Capacity
