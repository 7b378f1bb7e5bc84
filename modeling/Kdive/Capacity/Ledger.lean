import Kdive.Capacity.Cost

/-!
The metering ledger writers, the state transition of an allocation row and its audit row, as
statements of a transaction. `reserve` and `reconcile` write one ledger row each and apply the
same delta to the running total of the budget.
-/
namespace Kdive.Capacity
open Table

def liftExcept {α : Type} : Except AllocError α → AllocTxn α
  | .ok a => pure a
  | .error e => Txn.throw e

/-- An audit writer takes the project, the tool, the object and the transition. -/
abbrev AuditWriter := String → String → Uuid → Transition → AllocTxn Unit

def record (ctx : RequestContext) : AuditWriter := fun project tool objectId transition =>
  if project ∈ ctx.projects then
    Txn.modify (fun db => db.appendAudit ⟨ctx.principal, project, tool, objectId, transition⟩)
  else Txn.throw (.notGranted project ctx.principal)

def recordSystem (principal : String) : AuditWriter := fun project tool objectId transition =>
  Txn.modify (fun db => db.appendAudit ⟨principal, project, tool, objectId, transition⟩)

def getAllocation (id : Uuid) : AllocTxn (Option Allocation) := do
  let db ← Txn.get
  pure (find db.allocations id)

def Allocation.moveTo (state : AllocationState) (a : Allocation) : Allocation :=
  { a with state := state }

@[simp] theorem Allocation.moveTo_id (state : AllocationState) (a : Allocation) :
    (a.moveTo state).id = a.id := rfl

def updateState (id : Uuid) (state : AllocationState) : AllocTxn Unit := do
  match ← getAllocation id with
  | none => Txn.throw (.objectNotFound id)
  | some a =>
    if state ∈ a.state.next then
      Txn.modify (fun db =>
        db.updateAllocation id (Allocation.moveTo state) (Allocation.moveTo_id state))
    else Txn.throw (.illegalTransition a.state state)

section Pricing

def costClassOf (a : Allocation) : AllocTxn String := do
  let db ← Txn.get
  match a.resourceId.bind (find db.resources) with
  | some r => pure r.costClass
  | none => Txn.throw (.missingResource a.id a.resourceId)

def resolveCoeff (costClass : String) : AllocTxn ℚ := do
  let db ← Txn.get
  match find db.costClasses costClass with
  | some c => pure c.coeff
  | none => Txn.throw (.noCostClass costClass)

def systemAccel (a : Allocation) : AllocTxn (Option String) := do
  let db ← Txn.get
  pure ((db.systems.rows.find? (fun s => s.allocationId = a.id)).bind SystemRow.accel)

def bookedRate (a : Allocation) : AllocTxn ℚ := do
  match a.requestedVcpus, a.requestedMemoryGb with
  | some vcpus, some memoryGb =>
    let coeff ← resolveCoeff (← costClassOf a)
    let accel ← systemAccel a
    pure (rate coeff vcpus memoryGb accel)
  | _, _ => Txn.throw (.noPersistedSize a.id)

def actualCost (a : Allocation) : AllocTxn ℚ :=
  if activeHours a = 0 then pure 0
  else do
    let perHour ← bookedRate a
    pure (cost perHour (activeHours a))

end Pricing

section Deltas

def applyToSpent (project : String) (delta : ℚ) : AllocTxn Unit := do
  let db ← Txn.get
  match find db.budgets project with
  | none => Txn.throw (.noBudgetRow project)
  | some _ => Txn.modify (fun db => db.charge project delta)

def writeDelta (a : Allocation) (event : LedgerEventType) (delta : ℚ) : AllocTxn Unit := do
  let costClass ← costClassOf a
  Txn.modify (fun db => db.appendLedger ⟨a.project, a.id, a.resourceId, costClass, event, delta⟩)
  applyToSpent a.project delta

def reserve (a : Allocation) (estimate : ℚ) : AllocTxn Unit := do
  let delta ← liftExcept (quantizeKcu estimate)
  writeDelta a .reserved delta

def reservedSum (id : Uuid) : AllocTxn ℚ := do
  let db ← Txn.get
  pure ((db.ledger.filter (fun e => e.allocationId = id ∧ e.eventType = .reserved)).map
    LedgerEntry.kcuDelta).sum

/-- A project without a budget row was never metered: nothing is written for it. -/
def reconcile (a : Allocation) : AllocTxn ℚ := do
  let db ← Txn.get
  match find db.budgets a.project with
  | none => pure 0
  | some _ =>
    let reserved ← reservedSum a.id
    let actual ← actualCost a
    let delta ← liftExcept (quantizeKcu (decimal (actual - reserved)))
    writeDelta a .reconciled delta
    pure delta

end Deltas

def Allocation.endedAt (ended : Instant) (a : Allocation) : Allocation :=
  { a with activeEndedAt := some ended }

@[simp] theorem Allocation.endedAt_id (ended : Instant) (a : Allocation) :
    (a.endedAt ended).id = a.id := rfl

/-- The decision reads the committed row, not the caller's snapshot. -/
def stampActiveEnded (a : Allocation) (ended : Instant) : AllocTxn Allocation := do
  match (← getAllocation a.id).bind Allocation.activeStartedAt with
  | none => pure a
  | some started =>
    Txn.modify (fun db =>
      db.updateAllocation a.id (Allocation.endedAt ended) (Allocation.endedAt_id ended))
    pure { a with activeStartedAt := some started, activeEndedAt := some ended }

end Kdive.Capacity
