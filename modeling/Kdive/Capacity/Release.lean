import Kdive.Capacity.Promotion

/-!
The other operations on allocations: release, the reconciler's reclaim and lease expiry,
renewal, the activation by the first System, and the administrative upserts. What the
external-boot guards decide comes from tables outside this model, as a parameter.
-/
namespace Kdive.Capacity
open Table

/-- The answers of the external-boot guards: which Systems refuse, and the first one that
still awaits its teardown. -/
structure BootGuard where
  denies : Uuid → Bool
  awaitingTeardown : Option Uuid

structure ReleaseOutcome where
  released : Bool
  category : Option ErrorCategory
  currentStatus : Option AllocationState

def ReleaseOutcome.done : ReleaseOutcome := ⟨true, none, none⟩

section Guards

def lockSystems : List Uuid → AllocTxn Unit
  | [] => pure ()
  | id :: rest => do
    Txn.acquire (.system id)
    lockSystems rest

def guardExternalBootRelease (boot : BootGuard) (id : Uuid) : AllocTxn (Option Uuid) := do
  let db ← Txn.get
  let systems := ((db.systems.rows.filter (fun s => s.allocationId = id)).map
    SystemRow.id).mergeSort (· ≤ ·)
  lockSystems systems
  pure (systems.find? boot.denies)

def releaseRefused (boot : BootGuard) (id : Uuid) : AllocTxn (Option Uuid) := do
  match ← guardExternalBootRelease boot id with
  | some system => pure (some system)
  | none => pure boot.awaitingTeardown

end Guards

section Ending

def transitionAndAudit (writer : AuditWriter) (id : Uuid) (source target : AllocationState)
    (project : String) : AllocTxn Unit := do
  updateState id target
  writer project "allocations.release" id (.moved source target)

def closeOut (writer : AuditWriter) (a : Allocation) (project : String) :
    AllocTxn ReleaseOutcome := do
  transitionAndAudit writer a.id .releasing .released project
  let _ ← reconcile a
  pure .done

def releaseHeld (writer : AuditWriter) (now : Instant) (a : Allocation) (project : String) :
    AllocTxn ReleaseOutcome := do
  transitionAndAudit writer a.id a.state .releasing project
  let stamped ← stampActiveEnded a now
  closeOut writer stamped project

def releaseLocked (boot : BootGuard) (writer : AuditWriter) (now : Instant) (id : Uuid)
    (project : String) : AllocTxn ReleaseOutcome := do
  Txn.acquire (.project project)
  Txn.acquire (.allocation id)
  match ← getAllocation id with
  | none => pure ⟨false, some .configurationError, none⟩
  | some current =>
    match current.state with
    | .released => pure .done
    | .expired | .failed => pure ⟨false, some .staleHandle, some current.state⟩
    | .requested =>
      transitionAndAudit writer id .requested .released project
      pure .done
    | .granted | .active =>
      match ← releaseRefused boot id with
      | some system => Txn.throw (.externalBootDenied system)
      | none => releaseHeld writer now current project
    | .releasing =>
      match ← releaseRefused boot id with
      | some system => Txn.throw (.externalBootDenied system)
      | none => closeOut writer current project

/-- `allocations.release`: the project of the row, read before any lock, names the lock. -/
def releaseAllocation (boot : BootGuard) (writer : AuditWriter) (now : Instant) (id : Uuid) :
    AllocTxn ReleaseOutcome := do
  match ← getAllocation id with
  | none => pure ⟨false, some .configurationError, none⟩
  | some a => releaseLocked boot writer now id a.project

/-- `precondition` is evaluated under the locks; a refusal is a neutral outcome. -/
def reclaimUnderLock (boot : BootGuard) (writer : AuditWriter) (now : Instant)
    (precondition : Bool) (id : Uuid) (project : String) : AllocTxn ReleaseOutcome := do
  Txn.acquire (.project project)
  Txn.acquire (.allocation id)
  match ← getAllocation id with
  | none => pure ⟨false, some .configurationError, none⟩
  | some current =>
    if current.state.terminal then pure ⟨false, some .staleHandle, some current.state⟩
    else if current.state ≠ .granted ∧ current.state ≠ .active then
      pure ⟨false, some .configurationError, some current.state⟩
    else if !precondition then pure ⟨false, none, some current.state⟩
    else
      match ← releaseRefused boot id with
      | some _ => pure ⟨false, some .conflict, some current.state⟩
      | none => releaseHeld writer now current project

def reclaimOrphanedActive (boot : BootGuard) (now : Instant) (stillOrphaned : Bool) (id : Uuid) :
    AllocTxn ReleaseOutcome := do
  match (← getAllocation id).filter (fun a => a.state = .active) with
  | none => pure ⟨false, none, none⟩
  | some a => reclaimUnderLock boot (recordSystem systemPrincipal) now stillOrphaned id a.project

def leaseElapsed (now : Instant) (a : Allocation) : Bool :=
  match a.leaseExpiry with
  | none => false
  | some expiry => expiry < now

def expireOne (boot : BootGuard) (selected now : Instant) (id : Uuid) : AllocTxn Bool := do
  match (← getAllocation id).filter (fun a => !a.state.terminal && leaseElapsed selected a) with
  | none => pure false
  | some candidate =>
    Txn.acquire (.project candidate.project)
    Txn.acquire (.allocation id)
    match (← getAllocation id).filter (fun a => !a.state.terminal) with
    | none => pure false
    | some a =>
      match (← getAllocation id).filter (leaseElapsed now) with
      | none => pure false
      | some _ =>
        match ← guardExternalBootRelease boot id with
        | some _ => pure false
        | none =>
          let stamped ← stampActiveEnded a now
          updateState id .expired
          recordSystem systemPrincipal candidate.project "reconciler.sweep_expired" id
            (.moved stamped.state .expired)
          let _ ← reconcile stamped
          pure true

end Ending

section Renewal

def renewKind : String := "allocations.renew"

inductive RenewOutcome where
  | renewed (allocation : Allocation)
  | refused (category : ErrorCategory) (currentStatus : Option AllocationState)

def extensionEstimate (a : Allocation) (addedHours : ℚ) : AllocTxn ℚ := do
  let perHour ← bookedRate a
  liftExcept (quantizeKcu (cost perHour addedHours))

def Allocation.extendTo (expiry : Instant) (a : Allocation) : Allocation :=
  { a with leaseExpiry := some expiry }

@[simp] theorem Allocation.extendTo_id (expiry : Instant) (a : Allocation) :
    (a.extendTo expiry).id = a.id := rfl

def applyRenew (ctx : RequestContext) (a : Allocation) (extension : LeaseExtension)
    (estimate : ℚ) (key : Option String) : AllocTxn RenewOutcome := do
  Txn.modify (fun db => db.updateAllocation a.id (Allocation.extendTo extension.newExpiry)
    (Allocation.extendTo_id extension.newExpiry))
  reserve (a.extendTo extension.newExpiry) estimate
  recordKeyIfSent ctx.principal key a.project renewKind a.id
  record ctx a.project "allocations.renew" a.id (.renewed extension.addedHours)
  pure (.renewed (a.extendTo extension.newExpiry))

def renewUnderProjectLock (bounds : LeaseBounds) (ctx : RequestContext) (now : Instant)
    (id : Uuid) (extendHours : ℚ) (key : Option String) : AllocTxn RenewOutcome := do
  match ← replayIfSent ctx.principal key renewKind with
  | some stored =>
    if stored.id = id then pure (.renewed stored) else pure (.refused .configurationError none)
  | none =>
    match ← getAllocation id with
    | none => pure (.refused .configurationError none)
    | some a =>
      if a.state.terminal then pure (.refused .staleHandle (some a.state))
      else match a.leaseExpiry with
        | none => pure (.refused .configurationError none)
        | some expiry =>
          let extension ← liftExcept (clampExtensionHours expiry extendHours now bounds)
          if extension.addedHours ≤ 0 then pure (.refused .configurationError none)
          else
            let estimate ← extensionEstimate a extension.addedHours
            if !(← withinBudget a.project estimate) then
              pure (.refused .allocationDenied none)
            else applyRenew ctx a extension estimate key

def renew (bounds : LeaseBounds) (ctx : RequestContext) (now : Instant) (id : Uuid)
    (extend : WindowInput) (key : Option String) : AllocTxn RenewOutcome := do
  let extendHours ← liftExcept (validateWindow extend)
  match ← getAllocation id with
  | none => pure (.refused .configurationError none)
  | some a =>
    Txn.acquire (.project a.project)
    renewUnderProjectLock bounds ctx now id extendHours key

end Renewal

section Activation

/-- The first System of a granted allocation: its row, and the transition to `active`.
`withinQuota` is the answer of the System quota and of the profile checks. -/
def activate (ctx : RequestContext) (id systemId : Uuid) (accel : Option String)
    (withinQuota : Bool) : AllocTxn Bool := do
  match ← getAllocation id with
  | none => pure false
  | some probe =>
    if probe.project ∉ ctx.projects then pure false
    else
      Txn.acquire (.project probe.project)
      Txn.acquire (.allocation id)
      match ← getAllocation id with
      | none => pure false
      | some a =>
        let db ← Txn.get
        if db.systems.rows.any (fun s => s.allocationId = id) then pure false
        else if a.state ≠ .granted ∨ withinQuota = false then pure false
        else
          Txn.modify (fun db => db.insertSystem ⟨systemId, id, accel⟩)
          record ctx a.project "systems.provision" systemId .systemOpened
          updateState id .active
          record ctx a.project "systems.provision" id (.moved .granted .active)
          pure true

def Allocation.startedAt (started : Instant) (a : Allocation) : Allocation :=
  { a with activeStartedAt := some started }

@[simp] theorem Allocation.startedAt_id (started : Instant) (a : Allocation) :
    (a.startedAt started).id = a.id := rfl

def openBillingInterval (system id : Uuid) (now : Instant) : AllocTxn Unit := do
  Txn.acquire (.system system)
  Txn.modify (fun db => db.updateAllocations
    (fun a => a.id = id ∧ a.activeStartedAt = none) (Allocation.startedAt now)
    (Allocation.startedAt_id now))

end Activation

section Administration

def Budget.withLimit (limit : ℚ) (b : Budget) : Budget := { b with limitKcu := limit }

@[simp] theorem Budget.withLimit_project (limit : ℚ) (b : Budget) :
    (b.withLimit limit).project = b.project := rfl

/-- `ON CONFLICT DO UPDATE SET limit_kcu`: an existing running total is kept. -/
def AllocDb.upsertBudget (db : AllocDb) (project : String) (limit : ℚ) : AllocDb :=
  { db with
    budgets := Table.insert (Table.update db.budgets (fun b => b.project = project)
      (Budget.withLimit limit) (Budget.withLimit_project limit)) ⟨project, limit, 0⟩ }

def Quota.withLimits (maxConcurrent maxPending : Int) (q : Quota) : Quota :=
  { q with maxConcurrentAllocations := maxConcurrent, maxPendingAllocations := maxPending }

@[simp] theorem Quota.withLimits_project (maxConcurrent maxPending : Int) (q : Quota) :
    (q.withLimits maxConcurrent maxPending).project = q.project := rfl

def AllocDb.upsertQuota (db : AllocDb) (project : String) (maxConcurrent maxPending : Int) :
    AllocDb :=
  { db with
    quotas := Table.insert (Table.update db.quotas (fun q => q.project = project)
      (Quota.withLimits maxConcurrent maxPending)
      (Quota.withLimits_project maxConcurrent maxPending)) ⟨project, maxConcurrent, maxPending⟩ }

def accountingAuditId : Uuid := 0

def setBudget (ctx : RequestContext) (project : String) (limit : ℚ) : AllocTxn Bool :=
  if limit < 0 then pure false
  else do
    Txn.modify (fun db => db.upsertBudget project limit)
    record ctx project "accounting.set_budget" accountingAuditId .applied
    pure true

def setQuota (ctx : RequestContext) (project : String) (maxConcurrent maxPending : Int) :
    AllocTxn Bool :=
  if maxConcurrent < 0 ∨ maxPending < 0 then pure false
  else do
    Txn.modify (fun db => db.upsertQuota project maxConcurrent maxPending)
    record ctx project "accounting.set_quota" accountingAuditId .applied
    pure true

end Administration

end Kdive.Capacity
