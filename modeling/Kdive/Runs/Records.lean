import Kdive.Capacity.Pcie

/-!
The rows that Run admission reads and writes, the locks its transactions hold and the errors they
raise. A row that a statement has inserted, updated or selected `FOR UPDATE` is locked like an
advisory key.
-/
namespace Kdive.Runs
open Table

inductive LockScope where
  | allocation (id : Uuid)
  | system (id : Uuid)
  | investigation (id : Uuid)
  | run (id : Uuid)
  | runRow (id : Uuid)

inductive ResourceKind where
  | localLibvirt | faultInject | remoteLibvirt | byoHost
  deriving DecidableEq

def ResourceKind.value : ResourceKind → String
  | .localLibvirt => "local-libvirt"
  | .faultInject => "fault-inject"
  | .remoteLibvirt => "remote-libvirt"
  | .byoHost => "byo-host"

def ResourceKind.parse (text : String) : Option ResourceKind :=
  [ResourceKind.localLibvirt, .faultInject, .remoteLibvirt, .byoHost].find? (fun k => k.value = text)

inductive ProfileValue where
  | missing
  | integer (value : Int)
  | other
  deriving DecidableEq

structure SystemRow where
  id : Uuid
  project : String
  allocationId : Uuid
  state : SystemState
  vcpu : ProfileValue
  memoryMb : ProfileValue
  diskGb : ProfileValue

structure Investigation where
  id : Uuid
  project : String
  state : InvestigationState
  lastRunAt : Option Instant

structure BuildProfile where
  arch : String
  document : String
  deriving DecidableEq

structure Run where
  id : Uuid
  project : String
  investigationId : Uuid
  systemId : Option Uuid
  targetKind : ResourceKind
  state : RunState
  buildProfile : BuildProfile
  expectedBootFailure : Option String
  label : Option String
  kernelRef : Option String
  debuginfoRef : Option String
  buildRef : Option String

/-- A build generation; `buildResult` is what `BuildStepResult.load` makes of the stored document. -/
structure InvestigationBuild where
  investigationId : Uuid
  buildRef : String
  targetKind : ResourceKind
  buildProfile : BuildProfile
  active : Bool
  expiresAt : Instant
  buildResult : Option (Option String × Option String)

structure RunDb where
  runs : Keyed Run Uuid Run.id
  systems : Keyed SystemRow Uuid SystemRow.id
  allocations : Keyed Capacity.Allocation Uuid Capacity.Allocation.id
  resources : Keyed Capacity.Resource Uuid Capacity.Resource.id
  investigations : Keyed Investigation Uuid Investigation.id
  builds : List InvestigationBuild
  tombstones : List (Uuid × String × Instant)

inductive Role where
  | viewer | contributor | operator | admin
  deriving DecidableEq

def Role.rank : Role → Nat
  | .viewer => 0
  | .contributor => 1
  | .operator => 2
  | .admin => 3

structure RequestContext where
  principal : String
  projects : List String
  roles : String → Option Role

structure RunCreateError where
  objectId : Uuid
  message : String
  category : ErrorCategory
  details : List (String × String)

inductive RunError where
  | admission (error : RunCreateError)
  | notMember (principal project : String)
  | roleDenied (principal project : String)
  | externalBootDenied (system : Uuid)
  | illegalTransition (source target : String)
  | objectNotFound (table : String) (id : Uuid)
  | duplicateId (id : Uuid)
  | runtime (message : String)

abbrev RunTxn := Txn.Program RunDb LockScope RunError

section States

def runHostable : List SystemState := [.ready]
def systemGone : List SystemState := [.tornDown, .failed, .crashed]
def allocHostable : List AllocationState := [.active]
def investigationOpenForRun : List InvestigationState := [.opened, .active]
def runBuildTerminal : List RunState := [.failed, .canceled]
def runNonTerminal : List RunState := [.created, .running]
def runBindable : List RunState := [.created, .running, .succeeded]

end States

section Errors

def configFailure (objectId : Uuid) (details : List (String × String)) : RunCreateError :=
  ⟨objectId, "invalid run creation request", .configurationError, details⟩

def staleFailure (objectId : Uuid) (currentStatus : String) : RunCreateError :=
  ⟨objectId, "stale run creation target", .staleHandle, [("current_status", currentStatus)]⟩

def liveRunFailure (system : Uuid) : RunCreateError :=
  ⟨system, "system already has a live run", .transportConflict, [("reason", "system_has_live_run")]⟩

def alreadyBoundFailure (run : Uuid) : RunCreateError :=
  ⟨run, "run is already bound to a system", .transportConflict, [("reason", "run_already_bound")]⟩

def refuse {α : Type} (e : RunCreateError) : RunTxn α := Txn.throw (.admission e)

def check (blocked : Option RunCreateError) : RunTxn Unit :=
  match blocked with
  | some e => refuse e
  | none => pure ()

def requireRole (ctx : RequestContext) (project : String) (role : Role) : RunTxn Unit :=
  if project ∉ ctx.projects then Txn.throw (.notMember ctx.principal project)
  else if (ctx.roles project).any (fun held => decide (role.rank ≤ held.rank)) then pure ()
  else Txn.throw (.roleDenied ctx.principal project)

end Errors

section Writes

variable (db : RunDb)

/-- `UPDATE runs SET f WHERE p`, for a `SET` list without the key. -/
def RunDb.updateRuns (p : Run → Bool) (f : Run → Run) (keeps : ∀ r, (f r).id = r.id) : RunDb :=
  { db with runs := Table.update db.runs p f keeps }

def RunDb.setRunState (id : Uuid) (state : RunState) : RunDb :=
  db.updateRuns (fun r => r.id = id) (fun r => { r with state := state }) (fun _ => rfl)

def RunDb.insertRun (r : Run) : RunDb := { db with runs := Table.insert db.runs r }

def RunDb.setSystemState (id : Uuid) (state : SystemState) : RunDb :=
  { db with
    systems := Table.update db.systems (fun s => s.id = id) (fun s => { s with state := state })
      (fun _ => rfl) }

def RunDb.setAllocationState (id : Uuid) (state : AllocationState) : RunDb :=
  { db with
    allocations := Table.update db.allocations (fun a => a.id = id)
      (fun a => { a with state := state }) (fun _ => rfl) }

def RunDb.updateInvestigation (id : Uuid) (f : Investigation → Investigation)
    (keeps : ∀ i, (f i).id = i.id) : RunDb :=
  { db with investigations := Table.update db.investigations (fun i => i.id = id) f keeps }

end Writes

end Kdive.Runs
