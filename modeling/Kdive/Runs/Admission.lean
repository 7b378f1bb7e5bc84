import Kdive.Runs.Records

/-!
`runs.create`, `runs.bind`, `runs.cancel` and the commit of `runs.complete_build`, each as the one
transaction it is, with the System and Allocation transitions that run beside them. The ids are read
before the locks that they name.
-/
namespace Kdive.Runs
open Table

abbrev BootGuard := Uuid → Bool

structure RunHostTargets where
  investigationId : Uuid
  systemId : Uuid
  allocationId : Uuid

structure ReuseRequirement where
  vcpus : Option Int
  memoryGb : Option Int
  diskGb : Option Int
  pcie : List String

def ReuseRequirement.isEmpty (r : ReuseRequirement) : Bool :=
  r.vcpus.isNone && r.memoryGb.isNone && r.diskGb.isNone && r.pcie.isEmpty

section Reuse

structure AllocationSizing where
  vcpu : Int
  memoryMb : Int
  diskGb : Int

def mbPerGb : Int := 1024

def concreteSizing (s : SystemRow) : Except RunCreateError AllocationSizing :=
  let fields := [("vcpu", s.vcpu), ("memory_mb", s.memoryMb), ("disk_gb", s.diskGb)]
  let missing := (fields.filter (fun f => decide (f.2 = .missing))).map Prod.fst
  let invalid := (fields.filter (fun f => decide (f.2 = .other))).map Prod.fst
  match s.vcpu, s.memoryMb, s.diskGb with
  | .integer vcpu, .integer memoryMb, .integer diskGb => .ok ⟨vcpu, memoryMb, diskGb⟩
  | _, _, _ =>
    if missing ≠ [] then
      .error ⟨s.id, "provisioning profile is missing required sizing: " ++ ", ".intercalate missing,
        .configurationError, missing.map (fun f => ("missing", f))⟩
    else
      .error ⟨s.id, "provisioning profile has non-integer sizing: " ++ ", ".intercalate invalid,
        .configurationError, invalid.map (fun f => ("invalid", f))⟩

def readSystemSizing (a : Capacity.Allocation) (s : SystemRow) :
    Except RunCreateError AllocationSizing :=
  match a.requestedVcpus, a.requestedMemoryGb, a.requestedDiskGb with
  | some vcpus, some memoryGb, some diskGb => .ok ⟨vcpus, memoryGb * mbPerGb, diskGb⟩
  | _, _, _ => concreteSizing s

/-- `repr` of a text that has no quote and nothing to escape. -/
def quoted (text : String) : String := "'" ++ text ++ "'"

def parseVendorDevice (system : Uuid) (spec : String) : Except RunCreateError (String × String) :=
  match Capacity.parseMatchSpec spec with
  | .ok (.vendorDevice vendorId deviceId) => .ok (vendorId, deviceId)
  | .ok (.classPrefix _) => .error ⟨system, "PCIe match spec " ++ quoted spec ++
      " is not a vendor:device spec; a class= spec cannot be matched against an allocation's " ++
      "pcie_claim", .configurationError, [("spec", spec)]⟩
  | .error _ => .error ⟨system, "malformed PCIe match spec " ++ quoted spec ++
      ": expected '<4hex>:<4hex>' or 'class=<2|4 hex>'", .configurationError, [("spec", spec)]⟩

def pcieClaimsContainAll (system : Uuid) (claims : List Capacity.PCIeClaim) (specs : List String) :
    Except RunCreateError Bool := do
  let parsed ← specs.mapM (parseVendorDevice system)
  pure (parsed.all (fun spec => claims.any (fun claim =>
    decide (claim.vendorId = spec.1) && decide (claim.deviceId = spec.2))))

def axisMet (asserted : Option Int) (actual unit : Int) : Bool :=
  asserted.all (fun least => decide (least * unit ≤ actual))

def snapshotSatisfies (system : Uuid) (sizing : AllocationSizing) (claims : List Capacity.PCIeClaim)
    (r : ReuseRequirement) : Except RunCreateError Bool := do
  let pcieOk ← pcieClaimsContainAll system claims r.pcie
  pure (axisMet r.vcpus sizing.vcpu 1 && axisMet r.memoryGb sizing.memoryMb mbPerGb &&
    axisMet r.diskGb sizing.diskGb 1 && pcieOk)

def checkReuseAssertion (s : SystemRow) (a : Capacity.Allocation) (r : ReuseRequirement) :
    Option RunCreateError :=
  if r.isEmpty then none
  else match readSystemSizing a s with
    | .error e => some e
    | .ok sizing =>
      match snapshotSatisfies s.id sizing a.pcieClaim r with
      | .error e => some e
      | .ok true => none
      | .ok false => some (configFailure s.id [("reason", "reuse_requirement_unmet")])

end Reuse

section Host

def getRun (id : Uuid) : RunTxn (Option Run) := do
  let db ← Txn.get
  pure (find db.runs id)

def getSystem (id : Uuid) : RunTxn (Option SystemRow) := do
  let db ← Txn.get
  pure (find db.systems id)

def getAllocation (id : Uuid) : RunTxn (Option Capacity.Allocation) := do
  let db ← Txn.get
  pure (find db.allocations id)

def getInvestigation (id : Uuid) : RunTxn (Option Investigation) := do
  let db ← Txn.get
  pure (find db.investigations id)

/-- `_system_block_error`, and the row if there is none. -/
def hostableSystem (system : Option SystemRow) (id : Uuid) : Except RunCreateError SystemRow :=
  match system with
  | none => .error (configFailure id [])
  | some s =>
    if s.state ∈ systemGone then .error (staleFailure id s.state.value)
    else if s.state ∉ runHostable then .error (configFailure id [("current_status", s.state.value)])
    else .ok s

/-- `_allocation_block_error`, and the row if there is none. -/
def hostableAllocation (alloc : Option Capacity.Allocation) (system : Uuid) (now : Instant) :
    Except RunCreateError Capacity.Allocation :=
  match alloc with
  | none => .error (staleFailure system "missing")
  | some a =>
    if a.state ∉ allocHostable then .error (staleFailure system a.state.value)
    else if a.leaseExpiry.any (fun expiry => decide (expiry < now)) then
      .error (staleFailure system "lease_expired")
    else .ok a

def orRefuse {α : Type} : Except RunCreateError α → RunTxn α
  | .ok a => pure a
  | .error e => refuse e

def countNonTerminalRuns (db : RunDb) (system : Uuid) : Nat :=
  (db.runs.rows.filter (fun r => decide (r.systemId = some system ∧ r.state ∈ runNonTerminal))).length

def checkHostPreconditions (targets : RunHostTargets) (project : String) (now : Instant) :
    RunTxn (SystemRow × Capacity.Allocation) := do
  let system ← orRefuse (hostableSystem (← getSystem targets.systemId) targets.systemId)
  let alloc ← orRefuse
    (hostableAllocation (← getAllocation targets.allocationId) targets.systemId now)
  if system.project ≠ project then refuse (configFailure targets.systemId [])
  else do
    let db ← Txn.get
    if 0 < countNonTerminalRuns db targets.systemId then refuse (liveRunFailure targets.systemId)
    else pure (system, alloc)

def resourceOf (db : RunDb) (system : Uuid) : Option Capacity.Resource := do
  let s ← find db.systems system
  let a ← find db.allocations s.allocationId
  let resource ← a.resourceId
  find db.resources resource

def resourceKindForSystem (system : Uuid) : RunTxn ResourceKind := do
  let db ← Txn.get
  match (resourceOf db system).bind (fun r => ResourceKind.parse r.kind) with
  | some kind => pure kind
  | none => Txn.throw (.runtime "resource kind lookup found no row")

def checkExternalBootAdmission (boot : BootGuard) (system : Uuid) : RunTxn Unit :=
  if boot system then Txn.throw (.externalBootDenied system) else pure ()

end Host

section Create

structure RunCreateRequest where
  investigationId : Uuid
  buildProfile : BuildProfile
  systemId : Option Uuid
  targetKind : Option String
  expectedBootFailure : Option String
  reuseRequirement : ReuseRequirement
  label : Option String
  buildRef : Option String

def resolveInvestigation (ctx : RequestContext) (id : Uuid) : RunTxn Investigation := do
  match ← getInvestigation id with
  | none => refuse (configFailure id [])
  | some inv =>
    if inv.project ∉ ctx.projects then refuse (configFailure id [])
    else do
      requireRole ctx inv.project .contributor
      pure inv

def resolveAllocation (system : SystemRow) : RunTxn Capacity.Allocation := do
  match ← getAllocation system.allocationId with
  | none => refuse (staleFailure system.id "missing")
  | some alloc =>
    if alloc.state ∉ allocHostable then refuse (staleFailure system.id alloc.state.value)
    else pure alloc

def resolveTargets (ctx : RequestContext) (investigation system : Uuid) :
    RunTxn (RunHostTargets × String) := do
  let inv ← resolveInvestigation ctx investigation
  match ← getSystem system with
  | none => refuse (configFailure system [])
  | some s =>
    if s.project ∉ ctx.projects ∨ s.project ≠ inv.project then refuse (configFailure system [])
    else do
      let alloc ← resolveAllocation s
      pure (⟨investigation, system, alloc.id⟩, inv.project)

/-- `parse_build_ref`: 64 hex digits, a dot, and a lower-case UUID. -/
def isBuildRef (text : String) : Bool :=
  let chars := text.toList
  let generation := chars.drop 65
  (chars.length == 101) && (chars.take 64).all Capacity.isHex && (chars[64]? == some '.') &&
    (List.range 36).all (fun n => if n ∈ [8, 13, 18, 23] then generation[n]? == some '-'
      else (generation[n]?).any Capacity.isHex)

def resolveSelectedBuild (investigation : Uuid) (buildRef : Option String)
    (targetKind : ResourceKind) (profile : BuildProfile) (objectId : Uuid) (serverTime : Instant) :
    RunTxn (Option InvestigationBuild) :=
  match buildRef with
  | none => pure none
  | some ref =>
    if !isBuildRef ref then refuse (configFailure objectId [("reason", "build_ref_not_found")])
    else do
      let db ← Txn.get
      match db.builds.find? (fun b => decide (b.investigationId = investigation ∧ b.buildRef = ref)) with
      | none =>
        if db.tombstones.any (fun t => decide (t.1 = investigation ∧ t.2.1 = ref)) then
          refuse (configFailure objectId [("reason", "build_ref_expired")])
        else refuse (configFailure objectId [("reason", "build_ref_not_found")])
      | some selected =>
        if selected.expiresAt ≤ serverTime then
          refuse (configFailure objectId [("reason", "build_ref_expired")])
        else if !selected.active then
          refuse (configFailure objectId [("reason", "build_ref_not_found")])
        else if selected.targetKind ≠ targetKind ∨ selected.buildProfile ≠ profile then
          refuse (configFailure objectId [("reason", "build_ref_incompatible"),
            ("expected_target_kind", selected.targetKind.value),
            ("actual_target_kind", targetKind.value), ("expected_arch", selected.buildProfile.arch),
            ("actual_arch", profile.arch)])
        else pure (some selected)

def createdRun (id : Uuid) (request : RunCreateRequest) (project : String) (systemId : Option Uuid)
    (targetKind : ResourceKind) (selected : Option InvestigationBuild) : Run where
  id := id
  project := project
  investigationId := request.investigationId
  systemId := systemId
  targetKind := targetKind
  state := if selected.isSome then .succeeded else .created
  buildProfile := request.buildProfile
  expectedBootFailure := request.expectedBootFailure
  label := request.label
  kernelRef := (selected.bind InvestigationBuild.buildResult).bind Prod.fst
  debuginfoRef := (selected.bind InvestigationBuild.buildResult).bind Prod.snd
  buildRef := selected.map InvestigationBuild.buildRef

def insertCreatedRun (run : Run) (selected : Option InvestigationBuild) : RunTxn Unit :=
  if selected.any (fun b => b.buildResult.isNone) then
    Txn.throw (.runtime "investigation build contains an invalid build result")
  else do
    Txn.acquire (.runRow run.id)
    match ← getRun run.id with
    | some _ => Txn.throw (.duplicateId run.id)
    | none => Txn.modify (fun db => db.insertRun run)

def flipInvestigationIfOpen (inv : Investigation) (now : Instant) : RunTxn Unit :=
  Txn.modify (fun db => db.updateInvestigation inv.id
    (fun i => { i with
      state := if inv.state = .opened then .active else i.state
      lastRunAt := some now }) (fun _ => rfl))

/-- `_investigation_for_update`, open for Runs. -/
def openInvestigation (id : Uuid) (objectId : Uuid) : RunTxn Investigation := do
  match ← getInvestigation id with
  | none => refuse (configFailure objectId [])
  | some inv =>
    if inv.state ∉ investigationOpenForRun then
      refuse (configFailure objectId [("current_status", inv.state.value)])
    else pure inv

def createLocked (boot : BootGuard) (request : RunCreateRequest) (targets : RunHostTargets)
    (project : String) (now : Instant) (id : Uuid) : RunTxn Run := do
  Txn.acquire (.allocation targets.allocationId)
  Txn.acquire (.system targets.systemId)
  Txn.acquire (.investigation targets.investigationId)
  let (system, alloc) ← checkHostPreconditions targets project now
  check (checkReuseAssertion system alloc request.reuseRequirement)
  checkExternalBootAdmission boot targets.systemId
  let inv ← openInvestigation targets.investigationId targets.investigationId
  let targetKind ← resourceKindForSystem targets.systemId
  if request.targetKind.any (fun explicit => decide (explicit ≠ targetKind.value)) then
    refuse (configFailure targets.systemId [("reason", "target_kind_mismatch"),
      ("system_kind", targetKind.value), ("target_kind", request.targetKind.getD "")])
  else do
    let selected ← resolveSelectedBuild targets.investigationId request.buildRef targetKind
      request.buildProfile targets.systemId now
    let run := createdRun id request project (some targets.systemId) targetKind selected
    insertCreatedRun run selected
    flipInvestigationIfOpen inv now
    pure run

def validateUnboundTargetKind (objectId : Uuid) (value : Option String)
    (available : List ResourceKind) : Except RunCreateError ResourceKind :=
  match value with
  | none => .error (configFailure objectId [("reason", "target_kind_required")])
  | some text =>
    match ResourceKind.parse text with
    | none => .error (configFailure objectId [("reason", "unknown_target_kind")])
    | some kind =>
      if kind ∈ available then .ok kind
      else .error (configFailure objectId [("reason", "unknown_target_kind")])

def createUnbound (ctx : RequestContext) (request : RunCreateRequest) (available : List ResourceKind)
    (now : Instant) (id : Uuid) : RunTxn Run := do
  let targetKind ← orRefuse
    (validateUnboundTargetKind request.investigationId request.targetKind available)
  if !request.reuseRequirement.isEmpty then
    refuse (configFailure request.investigationId [("reason", "reuse_requires_system")])
  else do
    let inv ← resolveInvestigation ctx request.investigationId
    Txn.acquire (.investigation request.investigationId)
    let locked ← openInvestigation request.investigationId request.investigationId
    let selected ← resolveSelectedBuild request.investigationId request.buildRef targetKind
      request.buildProfile request.investigationId now
    let run := createdRun id request inv.project none targetKind selected
    insertCreatedRun run selected
    flipInvestigationIfOpen locked now
    pure run

def createRun (boot : BootGuard) (ctx : RequestContext) (request : RunCreateRequest)
    (available : List ResourceKind) (now : Instant) (id : Uuid) : RunTxn Run :=
  match request.systemId with
  | none => createUnbound ctx request available now id
  | some system => do
    let (targets, project) ← resolveTargets ctx request.investigationId system
    createLocked boot request targets project now id

end Create

section Bind

def runBindableError (run : Run) : Option RunCreateError :=
  if run.systemId.isSome then some (alreadyBoundFailure run.id)
  else if run.state ∈ runBuildTerminal then some (staleFailure run.id run.state.value)
  else if run.state ∉ runBindable then
    some (configFailure run.id [("current_status", run.state.value)])
  else none

def resolveBindTargets (ctx : RequestContext) (run system : Uuid) :
    RunTxn (RunHostTargets × String) := do
  match ← getRun run with
  | none => refuse (configFailure run [])
  | some r =>
    if r.project ∉ ctx.projects then refuse (configFailure run [])
    else do
      requireRole ctx r.project .contributor
      check (runBindableError r)
      match ← getSystem system with
      | none => refuse (configFailure system [])
      | some s =>
        if s.project ∉ ctx.projects ∨ s.project ≠ r.project then refuse (configFailure system [])
        else do
          let alloc ← resolveAllocation s
          pure (⟨r.investigationId, system, alloc.id⟩, r.project)

def bindSystem (run system : Uuid) : RunTxn Bool := do
  Txn.acquire (.runRow run)
  match ← getRun run with
  | some ⟨_, _, _, none, _, _, _, _, _, _, _, _⟩ => do
    Txn.modify (fun db => db.updateRuns (fun r => decide (r.id = run ∧ r.systemId = none))
      (fun r => { r with systemId := some system }) (fun _ => rfl))
    pure true
  | _ => pure false

def bindLocked (boot : BootGuard) (run : Uuid) (targets : RunHostTargets) (project : String)
    (requirement : ReuseRequirement) (now : Instant) : RunTxn Unit := do
  Txn.acquire (.allocation targets.allocationId)
  Txn.acquire (.system targets.systemId)
  Txn.acquire (.investigation targets.investigationId)
  Txn.acquire (.run run)
  match ← getRun run with
  | none => refuse (configFailure run [])
  | some r => do
    check (runBindableError r)
    let (system, alloc) ← checkHostPreconditions targets project now
    let systemKind ← resourceKindForSystem targets.systemId
    if systemKind ≠ r.targetKind then
      refuse (configFailure run [("reason", "target_kind_mismatch"),
        ("system_kind", systemKind.value), ("target_kind", r.targetKind.value)])
    else do
      check (checkReuseAssertion system alloc requirement)
      checkExternalBootAdmission boot targets.systemId
      if ← bindSystem run targets.systemId then pure () else refuse (alreadyBoundFailure run)

def bindRun (boot : BootGuard) (ctx : RequestContext) (run system : Uuid)
    (requirement : ReuseRequirement) (now : Instant) : RunTxn Unit := do
  let (targets, project) ← resolveBindTargets ctx run system
  bindLocked boot run targets project requirement now

end Bind

section Others

inductive CancelResponse where
  | notFound
  | canceled
  | conflict (currentStatus : RunState)
  | bindingChanged
  | externalBootDenied

def terminalRun : List RunState := [.succeeded, .failed, .canceled]

/-- `RUNS.update_state`; no answer is an illegal transition. -/
def updateRunState (id : Uuid) (target : RunState) : RunTxn (Option RunState) := do
  Txn.acquire (.runRow id)
  match ← getRun id with
  | none => Txn.throw (.objectNotFound "runs" id)
  | some r =>
    if target ∈ r.state.next then do
      Txn.modify (fun db => db.setRunState id target)
      pure (some target)
    else pure none

def terminalResponse (run : Run) : RunTxn CancelResponse := do
  let current ← getRun run.id
  let state := (current.map Run.state).getD run.state
  pure (if state = .canceled then .canceled else .conflict state)

def lockBoundSystem (system : Option Uuid) : RunTxn Unit :=
  match system with
  | some id => Txn.acquire (.system id)
  | none => pure ()

def cancelLocked (boot : BootGuard) (run : Run) : RunTxn CancelResponse := do
  lockBoundSystem run.systemId
  Txn.acquire (.run run.id)
  let locked ← getRun run.id
  if (locked.map Run.state).getD run.state ∈ terminalRun then terminalResponse run
  else if locked.any (fun r => decide (r.systemId ≠ run.systemId)) then pure .bindingChanged
  else if run.systemId.any boot then pure .externalBootDenied
  else do
    match ← updateRunState run.id .canceled with
    | some _ => pure .canceled
    | none => terminalResponse run

def cancelRun (boot : BootGuard) (ctx : RequestContext) (id : Uuid) : RunTxn CancelResponse := do
  match ← getRun id with
  | none => pure .notFound
  | some run =>
    if run.project ∉ ctx.projects then pure .notFound
    else do
      requireRole ctx run.project .contributor
      cancelLocked boot run

/-- The commit of `runs.complete_build`, for a finalize whose window and uploads passed or did not. -/
def completeBuild (run investigation : Uuid) (accepted : Bool)
    (kernelRef debuginfoRef buildRef : Option String) : RunTxn Unit := do
  Txn.acquire (.investigation investigation)
  Txn.acquire (.run run)
  Txn.acquire (.runRow run)
  match ← getRun run with
  | none => refuse (configFailure run [])
  | some r =>
    if r.state = .succeeded then pure ()
    else if r.state ≠ .created ∨ !accepted then
      refuse (configFailure run [("current_status", r.state.value)])
    else Txn.modify (fun db => db.updateRuns (fun r => decide (r.id = run ∧ r.state = .created))
      (fun r => { r with
        kernelRef := kernelRef
        debuginfoRef := debuginfoRef
        buildRef := buildRef
        state := .succeeded }) (fun _ => rfl))

def transitionAllocation (id : Uuid) (target : AllocationState) : RunTxn Unit := do
  Txn.acquire (.allocation id)
  match ← getAllocation id with
  | none => Txn.throw (.objectNotFound "allocations" id)
  | some a =>
    if target ∈ a.state.next then Txn.modify (fun db => db.setAllocationState id target)
    else Txn.throw (.illegalTransition a.state.value target.value)

def transitionSystem (id : Uuid) (target : SystemState) : RunTxn Unit := do
  Txn.acquire (.system id)
  match ← getSystem id with
  | none => Txn.throw (.objectNotFound "systems" id)
  | some s =>
    if target ∈ s.state.next then Txn.modify (fun db => db.setSystemState id target)
    else Txn.throw (.illegalTransition s.state.value target.value)

inductive Operation where
  | create (boot : BootGuard) (ctx : RequestContext) (request : RunCreateRequest)
      (available : List ResourceKind) (now : Instant) (id : Uuid)
  | bind (boot : BootGuard) (ctx : RequestContext) (run system : Uuid)
      (requirement : ReuseRequirement) (now : Instant)
  | cancel (boot : BootGuard) (ctx : RequestContext) (run : Uuid)
  | completeBuild (run investigation : Uuid) (accepted : Bool)
      (kernelRef debuginfoRef buildRef : Option String)
  | transitionRun (run : Uuid) (target : RunState)
  | transitionAllocation (id : Uuid) (target : AllocationState)
  | transitionSystem (id : Uuid) (target : SystemState)

def unanswered {α : Type} (p : RunTxn α) : RunTxn Unit := do
  let _ ← p
  pure ()

def Operation.program : Operation → RunTxn Unit
  | .create boot ctx request available now id =>
    unanswered (createRun boot ctx request available now id)
  | .bind boot ctx run system requirement now => bindRun boot ctx run system requirement now
  | .cancel boot ctx run => unanswered (cancelRun boot ctx run)
  | .completeBuild run investigation accepted kernelRef debuginfoRef buildRef =>
    Runs.completeBuild run investigation accepted kernelRef debuginfoRef buildRef
  | .transitionRun run target => unanswered (updateRunState run target)
  | .transitionAllocation id target => Runs.transitionAllocation id target
  | .transitionSystem id target => Runs.transitionSystem id target

def starts (p : RunTxn Unit) : Prop := ∃ operation : Operation, p = operation.program

end Others

end Kdive.Runs
