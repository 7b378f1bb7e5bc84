import Kdive.Capacity.Granting

/-!
The pass of the promotion sweep: every queued request gets one turn, oldest first, each in a
transaction of its own, and lands on the first of its hosts that takes it. A host that is busy
is passed by; one the project cannot pay for ends the request.
-/
namespace Kdive.Capacity
open Table Txn

section Verdicts

def assess (bounds : LeaseBounds) (a : Allocation) (r : Resource) :
    AllocTxn ((ℚ × ℚ) × GateResult) := do
  let request ← liftExcept (requestFromQueued a r)
  let price ← priceWindowAndEstimate bounds request
  let gate ← admissionGate request price.2
  pure (price, gate)

def passes (bounds : LeaseBounds) (db : AllocDb) (a : Allocation) (r : Resource) : Bool :=
  match exec (assess bounds a r) db with
  | .ok ((_, .devices _), _) => true
  | _ => false

def busy (bounds : LeaseBounds) (db : AllocDb) (a : Allocation) (r : Resource) : Bool :=
  match exec (assess bounds a r) db with
  | .ok ((_, .denied denial), _) => !isBudgetTerminate denial
  | _ => false

def unaffordable (bounds : LeaseBounds) (db : AllocDb) (a : Allocation) (r : Resource) : Bool :=
  match exec (assess bounds a r) db with
  | .ok ((_, .denied denial), _) => isBudgetTerminate denial
  | _ => false

variable {bounds : LeaseBounds} {now : Instant} {db t : AllocDb} {a : Allocation} {r : Resource}

theorem exec_reads {α : Type} {p : AllocTxn α} (reads : Reads p) {answer : α}
    (ran : exec p db = .ok (answer, t)) : t = db :=
  (keeps_reads (R := Eq) reads db answer t ran).symm

theorem liftExcept_ok {α : Type} {outcome : Except AllocError α} {answer : α}
    (ran : exec (liftExcept outcome) db = .ok (answer, t)) : outcome = .ok answer ∧ t = db := by
  cases outcome with
  | error e => cases ran
  | ok value =>
    simp only [liftExcept, pure, exec, Except.ok.injEq, Prod.mk.injEq] at ran
    exact ⟨congrArg _ ran.1, ran.2.symm⟩

theorem price_recordable {request : AllocationRequest} {hours estimate : ℚ}
    (ran : exec (priceWindowAndEstimate bounds request) db = .ok ((hours, estimate), t)) :
    quantizeKcu estimate = .ok estimate := by
  obtain ⟨_, _, _, ran₁⟩ := exec_bind_ok ran
  obtain ⟨_, _, _, ran₂⟩ := exec_bind_ok ran₁
  obtain ⟨_, _, _, ran₃⟩ := exec_bind_ok ran₂
  obtain ⟨_, _, _, ran₄⟩ := exec_bind_ok ran₃
  obtain ⟨_, _, _, ran₅⟩ := exec_bind_ok ran₄
  obtain ⟨_, _, _, ran₆⟩ := exec_bind_ok ran₅
  obtain ⟨rounded, _, quantized, answered⟩ := exec_bind_ok ran₆
  simp only [pure, exec, Except.ok.injEq, Prod.mk.injEq] at answered
  obtain ⟨⟨_, rfl⟩, _⟩ := answered
  exact quantizeKcu_idempotent (liftExcept_ok quantized).1

theorem withinBudget_some {project : String} {estimate : ℚ}
    (ran : exec (withinBudget project estimate) db = .ok (true, t)) :
    (find db.budgets project).isSome := by
  simp only [withinBudget, exec_bind, Txn.get, exec] at ran
  split at ran
  · simp [pure, exec] at ran
  · rename_i b found
    rw [found]
    rfl

theorem gate_budget {request : AllocationRequest} {estimate : ℚ} {claims : List PCIeClaim}
    (ran : exec (admissionGate request estimate) db = .ok (.devices claims, t)) :
    (find db.budgets request.project).isSome := by
  unfold admissionGate at ran
  split at ran
  · simp [pure, exec] at ran
  · obtain ⟨quota, t₁, counted, ran₁⟩ := exec_bind_ok ran
    obtain rfl := exec_reads (reads_withinAllocQuota _) counted
    split at ran₁
    · simp [pure, exec] at ran₁
    · obtain ⟨within, t₂, checked, ran₂⟩ := exec_bind_ok ran₁
      cases within with
      | false => simp [pure, exec] at ran₂
      | true => exact withinBudget_some checked

theorem assess_devices {price : ℚ × ℚ} {claims : List PCIeClaim}
    (ran : exec (assess bounds a r) db = .ok ((price, .devices claims), t)) :
    quantizeKcu price.2 = .ok price.2 ∧ (find db.budgets a.project).isSome := by
  obtain ⟨request, t₁, rebuilt, ran₁⟩ := exec_bind_ok ran
  obtain ⟨built, rfl⟩ := liftExcept_ok rebuilt
  obtain ⟨project, _⟩ := requestFromQueued_ok built
  obtain ⟨price', t₂, priced, ran₂⟩ := exec_bind_ok ran₁
  obtain rfl := exec_reads (reads_priceWindowAndEstimate bounds request) priced
  obtain ⟨gate, t₃, gated, answered⟩ := exec_bind_ok ran₂
  simp only [pure, exec, Except.ok.injEq, Prod.mk.injEq] at answered
  obtain ⟨⟨rfl, rfl⟩, _⟩ := answered
  refine ⟨price_recordable priced, ?_⟩
  rw [← project]
  exact gate_budget gated

theorem assess_reads {answer : (ℚ × ℚ) × GateResult}
    (ran : exec (assess bounds a r) db = .ok (answer, t)) : t = db := by
  refine exec_reads ?_ ran
  refine reads_bind (reads_liftExcept _) fun request => ?_
  refine reads_bind (reads_priceWindowAndEstimate bounds request) fun price => ?_
  exact reads_bind (reads_admissionGate request price.2) fun _ => reads_pure _

def settle (now : Instant) (a : Allocation) (r : Resource) (price : ℚ × ℚ) :
    GateResult → AllocTxn HostAttempt
  | .devices claims => do
    let granted ← grantQueued a r.id now price.1 price.2 claims
    pure (if granted then .granted else .wait)
  | .denied denial =>
    if isBudgetTerminate denial then do
      terminate a
      pure .terminated
    else pure .wait

theorem tryOneHost_assessed {price : ℚ × ℚ} {gate : GateResult}
    (answered : exec (assess bounds a r) db = .ok ((price, gate), t)) :
    exec (tryOneHost bounds now a r) db = exec (settle now a r price gate) db := by
  have same := assess_reads answered
  obtain ⟨request, t₁, rebuilt, ran₁⟩ := exec_bind_ok answered
  obtain ⟨price', t₂, priced, ran₂⟩ := exec_bind_ok ran₁
  obtain ⟨gate', t₃, gated, done⟩ := exec_bind_ok ran₂
  simp only [pure, exec, Except.ok.injEq, Prod.mk.injEq] at done
  obtain ⟨⟨rfl, rfl⟩, rfl⟩ := done
  subst same
  rw [tryOneHost, exec_bind, rebuilt]
  dsimp only
  rw [exec_bind, priced]
  simp only [acquire, exec_bind, exec, gated]
  cases gate' <;> rfl

end Verdicts

section Placing

variable {bounds : LeaseBounds} {now : Instant} {db : AllocDb} {a : Allocation} {r : Resource}

theorem writeDelta_runs {row : Allocation} {host : Resource} (event : LedgerEventType) (delta : ℚ)
    (placed : row.resourceId.bind (find db.resources) = some host)
    (funded : (find db.budgets row.project).isSome) :
    ∃ t, exec (writeDelta row event delta) db = .ok ((), t) ∧ t.allocations = db.allocations := by
  obtain ⟨b, found⟩ := Option.isSome_iff_exists.mp funded
  have still : find (db.appendLedger ⟨row.project, row.id, row.resourceId, host.costClass, event,
      delta⟩).budgets row.project = some b := found
  refine ⟨(db.appendLedger ⟨row.project, row.id, row.resourceId, host.costClass, event,
    delta⟩).charge row.project delta, ?_, rfl⟩
  simp [writeDelta, costClassOf, applyToSpent, exec_bind, Txn.get, Txn.modify, exec, pure, placed,
    still]

theorem grantQueued_runs (now : Instant) (hours : ℚ) (claims : List PCIeClaim) {estimate : ℚ}
    (found : find db.allocations a.id = some a) (queued : a.state = .requested)
    (known : r ∈ db.resources.rows) (recordable : quantizeKcu estimate = .ok estimate)
    (funded : (find db.budgets a.project).isSome) :
    ∃ t, exec (grantQueued a r.id now hours estimate claims) db = .ok (true, t) ∧
      find t.allocations a.id = some (a.grantOn r.id (leaseEnd now hours) claims) := by
  let lease := leaseEnd now hours
  let marked := db.updateAllocations (fun row => row.id = a.id ∧ row.state = .requested)
    (Allocation.grantOn r.id lease claims) (Allocation.grantOn_id r.id lease claims)
  have placed : (a.grantOn r.id lease claims).resourceId.bind (find marked.resources) = some r :=
    find_of_mem known
  obtain ⟨t, written, kept⟩ := writeDelta_runs .reserved estimate placed funded
  have legal : ¬ AllocationState.granted ∉ a.state.next := by
    rw [queued]
    decide
  have waiting : (find db.allocations a.id).filter (fun row => row.state = .requested) = some a := by
    rw [found]
    simp [queued]
  have row : find marked.allocations a.id = some (a.grantOn r.id lease claims) := by
    simp [marked, AllocDb.updateAllocations, found, queued]
  refine ⟨t.appendAudit ⟨a.principal, a.project, "allocations.request", a.id,
    .moved .requested .granted⟩, ?_, ?_⟩
  · simp only [grantQueued, if_neg legal, exec_bind, Txn.get, Txn.modify, exec, waiting, reserve,
      recordable, liftExcept, pure]
    rw [written]
    rfl
  · change find t.allocations a.id = _
    rw [kept]
    exact row

theorem settle_grants (now : Instant) {price : ℚ × ℚ} {claims : List PCIeClaim} {t : AllocDb}
    (found : find db.allocations a.id = some a) (queued : a.state = .requested)
    (known : r ∈ db.resources.rows)
    (answered : exec (assess bounds a r) db = .ok ((price, .devices claims), t)) :
    ∃ t, exec (tryOneHost bounds now a r) db = .ok (.granted, t) ∧
      find t.allocations a.id = some (a.grantOn r.id (leaseEnd now price.1) claims) := by
  obtain ⟨recordable, funded⟩ := assess_devices answered
  obtain ⟨u, ran, row⟩ := grantQueued_runs now price.1 claims found queued known recordable funded
  refine ⟨u, ?_, row⟩
  rw [tryOneHost_assessed answered, settle, exec_bind, ran]
  rfl

theorem busy_waits (waits : busy bounds db a r) :
    exec (tryOneHost bounds now a r) db = .ok (.wait, db) := by
  unfold busy at waits
  split at waits
  · rename_i price denial t answered
    rw [tryOneHost_assessed answered, settle, if_neg (by simpa using waits)]
    rfl
  · cases waits

theorem terminate_runs (found : find db.allocations a.id = some a) (queued : a.state = .requested) :
    ∃ t, exec (terminate a) db = .ok ((), t) ∧ find t.allocations a.id =
      some ((a.moveTo .failed).failWith .allocationDenied) := by
  have legal : AllocationState.failed ∈ a.state.next := by
    rw [queued]
    decide
  refine ⟨((db.updateAllocation a.id (Allocation.moveTo .failed)
    (Allocation.moveTo_id .failed)).updateAllocation a.id (Allocation.failWith .allocationDenied)
    (Allocation.failWith_id .allocationDenied)).appendAudit ⟨systemPrincipal, a.project,
      "allocations.request", a.id, .moved .requested .failed⟩, ?_, ?_⟩
  · simp only [terminate, failQueued, updateState, getAllocation, recordSystem, exec_bind, Txn.get,
      Txn.modify, pure, exec, found, if_pos legal]
  · simp [AllocDb.appendAudit, AllocDb.updateAllocation, AllocDb.updateAllocations, found]

theorem unaffordable_ends (now : Instant) (found : find db.allocations a.id = some a)
    (queued : a.state = .requested) (dear : unaffordable bounds db a r) :
    ∃ t, exec (tryOneHost bounds now a r) db = .ok (.terminated, t) ∧ find t.allocations a.id =
      some ((a.moveTo .failed).failWith .allocationDenied) := by
  unfold unaffordable at dear
  split at dear
  · rename_i price denial t answered
    obtain ⟨u, ran, row⟩ := terminate_runs found queued
    refine ⟨u, ?_, row⟩
    rw [tryOneHost_assessed answered, settle, if_pos dear, exec_bind, ran]
    rfl
  · cases dear

theorem placeOrTerminate_skips (now : Instant) {before : List Resource} (after : List Resource)
    (waiting : ∀ host ∈ before, busy bounds db a host) :
    exec (placeOrTerminate bounds now a (before ++ after)) db =
      exec (placeOrTerminate bounds now a after) db := by
  induction before with
  | nil => rfl
  | cons host rest ih =>
    rw [List.cons_append, placeOrTerminate, exec_bind,
      busy_waits (waiting host (List.mem_cons_self ..))]
    exact ih fun h member => waiting h (List.mem_cons_of_mem _ member)

theorem placeOrTerminate_grants (now : Instant) (after : List Resource)
    (found : find db.allocations a.id = some a) (queued : a.state = .requested)
    (known : r ∈ db.resources.rows) (takes : passes bounds db a r) : ∃ t lease claims,
      exec (placeOrTerminate bounds now a (r :: after)) db = .ok (true, t) ∧
        find t.allocations a.id = some (a.grantOn r.id lease claims) := by
  unfold passes at takes
  split at takes
  · rename_i price claims t answered
    obtain ⟨u, ran, row⟩ := settle_grants now found queued known answered
    refine ⟨u, _, _, ?_, row⟩
    rw [placeOrTerminate, exec_bind, ran]
    rfl
  · cases takes

theorem placeOrTerminate_ends (now : Instant) (after : List Resource)
    (found : find db.allocations a.id = some a) (queued : a.state = .requested)
    (dear : unaffordable bounds db a r) : ∃ t,
      exec (placeOrTerminate bounds now a (r :: after)) db = .ok (false, t) ∧
        find t.allocations a.id = some ((a.moveTo .failed).failWith .allocationDenied) := by
  obtain ⟨u, ran, row⟩ := unaffordable_ends now found queued dear
  refine ⟨u, ?_, row⟩
  rw [placeOrTerminate, exec_bind, ran]
  rfl

end Placing

section Pass

/-- `SELECT id … WHERE state = 'requested' ORDER BY created_at, id`. -/
def pendingIds (db : AllocDb) : List Uuid :=
  ((db.allocations.rows.filter (fun a => a.state = .requested)).mergeSort
    (fun a b => olderFirst (a.createdAt, a.id) (b.createdAt, b.id))).map Allocation.id

/-- One queued request's turn: what other sessions committed since the turn before it, and the
time it is taken at. -/
structure Turn where
  meanwhile : List Operation
  now : Instant
  id : Uuid

def Turn.arrive (turn : Turn) (db : AllocDb) : AllocDb := Trace.run serial db turn.meanwhile

def takeTurn (bounds : LeaseBounds) (db : AllocDb) (turn : Turn) : AllocDb :=
  commit (promoteOne bounds turn.now turn.id) (turn.arrive db)

def passTurns (schedule : Uuid → List Operation × Instant) (db : AllocDb) : List Turn :=
  (pendingIds db).map (fun id => ⟨(schedule id).1, (schedule id).2, id⟩)

def promotePending (bounds : LeaseBounds) (schedule : Uuid → List Operation × Instant)
    (db : AllocDb) : AllocDb :=
  Trace.run (takeTurn bounds) db (passTurns schedule db)

def GrantedOn (db : AllocDb) (id : Uuid) (hosts : List Resource) : Prop :=
  ∃ a r, find db.allocations id = some a ∧ a.state = .granted ∧ r ∈ hosts ∧
    a.resourceId = some r.id

def WorkConserving (bounds : LeaseBounds) (s t : AllocDb) (id : Uuid) : Prop :=
  ∀ a hosts r, find s.allocations id = some a → a.state = .requested →
    exec (candidateHosts a) s = .ok (hosts, s) → r ∈ hosts → passes bounds s a r →
    GrantedOn t id hosts

/-- The first candidate that is not busy decides: it is granted when it passes, and the request
ends when the project cannot pay for it. -/
def RoutesAroundBusy (bounds : LeaseBounds) (s t : AllocDb) (id : Uuid) : Prop :=
  ∀ a before r after, find s.allocations id = some a → a.state = .requested →
    exec (candidateHosts a) s = .ok (before ++ r :: after, s) →
    (∀ host ∈ before, busy bounds s a host) →
    (passes bounds s a r → GrantedOn t id [r]) ∧
      (unaffordable bounds s a r → ∃ b, find t.allocations id = some b ∧ b.state = .failed ∧
        b.failureCategory = some .allocationDenied)

variable {bounds : LeaseBounds} {db : AllocDb} {a : Allocation}

theorem withFreeDevices_mem {specs : List String} {candidates hosts : List Resource} {t : AllocDb}
    (ran : exec (withFreeDevices specs candidates) db = .ok (hosts, t)) :
    ∀ r ∈ hosts, r ∈ candidates := by
  induction candidates generalizing hosts db t with
  | nil =>
    simp only [withFreeDevices, pure, exec, Except.ok.injEq, Prod.mk.injEq] at ran
    rw [← ran.1]
    exact fun r member => member
  | cons host rest ih =>
    obtain ⟨claims, t₁, _, ran₁⟩ := exec_bind_ok ran
    obtain ⟨resolution, t₂, _, ran₂⟩ := exec_bind_ok ran₁
    obtain ⟨others, t₃, kept, answered⟩ := exec_bind_ok ran₂
    simp only [pure, exec, Except.ok.injEq, Prod.mk.injEq] at answered
    rw [← answered.1]
    intro r member
    split at member
    · rcases List.mem_cons.mp member with rfl | later
      · exact List.mem_cons_self ..
      · exact List.mem_cons_of_mem _ (ih kept r later)
    · exact List.mem_cons_of_mem _ (ih kept r member)

theorem candidateHosts_mem {hosts : List Resource} {t : AllocDb}
    (ran : exec (candidateHosts a) db = .ok (hosts, t)) : ∀ r ∈ hosts, r ∈ db.resources.rows := by
  unfold candidateHosts at ran
  split at ran
  · simp only [pure, exec, Except.ok.injEq, Prod.mk.injEq] at ran
    rw [← ran.1]
    intro r member
    cases member
  · obtain ⟨read, t₁, got, ran₁⟩ := exec_bind_ok ran
    simp only [Txn.get, exec, Except.ok.injEq, Prod.mk.injEq] at got
    obtain ⟨rfl, rfl⟩ := got
    split at ran₁
    · simp only [pure, exec, Except.ok.injEq, Prod.mk.injEq] at ran₁
      rw [← ran₁.1]
      exact fun r member => schedulableCandidates_mem member
    · exact fun r member => schedulableCandidates_mem (withFreeDevices_mem ran₁ r member)

theorem promoteOne_places (now : Instant) {hosts : List Resource} {granted : Bool} {t : AllocDb}
    (found : find db.allocations a.id = some a) (queued : a.state = .requested)
    (listed : exec (candidateHosts a) db = .ok (hosts, db))
    (placed : exec (placeOrTerminate bounds now a hosts) db = .ok (granted, t)) :
    commit (promoteOne bounds now a.id) db = t := by
  have again : (some a).filter (fun b => decide (b.state = .requested)) = some a := by
    simp [queued]
  have ran : exec (promoteOne bounds now a.id) db = .ok (if granted then some a else none, t) := by
    simp only [promoteOne, getAllocation, acquire, exec_bind, Txn.get, pure, exec, found, again,
      listed, placed]
  rw [commit, ran]

theorem promoteOne_routes (bounds : LeaseBounds) (now : Instant) (id : Uuid) :
    RoutesAroundBusy bounds db (commit (promoteOne bounds now id) db) id := by
  intro a before r after found queued listed waiting
  obtain rfl := find_key found
  have skipped := placeOrTerminate_skips now (r :: after) waiting
  constructor
  · intro takes
    have known := candidateHosts_mem listed r (by simp)
    obtain ⟨t, lease, claims, placed, row⟩ :=
      placeOrTerminate_grants now after found queued known takes
    rw [promoteOne_places now found queued listed (skipped.trans placed)]
    exact ⟨_, r, row, rfl, List.mem_cons_self .., rfl⟩
  · intro dear
    obtain ⟨t, placed, row⟩ := placeOrTerminate_ends now after found queued dear
    rw [promoteOne_places now found queued listed (skipped.trans placed)]
    exact ⟨_, row, rfl, rfl⟩

/-- Every request that reaches its turn in a pass. -/
theorem pass_routes_around_busy (bounds : LeaseBounds)
    (schedule : Uuid → List Operation × Instant) (db : AllocDb) :
    Trace.Along (takeTurn bounds)
      (fun s turn => RoutesAroundBusy bounds (turn.arrive s) (takeTurn bounds s turn) turn.id)
      db (passTurns schedule db) :=
  Trace.along_of_forall (fun _ (turn : Turn) => promoteOne_routes bounds turn.now turn.id) db _

end Pass

section Sample

def waitingRow : Allocation where
  id := 1
  createdAt := 0
  principal := "alice"
  project := "demo"
  resourceId := none
  state := .requested
  leaseExpiry := none
  requestedVcpus := some 1
  requestedMemoryGb := some 0
  requestedDiskGb := none
  requestedArch := none
  shape := none
  pcieClaim := []
  requestedPcieSpecs := []
  requestedKind := some "local"
  requestedResourceId := none
  requestedPool := none
  activeStartedAt := none
  activeEndedAt := none
  failureCategory := none

def twoHosts (costClass : String) (cap : Nat) : AllocDb :=
  { sampleDb 10 with
    allocations := Table.insert Table.empty waitingRow
    resources := Table.insert (Table.insert Table.empty
      { sampleHost with costClass := costClass, allocationCap := some cap })
      { sampleHost with id := 8, createdAt := 1 }
    costClasses := Table.insert (Table.insert Table.empty ⟨"local", 1⟩) ⟨"dear", 100⟩ }

theorem twoHosts_listed (costClass : String) (cap : Nat) :
    exec (candidateHosts waitingRow) (twoHosts costClass cap) =
      .ok ([{ sampleHost with costClass := costClass, allocationCap := some cap },
        { sampleHost with id := 8, createdAt := 1 }], twoHosts costClass cap) := by
  have rows : (twoHosts costClass cap).resources.rows.filter
      (fun r => decide (r.kind = "local") && schedulable r) =
      [{ sampleHost with costClass := costClass, allocationCap := some cap },
        { sampleHost with id := 8, createdAt := 1 }] := by
    simp [twoHosts, Table.insert, Table.empty, sampleHost, schedulable]
  have sorted : labelCandidates (twoHosts costClass cap) (fun r => r.kind = "local") (some "demo")
      none = [{ sampleHost with costClass := costClass, allocationCap := some cap },
        { sampleHost with id := 8, createdAt := 1 }] := by
    rw [labelCandidates, rows, List.mergeSort_of_pairwise (by simp [olderFirst, sampleHost])]
    simp [placeable, projectMayPlace, sampleHost]
  change Except.ok (labelCandidates (twoHosts costClass cap) (fun r => r.kind = "local")
    (some "demo") none, twoHosts costClass cap) = _
  rw [sorted]

theorem twoHosts_turns (costClass : String) (cap : Nat) :
    passTurns (fun _ => ([], 0)) (twoHosts costClass cap) = [⟨[], 0, 1⟩] := by
  have one : pendingIds (twoHosts costClass cap) = [1] := by
    simp [pendingIds, twoHosts, Table.insert, Table.empty, waitingRow]
  rw [passTurns, one]
  rfl

/-- The dear host comes first and is over the budget: the request ends though the other host
would take it. -/
theorem dear_host_ends_request :
    ¬ ∀ (bounds : LeaseBounds) (schedule : Uuid → List Operation × Instant) (db : AllocDb),
      Trace.Along (takeTurn bounds)
        (fun s turn => WorkConserving bounds (turn.arrive s) (takeTurn bounds s turn) turn.id)
        db (passTurns schedule db) := by
  intro claim
  have along := claim sampleBounds (fun _ => ([], 0)) (twoHosts "dear" 1)
  rw [twoHosts_turns] at along
  have present : find (twoHosts "dear" 1).allocations 1 = some waitingRow := by decide +kernel
  obtain ⟨a, _, granted, state, _⟩ := along.1 waitingRow _
    { sampleHost with id := 8, createdAt := 1 } present rfl (twoHosts_listed "dear" 1)
    (List.mem_cons_of_mem _ (List.mem_cons_self ..)) (by decide +kernel)
  obtain ⟨b, ended, failed, _⟩ := (promoteOne_routes sampleBounds 0 1 waitingRow [] _ _
    present rfl (twoHosts_listed "dear" 1) (by simp)).2 (by decide +kernel)
  obtain rfl : a = b := Option.some.inj (granted.symm.trans ended)
  rw [state] at failed
  cases failed

/-- The older host is full: the request is granted on the other. -/
theorem full_host_passed_by :
    GrantedOn (promotePending sampleBounds (fun _ => ([], 0)) (twoHosts "local" 0)) 1
      [{ sampleHost with id := 8, createdAt := 1 }] := by
  have along := pass_routes_around_busy sampleBounds (fun _ => ([], 0)) (twoHosts "local" 0)
  rw [twoHosts_turns] at along
  rw [promotePending, twoHosts_turns]
  exact (along.1 waitingRow [{ sampleHost with allocationCap := some 0 }] _ [] (by decide +kernel)
    rfl (twoHosts_listed "local" 0) (by decide +kernel)).1 (by decide +kernel)

end Sample

end Kdive.Capacity
