import Kdive.Domain
import Kdive.Lib.Table

/-!
The durable `jobs` queue: idempotent enqueue with its recycle policies, the
credential-bound worker functions of the database, cancellation and the two statements
of the abandoned-job sweep. Every definition is one committed statement or database
function. The external-boot and capture tables are read only through the facts a
statement takes as an argument; they are not modelled here.
-/
namespace Kdive.Jobs
open Table

inductive JobKind where
  | provision | reprovision | teardown | build | install | boot | forceCrash | power
  | captureVmcore | imageBuild | diagnosticsWorkerCheck | buildInstallBoot | authorizeSshKey
  | consoleRotate | diagnosticSysrq | checkSshReachable | watchForCrash | snapshot | restore
  | deleteSnapshot | captureTraffic | reclaimInvestigationRootfs | remoteModuleVolumeReap
  | resolveRecoveryOrphan
  deriving DecidableEq

inductive Lane where
  | default | stateFenced
  deriving DecidableEq

def retiredJobKinds : List JobKind := [.build, .buildInstallBoot]

def stateFencedJobKinds : List JobKind := [.restore, .reprovision, .snapshot]

def dispatchLaneForKind (kind : JobKind) : Lane :=
  if kind ∈ stateFencedJobKinds then .stateFenced else .default

/-- The parts of a job payload the queue looks at: the two authority markers, the Run it
belongs to (`none` when the kind has none or the payload does not validate), and the rest. -/
structure Payload where
  externalBootAuthority : Bool
  authoritySystem : Bool
  runId : Option Uuid
  body : String
  deriving DecidableEq

structure Job where
  id : Uuid
  kind : JobKind
  dispatchLane : Lane
  payload : Payload
  state : JobState
  attempt : Nat
  maxAttempts : Nat
  workerId : Option String
  leaseExpiresAt : Option Instant
  heartbeatAt : Option Instant
  resultRef : Option String
  errorCategory : Option ErrorCategory
  failureContext : List (String × String)
  authorizing : String
  dedupKey : String
  createdAt : Instant
  deriving DecidableEq

/-- A registered worker process. Its credential is bound to it for good; only `active`
ever changes, from true to false. -/
structure Incarnation where
  incarnation : String
  credentialHash : List UInt8
  fenceProtocol : Nat
  active : Bool

structure RunRow where
  id : Uuid
  state : RunState
  failureCategory : Option ErrorCategory
  failingJobId : Option Uuid

structure QueueDb where
  jobs : Keyed Job Uuid Job.id
  incarnations : Keyed Incarnation (List UInt8) Incarnation.credentialHash
  runs : Keyed RunRow Uuid RunRow.id

def QueueDb.updateJobs (db : QueueDb) (p : Job → Bool) (f : Job → Job)
    (keeps : ∀ j, (f j).id = j.id) : QueueDb :=
  { db with jobs := Table.update db.jobs p f keeps }

def currentFenceProtocol : Nat := 4

inductive QueueError where
  | maxAttemptsBelowOne (maxAttempts : Int)
  | retiredKind (kind : JobKind)
  | claimFactsInvalid
  | heartbeatFactsInvalid
  | completionFactsInvalid
  | failureFactsInvalid
  | claimLeaseInvalid
  | heartbeatLeaseInvalid
  | illegalTransition (source target : JobState)
  | objectNotFound (id : Uuid)

inductive JobRecyclePolicy where
  | never | failed | terminal | terminalOrCanceled | failedOrLapsedExhausted
  deriving DecidableEq

def Job.lapsed (j : Job) (now : Instant) : Bool :=
  match j.leaseExpiresAt with
  | some expiry => decide (expiry < now)
  | none => false

def recyclableStates : JobRecyclePolicy → List JobState
  | .never => []
  | .failed => [.failed]
  | .terminal => [.failed, .succeeded]
  | .terminalOrCanceled => [.failed, .succeeded, .canceled]
  | .failedOrLapsedExhausted => [.failed]

def recyclable (policy : JobRecyclePolicy) (now : Instant) (j : Job) : Bool :=
  decide (j.state ∈ recyclableStates policy) ||
    (decide (policy = .failedOrLapsedExhausted) && decide (j.state = .running) &&
      decide (j.maxAttempts ≤ j.attempt) && j.lapsed now)

/-- The `SET` list of the recycling `UPDATE`. A running row keeps its attempt counter. -/
def recycled (lane : Lane) (payload : Payload) (now : Instant) (j : Job) : Job :=
  { j with
    state := .queued
    payload := payload
    attempt := if j.state = .running then j.attempt else 0
    maxAttempts := if j.state = .running then j.attempt + j.maxAttempts else j.maxAttempts
    workerId := none
    leaseExpiresAt := none
    heartbeatAt := none
    errorCategory := none
    resultRef := none
    failureContext := []
    dispatchLane := lane
    createdAt := now }

@[simp] theorem recycled_id (lane : Lane) (payload : Payload) (now : Instant) (j : Job) :
    (recycled lane payload now j).id = j.id := rfl

structure EnqueueRequest where
  kind : JobKind
  payload : Payload
  authorizing : String
  dedupKey : String
  maxAttempts : Int
  recycle : JobRecyclePolicy

def freshJob (r : EnqueueRequest) (newId : Uuid) (now : Instant) : Job :=
  { id := newId, kind := r.kind, dispatchLane := dispatchLaneForKind r.kind
    payload := r.payload, state := .queued, attempt := 0, maxAttempts := r.maxAttempts.toNat
    workerId := none, leaseExpiresAt := none, heartbeatAt := none, resultRef := none
    errorCategory := none, failureContext := [], authorizing := r.authorizing
    dedupKey := r.dedupKey, createdAt := now }

/-- `INSERT … ON CONFLICT (dedup_key) DO NOTHING`. -/
def insertJob (jobs : Keyed Job Uuid Job.id) (r : EnqueueRequest) (newId : Uuid)
    (now : Instant) : Keyed Job Uuid Job.id :=
  if jobs.rows.any (fun j => j.dedupKey = r.dedupKey) then jobs
  else Table.insert jobs (freshJob r newId now)

def recycleJob (jobs : Keyed Job Uuid Job.id) (r : EnqueueRequest) (now : Instant) :
    Keyed Job Uuid Job.id :=
  if r.recycle = .never then jobs
  else Table.update jobs (fun j => decide (j.dedupKey = r.dedupKey) && recyclable r.recycle now j)
    (recycled (dispatchLaneForKind r.kind) r.payload now)
    (recycled_id (dispatchLaneForKind r.kind) r.payload now)

/-- `newId` is what `gen_random_uuid` draws for the row if one is inserted. -/
def enqueueWithStatus (db : QueueDb) (r : EnqueueRequest) (newId : Uuid) (now : Instant) :
    Except QueueError QueueDb :=
  if r.maxAttempts < 1 then .error (.maxAttemptsBelowOne r.maxAttempts)
  else if r.kind ∈ retiredJobKinds then .error (.retiredKind r.kind)
  else .ok { db with jobs := recycleJob (insertJob db.jobs r newId now) r now }

def authenticated (db : QueueDb) (hash : List UInt8) : Option String :=
  match find db.incarnations hash with
  | some w => if w.active && decide (w.fenceProtocol = currentFenceProtocol) then
      some w.incarnation else none
  | none => none

/-- What a claim learns from the external-boot and capture tables and from row locks. -/
structure ClaimFacts where
  acknowledgedRetryProof : Job → Bool
  unconsumedTerminalReceipt : Job → Bool
  captureClosed : Job → Bool
  locked : Job → Bool

def claimable (facts : ClaimFacts) (lanes : List Lane) (now : Instant) (j : Job) : Bool :=
  (decide (j.state = .queued) || (decide (j.state = .running) && j.lapsed now)) &&
  (decide (j.attempt < j.maxAttempts) ||
    (decide (j.attempt = j.maxAttempts) && decide (j.maxAttempts < 2147483647) &&
      facts.acknowledgedRetryProof j)) &&
  decide (j.dispatchLane ∈ lanes) && !facts.unconsumedTerminalReceipt j &&
  (decide (j.kind ≠ .captureTraffic) || facts.captureClosed j)

/-- `ORDER BY created_at FOR UPDATE SKIP LOCKED LIMIT 1`: an oldest claimable row that no
other transaction holds. Rows created at the same instant tie, and any of them may come. -/
def oldestClaimable (db : QueueDb) (facts : ClaimFacts) (lanes : List Lane) (now : Instant)
    (j : Job) : Bool :=
  claimable facts lanes now j && !facts.locked j &&
  db.jobs.rows.all (fun other =>
    !(claimable facts lanes now other && !facts.locked other) ||
      decide (j.createdAt ≤ other.createdAt))

def leaseValid (lease : Duration) : Bool := decide (0 < lease) && decide (lease ≤ hour)

def claimed (worker : String) (deadline now : Instant) (j : Job) : Job :=
  { j with
    state := .running
    workerId := some worker
    attempt := j.attempt + 1
    maxAttempts := if j.attempt = j.maxAttempts then j.maxAttempts + 1 else j.maxAttempts
    leaseExpiresAt := some deadline
    heartbeatAt := some now }

@[simp] theorem claimed_id (worker : String) (deadline now : Instant) (j : Job) :
    (claimed worker deadline now j).id = j.id := rfl

structure ClaimRequest where
  workerId : String
  credentialHash : List UInt8
  lease : Duration
  acceptedLanes : List Lane

/-- `pick` names the row the scan yields, `none` when it yields no row. -/
def claimWorkerJob (db : QueueDb) (r : ClaimRequest) (facts : ClaimFacts) (pick : Option Uuid)
    (now : Instant) : Except QueueError (QueueDb × Option Job) :=
  if r.workerId.utf8ByteSize = 0 ∨ 512 < r.workerId.utf8ByteSize ∨ r.credentialHash.length ≠ 32
  then .error .claimFactsInvalid
  else if authenticated db r.credentialHash ≠ some r.workerId then .ok (db, none)
  else if leaseValid r.lease = false then .error .claimLeaseInvalid
  else match pick.bind (find db.jobs) with
    | none => .ok (db, none)
    | some j =>
      if oldestClaimable db facts r.acceptedLanes now j then
        .ok (db.updateJobs (fun k => k.id = j.id) (claimed r.workerId (now + r.lease) now)
            (claimed_id r.workerId (now + r.lease) now),
          some (claimed r.workerId (now + r.lease) now j))
      else .ok (db, none)

def fenced (jobId : Uuid) (worker : String) (attempt : Nat) (j : Job) : Bool :=
  decide (j.id = jobId) && decide (j.workerId = some worker) && decide (j.attempt = attempt) &&
    decide (j.state = .running)

def renewed (deadline now : Instant) (j : Job) : Job :=
  { j with heartbeatAt := some now, leaseExpiresAt := some deadline }

@[simp] theorem renewed_id (deadline now : Instant) (j : Job) : (renewed deadline now j).id = j.id := rfl

def heartbeatWorkerJob (db : QueueDb) (jobId : Uuid) (hash : List UInt8) (attempt : Nat)
    (lease : Duration) (now : Instant) : Except QueueError (QueueDb × Bool) :=
  if hash.length ≠ 32 ∨ attempt < 1 then .error .heartbeatFactsInvalid
  else match authenticated db hash with
    | none => .ok (db, false)
    | some worker =>
      if db.jobs.rows.any (fenced jobId worker attempt) = false then .ok (db, false)
      else if leaseValid lease = false then .error .heartbeatLeaseInvalid
      else .ok (db.updateJobs (fenced jobId worker attempt) (renewed (now + lease) now)
        (renewed_id (now + lease) now), true)

/-- What the generic finalizers add to the fence: they never settle an authority-marked
job, nor a traffic capture whose product is still open. -/
def finalizable (captureClosed : Job → Bool) (j : Job) : Bool :=
  !j.payload.externalBootAuthority && !j.payload.authoritySystem &&
    (decide (j.kind ≠ .captureTraffic) || captureClosed j)

def completed (resultRef : Option String) (j : Job) : Job :=
  { j with state := .succeeded, resultRef := resultRef }

@[simp] theorem completed_id (resultRef : Option String) (j : Job) :
    (completed resultRef j).id = j.id := rfl

def completeWorkerJob (db : QueueDb) (jobId : Uuid) (hash : List UInt8) (attempt : Nat)
    (resultRef : Option String) (captureClosed : Job → Bool) : Except QueueError QueueDb :=
  if hash.length ≠ 32 ∨ attempt < 1 then .error .completionFactsInvalid
  else match authenticated db hash with
    | none => .ok db
    | some worker =>
      .ok (db.updateJobs (fun j => fenced jobId worker attempt j && finalizable captureClosed j)
        (completed resultRef) (completed_id resultRef))

def failedOrRequeued (category : ErrorCategory) (context : List (String × String))
    (terminal : Bool) (j : Job) : Job :=
  if terminal = true ∨ j.maxAttempts ≤ j.attempt then
    { j with state := .failed, errorCategory := some category, failureContext := context }
  else
    { j with
      state := .queued
      errorCategory := none
      failureContext := []
      workerId := none
      leaseExpiresAt := none
      heartbeatAt := none }

@[simp] theorem failedOrRequeued_id (category : ErrorCategory) (context : List (String × String))
    (terminal : Bool) (j : Job) : (failedOrRequeued category context terminal j).id = j.id := by
  unfold failedOrRequeued
  split <;> rfl

def failWorkerJob (db : QueueDb) (jobId : Uuid) (hash : List UInt8) (attempt : Nat)
    (category : ErrorCategory) (context : List (String × String)) (terminal : Bool)
    (captureClosed : Job → Bool) : Except QueueError QueueDb :=
  if hash.length ≠ 32 ∨ attempt < 1 then .error .failureFactsInvalid
  else match authenticated db hash with
    | none => .ok db
    | some worker =>
      .ok (db.updateJobs (fun j => fenced jobId worker attempt j && finalizable captureClosed j)
        (failedOrRequeued category context terminal)
        (failedOrRequeued_id category context terminal))

def canceled (j : Job) : Job := { j with state := .canceled }

@[simp] theorem canceled_id (j : Job) : (canceled j).id = j.id := rfl

def cancelJob (db : QueueDb) (jobId : Uuid) : Except QueueError QueueDb :=
  match find db.jobs jobId with
  | none => .error (.objectNotFound jobId)
  | some j =>
    if JobState.canceled ∈ j.state.next then
      .ok (db.updateJobs (fun k => k.id = jobId) canceled canceled_id)
    else .error (.illegalTransition j.state .canceled)

/-- The candidate `SELECT` of `repair_abandoned_jobs`. -/
def abandoned (now : Instant) (j : Job) : Bool :=
  decide (j.state = .running) && j.lapsed now && decide (j.maxAttempts ≤ j.attempt) &&
    !j.payload.externalBootAuthority && !j.payload.authoritySystem

def zombieIds (db : QueueDb) (now : Instant) : List Uuid :=
  (db.jobs.rows.filter (abandoned now)).map Job.id

def deadLettered (j : Job) : Job :=
  { j with state := .failed, errorCategory := some .leaseExpired }

@[simp] theorem deadLettered_id (j : Job) : (deadLettered j).id = j.id := rfl

def runCompensationStates : List RunState := [.created, .running]

/-- The compensating `UPDATE runs`, for the Run of the job just dead-lettered. -/
def compensateRun (runs : Keyed RunRow Uuid RunRow.id) (runId : Option Uuid) :
    Keyed RunRow Uuid RunRow.id :=
  match runId with
  | none => runs
  | some run => Table.update runs
      (fun r => decide (r.id = run) && decide (r.state ∈ runCompensationStates))
      (fun r => { r with state := .failed, failureCategory := some .leaseExpired })
      (by intro _; rfl)

/-- One iteration of the sweep's loop: `UPDATE jobs … WHERE id = … AND state = 'running'`
and the compensation of its Run, in one transaction. The row is judged by its state alone. -/
def deadLetterZombie (db : QueueDb) (jobId : Uuid) : QueueDb :=
  match find db.jobs jobId with
  | none => db
  | some j =>
    if j.state = .running then
      { db with
        jobs := Table.update db.jobs (fun k => decide (k.id = jobId) && decide (k.state = .running))
          deadLettered deadLettered_id
        runs := compensateRun db.runs j.payload.runId }
    else db

/-- The rows `dead_letter_unowned_external_boot_jobs` ends under their row locks, where
`unowned` is what it finds in the authority tables. -/
def unownedExhausted (unowned : Job → Bool) (now : Instant) (j : Job) : Bool :=
  decide (j.state = .running) && decide (j.kind = .boot) && decide (j.maxAttempts ≤ j.attempt) &&
    j.lapsed now && j.payload.externalBootAuthority && unowned j

def deadLetterUnownedExternalBootJobs (db : QueueDb) (unowned : Job → Bool) (now : Instant) :
    QueueDb :=
  { db with
    jobs := Table.update db.jobs (unownedExhausted unowned now) deadLettered deadLettered_id
    runs := (db.jobs.rows.filter (unownedExhausted unowned now)).foldl
      (fun runs j => compensateRun runs j.payload.runId) db.runs }

def terminateIncarnation (db : QueueDb) (hash : List UInt8) : QueueDb :=
  { db with
    incarnations := Table.update db.incarnations (fun w => w.credentialHash = hash)
      (fun w => { w with active := false }) (by intro _; rfl) }

end Kdive.Jobs
