import Kdive.Jobs.Queue

/-!
Two ways to dead-letter a job and to compensate the Run it belongs to: the finalizer of the
worker that holds it, whose Run update goes through the transition guard, and the abandoned-job
sweep, whose Run update is a bare statement.
-/
namespace Kdive.Jobs
open Table

section Finalizer

def installRunCompensationStates : List RunState := runCompensationStates ++ [.succeeded]

def eligibleStates (kind : JobKind) : List RunState :=
  if kind = .install then installRunCompensationStates else runCompensationStates

inductive FinalizeError where
  | queue (error : QueueError)
  | illegalRunTransition (source target : RunState)

def RunRow.fail (category : ErrorCategory) (failingJob : Uuid) (r : RunRow) : RunRow :=
  { r with state := .failed, failureCategory := some category, failingJobId := some failingJob }

@[simp] theorem RunRow.fail_id (category : ErrorCategory) (failingJob : Uuid) (r : RunRow) :
    (r.fail category failingJob).id = r.id := rfl

def recordTerminalFailure (db : QueueDb) (run : Uuid) (category : ErrorCategory)
    (failingJob : Uuid) (eligible : List RunState) : Except FinalizeError (QueueDb × Bool) :=
  match find db.runs run with
  | none => .ok (db, false)
  | some r =>
    if r.state ∉ eligible then .ok (db, false)
    else if RunState.failed ∉ r.state.next then .error (.illegalRunTransition r.state .failed)
    else .ok ({ db with
      runs := Table.update db.runs (fun k => k.id = run) (RunRow.fail category failingJob)
        (RunRow.fail_id category failingJob) }, true)

def markRunFailed (db : QueueDb) (job : Job) (category : ErrorCategory) (run : Uuid) :
    Except FinalizeError QueueDb :=
  if job.state ≠ .failed then .ok db
  else (recordTerminalFailure db run category job.id (eligibleStates job.kind)).map Prod.fst

def fail (db : QueueDb) (job : Job) (hash : List UInt8) (category : ErrorCategory)
    (context : List (String × String)) (terminal : Bool) (captureClosed : Job → Bool) :
    Except QueueError (QueueDb × Job) :=
  let hit := match authenticated db hash with
    | none => none
    | some worker => (find db.jobs job.id).filter (fun j =>
        fenced job.id worker job.attempt j && finalizable captureClosed j)
  (failWorkerJob db job.id hash job.attempt category context terminal captureClosed).map
    (fun written => (written, match hit with
      | none => job
      | some j => failedOrRequeued category context terminal j))

/-- One transaction: what the guard raises rolls the job back too. -/
def failJobAndRun (db : QueueDb) (job : Job) (hash : List UInt8) (category : ErrorCategory)
    (context : List (String × String)) (terminal : Bool) (captureClosed : Job → Bool) :
    Except FinalizeError (QueueDb × Job) :=
  match fail db job hash category context terminal captureClosed with
  | .error e => .error (.queue e)
  | .ok (written, failed) =>
    match job.payload.runId with
    | none => .ok (written, failed)
    | some run => (markRunFailed written failed category run).map (fun marked => (marked, failed))

def finalized (db : QueueDb) (job : Job) (hash : List UInt8) (category : ErrorCategory)
    (context : List (String × String)) (terminal : Bool) (captureClosed : Job → Bool) : QueueDb :=
  match failJobAndRun db job hash category context terminal captureClosed with
  | .ok (committed, _) => committed
  | .error _ => db

end Finalizer

section Agreement

/-- A worker holds the running job and its failure is final, by its kind or because the attempts
are used up. The sweep comes to the same row when the lease of the last attempt lapses. -/
structure Doomed (db : QueueDb) (job : Job) (hash : List UInt8) (captureClosed : Job → Bool)
    (terminal : Bool) : Prop where
  found : find db.jobs job.id = some job
  credential : hash.length = 32
  charged : 1 ≤ job.attempt
  held : ∃ worker, authenticated db hash = some worker ∧ job.workerId = some worker
  finalizable : finalizable captureClosed job = true
  running : job.state = .running
  final : terminal = true ∨ job.maxAttempts ≤ job.attempt

def jobState (db : QueueDb) (id : Uuid) : Option JobState := (find db.jobs id).map Job.state

def runState (db : QueueDb) (id : Uuid) : Option RunState := (find db.runs id).map RunRow.state

def RunFollows (before after : RunState) : Prop := after = before ∨ after ∈ before.next

/-- Both databases hold the job failed and the Run in one state, reached along the table. -/
structure Agree (job : Job) (run : Uuid) (before : RunState) (byWorker bySweep : QueueDb) :
    Prop where
  same : runState byWorker run = runState bySweep run
  workerFollows : ∀ state, runState byWorker run = some state → RunFollows before state
  sweepFollows : ∀ state, runState bySweep run = some state → RunFollows before state
  workerFails : jobState byWorker job.id = some .failed
  sweepFails : jobState bySweep job.id = some .failed

variable {db : QueueDb} {job : Job} {hash : List UInt8} {captureClosed : Job → Bool}
  {category : ErrorCategory} {context : List (String × String)} {terminal : Bool}
  {run : Uuid} {r : RunRow}

theorem fail_doomed (category : ErrorCategory) (context : List (String × String))
    (doomed : Doomed db job hash captureClosed terminal) :
    ∃ written, fail db job hash category context terminal captureClosed =
        .ok (written, failedOrRequeued category context terminal job) ∧
      (failedOrRequeued category context terminal job).state = .failed ∧
      written.runs = db.runs ∧ jobState written job.id = some .failed := by
  obtain ⟨worker, known, holds⟩ := doomed.held
  have fence : fenced job.id worker job.attempt job = true := by
    simp [fenced, holds, doomed.running]
  have ends : (failedOrRequeued category context terminal job).state = .failed := by
    rw [failedOrRequeued, if_pos doomed.final]
  have valid : ¬ (hash.length ≠ 32 ∨ job.attempt < 1) := by
    have charged := doomed.charged
    have credential := doomed.credential
    omega
  refine ⟨db.updateJobs (fun j => fenced job.id worker job.attempt j && finalizable captureClosed j)
    (failedOrRequeued category context terminal) (failedOrRequeued_id category context terminal),
    ?_, ends, rfl, ?_⟩
  · have hit : (some job).filter (fun j => fenced job.id worker job.attempt j &&
        finalizable captureClosed j) = some job := by
      simp [Option.filter, fence, doomed.finalizable]
    simp only [fail, failWorkerJob, if_neg valid, known, doomed.found, hit, Except.map]
  · simp [jobState, QueueDb.updateJobs, doomed.found, fence, doomed.finalizable, ends]

theorem finalized_doomed (doomed : Doomed db job hash captureClosed terminal)
    (owns : job.payload.runId = some run) : ∃ written failed,
      finalized db job hash category context terminal captureClosed =
        (match markRunFailed written failed category run with
          | .ok committed => committed
          | .error _ => db) ∧
      failed.state = .failed ∧ failed.kind = job.kind ∧ failed.id = job.id ∧
      written.runs = db.runs ∧ jobState written job.id = some .failed := by
  obtain ⟨written, ran, ends, runs, state⟩ := fail_doomed category context doomed
  refine ⟨written, failedOrRequeued category context terminal job, ?_, ends, ?_, ?_, runs, state⟩
  · simp only [finalized, failJobAndRun, ran, owns]
    cases markRunFailed written (failedOrRequeued category context terminal job) category run <;> rfl
  · unfold failedOrRequeued
    split <;> rfl
  · exact failedOrRequeued_id category context terminal job

theorem finalized_created (doomed : Doomed db job hash captureClosed terminal)
    (owns : job.payload.runId = some run) (found : find db.runs run = some r)
    (created : r.state = .created) :
    finalized db job hash category context terminal captureClosed = db := by
  obtain ⟨written, failed, outcome, ends, _, _, runs, _⟩ := finalized_doomed doomed owns
  have eligible : RunState.created ∈ eligibleStates failed.kind := by
    unfold eligibleStates
    split <;> decide
  have raises : markRunFailed written failed category run =
      .error (.illegalRunTransition .created .failed) := by
    simp [markRunFailed, ends, recordTerminalFailure, runs, found, created, eligible,
      RunState.next, Except.map]
  rw [outcome, raises]

theorem finalized_ineligible (doomed : Doomed db job hash captureClosed terminal)
    (owns : job.payload.runId = some run) (found : find db.runs run = some r)
    (ineligible : r.state ∉ eligibleStates job.kind) :
    runState (finalized db job hash category context terminal captureClosed) run = some r.state ∧
      jobState (finalized db job hash category context terminal captureClosed) job.id =
        some .failed := by
  obtain ⟨written, failed, outcome, ends, kind, _, runs, state⟩ := finalized_doomed doomed owns
  have kept : markRunFailed written failed category run = .ok written := by
    simp [markRunFailed, ends, recordTerminalFailure, runs, found, kind, ineligible, Except.map]
  rw [outcome, kept]
  exact ⟨by simp [runState, runs, found], state⟩

theorem finalized_eligible (doomed : Doomed db job hash captureClosed terminal)
    (owns : job.payload.runId = some run) (found : find db.runs run = some r)
    (eligible : r.state ∈ eligibleStates job.kind) (edge : .failed ∈ r.state.next) :
    runState (finalized db job hash category context terminal captureClosed) run = some .failed ∧
      jobState (finalized db job hash category context terminal captureClosed) job.id =
        some .failed := by
  obtain ⟨written, failed, outcome, ends, kind, _, runs, state⟩ := finalized_doomed doomed owns
  have key := find_key found
  have moved : markRunFailed written failed category run = .ok { written with
      runs := Table.update written.runs (fun k => k.id = run) (RunRow.fail category failed.id)
        (RunRow.fail_id category failed.id) } := by
    simp [markRunFailed, ends, recordTerminalFailure, runs, found, kind, eligible, edge, Except.map]
  rw [outcome, moved]
  exact ⟨by simp [runState, runs, found, key, RunRow.fail], state⟩

theorem swept_doomed (doomed : Doomed db job hash captureClosed terminal)
    (owns : job.payload.runId = some run) (found : find db.runs run = some r) :
    runState (deadLetterZombie db job.id) run =
        some (if r.state ∈ runCompensationStates then .failed else r.state) ∧
      jobState (deadLetterZombie db job.id) job.id = some .failed := by
  have key := find_key found
  simp only [deadLetterZombie, doomed.found, doomed.running, if_pos, owns, compensateRun, runState,
    jobState]
  constructor
  · simp only [find_update, found, Option.map_some, key]
    split <;> simp_all
  · simp [doomed.found, doomed.running, deadLettered]

/-- The two ways agree on a running Run, and on one whose build succeeded unless the job is an
install. -/
theorem compensations_agree_iff (doomed : Doomed db job hash captureClosed terminal)
    (owns : job.payload.runId = some run) (found : find db.runs run = some r)
    (state : r.state ∈ [RunState.created, .running, .succeeded]) :
    Agree job run r.state (finalized db job hash category context terminal captureClosed)
        (deadLetterZombie db job.id) ↔
      r.state = .running ∨ (r.state = .succeeded ∧ job.kind ≠ .install) := by
  obtain ⟨sweptRun, sweptJob⟩ := swept_doomed doomed owns found
  have never : RunState.succeeded ∉ runCompensationStates := by decide
  simp only [List.mem_cons, List.not_mem_nil, or_false] at state
  rcases state with created | running | succeeded
  · rw [finalized_created doomed owns found created]
    constructor
    · intro agree
      have fails := agree.workerFails
      rw [jobState, doomed.found, Option.map_some, doomed.running] at fails
      cases fails
    · rintro (running | ⟨succeeded, _⟩)
      · rw [created] at running
        cases running
      · rw [created] at succeeded
        cases succeeded
  · have eligible : r.state ∈ eligibleStates job.kind := by
      rw [running, eligibleStates]
      split <;> decide
    have edge : RunState.failed ∈ r.state.next := by
      rw [running]
      decide
    obtain ⟨workerRun, workerJob⟩ := finalized_eligible doomed owns found eligible edge
    rw [if_pos (by rw [running]; decide)] at sweptRun
    refine ⟨fun _ => .inl running, fun _ => ⟨workerRun.trans sweptRun.symm, ?_, ?_, workerJob,
      sweptJob⟩⟩
    · intro state reached
      rw [Option.some.inj (reached.symm.trans workerRun)]
      exact .inr edge
    · intro state reached
      rw [Option.some.inj (reached.symm.trans sweptRun)]
      exact .inr edge
  · rw [if_neg (by rw [succeeded]; exact never)] at sweptRun
    by_cases install : job.kind = .install
    · have eligible : r.state ∈ eligibleStates job.kind := by
        rw [succeeded, install]
        decide
      have edge : RunState.failed ∈ r.state.next := by
        rw [succeeded]
        decide
      obtain ⟨workerRun, _⟩ := finalized_eligible doomed owns found eligible edge
      constructor
      · intro agree
        have same := agree.same
        rw [workerRun, sweptRun, succeeded] at same
        cases same
      · rintro (running | ⟨_, other⟩)
        · rw [succeeded] at running
          cases running
        · exact absurd install other
    · have ineligible : r.state ∉ eligibleStates job.kind := by
        rw [succeeded, eligibleStates, if_neg install]
        exact never
      obtain ⟨workerRun, workerJob⟩ := finalized_ineligible doomed owns found ineligible
      refine ⟨fun _ => .inr ⟨succeeded, install⟩, fun _ => ⟨workerRun.trans sweptRun.symm, ?_, ?_,
        workerJob, sweptJob⟩⟩
      · intro state reached
        exact .inl (Option.some.inj (reached.symm.trans workerRun))
      · intro state reached
        exact .inl (Option.some.inj (reached.symm.trans sweptRun))

end Agreement

section Sample

def doomedCredential : List UInt8 := List.replicate 32 7

def doomedInstall : Job where
  id := 1
  kind := .install
  dispatchLane := .default
  payload := ⟨false, false, some 5, ""⟩
  state := .running
  attempt := 3
  maxAttempts := 3
  workerId := some "w1"
  leaseExpiresAt := some 10
  heartbeatAt := some 0
  resultRef := none
  errorCategory := none
  failureContext := []
  authorizing := "alice"
  dedupKey := "5:install"
  createdAt := 0

def doomedDb (job : Job) (state : RunState) : QueueDb where
  jobs := Table.insert Table.empty job
  incarnations := Table.insert Table.empty ⟨"w1", doomedCredential, currentFenceProtocol, true⟩
  runs := Table.insert Table.empty ⟨5, state, none, none⟩

theorem doomedInstall_doomed (state : RunState) :
    Doomed (doomedDb doomedInstall state) doomedInstall doomedCredential (fun _ => true) true where
  found := rfl
  credential := rfl
  charged := by decide
  held := ⟨"w1", by rfl, rfl⟩
  finalizable := rfl
  running := rfl
  final := .inl rfl

/-- The worker fails the Run the sweep leaves succeeded. -/
theorem install_compensations_differ :
    ¬ ∀ (db : QueueDb) (job : Job) (hash : List UInt8) (captureClosed : Job → Bool)
      (category : ErrorCategory) (context : List (String × String)) (terminal : Bool) (run : Uuid)
      (r : RunRow), Doomed db job hash captureClosed terminal → job.payload.runId = some run →
      find db.runs run = some r → r.state ∈ [RunState.created, .running, .succeeded] →
      Agree job run r.state (finalized db job hash category context terminal captureClosed)
        (deadLetterZombie db job.id) := by
  intro claim
  have agree := claim (doomedDb doomedInstall .succeeded) doomedInstall doomedCredential
    (fun _ => true) .installFailure [] true 5 _ (doomedInstall_doomed .succeeded) rfl rfl
    (by decide)
  have same := agree.same
  revert same
  decide +kernel

theorem running_compensations_agree :
    Agree doomedInstall 5 .running (finalized (doomedDb doomedInstall .running) doomedInstall
        doomedCredential .installFailure [] true (fun _ => true))
      (deadLetterZombie (doomedDb doomedInstall .running) 1) :=
  (compensations_agree_iff (r := ⟨5, .running, none, none⟩) (doomedInstall_doomed .running) rfl rfl
    (by decide)).mpr (.inl rfl)

end Sample

end Kdive.Jobs
