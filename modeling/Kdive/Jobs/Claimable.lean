import Kdive.Jobs.Queue

/-!
The row predicates of `claim_worker_job` and `count_claimable_worker_jobs`. Both bodies are the
result of the migrations that patch them: a migration replaces one clause of a body by others and
refuses a body that does not have it. Claiming is the predicate the queue uses; counting is meant
to be its aggregate.
-/
namespace Kdive.Jobs
open Table

section Tables

inductive CaptureState where
  | launching | gated | running | cancelRequested | exited
  deriving DecidableEq

inductive PublicationState where
  | pending | publishing | canceling | published | discarded
  deriving DecidableEq

structure CaptureOperation where
  jobId : Uuid
  state : CaptureState
  processAbsent : Bool
  providerQuiescence : List (String × String)
  publicationState : PublicationState
  spoolDisposedAt : Option Instant

inductive AttemptState where
  | allocating | current | superseded | terminal
  deriving DecidableEq

structure AuthoritySystemAttempt where
  jobId : Uuid
  state : AttemptState
  consumedAt : Option Instant

structure JobRow where
  id : Uuid
  kind : JobKind
  state : JobState
  attempt : Int
  maxAttempts : Int
  leaseExpiresAt : Option Instant
  dispatchLane : String
  externalBootAuthority : Bool

structure WorkerTables where
  jobs : Keyed JobRow Uuid JobRow.id
  captureOperations : List CaptureOperation
  authoritySystemAttempts : List AuthoritySystemAttempt

def JobRow.lapsed (j : JobRow) (now : Instant) : Bool :=
  match j.leaseExpiresAt with
  | some expiry => decide (expiry < now)
  | none => false

def CaptureOperation.processOpen (o : CaptureOperation) : Bool :=
  decide (o.state ≠ .exited) || !o.processAbsent || decide (o.providerQuiescence = [])

def CaptureOperation.productOpen (o : CaptureOperation) : Bool :=
  o.processOpen || decide (o.publicationState ∉ [.published, .discarded]) ||
    decide (o.spoolDisposedAt = none)

def AuthoritySystemAttempt.unconsumed (a : AuthoritySystemAttempt) : Bool :=
  decide (a.state = .terminal) && decide (a.consumedAt = none)

def WorkerTables.hasTerminalReceipt (t : WorkerTables) (j : JobRow) : Bool :=
  t.authoritySystemAttempts.any (fun a => decide (a.jobId = j.id) && a.unconsumed)

end Tables

section Bodies

inductive Clause where
  | pending
  | unmarked
  | attemptsLeft
  | attemptsLeftOrProof
  | acceptedLane
  | noTerminalReceipt
  | captureProcessClosed
  | captureProductClosed
  deriving DecidableEq

structure Bodies where
  claim : List Clause
  count : List Clause

def replaceClause (old : Clause) (new : List Clause) (body : List Clause) : Option (List Clause) :=
  if old ∈ body then some (body.flatMap (fun c => if c = old then new else [c])) else none

def Bodies.patchClaim (old : Clause) (new : List Clause) (b : Bodies) : Option Bodies := do
  let claim ← replaceClause old new b.claim
  pure { b with claim := claim }

def Bodies.patchBoth (old : Clause) (new : List Clause) (b : Bodies) : Option Bodies := do
  let claim ← replaceClause old new b.claim
  let count ← replaceClause old new b.count
  pure ⟨claim, count⟩

inductive Migration where
  | captureOperationSupervision
  | capturePublicationFence
  | captureClaimableQueueDepth
  | externalBootAuthority
  | reopenExternalBootClaimLane
  | authorityOwnedSystemProvisioning
  | exhaustedAcknowledgedAuthorityClaim
  deriving DecidableEq

def Migration.apply : Migration → Bodies → Option Bodies
  | .captureOperationSupervision, b => some { b with
      claim := [.pending, .attemptsLeft, .acceptedLane, .captureProcessClosed] }
  | .capturePublicationFence, b => b.patchClaim .captureProcessClosed [.captureProductClosed]
  | .captureClaimableQueueDepth, b => some { b with
      count := [.pending, .attemptsLeft, .acceptedLane, .captureProductClosed] }
  | .externalBootAuthority, b => b.patchBoth .attemptsLeft [.unmarked, .attemptsLeft]
  | .reopenExternalBootClaimLane, b => b.patchBoth .unmarked []
  | .authorityOwnedSystemProvisioning, b =>
    b.patchClaim .acceptedLane [.acceptedLane, .noTerminalReceipt]
  | .exhaustedAcknowledgedAuthorityClaim, b => b.patchBoth .attemptsLeft [.attemptsLeftOrProof]

def migrations : List Migration :=
  [.captureOperationSupervision, .capturePublicationFence, .captureClaimableQueueDepth,
    .externalBootAuthority, .reopenExternalBootClaimLane, .authorityOwnedSystemProvisioning,
    .exhaustedAcknowledgedAuthorityClaim]

def migrate (b : Bodies) (steps : List Migration) : Option Bodies :=
  steps.foldlM (fun b m => m.apply b) b

def migrated : Bodies := (migrate ⟨[], []⟩ migrations).getD ⟨[], []⟩

theorem migrate_succeeds : migrate ⟨[], []⟩ migrations = some migrated := rfl

theorem migrated_claim : migrated.claim =
    [.pending, .attemptsLeftOrProof, .acceptedLane, .noTerminalReceipt, .captureProductClosed] :=
  rfl

theorem migrated_count : migrated.count =
    [.pending, .attemptsLeftOrProof, .acceptedLane, .captureProductClosed] := rfl

end Bodies

section Predicates

/-- The lane array a worker passes; SQL arrays may be null and hold nulls. -/
abbrev LaneArray := Option (List (Option String))

variable (t : WorkerTables) (retryProof : JobRow → Bool) (lanes : LaneArray) (now : Instant)

def Clause.holds (j : JobRow) : Clause → Bool
  | .pending => decide (j.state = .queued) || (decide (j.state = .running) && j.lapsed now)
  | .unmarked => !j.externalBootAuthority
  | .attemptsLeft => decide (j.attempt < j.maxAttempts)
  | .attemptsLeftOrProof => decide (j.attempt < j.maxAttempts) ||
      (decide (j.attempt = j.maxAttempts) && decide (j.maxAttempts < 2147483647) && retryProof j)
  | .acceptedLane => lanes.any (fun accepted => decide (some j.dispatchLane ∈ accepted))
  | .noTerminalReceipt => !t.hasTerminalReceipt j
  | .captureProcessClosed => decide (j.kind ≠ .captureTraffic) ||
      !t.captureOperations.any (fun o => decide (o.jobId = j.id) && o.processOpen)
  | .captureProductClosed => decide (j.kind ≠ .captureTraffic) ||
      !t.captureOperations.any (fun o => decide (o.jobId = j.id) && o.productOpen)

def claims (j : JobRow) : Bool := migrated.claim.all (Clause.holds t retryProof lanes now j)

def counts (j : JobRow) : Bool := migrated.count.all (Clause.holds t retryProof lanes now j)

def lanesValid : LaneArray → Bool
  | none => false
  | some accepted => decide (accepted ≠ []) && accepted.all (fun lane =>
      lane.any (fun name => decide (name ≠ "")))

inductive CountError where
  | lanesInvalid
  deriving DecidableEq

def countClaimableWorkerJobs : Except CountError Nat :=
  if lanesValid lanes then .ok (t.jobs.rows.countP (counts t retryProof lanes now))
  else .error .lanesInvalid

variable {t retryProof lanes now}

theorem claims_eq (j : JobRow) :
    claims t retryProof lanes now j =
      (counts t retryProof lanes now j && !t.hasTerminalReceipt j) := by
  rw [Bool.eq_iff_iff]
  simp [claims, counts, migrated_claim, migrated_count, Clause.holds]
  tauto

/-- Two predicates, one the restriction of the other, count the same rows when they agree. -/
theorem countP_restrict_eq {α : Type} {p q : α → Bool} (rows : List α) :
    rows.countP (fun r => p r && q r) = rows.countP p ↔ ∀ r ∈ rows, p r = true → q r = true := by
  induction rows with
  | nil => simp
  | cons r rest ih =>
    have fewer : rest.countP (fun r => p r && q r) ≤ rest.countP p :=
      List.countP_mono_left fun r _ both => (Bool.and_eq_true _ _ ▸ both).1
    simp only [List.countP_cons, List.mem_cons, forall_eq_or_imp, ← ih]
    cases p r <;> cases q r <;> simp
    omega

/-- Counting agrees with claiming exactly when no row it counts waits for its receipt. -/
theorem count_eq_claims_iff :
    countClaimableWorkerJobs t retryProof lanes now =
        .ok (t.jobs.rows.countP (claims t retryProof lanes now)) ↔
      lanesValid lanes = true ∧ ∀ j ∈ t.jobs.rows, counts t retryProof lanes now j = true →
        t.hasTerminalReceipt j = false := by
  have restricted := countP_restrict_eq (p := counts t retryProof lanes now)
    (q := fun j => !t.hasTerminalReceipt j) t.jobs.rows
  simp only [← claims_eq, Bool.not_eq_true'] at restricted
  unfold countClaimableWorkerJobs
  split
  · rename_i valid
    rw [Except.ok.injEq, eq_comm, restricted]
    simp [valid]
  · rename_i refused
    simp [refused]

end Predicates

section Queue

def Lane.value : Lane → String
  | .default => "default"
  | .stateFenced => "state-fenced"

def Job.row (j : Job) : JobRow where
  id := j.id
  kind := j.kind
  state := j.state
  attempt := j.attempt
  maxAttempts := j.maxAttempts
  leaseExpiresAt := j.leaseExpiresAt
  dispatchLane := j.dispatchLane.value
  externalBootAuthority := j.payload.externalBootAuthority

def WorkerTables.facts (t : WorkerTables) (retryProof : JobRow → Bool) (locked : Job → Bool) :
    ClaimFacts where
  acknowledgedRetryProof j := retryProof j.row
  unconsumedTerminalReceipt j := t.hasTerminalReceipt j.row
  captureClosed j := !t.captureOperations.any (fun o => decide (o.jobId = j.id) && o.productOpen)
  locked := locked

theorem lane_value_injective : Function.Injective Lane.value := by
  intro a b same
  cases a <;> cases b <;> first | rfl | (revert same; decide)

theorem claims_row (t : WorkerTables) (retryProof : JobRow → Bool) (locked : Job → Bool)
    (lanes : List Lane) (now : Instant) (j : Job) :
    claims t retryProof (some (lanes.map (fun lane => some lane.value))) now j.row =
      claimable (t.facts retryProof locked) lanes now j := by
  have lane : decide (some j.row.dispatchLane ∈ lanes.map (fun lane => some lane.value)) =
      decide (j.dispatchLane ∈ lanes) := by
    rw [decide_eq_decide]
    simp [Job.row, lane_value_injective.eq_iff]
  have order : decide (j.row.attempt < j.row.maxAttempts) = decide (j.attempt < j.maxAttempts) := by
    rw [decide_eq_decide]
    exact Int.ofNat_lt
  have spent : decide (j.row.attempt = j.row.maxAttempts) = decide (j.attempt = j.maxAttempts) := by
    rw [decide_eq_decide]
    exact Int.ofNat_inj
  have bound : decide (j.row.maxAttempts < 2147483647) = decide (j.maxAttempts < 2147483647) := by
    rw [decide_eq_decide]
    exact Int.ofNat_lt (m := 2147483647)
  simp only [claims, migrated_claim, List.all_cons, List.all_nil, Bool.and_true, Clause.holds,
    Option.any_some, lane, order, spent, bound, claimable, WorkerTables.facts, Bool.and_assoc]
  rfl

end Queue

section Sample

def receiptedRow : JobRow := ⟨1, .provision, .running, 1, 3, some 10, "default", false⟩

def receiptedTables (consumedAt : Option Instant) : WorkerTables where
  jobs := Table.insert Table.empty receiptedRow
  captureOperations := []
  authoritySystemAttempts := [⟨1, .terminal, consumedAt⟩]

theorem waiting_receipt_counted :
    ¬ ∀ (t : WorkerTables) (retryProof : JobRow → Bool) (lanes : LaneArray) (now : Instant),
      lanesValid lanes = true → countClaimableWorkerJobs t retryProof lanes now =
        .ok (t.jobs.rows.countP (claims t retryProof lanes now)) := by
  intro claim
  have equal := claim (receiptedTables none) (fun _ => false) (some [some "default"]) 20 rfl
  revert equal
  decide +kernel

theorem taken_receipt_counted :
    countClaimableWorkerJobs (receiptedTables (some 15)) (fun _ => false) (some [some "default"])
        20 = .ok ((receiptedTables (some 15)).jobs.rows.countP
      (claims (receiptedTables (some 15)) (fun _ => false) (some [some "default"]) 20)) :=
  count_eq_claims_iff.mpr ⟨rfl, by decide +kernel⟩

end Sample

end Kdive.Jobs
