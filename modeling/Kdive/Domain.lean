import Mathlib.Order.Basic

/-!
Vocabulary shared by every subsystem: identifiers, the database clock, the closed set
of failure categories and the durable lifecycles with their legal transitions.
-/
namespace Kdive

abbrev Uuid := Nat

abbrev Instant := Int

abbrev Duration := Int

def hour : Duration := 3600 * 1000000

inductive ErrorCategory where
  | configurationError | missingDependency | buildFailure | bootTimeout | readinessFailure
  | debugAttachFailure | infrastructureFailure | staleHandle | transportConflict
  | notImplemented | notFound | conflict | allocationDenied | quotaExceeded | leaseExpired
  | queueTimeout | provisioningFailure | installFailure | transportFailure | controlFailure
  | authorizationDenied | capacityExhausted | symbolNotFound | restoreIncomplete
  | reprovisionIncomplete
  deriving DecidableEq

inductive JobState where
  | queued | running | succeeded | failed | canceled
  deriving DecidableEq

inductive RunState where
  | created | running | succeeded | failed | canceled
  deriving DecidableEq

inductive AllocationState where
  | requested | granted | active | releasing | released | expired | failed
  deriving DecidableEq

inductive SystemState where
  | provisioning | ready | reprovisioning | restoring | paused | crashing | crashed | tearingDown
  | tornDown | failed
  deriving DecidableEq

inductive InvestigationState where
  | opened | active | closed | abandoned
  deriving DecidableEq

def JobState.next : JobState → List JobState
  | .queued => [.running, .canceled]
  | .running => [.succeeded, .failed, .canceled, .queued]
  | .succeeded => []
  | .failed => []
  | .canceled => []

def AllocationState.next : AllocationState → List AllocationState
  | .requested => [.granted, .released, .failed]
  | .granted => [.active, .releasing, .expired, .failed]
  | .active => [.releasing, .expired, .failed]
  | .releasing => [.released, .failed]
  | .released => []
  | .expired => []
  | .failed => []

def RunState.next : RunState → List RunState
  | .created => [.running, .canceled]
  | .running => [.succeeded, .failed, .canceled]
  | .succeeded => [.failed]
  | .failed => []
  | .canceled => []

def SystemState.next : SystemState → List SystemState
  | .provisioning => [.ready, .failed, .tearingDown]
  | .ready => [.crashing, .tearingDown, .reprovisioning, .restoring, .failed]
  | .reprovisioning => [.ready, .failed]
  | .restoring => [.ready, .paused, .tearingDown, .failed]
  | .paused => [.ready, .tearingDown, .failed]
  | .crashing => [.crashed, .failed, .tearingDown]
  | .crashed => [.tearingDown, .failed]
  | .tearingDown => [.tornDown]
  | .tornDown => []
  | .failed => []

def RunState.value : RunState → String
  | .created => "created"
  | .running => "running"
  | .succeeded => "succeeded"
  | .failed => "failed"
  | .canceled => "canceled"

def SystemState.value : SystemState → String
  | .provisioning => "provisioning"
  | .ready => "ready"
  | .reprovisioning => "reprovisioning"
  | .restoring => "restoring"
  | .paused => "paused"
  | .crashing => "crashing"
  | .crashed => "crashed"
  | .tearingDown => "tearing_down"
  | .tornDown => "torn_down"
  | .failed => "failed"

def InvestigationState.value : InvestigationState → String
  | .opened => "open"
  | .active => "active"
  | .closed => "closed"
  | .abandoned => "abandoned"

def AllocationState.value : AllocationState → String
  | .requested => "requested"
  | .granted => "granted"
  | .active => "active"
  | .releasing => "releasing"
  | .released => "released"
  | .expired => "expired"
  | .failed => "failed"

def AllocationState.terminal (s : AllocationState) : Bool := s.next.isEmpty

def AllocationState.occupying : AllocationState → Bool
  | .granted => true
  | .active => true
  | .releasing => true
  | _ => false

end Kdive
