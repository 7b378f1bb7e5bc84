import Kdive.Domain

/-!
Values of the external-boot authority protocol: who may change a System, and the records of the
journal that every change of it goes through.
-/
namespace Kdive.Authority

abbrev Digest := String

def genesisDigest : Digest :=
  "sha256:0000000000000000000000000000000000000000000000000000000000000000"

inductive Purpose where
  | activate | recover | resolveConflict | release | teardown
  deriving DecidableEq

inductive AuthorityOperation where
  | materialize | prepare | activate | recover | resolveConflict | release | cleanup | teardown
  | deadline | recoveryAttempt | fail
  deriving DecidableEq

inductive ObservationCategory where
  | absent | source | target | mixed | unreadable | conflict
  deriving DecidableEq

inductive Outcome where
  | neverBegan | absent | source | target | conflict
  deriving DecidableEq

inductive JournalPhase where
  | watermarkInstalled | takeoverSuperseded | takeoverAcknowledged | admitted | mutationStarted
  | providerReturned | observed | terminal
  deriving DecidableEq

def JournalPhase.takeover : JournalPhase → Bool
  | .watermarkInstalled | .takeoverSuperseded | .takeoverAcknowledged => true
  | _ => false

structure RecoveryObjectBinding where
  systemId : Uuid
  activationId : Uuid
  reference : String
  deriving DecidableEq

structure AuthorityObservation where
  observationId : Uuid
  category : ObservationCategory
  compositeState : Digest
  deriving DecidableEq

/-- `_AuthorityBinding`: the facts that every request and every record carry. -/
structure RequestBinding where
  authorityId : Uuid
  generation : Nat
  systemId : Uuid
  activationId : Uuid
  runId : Uuid
  planIdentity : Digest
  purpose : Purpose
  operation : AuthorityOperation
  providerKind : String
  authorityInstance : String
  operationIdentity : String
  operationDigest : Digest
  deriving DecidableEq

structure JournalRecord extends RequestBinding where
  sequence : Nat
  previousDigest : Digest
  phase : JournalPhase
  attemptId : Uuid
  localTiming : Option String := none
  predecessorGeneration : Option Nat := none
  watermarkSequence : Option Nat := none
  watermarkDigest : Option Digest := none
  expectedSourceIdentity : Option String := none
  intendedTargetIdentity : Option String := none
  recoveryObjects : List RecoveryObjectBinding := []
  observation : Option AuthorityObservation := none
  outcome : Option Outcome := none
  deriving DecidableEq

end Kdive.Authority
