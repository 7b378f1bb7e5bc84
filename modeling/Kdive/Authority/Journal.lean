import Kdive.Authority.Protocol
import Mathlib.Data.List.Basic

/-!
The validation of an authority journal. A record is checked against the state that the records
before it left, and what it changes is a delta on that state, so the state of a journal is a fold
over its records and every front part of a valid journal is valid.
-/
namespace Kdive.Authority

structure JournalError where
  message : String

section Validation

def nextOperationPhases : JournalPhase → List JournalPhase
  | .watermarkInstalled => [.takeoverSuperseded, .takeoverAcknowledged]
  | .takeoverSuperseded => [.watermarkInstalled]
  | .takeoverAcknowledged => [.admitted]
  | .admitted => [.mutationStarted, .terminal]
  | .mutationStarted => [.providerReturned]
  | .providerReturned => [.observed]
  | .observed => [.terminal]
  | .terminal => []

def initialOperationPhases : List JournalPhase :=
  [.watermarkInstalled, .takeoverSuperseded, .admitted]

/-- What the records of one operation must agree on; a takeover record carries no mutation. -/
structure OperationBinding where
  authorityId : Uuid
  generation : Nat
  activationId : Uuid
  runId : Uuid
  planIdentity : Digest
  purpose : Purpose
  operation : AuthorityOperation
  providerKind : String
  operationDigest : Digest
  mutation : Option (Uuid × Option String × Option String × List RecoveryObjectBinding)
  deriving DecidableEq

def JournalRecord.operationBinding (r : JournalRecord) : OperationBinding where
  authorityId := r.authorityId
  generation := r.generation
  activationId := r.activationId
  runId := r.runId
  planIdentity := r.planIdentity
  purpose := r.purpose
  operation := r.operation
  providerKind := r.providerKind
  operationDigest := r.operationDigest
  mutation := if r.phase.takeover then none else
    some (r.attemptId, r.expectedSourceIdentity, r.intendedTargetIdentity, r.recoveryObjects)

abbrev OperationKey := Nat × String

def JournalRecord.operationKey (r : JournalRecord) : OperationKey :=
  (r.generation, r.operationIdentity)

/-- `_ValidationState`; a dict is a partial function and a set its indicator. -/
structure ValidationState where
  previousDigest : Digest := genesisDigest
  lane : Option (String × Uuid) := none
  ownership : String → Option (Uuid × Uuid) := fun _ => none
  operationPhases : OperationKey → Option JournalPhase := fun _ => none
  operationBindings : OperationKey → Option OperationBinding := fun _ => none
  watermarks : Nat → Option JournalRecord := fun _ => none
  consumedWatermarks : OperationKey → Bool := fun _ => false
  count : Nat := 0

structure ValidationDelta where
  lane : Option (String × Uuid)
  generation : Nat
  operationIdentity : String
  operationBinding : Option OperationBinding
  phase : JournalPhase
  watermark : Option (Nat × JournalRecord)
  consumedWatermark : Option OperationKey
  ownership : List (String × (Uuid × Uuid))
  previousDigest : Digest

variable (digest : JournalRecord → Digest)

def linkedWatermark (state : ValidationState) (r : JournalRecord) :
    Except JournalError (Option OperationKey) :=
  if r.phase = .takeoverSuperseded ∨ r.phase = .takeoverAcknowledged then
    let linked := if r.phase = .takeoverSuperseded then r.predecessorGeneration
      else some r.generation
    match linked with
    | none => .error ⟨"authority journal takeover watermark link is invalid"⟩
    | some generation =>
      match state.watermarks generation with
      | none => .error ⟨"authority journal takeover watermark link is invalid"⟩
      | some watermark =>
        if r.watermarkSequence ≠ some watermark.sequence ∨
            r.watermarkDigest ≠ some (digest watermark) ∨
            (r.phase = .takeoverAcknowledged ∧ r.operationIdentity ≠ watermark.operationIdentity)
        then .error ⟨"authority journal takeover watermark link is invalid"⟩
        else if state.consumedWatermarks (generation, watermark.operationIdentity) then
          .error ⟨"authority journal watermark is already superseded"⟩
        else .ok (some (generation, watermark.operationIdentity))
  else .ok none

def newOwnership (state : ValidationState) :
    List RecoveryObjectBinding → Except JournalError (List (String × (Uuid × Uuid)))
  | [] => .ok []
  | item :: rest =>
    match state.ownership item.reference with
    | some owner =>
      if owner ≠ (item.systemId, item.activationId) then
        .error ⟨"authority journal recovery ownership changed"⟩
      else newOwnership state rest
    | none => (newOwnership state rest).map
        (fun owned => (item.reference, (item.systemId, item.activationId)) :: owned)

def prepareRecord (state : ValidationState) (r : JournalRecord) :
    Except JournalError ValidationDelta := do
  if r.sequence ≠ state.count + 1 then
    throw ⟨"authority journal sequence is not contiguous"⟩
  if r.previousDigest ≠ state.previousDigest then
    throw ⟨"authority journal digest chain is invalid"⟩
  let current := (r.authorityInstance, r.systemId)
  if state.lane.any (fun lane => lane ≠ current) then
    throw ⟨"authority journal contains a foreign lane"⟩
  let link ← linkedWatermark digest state r
  let prior := state.operationPhases r.operationKey
  let allowed := match prior with
    | none => initialOperationPhases
    | some phase => nextOperationPhases phase
  if r.phase ∉ allowed then throw ⟨"authority journal phase ordering is invalid"⟩
  let binding := r.operationBinding
  let known := state.operationBindings r.operationKey
  if known ≠ some binding ∧ known ≠ none ∧
      ¬ (prior = some .takeoverAcknowledged ∧ r.phase = .admitted) then
    throw ⟨"authority journal operation binding changed"⟩
  if r.phase = .watermarkInstalled ∧ (state.watermarks r.generation).isSome then
    throw ⟨"authority journal generation has multiple watermarks"⟩
  let ownership ← newOwnership state r.recoveryObjects
  return {
    lane := if state.lane.isNone then some current else none
    generation := r.generation
    operationIdentity := r.operationIdentity
    operationBinding := if known ≠ some binding then some binding else none
    phase := r.phase
    watermark := if r.phase = .watermarkInstalled then some (r.generation, r) else none
    consumedWatermark := if r.phase = .takeoverSuperseded then link else none
    ownership := ownership
    previousDigest := digest r }

/-- `dict.update` with the pairs in order. -/
def updateOwnership (owned : String → Option (Uuid × Uuid)) :
    List (String × (Uuid × Uuid)) → String → Option (Uuid × Uuid)
  | [] => owned
  | (reference, owner) :: rest =>
    updateOwnership (Function.update owned reference (some owner)) rest

def applyDelta (state : ValidationState) (delta : ValidationDelta) : ValidationState :=
  let key := (delta.generation, delta.operationIdentity)
  { previousDigest := delta.previousDigest
    lane := delta.lane.or state.lane
    ownership := updateOwnership state.ownership delta.ownership
    operationPhases := Function.update state.operationPhases key (some delta.phase)
    operationBindings := match delta.operationBinding with
      | some binding => Function.update state.operationBindings key (some binding)
      | none => state.operationBindings
    watermarks := match delta.watermark with
      | some (generation, watermark) =>
        Function.update state.watermarks generation (some watermark)
      | none => state.watermarks
    consumedWatermarks := match delta.consumedWatermark with
      | some consumed => Function.update state.consumedWatermarks consumed true
      | none => state.consumedWatermarks
    count := state.count + 1 }

def validateRecord (state : ValidationState) (r : JournalRecord) :
    Except JournalError ValidationState :=
  (prepareRecord digest state r).map (applyDelta state)

/-- `_validate_records`, from a state. -/
def validateFrom (state : ValidationState) (records : List JournalRecord) :
    Except JournalError ValidationState :=
  records.foldlM (validateRecord digest) state

def validateRecords (records : List JournalRecord) : Except JournalError ValidationState :=
  validateFrom digest {} records

end Validation

section Fronts

variable {digest : JournalRecord → Digest}

theorem validateFrom_append (state : ValidationState) (front back : List JournalRecord) :
    validateFrom digest state (front ++ back) =
      (validateFrom digest state front).bind (fun mid => validateFrom digest mid back) := by
  simp only [validateFrom, List.foldlM_append]
  rfl

theorem validateRecords_append_singleton (records : List JournalRecord) (r : JournalRecord) :
    validateRecords digest (records ++ [r]) =
      (validateRecords digest records).bind (fun state => validateRecord digest state r) := by
  rw [validateRecords, validateFrom_append, validateRecords]
  cases validateFrom digest {} records with
  | error e => rfl
  | ok state =>
    simp only [Except.bind, validateFrom, List.foldlM_cons, List.foldlM_nil]
    cases validateRecord digest state r <;> rfl

theorem validateRecords_take {records : List JournalRecord} {state : ValidationState}
    (valid : validateRecords digest records = .ok state) (k : Nat) :
    ∃ earlier, validateRecords digest (records.take k) = .ok earlier := by
  have split : validateRecords digest (records.take k ++ records.drop k) = .ok state := by
    rw [List.take_append_drop]
    exact valid
  rw [validateRecords, validateFrom_append] at split
  cases front : validateFrom digest {} (records.take k) with
  | error e =>
    rw [front] at split
    cases split
  | ok earlier => exact ⟨earlier, front⟩

end Fronts

end Kdive.Authority
