import Kdive.Images.Publish

/-!
What takes private images away: the expiry of those past their deadline, and `images.delete`.
-/
namespace Kdive.Images
open ObjectStore (Bytes)

section Expiry

def deleteVersions (key : Key) : List Nat → ImageProgram Unit
  | [] => pure ()
  | version :: rest => do
    storeCall (.deleteVersion key version)
    deleteVersions key rest

def deleteLatest (key : Key) (batch : VersionBatch) : ImageProgram Bool := do
  if batch.complete then
    deleteVersions key (((batch.targets.filter (·.2)).map Prod.fst).take 1)
    pure true
  else pure false

def deleteBatch (key : Key) (batch : VersionBatch) : ImageProgram Bool := do
  deleteVersions key ((batch.targets.filter (!·.2)).map Prod.fst)
  deleteLatest key batch

def deleteRetiredKeyBatch (key : Key) (limit : Nat) : ImageProgram Bool := do
  let batch ← storeCall (.captureExactVersions key limit)
  deleteBatch key batch

def leaveToLater (e : ImageError) : ImageProgram Bool :=
  match e with
  | .categorized _ _ _ => pure false
  | e => Calls.throw e

def deleteRetired : Option ImageKey → ImageProgram Bool
  | none => pure true
  | some key => Calls.rescue (deleteRetiredKeyBatch (.image key) 20) leaveToLater

def pruneLocked (row : Uuid) (objectKey configKey : Option ImageKey) : ImageProgram Bool := do
  let image ← deleteRetired objectKey
  let config ← deleteRetired configKey
  if image && config then
    database (.deleteRow row)
    pure true
  else
    database .endTransaction
    pure false

/-- `referenced` is what `image_referenced_by_live_system` finds of a row. -/
def expireOnePrivateImage (referenced : Uuid → Bool) (candidate : Expiry) : ImageProgram Bool := do
  let now ← database .begin
  match ← selectForUpdate (.expired candidate.id now) with
  | none =>
    database .endTransaction
    pure false
  | some row =>
    if referenced row.id then
      database .endTransaction
      pure false
    else pruneLocked row.id candidate.objectKey candidate.configKey

def expireAll (referenced : Uuid → Bool) : List Expiry → ImageProgram Nat
  | [] => pure 0
  | candidate :: rest => do
    let pruned ← expireOnePrivateImage referenced candidate
    let others ← expireAll referenced rest
    pure (others + if pruned then 1 else 0)

def repairExpiredPrivateImages (referenced : Uuid → Bool) : ImageProgram Nat := do
  let now ← database .begin
  let candidates ← database (.expiries now)
  database .endTransaction
  expireAll referenced candidates

end Expiry

section Delete

inductive DeleteResponse where
  | deleted
  | configError
  | denied
  | failure (category : ErrorCategory) (reason : String)

def deleteOwned (referenced : Uuid → Bool) (row : Uuid) : ImageProgram DeleteResponse := do
  let _ ← database .begin
  match ← selectForUpdate (.privateImage row) with
  | none =>
    database .endTransaction
    pure .deleted
  | some locked =>
    if locked.state = .pending ∧ locked.attempt.isSome then
      database .endTransaction
      pure (.failure .conflict "image publication is still in progress")
    else if referenced row then
      database .endTransaction
      pure (.failure .configurationError "image is referenced by a non-terminal System")
    else
      database (.deleteRow row)
      pure .deleted

/-- `operator` is whether the caller has that role in the image's project. -/
def deleteImage (referenced : Uuid → Bool) (operator : String → Bool) (row : Uuid) :
    ImageProgram DeleteResponse := do
  match ← database (.getRow row) with
  | none => pure .configError
  | some entry =>
    match entry.visibility, entry.owner with
    | .privateImage, some project =>
      if operator project then deleteOwned referenced row else pure .denied
    | _, _ => pure .configError

end Delete

section Operations

variable (settings : Settings)

inductive PrivateOperation where
  | upload (request : PrivateUploadRequest) (now : Instant)
  | repair (grace : Duration)
  | expire (referenced : Uuid → Bool)
  | delete (referenced : Uuid → Bool) (operator : String → Bool) (row : Uuid)
  | wait (delay : Nat)

inductive PrivateResult where
  | registered (row : CatalogRow)
  | repaired (count : Nat)
  | pruned (count : Nat)
  | responded (response : DeleteResponse)
  | done

def privateProgram : PrivateOperation → ImageProgram PrivateResult
  | .upload request now => do
    let row ← registerPrivateUpload settings request now
    pure (.registered row)
  | .repair grace => do
    let count ← repairDanglingImages grace
    pure (.repaired count)
  | .expire referenced => do
    let count ← repairExpiredPrivateImages referenced
    pure (.pruned count)
  | .delete referenced operator row => do
    let response ← deleteImage referenced operator row
    pure (.responded response)
  | .wait delay => do
    database (.advance delay)
    pure .done

end Operations

end Kdive.Images
