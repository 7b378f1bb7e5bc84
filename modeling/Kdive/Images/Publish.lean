import Kdive.Images.Catalog
import Kdive.Lib.Calls
import Mathlib.Data.List.Sort

/-!
Publishing as a program of transactions and store calls: the reservation, the object write under the
publication fence, the registration. Private uploads reserve under the project's lock and quota; the
dangling-image repair takes the same fence, row by row, in its own transactions.

A `SELECT … FOR UPDATE` takes a snapshot first and then locks the rows of it one after the other,
asking each again whether it still matches. What a transaction writes, it writes in its last
statement, which is served together with the commit.
-/
namespace Kdive.Images
open ObjectStore (Bytes Store Object Head)

section State

/-- Whoever holds a publication lock, and whether for the session or for the transaction. -/
structure Hold where
  holder : Nat
  session : Bool

structure Registration where
  row : CatalogRow
  object : Option (Nat × Object Key Checksum)

structure Stored where
  attempt : Uuid
  version : Nat

structure QuotaRequest where
  project : String
  request : PublishRequest
  newBytes : Nat

structure QuotaReading where
  asked : QuotaRequest
  adopting : Option Uuid
  catalog : Catalog
  reservations : List PublishReservation

/-- The committed catalog, the store, the locks, and the history: which process each attempt was
issued to, what the attempts reserved, which of them were adopted, what was registered and stored;
whose ownership check passed and who has not registered since, and who was told that its reservation
no longer owns its row; and the readings of the projects' usage. -/
structure State where
  catalog : Catalog
  store : Store Key Checksum
  clock : Instant
  publishLocks : Uuid → Option Hold
  projectLocks : String → Option Nat
  rowLocks : Uuid → Option Nat
  nextId : Uuid
  issued : Uuid → Option Nat
  reservations : List PublishReservation
  adopted : List Uuid
  registrations : List Registration
  stored : List Stored
  checked : Nat → Option PublishReservation
  refused : Nat → Bool
  readings : List QuotaReading

structure Settings where
  sha256 : Bytes → Checksum
  maxCount : Nat
  maxBytes : Nat
  lifetimeMax : Duration
  /-- The guest contract that a staged image is validated against. -/
  conforms : List String → Bytes → Bool

end State

section Requests

structure Candidate where
  id : Uuid
  state : ImageState
  attempt : Option Uuid

structure Expiry where
  id : Uuid
  objectKey : Option ImageKey
  configKey : Option ImageKey

/-- Versions of one key, each with whether it is the latest; `complete` if there are no others. -/
structure VersionBatch where
  targets : List (Nat × Bool)
  complete : Bool

inductive Selection where
  | adoption (request : PublishRequest) (pendingOnly : Bool)
  | repair (candidate : Candidate) (before : Instant)
  | expired (row : Uuid) (now : Instant)
  | privateImage (row : Uuid)

def Selection.holds : Selection → CatalogRow → Bool
  | .adoption request pendingOnly, row => request.adopts pendingOnly row
  | .repair candidate before, row =>
    row.id == candidate.id && row.state == candidate.state && row.attempt == candidate.attempt &&
      row.objectKey.isSome && row.state != .defined && decide (row.pendingSince < before)
  | .expired id now, row =>
    row.id == id && row.visibility == .privateImage && row.state != .pending &&
      row.expiresAt.any (fun expiry => decide (expiry < now))
  | .privateImage id, row => row.id == id && row.visibility == .privateImage

inductive Registering where
  | registered (row : CatalogRow)
  | superseded
  | duplicate

inductive Request where
  | newId
  | begin
  | endTransaction
  | lockProject (project : String)
  | registeredName (request : PublishRequest)
  | projectUsage (asked : QuotaRequest) (adopting : Option Uuid)
  | snapshot (selection : Selection)
  | lockRow (selection : Selection) (row : Uuid)
  | reserve (reservation : PublishReservation) (adopting : Bool) (now : Instant)
  | lockPublish (row : Uuid)
  | tryLockPublish (row : Uuid)
  | unlockPublish (row : Uuid)
  | assertOwner (reservation : PublishReservation)
  | register (reservation : PublishReservation) (clearConfig : Bool)
  | candidates (before : Instant)
  | registerRow (row : Uuid) (clearConfig : Bool)
  | deleteRow (row : Uuid)
  | put (attempt : Uuid) (key : Key) (content : Bytes) (checksum : Option Checksum)
  | head (key : Key)
  | get (key : Key)
  | deleteVersion (key : Key) (version : Nat)
  | getRow (row : Uuid)
  | expiries (now : Instant)
  | captureExactVersions (key : Key) (limit : Nat)
  | advance (delay : Nat)

@[reducible] def Request.Answer : Request → Type
  | .newId => Uuid
  | .begin => Instant
  | .registeredName _ => Bool
  | .projectUsage _ _ => Nat × Nat
  | .snapshot _ => List Uuid
  | .lockRow _ _ => Option CatalogRow
  | .tryLockPublish _ => Bool
  | .assertOwner _ => Bool
  | .register _ _ => Registering
  | .candidates _ => List Candidate
  | .registerRow _ _ => Registering
  | .put _ _ _ _ => Bool
  | .head _ => Option (Head Checksum)
  | .get _ => Option Bytes
  | .getRow _ => Option CatalogRow
  | .expiries _ => List Expiry
  | .captureExactVersions _ _ => VersionBatch
  | _ => Unit

end Requests

namespace State

variable (settings : Settings)

def endTransaction (s : State) (i : Nat) : State :=
  { s with
    publishLocks := fun row =>
      (s.publishLocks row).filter (fun hold => hold.holder != i || hold.session)
    projectLocks := fun project => (s.projectLocks project).filter (· != i)
    rowLocks := fun row => (s.rowLocks row).filter (· != i) }

def endSession (s : State) (i : Nat) : State :=
  { s.endTransaction i with
    publishLocks := fun row => (s.publishLocks row).filter (·.holder != i)
    checked := Function.update s.checked i none }

def updateRow (s : State) (id : Uuid) (f : CatalogRow → CatalogRow) (keeps : ∀ r, (f r).id = r.id) :
    State :=
  { s with catalog := Table.update s.catalog (fun row => row.id == id) f keeps }

theorem refresh_id (res : PublishReservation) (now : Instant) (row : CatalogRow) :
    (refresh res now row).id = row.id := by
  unfold refresh
  split <;> rfl

def claimed (s : State) (res : PublishReservation) (adopting : Bool) (now : Instant) : State :=
  if adopting then s.updateRow res.row (refresh res now) (refresh_id res now)
  else { s with catalog := Table.insert s.catalog (pendingRow res now) }

def previousAttempt (s : State) (res : PublishReservation) (adopting : Bool) : Option Uuid :=
  if adopting then (Table.find s.catalog res.row).bind CatalogRow.attempt else none

def reserving (s : State) (res : PublishReservation) (adopting : Bool) (now : Instant) : State :=
  { s.claimed res adopting now with
    reservations := s.reservations ++ [res]
    adopted := s.adopted ++ (s.previousAttempt res adopting).toList }

/-- `_adopt_or_insert_pending` from the row it found on, with the commit. -/
def reserve (s : State) (i : Nat) (res : PublishReservation) (adopting : Bool) (now : Instant) :
    State := (s.reserving res adopting now).endTransaction i

def flip (s : State) (row : CatalogRow) (clearConfig : Bool) : State :=
  let registration : Registration :=
    ⟨row, row.objectKey.bind (fun key => s.store.find (.image key) none)⟩
  { s.updateRow row.id (·.registered clearConfig) (fun _ => rfl) with
    registrations := s.registrations ++ [registration] }

/-- `_registered` and the end of its transaction, rolled back unless a row was updated. -/
def register (s : State) (i : Nat) (res : PublishReservation) (clearConfig : Bool) :
    Registering × State :=
  let finished := { s with checked := Function.update s.checked i none }.endTransaction i
  match (Table.find s.catalog res.row).filter res.registers with
  | none => (.superseded, { finished with refused := Function.update s.refused i true })
  | some row =>
    if registeredTwin s.catalog row then (.duplicate, finished)
    else (.registered (row.registered clearConfig), finished.flip row clearConfig)

def registerRow (s : State) (i : Nat) (id : Uuid) (clearConfig : Bool) : Registering × State :=
  match Table.find s.catalog id with
  | none => (.superseded, s.endTransaction i)
  | some row =>
    if registeredTwin s.catalog row then (.duplicate, s.endTransaction i)
    else (.registered (row.registered clearConfig), (s.endTransaction i).flip row clearConfig)

def ordered (rows : List CatalogRow) : List CatalogRow :=
  rows.insertionSort (fun a b => adoptionRank a ≤ adoptionRank b)

/-- `_registered_private_name_conflict`. -/
def registeredName (s : State) (r : PublishRequest) : Bool :=
  s.catalog.rows.any (fun row => row.owner.isSome && row.owner == r.owner &&
    row.provider == r.provider && row.name == r.name && row.visibility == .privateImage &&
    row.state == .registered)

def candidates (s : State) (before : Instant) : List Candidate :=
  ((s.catalog.rows.filter (fun row => row.objectKey.isSome && row.state != .defined &&
    decide (row.pendingSince < before))).insertionSort (fun a b => repairRank a ≤ repairRank b)).map
      (fun row => ⟨row.id, row.state, row.attempt⟩)

def expiries (s : State) (now : Instant) : List Expiry :=
  (s.catalog.rows.filter (fun row => row.visibility == .privateImage && row.state != .pending &&
    row.expiresAt.any (fun expiry => decide (expiry < now)))).map
      (fun row => ⟨row.id, row.objectKey, row.kernelConfigKey⟩)

def captureExactVersions (s : State) (key : Key) (limit : Nat) : VersionBatch :=
  let versions := (List.range s.store.objects.length).filter (fun v => (s.store.live key v).isSome)
  let marked := versions.map (fun v => (v, s.store.latest key == some v))
  if versions.length ≤ limit then ⟨marked, true⟩
  else ⟨(marked.filter (·.2) ++ marked.filter (!·.2)).take limit, false⟩

def rowFree (s : State) (i : Nat) (row : Uuid) : Bool := (s.rowLocks row).all (· == i)

def publishFree (s : State) (i : Nat) (row : Uuid) : Bool :=
  (s.publishLocks row).all (·.holder == i)

/-- The store keeps an object only if its content has the checksum the writer announced. -/
def put (s : State) (attempt : Uuid) (key : Key) (content : Bytes) (checksum : Option Checksum) :
    Bool × State :=
  if checksum.all (· == settings.sha256 content) then
    let stored : Stored := ⟨attempt, s.store.objects.length⟩
    (true, { s with store := s.store.put ⟨key, content, checksum, false⟩
                    stored := s.stored ++ [stored] })
  else (false, s)

def serve (s : State) (i : Nat) : (r : Request) → Option (r.Answer × State)
  | .newId =>
    some (s.nextId, { s with
      nextId := s.nextId + 1
      issued := Function.update s.issued s.nextId (some i) })
  | .begin => some (s.clock, s)
  | .endTransaction => some ((), s.endTransaction i)
  | .lockProject project =>
    if (s.projectLocks project).all (· == i) then
      some ((), { s with projectLocks := Function.update s.projectLocks project (some i) })
    else none
  | .registeredName request => some (s.registeredName request, s)
  | .projectUsage asked adopting =>
    let reading : QuotaReading := ⟨asked, adopting, s.catalog, s.reservations⟩
    some (projectUsage s.catalog asked.project adopting, { s with readings := s.readings ++ [reading] })
  | .snapshot selection =>
    some ((ordered (s.catalog.rows.filter selection.holds)).map CatalogRow.id, s)
  | .lockRow selection row =>
    if s.rowFree i row then
      match (Table.find s.catalog row).filter selection.holds with
      | some found => some (some found, { s with rowLocks := Function.update s.rowLocks row (some i) })
      | none => some (none, s)
    else none
  | .reserve res adopting now =>
    if s.rowFree i res.row then some ((), s.reserve i res adopting now) else none
  | .lockPublish row =>
    if s.publishFree i row then
      some ((), { s with publishLocks := Function.update s.publishLocks row (some ⟨i, true⟩) })
    else none
  | .tryLockPublish row =>
    if s.publishFree i row then
      let hold := (s.publishLocks row).getD ⟨i, false⟩
      some (true, { s with publishLocks := Function.update s.publishLocks row (some hold) })
    else some (false, s)
  | .unlockPublish row =>
    some ((), { s with
      publishLocks := Function.update s.publishLocks row
        ((s.publishLocks row).filter (·.holder != i))
      checked := Function.update s.checked i none })
  | .assertOwner res =>
    if (Table.find s.catalog res.row).any res.owns then
      some (true, { s with checked := Function.update s.checked i (some res) })
    else some (false, { s with refused := Function.update s.refused i true })
  | .register res clearConfig =>
    if s.rowFree i res.row then some (s.register i res clearConfig) else none
  | .candidates before => some (s.candidates before, s)
  | .registerRow row clearConfig =>
    if s.rowFree i row then some (s.registerRow i row clearConfig) else none
  | .deleteRow row =>
    if s.rowFree i row then
      some ((), { s with catalog := Table.delete s.catalog (·.id == row) }.endTransaction i)
    else none
  | .put attempt key content checksum => some (s.put settings attempt key content checksum)
  | .head key => some (s.store.head key none, s)
  | .get key => some ((s.store.find key none).map (·.2.content), s)
  | .deleteVersion _ version => some ((), { s with store := s.store.remove version })
  | .getRow row => some (Table.find s.catalog row, s)
  | .expiries now => some (s.expiries now, s)
  | .captureExactVersions key limit => some (s.captureExactVersions key limit, s)
  | .advance delay => some ((), { s with clock := s.clock + delay })

end State

def service (settings : Settings) : Calls.Service State Request Request.Answer where
  serve i s r := s.serve settings i r
  leave i _ s := s.endSession i

section Programs

inductive Detail where
  | id (n : Uuid)
  | key (key : ImageKey)
  | text (t : String)
  | digest (t : List Char)
  | nat (n : Nat)

/-- A categorized error, or one of the database driver or the interpreter. -/
inductive ImageError where
  | categorized (category : ErrorCategory) (message : String) (details : List (String × Detail))
  | database
  | uniqueViolation
  | runtime (message : String)
  | value (message : String)

abbrev ImageProgram := Calls.Program Request Request.Answer ImageError

def database (r : Request) : ImageProgram r.Answer := Calls.demand .database r

def infrastructureFailure (message : String) (details : List (String × Detail)) : ImageError :=
  .categorized .infrastructureFailure message details

def storeCall (r : Request) : ImageProgram r.Answer :=
  Calls.demand (infrastructureFailure "object store request failed" []) r

def lockFirst (selection : Selection) : List Uuid → ImageProgram (Option CatalogRow)
  | [] => pure none
  | id :: rest => do
    match ← database (.lockRow selection id) with
    | some row => pure (some row)
    | none => lockFirst selection rest

def selectForUpdate (selection : Selection) : ImageProgram (Option CatalogRow) := do
  let ids ← database (.snapshot selection)
  lockFirst selection ids

section Reservation

def digestError (digest : List Char) : ImageError :=
  .categorized .configurationError "image digest must be sha256:<64 hexadecimal digits>"
    [("digest", .digest digest)]

def reservation (request : PublishRequest) (sizeBytes : Nat) (principal : Option String)
    (attempt row : Uuid) : PublishReservation where
  row := row
  attempt := attempt
  objectKey := imageObjectKey request attempt
  configKey := request.kernelConfig.map (fun _ => kernelConfigObjectKey request attempt)
  sizeBytes := sizeBytes
  principal := if request.visibility = .privateImage then principal else none
  request := request

def adoptOrInsertPending (request : PublishRequest) (sizeBytes : Nat) (principal : Option String)
    (attempt : Uuid) (now : Instant) : ImageProgram PublishReservation := do
  match ← selectForUpdate (.adoption request false) with
  | some existing =>
    let res := reservation request sizeBytes principal attempt existing.id
    database (.reserve res true now)
    pure res
  | none =>
    let row ← database .newId
    let res := reservation request sizeBytes principal attempt row
    database (.reserve res false now)
    pure res

/-- `transaction` opens the transaction of the reservation, or is the one around it. -/
def reservePublish (request : PublishRequest) (sizeBytes : Nat) (principal : Option String)
    (transaction : ImageProgram Instant) : ImageProgram PublishReservation := do
  if request.visibility = .privateImage ∧ principal = none then
    Calls.throw (.value "private image reservation requires a principal")
  else if (digestSha256 request.digest).isNone then Calls.throw (digestError request.digest)
  else
    let attempt ← database .newId
    let now ← transaction
    adoptOrInsertPending request sizeBytes principal attempt now

end Reservation

section Fence

def supersededError (res : PublishReservation) : ImageError :=
  .categorized .conflict ("this publish's reservation no longer owns its catalog row; a " ++
    "concurrent publish of the same image identity superseded it, or the reconciler reclaimed " ++
    "it past the publish deadline") [("row_id", .id res.row), ("object_key", .key res.objectKey)]

def ownedBody {α : Type} (res : PublishReservation) (body : ImageProgram α) : ImageProgram α := do
  if ← database (.assertOwner res) then body else Calls.throw (supersededError res)

def publicationFence {α : Type} (res : PublishReservation) (body : ImageProgram α) : ImageProgram α := do
  database (.lockPublish res.row)
  Calls.ensure (ownedBody res body) (database (.unlockPublish res.row))

end Fence

section Write

variable (settings : Settings)

def hexText (bytes : Bytes) : List Char :=
  bytes.flatMap (fun byte => [Nat.digitChar (byte.toNat / 16), Nat.digitChar (byte.toNat % 16)])

def sha256Text (data : Bytes) : List Char := "sha256:".toList ++ hexText (settings.sha256 data)

def headGateFailed (message : String) (res : PublishReservation) : ImageError :=
  infrastructureFailure message [("object_key", .key res.objectKey)]

/-- Never raises: a config that could not be written is not offered. -/
def writeConfigBestEffort (res : PublishReservation) : ImageProgram Bool := do
  match res.configKey, res.request.kernelConfig with
  | some key, some config =>
    match ← Calls.ask (Request.put res.attempt (.image key) config none) with
    | some true =>
      match ← Calls.ask (Request.head (.image key)) with
      | some (some _) => pure true
      | _ => pure false
    | _ => pure false
  | _, _ => pure false

def headGate (res : PublishReservation) (data : Bytes) (head : Option (Head Checksum)) :
    ImageProgram Unit :=
  match head with
  | none =>
    Calls.throw (headGateFailed
      "published image object is not present after write (HEAD gate failed)" res)
  | some head =>
    if head.size = data.length ∧ head.checksum.isSome ∧
        head.checksum = digestSha256 res.request.digest then pure ()
    else Calls.throw (headGateFailed ("published image object does not match its declared size " ++
      "and checksum after write (HEAD gate failed)") res)

def writePublishObject (res : PublishReservation) (data : Bytes) : ImageProgram Bool := do
  if sha256Text settings data ≠ res.request.digest then
    Calls.throw (.categorized .configurationError
      "published image bytes do not match the declared content digest"
      [("declared", .digest res.request.digest), ("actual", .digest (sha256Text settings data))])
  else
    let accepted ← storeCall (.put res.attempt (.image res.objectKey) data
      (digestSha256 res.request.digest))
    if !accepted then Calls.throw (infrastructureFailure "object store request failed" [])
    else
      let head ← storeCall (.head (.image res.objectKey))
      headGate res data head
      writeConfigBestEffort res

end Write

section Publish

variable (settings : Settings)

def finishPublish (res : PublishReservation) (configWritten : Bool) : ImageProgram CatalogRow := do
  match ← database (.register res (res.configKey.isSome && !configWritten)) with
  | .registered row => pure row
  | .superseded => Calls.throw (supersededError res)
  | .duplicate => Calls.throw .uniqueViolation

def publishImage (request : PublishRequest) (source : Bytes) (principal : Option String) :
    ImageProgram CatalogRow := do
  let res ← reservePublish request source.length principal (database .begin)
  publicationFence res (do
    let configWritten ← writePublishObject settings res source
    finishPublish res configWritten)

end Publish

section Upload

variable (settings : Settings)

structure PrivateUploadRequest where
  project : String
  principal : String
  name : String
  provider : String
  arch : String
  quarantineKey : String
  expiresAt : Instant
  required : List String

def registeredPrivateNameConflict (name : String) : ImageError :=
  .categorized .conflict ("private image '" ++ name ++ "' is already registered in this project; " ++
    "use images.list to find its authorized image ID, delete it with images.delete, " ++
    "wait for deletion, then retry images.upload") []

def quotaDenial (project : String) (count usedBytes newBytes : Nat) : Option ImageError :=
  if count + 1 > settings.maxCount then
    some (.categorized .quotaExceeded ("project '" ++ project ++ "' is at its private-image count cap")
      [("used", .nat count), ("cap", .nat settings.maxCount)])
  else if usedBytes + newBytes > settings.maxBytes then
    some (.categorized .quotaExceeded
      ("project '" ++ project ++ "' would exceed its private-image bytes cap")
      [("used_bytes", .nat usedBytes), ("new_bytes", .nat newBytes),
        ("cap_bytes", .nat settings.maxBytes)])
  else none

def reserveUnderQuota (request : PublishRequest) (project principal : String) (newBytes : Nat) :
    ImageProgram PublishReservation := do
  let now ← database .begin
  database (.lockProject project)
  if ← database (.registeredName request) then
    database .endTransaction
    Calls.throw (registeredPrivateNameConflict request.name)
  else
    let adopting ← selectForUpdate (.adoption request true)
    let usage ← database
      (.projectUsage ⟨project, request, newBytes⟩ (adopting.map CatalogRow.id))
    match quotaDenial settings project usage.1 usage.2 newBytes with
    | none => reservePublish request newBytes (some principal) (pure now)
    | some denial =>
      database .endTransaction
      Calls.throw denial

def publishUnderQuota (request : PublishRequest) (project principal : String) (source : Bytes) :
    ImageProgram CatalogRow := do
  let res ← reserveUnderQuota settings request project principal source.length
  publicationFence res (do
    let configWritten ← writePublishObject settings res source
    let _ ← database .begin
    database (.lockProject project)
    finishPublish res configWritten)

/-- `validate_key_component`. -/
def validComponent (value : String) : Bool :=
  value ≠ "" && value.toList.all (fun c => c != '/' && decide (0x20 ≤ c.toNat))

def invalidComponent : ImageError :=
  .categorized .configurationError "artifact key component has an illegal character" []

def PrivateUploadRequest.publishRequest (upload : PrivateUploadRequest) (digest : List Char)
    (now : Instant) : PublishRequest where
  provider := upload.provider
  name := upload.name
  arch := upload.arch
  format := "qcow2"
  rootDevice := "/dev/vda"
  digest := digest
  capabilities := upload.required
  provenance := "upload " ++ upload.principal ++ " " ++ upload.quarantineKey
  visibility := .privateImage
  owner := some upload.project
  expiresAt := some (min upload.expiresAt (now + settings.lifetimeMax))
  ownerIffPrivate := by simp
  expiryIffPrivate := by simp

/-- `now` is the worker's clock. -/
def registerPrivateUpload (upload : PrivateUploadRequest) (now : Instant) : ImageProgram CatalogRow := do
  if !([upload.provider, upload.name, upload.arch, upload.project].all validComponent) then
    Calls.throw invalidComponent
  else
    match ← storeCall (.head (.quarantine upload.quarantineKey)) with
    | none => Calls.throw (.categorized .staleHandle
        ("quarantined upload object '" ++ upload.quarantineKey ++ "' is gone")
        [("key", .text upload.quarantineKey)])
    | some head =>
      if head.size > settings.maxBytes then
        Calls.throw (.categorized .quotaExceeded
          "uploaded image exceeds the per-project private-image bytes cap"
          [("size_bytes", .nat head.size), ("cap_bytes", .nat settings.maxBytes)])
      else
        match ← storeCall (.get (.quarantine upload.quarantineKey)) with
        | none => Calls.throw (.categorized .staleHandle "object is gone"
            [("key", .text upload.quarantineKey)])
        | some data =>
          if !settings.conforms upload.required data then
            Calls.throw (.categorized .configurationError "guest contract violated" [])
          else
            let request := upload.publishRequest settings (sha256Text settings data) now
            publishUnderQuota settings request upload.project upload.principal data

end Upload

section Repair

def repairRegisteredCandidate (entry : CatalogRow) (present : Bool) : ImageProgram Bool := do
  if present then
    database .endTransaction
    pure false
  else
    database (.deleteRow entry.id)
    pure true

/-- `_repair_pending_candidate`'s evidence that the object is the attempt's own. -/
def validEvidence (entry : CatalogRow) (head : Head Checksum) : Bool :=
  let expected := entry.digest.bind digestSha256
  expected.isSome && head.size == entry.sizeBytes && head.checksum == expected &&
    !(entry.visibility == .privateImage && entry.principal.isNone)

def configAbsent (entry : CatalogRow) : ImageProgram Bool := do
  match entry.kernelConfigKey with
  | some key => return (← storeCall (.head (.image key))).isNone
  | none => pure false

def registerEntry (entry : CatalogRow) (clearConfig : Bool) : ImageProgram Bool := do
  match ← database (.registerRow entry.id clearConfig) with
  | .registered _ => pure true
  | .superseded => Calls.throw (.runtime "locked image publication disappeared before registration")
  | .duplicate => Calls.throw .uniqueViolation

def recoverPending (entry : CatalogRow) : ImageProgram Bool := do
  let clearConfig ← configAbsent entry
  registerEntry entry clearConfig

def reclaimInvalid (entry : CatalogRow) (key : ImageKey) (version : Nat) : ImageProgram Bool := do
  storeCall (.deleteVersion (.image key) version)
  match ← storeCall (.head (.image key)) with
  | some _ =>
    database .endTransaction
    pure false
  | none =>
    database (.deleteRow entry.id)
    pure true

def repairPendingCandidate (entry : CatalogRow) (key : ImageKey) (head : Option (Head Checksum)) :
    ImageProgram Bool := do
  match head with
  | none =>
    database (.deleteRow entry.id)
    pure true
  | some head =>
    if validEvidence entry head then recoverPending entry
    else reclaimInvalid entry key head.version

def repairLocked (entry : CatalogRow) : ImageProgram Bool := do
  match entry.objectKey with
  | none => Calls.throw (.runtime "locked image repair candidate has no object key")
  | some key =>
    let head ← storeCall (.head (.image key))
    match entry.state with
    | .registered => repairRegisteredCandidate entry head.isSome
    | .pending => repairPendingCandidate entry key head
    | .defined =>
      database .endTransaction
      pure false

def repairImageCandidate (grace : Duration) (candidate : Candidate) : ImageProgram Bool := do
  let now ← database .begin
  if ← database (.tryLockPublish candidate.id) then
    match ← selectForUpdate (.repair candidate (now - grace)) with
    | some entry => repairLocked entry
    | none =>
      database .endTransaction
      pure false
  else
    database .endTransaction
    pure false

def skipCategorized (e : ImageError) : ImageProgram Bool := do
  match e with
  | .categorized _ _ _ =>
    database .endTransaction
    pure false
  | e => Calls.throw e

def repairAll (grace : Duration) : List Candidate → ImageProgram Nat
  | [] => pure 0
  | candidate :: rest => do
    let terminal ← Calls.rescue (repairImageCandidate grace candidate) skipCategorized
    let others ← repairAll grace rest
    pure (others + if terminal then 1 else 0)

def repairDanglingImages (grace : Duration) : ImageProgram Nat := do
  let now ← database .begin
  let candidates ← database (.candidates (now - grace))
  database .endTransaction
  repairAll grace candidates

end Repair

section Operations

variable (settings : Settings)

inductive Operation where
  | publish (request : PublishRequest) (source : Bytes) (principal : Option String)
  | upload (request : PrivateUploadRequest) (now : Instant)
  | repair (grace : Duration)
  | wait (delay : Nat)

inductive Result where
  | registered (row : CatalogRow)
  | repaired (count : Nat)
  | done

def program : Operation → ImageProgram Result
  | .publish request source principal => do
    let row ← publishImage settings request source principal
    pure (.registered row)
  | .upload request now => do
    let row ← registerPrivateUpload settings request now
    pure (.registered row)
  | .repair grace => do
    let count ← repairDanglingImages grace
    pure (.repaired count)
  | .wait delay => do
    database (.advance delay)
    pure .done

end Operations

end Programs

end Kdive.Images
