import Kdive.Domain
import Kdive.Lib.Table
import Kdive.Lib.ObjectStore
import Kdive.Lib.Hex
import Kdive.Lib.UuidText
import Mathlib.Data.List.Lex
import Mathlib.Data.List.MinMax
import Mathlib.Data.Prod.Lex

/-!
The image catalog: its rows, the requests that publish into it, the queries that pick a row to adopt
and the updates that hand it to an attempt.
-/
namespace Kdive.Images
open ObjectStore (Bytes)
open JsonText (str)

inductive ImageState where
  | defined | pending | registered
  deriving DecidableEq

inductive ImageVisibility where
  | publicImage | privateImage
  deriving DecidableEq

inductive Suffix where
  | qcow2 | config
  deriving DecidableEq

/-- The components of an object key. No component holds a slash, and the attempt is a UUID between
two dots, so the path they join to has no other reading. -/
structure ImageKey where
  ownerKind : String
  name : String
  arch : String
  attempt : Option Uuid
  suffix : Suffix
  deriving DecidableEq

def Suffix.name : Suffix → String
  | .qcow2 => "qcow2"
  | .config => "config"

def ImageKey.path (key : ImageKey) : List Nat :=
  let attempt := key.attempt.elim [] (fun id => str "." ++ UuidText.text (Fin.ofNat (2 ^ 128) id))
  str "images/" ++ str key.ownerKind ++ str "/" ++ str key.name ++ str "/" ++ str key.arch ++
    attempt ++ str "." ++ str key.suffix.name

inductive Key where
  | image (key : ImageKey)
  | quarantine (path : String)
  deriving DecidableEq

abbrev Checksum := Bytes

def digestSha256 (digest : List Char) : Option Checksum :=
  let value := digest.drop "sha256:".length
  if digest.take "sha256:".length ≠ "sha256:".toList ∨ value.length ≠ 64 then none
  else (Hex.decode value).filter (fun raw => raw.length == 32)

structure PublishRequest where
  provider : String
  name : String
  arch : String
  format : String
  rootDevice : String
  digest : List Char
  capabilities : List String
  provenance : String
  visibility : ImageVisibility
  owner : Option String := none
  expiresAt : Option Instant := none
  kernelConfig : Option Bytes := none
  ownerIffPrivate : (visibility = .privateImage ↔ owner.isSome) := by decide
  expiryIffPrivate : (visibility = .privateImage ↔ expiresAt.isSome) := by decide

structure CatalogRow where
  id : Uuid
  provider : String
  name : String
  arch : String
  format : String
  rootDevice : String
  objectKey : Option ImageKey
  kernelConfigKey : Option ImageKey
  digest : Option (List Char)
  capabilities : List String
  provenance : String
  visibility : ImageVisibility
  owner : Option String
  expiresAt : Option Instant
  state : ImageState
  sizeBytes : Nat
  attempt : Option Uuid
  principal : Option String
  pendingSince : Instant
  createdAt : Instant
  deriving DecidableEq

abbrev Catalog := Table.Keyed CatalogRow Uuid CatalogRow.id

def ownerKindSegment (provider : String) : ImageVisibility → Option String → String
  | .privateImage, some owner => provider ++ "__" ++ owner
  | _, _ => provider

def PublishRequest.key (r : PublishRequest) (suffix : Suffix) (attempt : Uuid) : ImageKey :=
  ⟨ownerKindSegment r.provider r.visibility r.owner, r.name, r.arch, some attempt, suffix⟩

def imageObjectKey (r : PublishRequest) (attempt : Uuid) : ImageKey := r.key .qcow2 attempt

def kernelConfigObjectKey (r : PublishRequest) (attempt : Uuid) : ImageKey := r.key .config attempt

/-- What the reservation writes on its row; `row` is known once it is committed. -/
structure PublishReservation where
  row : Uuid
  attempt : Uuid
  objectKey : ImageKey
  configKey : Option ImageKey
  sizeBytes : Nat
  principal : Option String
  request : PublishRequest

section Adoption

/-- `_adoption_candidate_query`, without its order. -/
def PublishRequest.adopts (r : PublishRequest) (pendingOnly : Bool) (row : CatalogRow) : Bool :=
  row.provider == r.provider && row.name == r.name && row.visibility == r.visibility &&
    row.owner == r.owner &&
    (if pendingOnly then row.state == .pending
     else row.state == .defined || row.state == .pending) &&
    (row.arch == r.arch || (row.visibility == .privateImage && row.state == .pending))

def adoptionRank (row : CatalogRow) : Nat ×ₗ Instant ×ₗ Uuid :=
  toLex (if row.state = .pending then 0 else 1, toLex (row.createdAt, row.id))

/-- The order of the dangling-image repair: `object_key, id`. -/
def repairRank (row : CatalogRow) : List Nat ×ₗ Uuid :=
  toLex ((row.objectKey.map ImageKey.path).getD [], row.id)

def refreshPublishFields (res : PublishReservation) (now : Instant) (row : CatalogRow) :
    CatalogRow :=
  { row with
    state := .pending, objectKey := some res.objectKey, kernelConfigKey := res.configKey,
    digest := some res.request.digest, sizeBytes := res.sizeBytes, pendingSince := now,
    attempt := some res.attempt, principal := res.principal }

def refreshPending (res : PublishReservation) (now : Instant) (row : CatalogRow) : CatalogRow :=
  { refreshPublishFields res now row with
    arch := res.request.arch, format := res.request.format, rootDevice := res.request.rootDevice,
    capabilities := res.request.capabilities, provenance := res.request.provenance,
    expiresAt := res.request.expiresAt }

/-- A public retry keeps the metadata that the configuration owns. -/
def refresh (res : PublishReservation) (now : Instant) (row : CatalogRow) : CatalogRow :=
  if row.state = .pending ∧ res.request.visibility = .privateImage then refreshPending res now row
  else refreshPublishFields res now row

/-- `_insert_pending`. -/
def pendingRow (res : PublishReservation) (now : Instant) : CatalogRow where
  id := res.row
  provider := res.request.provider
  name := res.request.name
  arch := res.request.arch
  format := res.request.format
  rootDevice := res.request.rootDevice
  objectKey := some res.objectKey
  kernelConfigKey := res.configKey
  digest := some res.request.digest
  capabilities := res.request.capabilities
  provenance := res.request.provenance
  visibility := res.request.visibility
  owner := res.request.owner
  expiresAt := res.request.expiresAt
  state := .pending
  sizeBytes := res.sizeBytes
  attempt := some res.attempt
  principal := res.principal
  pendingSince := now
  createdAt := now

end Adoption

section Registration

/-- `assert_reservation_owner`. -/
def PublishReservation.owns (res : PublishReservation) (row : CatalogRow) : Bool :=
  row.id == res.row && row.attempt == some res.attempt && row.state == .pending &&
    row.objectKey == some res.objectKey && row.digest == some res.request.digest &&
    row.sizeBytes == res.sizeBytes

def PublishReservation.registers (res : PublishReservation) (row : CatalogRow) : Bool :=
  row.id == res.row && row.attempt == some res.attempt &&
    row.digest == some res.request.digest && row.objectKey == some res.objectKey

def CatalogRow.registered (row : CatalogRow) (clearConfig : Bool) : CatalogRow :=
  { row with
    state := .registered, attempt := none, principal := none,
    kernelConfigKey := if clearConfig then none else row.kernelConfigKey }

/-- `image_catalog_one_public` and `image_catalog_one_private`. -/
def CatalogRow.sameIdentity (a b : CatalogRow) : Bool :=
  a.visibility == b.visibility && a.provider == b.provider && a.name == b.name &&
    (if a.visibility = .publicImage then a.arch == b.arch else a.owner == b.owner)

def registeredTwin (catalog : Catalog) (row : CatalogRow) : Bool :=
  catalog.rows.any (fun other => other.id != row.id && other.state == .registered && other.sameIdentity row)

end Registration

section Usage

def CatalogRow.charged (project : String) (row : CatalogRow) : Bool :=
  row.visibility == .privateImage && row.owner == some project &&
    (row.state == .pending || row.state == .registered)

def projectUsage (catalog : Catalog) (project : String) (adopting : Option Uuid) : Nat × Nat :=
  let live := catalog.rows.filter (fun row => row.charged project && some row.id != adopting)
  (live.length, (live.map CatalogRow.sizeBytes).sum)

end Usage

end Kdive.Images
