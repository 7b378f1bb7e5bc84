import Kdive.Inventory.Records

/-!
The image pass. Config rows are loaded once and keyed by identity, so of several rows of one
identity the last one read counts. What a row is realized to depends on the row itself: a realized
object is kept, provenance and config key are kept where nothing new is known.
-/
namespace Kdive.Inventory
open Json (Dict)

section Realizing

variable (env : Surroundings) (entry : ImageEntry) (row : Option ImageRow)

inductive S3Head where
  | notS3 | noDigest | present | absent | unreachable
  deriving DecidableEq

def S3Head.ofAnswer : Option Bool → S3Head
  | none => .unreachable
  | some true => .present
  | some false => .absent

def resolveS3Head : S3Head :=
  match entry.source with
  | .s3 objectKey digest =>
    if row.any (fun r => r.runtime.state = .registered ∧ r.runtime.volume = none) then .notS3
    else if digest = none then .noDigest
    else .ofAnswer (env.headPresent objectKey)
  | _ => .notS3

def rowProvenance : Dict := (row.bind (fun r => r.runtime.provenance)).getD ∅

def rowAttested : Bool := row.any (fun r => r.runtime.provenanceAttested)

def volumeChanged : Bool :=
  row.any (fun r => r.runtime.volume.any (fun volume => entry.source ≠ .staged volume))

def resolveProvenance : Dict × Bool :=
  let provenance :=
    if volumeChanged entry row then (rowProvenance row).erase "root_spec" else rowProvenance row
  match entry.source, entry.attested with
  | .s3 _ _, some attested => (attested.asProvenance, true)
  | .stagedPath path, _ =>
    match env.readSidecar path with
    | some sidecar => (sidecar, false)
    | none => (provenance, rowAttested row)
  | _, _ => (provenance, rowAttested row)

def configKey : String := s!"images/{entry.provider}/{entry.name}/{entry.arch}.config"

def resolveKernelConfigKey : Option String :=
  match row.bind (fun r => r.runtime.kernelConfigKey), entry.source with
  | some key, _ => some key
  | none, .stagedPath path =>
    if env.readConfigSibling path ∧ env.putArtifact (configKey entry) then some (configKey entry)
    else none
  | none, _ => none

def stagedPathDigest (provenance : Dict) : Option String × Option String :=
  match provenance.lookup "root_spec" with
  | none => (none, none)
  | some .null => (none, none)
  | some raw =>
    match env.rootSpec raw with
    | none => (none, some s!"{entry.name}: staged root provenance is malformed; digest not promoted")
    | some root =>
      if root.architecture ≠ entry.arch then
        (none, some (s!"{entry.name}: staged root provenance architecture does not match " ++
          "inventory; digest not promoted"))
      else if root.authority ≠ "stage-inspection" ∨ root.sourceKind ≠ "staged-image" then
        (none, some (s!"{entry.name}: staged root provenance is not mechanically inspected; " ++
          "digest not promoted"))
      else (some root.identity, none)

structure Placement where
  state : ImageState
  objectKey : Option String
  volume : Option String
  digest : Option String

def Placement.unrealized : Placement := ⟨.defined, none, none, none⟩

def ImageRow.placement (r : ImageRow) : Placement :=
  ⟨r.runtime.state, r.runtime.objectKey, r.runtime.volume, r.runtime.digest⟩

def realizeBuild (row : Option ImageRow) : Placement × Option String :=
  match row.filter (fun r => r.runtime.state = .registered) with
  | some r => (r.placement, none)
  | none => (.unrealized, some (s!"{entry.name}: build source not yet realized; row stays " ++
      "defined until a build runs"))

def realizeS3 (row : Option ImageRow) (objectKey : String) (digest : Option String)
    (head : S3Head) : Placement × Option String :=
  match row.filter (fun r => r.runtime.state = .registered), head with
  | some r, _ => (r.placement, none)
  | none, .noDigest => (.unrealized, some (s!"{entry.name}: s3 source has no digest; row stays " ++
      "defined (cannot register)"))
  | none, .unreachable => (.unrealized, some (s!"{entry.name}: object store unreachable; row " ++
      "stays defined until s3 is up"))
  | none, .absent => (.unrealized, some (s!"{entry.name}: s3 object {objectKey} absent; row " ++
      "stays defined"))
  | none, _ => (⟨.registered, some objectKey, none, digest⟩, none)

def built (p : Placement) (path : Option String) : RuntimeFields :=
  ⟨p.state, p.objectKey, p.volume, path, p.digest, some (resolveProvenance env entry row).1,
    (resolveProvenance env entry row).2, resolveKernelConfigKey env entry row⟩

def stagedDigest (volume : String) : Option String :=
  let inspected := (stagedPathDigest env entry (resolveProvenance env entry row).1).1
  if row.any (fun r => r.runtime.volume = some volume ∧ inspected = r.runtime.digest) then inspected
  else none

def realize : RuntimeFields × Option String :=
  let prior := row.filter (fun r => r.runtime.volume = none)
  match entry.source with
  | .stagedPath path =>
    let (digest, warning) := stagedPathDigest env entry (resolveProvenance env entry row).1
    (built env entry row ⟨.registered, none, none, digest⟩ (some path), warning)
  | .staged volume =>
    (built env entry row ⟨.registered, none, some volume, stagedDigest env entry row volume⟩ none,
      none)
  | .build _ _ =>
    let (p, warning) := realizeBuild entry prior
    (built env entry row p none, warning)
  | .s3 objectKey digest =>
    let (p, warning) := realizeS3 entry prior objectKey digest (resolveS3Head env entry row)
    (built env entry row p none, warning)

def ImageEntry.config : ConfigFields :=
  ⟨entry.format, entry.rootDevice, entry.visibility, entry.capabilities,
    if entry.description = "" then none else some entry.description⟩

end Realizing

section Statements

/-- `_load_config_rows` at one identity. -/
def existing (rows : List ImageRow) (identity : ImageIdentity) : Option ImageRow :=
  rows.reverse.find? (fun r => r.managedBy = .config ∧ r.identity = identity)

def checkedImages (c : Catalog) (rows : List ImageRow) : Except ReconcileError Catalog :=
  if ∃ r ∈ rows, ¬ r.Admissible then .error .checkViolation
  else if ¬ (rows.filterMap ImageRow.slot).Nodup then .error .uniqueViolation
  else .ok { c with images := rows }

def setImage (rows : List ImageRow) (id : Uuid) (f : ImageRow → ImageRow) : List ImageRow :=
  rows.map (fun r => if r.id = id then f r else r)

def imageRecord (entry : ImageEntry) (detail : String := "") : ReconcileRecord :=
  ⟨entry.name, s!"image[{entry.provider}/{entry.name}/{entry.arch}]", detail⟩

def ReconcileDiff.warn (diff : ReconcileDiff) (entry : ImageEntry) :
    Option String → ReconcileDiff
  | none => diff
  | some warning => { diff with warned := diff.warned ++ [imageRecord entry warning] }

def persistConfigFields (c : Catalog) (row : ImageRow) (desired : ConfigFields) :
    Except ReconcileError Catalog :=
  checkedImages c (setImage c.images row.id (fun r => { r with config := desired }))

def ImageRow.unmoved (row current : ImageRow) : Bool :=
  current.id = row.id ∧ current.runtime.state = row.runtime.state ∧
    current.publicationAttemptId = row.publicationAttemptId ∧
    current.runtime.volume = row.runtime.volume ∧ current.runtime.digest = row.runtime.digest ∧
    current.runtime.provenance = some (rowProvenance (some row))

def persistRuntimeFields (c : Catalog) (row : ImageRow) (realized : RuntimeFields) :
    Except ReconcileError (Catalog × Bool) :=
  if c.images.any row.unmoved then
    (checkedImages c (setImage c.images row.id (fun r => { r with runtime := realized }))).map
      (fun c => (c, true))
  else .ok (c, false)

end Statements

section Entries

variable (env : Surroundings)

def createEntry (entry : ImageEntry) (s : Catalog × ReconcileDiff) : Pass := do
  let (realized, warning) := realize env entry none
  let row : ImageRow := ⟨env.freshId (s.1.images.map ImageRow.id), entry.identity, entry.config,
    realized, .config, none, none⟩
  let c ← checkedImages s.1 (s.1.images ++ [row])
  return (c, { s.2 with created := s.2.created ++ [imageRecord entry] }.warn entry warning)

def deferredWarning (entry : ImageEntry) : String :=
  s!"{entry.name}: runtime realization deferred because the catalog row is pending or changed " ++
    "after inventory loaded it; retry inventory reconcile"

def updateConfig (entry : ImageEntry) (row : ImageRow) (c : Catalog) :
    Except ReconcileError (Catalog × Bool) :=
  if row.config = entry.config then .ok (c, false)
  else (persistConfigFields c row entry.config).map
    (fun next => (next, c.images.any (fun r => r.id = row.id)))

def updateRuntime (row : ImageRow) (realized : RuntimeFields) (c : Catalog) :
    Except ReconcileError (Catalog × Bool × Bool) :=
  if row.runtime = realized then .ok (c, false, false)
  else if row.runtime.state = .pending then .ok (c, false, true)
  else (persistRuntimeFields c row realized).map (fun next => (next.1, next.2, !next.2))

def updateEntry (entry : ImageEntry) (row : ImageRow) (s : Catalog × ReconcileDiff) : Pass := do
  let (realized, warning) := realize env entry (some row)
  let (c, configUpdated) ← updateConfig entry row s.1
  let (c, runtimeUpdated, deferred) ← updateRuntime row realized c
  let diff := if configUpdated || runtimeUpdated then
      { s.2 with updated := s.2.updated ++ [imageRecord entry] }
    else s.2
  return (c, diff.warn entry (if deferred then some (deferredWarning entry) else warning))

def upsertEntry (loaded : List ImageRow) (entry : ImageEntry) (s : Catalog × ReconcileDiff) :
    Pass :=
  match existing loaded entry.identity with
  | none => createEntry env entry s
  | some row => updateEntry env entry row s

/-- `prune_or_cordon_image` and the report of its outcome. -/
def pruneImage (loaded : List ImageRow) (identity : ImageIdentity) (s : Catalog × ReconcileDiff) :
    Pass :=
  match existing loaded identity with
  | none => .ok s
  | some row =>
    let record : ReconcileRecord :=
      ⟨identity.2.1, s!"image[{identity.1}/{identity.2.1}/{identity.2.2}]", ""⟩
    match s.1.images.find? (fun r => r.id = row.id ∧ r.managedBy = .config) with
    | none => .ok s
    | some r =>
      if r.runtime.state = .pending then .ok s
      else if env.imageReferenced r then
        .ok (s.1, { s.2 with cordoned := s.2.cordoned ++ [record] })
      else .ok ({ s.1 with images := s.1.images.filter (fun other => other.id ≠ row.id) },
        { s.2 with pruned := s.2.pruned ++ [record] })

def departedImages (doc : InventoryDoc) (loaded : List ImageRow) : List ImageIdentity :=
  (((loaded.filter (fun r => r.managedBy = .config)).map ImageRow.identity).dedup).filter
    (fun identity => identity ∉ doc.image.map ImageEntry.identity)

def reconcileImages (doc : InventoryDoc) (s : Catalog × ReconcileDiff) : Pass := do
  let loaded := s.1.images
  let s ← Sweep.run (upsertEntry env loaded) doc.image s
  Sweep.run (pruneImage env loaded) (departedImages doc loaded) s

end Entries

end Kdive.Inventory
