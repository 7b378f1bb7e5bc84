import Kdive.Domain
import Kdive.Lib.Json
import Kdive.Lib.Sweep

/-!
The inventory: the parsed `systems.toml` document, the rows that reconciliation writes, and what it
reads besides them. Numbers are exact. A table is read in the order of its rows, and an updated row
keeps its place.
-/
namespace Kdive.Inventory
open Json (Dict)

inductive ResourceKind where
  | localLibvirt | faultInject | remoteLibvirt | byoHost
  deriving DecidableEq

def ResourceKind.value : ResourceKind → String
  | .localLibvirt => "local-libvirt"
  | .faultInject => "fault-inject"
  | .remoteLibvirt => "remote-libvirt"
  | .byoHost => "byo-host"

theorem ResourceKind.value_injective : Function.Injective ResourceKind.value := by
  intro a b same
  cases a <;> cases b <;> first | rfl | exact absurd same (by decide)

inductive ManagedBy where
  | config | discovery | runtime
  deriving DecidableEq

inductive ImageState where
  | defined | pending | registered
  deriving DecidableEq

inductive ImageVisibility where
  | publicImage | privateImage
  deriving DecidableEq

section Document

inductive ImageSource where
  | s3 (objectKey : String) (digest : Option String)
  | build (base : String) (components : List String)
  | staged (volume : String)
  | stagedPath (path : String)
  deriving DecidableEq

structure AttestedProvenance where
  bootKernelCount : Option Nat := none
  makedumpfileVersion : Option String := none

def AttestedProvenance.asProvenance (a : AttestedProvenance) : Dict :=
  .of ((a.bootKernelCount.map (fun n => ("boot_kernel_count", Json.ofNat n))).toList ++
    ((a.makedumpfileVersion.filter (· ≠ "")).map
      (fun v => ("makedumpfile_version", Json.text v))).toList)

structure ImageEntry where
  provider : String
  name : String
  arch : String
  format : String
  rootDevice : String
  visibility : ImageVisibility
  capabilities : List String
  source : ImageSource
  description : String := ""
  attested : Option AttestedProvenance := none

abbrev ImageIdentity := String × String × String

def ImageEntry.identity (e : ImageEntry) : ImageIdentity := (e.provider, e.name, e.arch)

structure LocalLibvirtInstance where
  name : String
  costClass : String
  concurrentAllocationCap : Int := 1
  pool : String := "default"
  hostUri : String

structure FaultInjectInstance where
  name : String
  costClass : String
  concurrentAllocationCap : Int := 1
  pool : String := "default"
  vcpus : Int
  memoryMb : Int

structure RemoteLibvirtInstance where
  name : String
  costClass : String
  concurrentAllocationCap : Int := 1
  pool : String := "default"
  uri : String
  baseImage : String
  vcpus : Int
  memoryMb : Int

structure ByoHostOob where
  kind : String
  endpoint : String
  usernameRef : String
  passwordRef : String
  managedSystem : Option String := none
  lparName : Option String := none

structure ByoHostInstance where
  name : String
  costClass : String := "byo"
  concurrentAllocationCap : Int := 1
  pool : String := "default"
  arch : String
  sshTarget : String
  sshKeyRef : String
  oob : ByoHostOob
  baselineKernel : String
  consoleDevice : String
  vcpus : Int
  memoryMb : Int
  pseriesFadump : Bool := false

def ByoHostInstance.modelDump (i : ByoHostInstance) : List (String × Json) :=
  [("arch", .text i.arch), ("baseline_kernel", .text i.baselineKernel),
    ("concurrent_allocation_cap", .ofInt i.concurrentAllocationCap),
    ("console_device", .text i.consoleDevice), ("cost_class", .text i.costClass),
    ("memory_mb", .ofInt i.memoryMb), ("name", .text i.name),
    ("oob", .object [("endpoint", .text i.oob.endpoint), ("kind", .text i.oob.kind),
      ("lpar_name", .ofOption i.oob.lparName), ("managed_system", .ofOption i.oob.managedSystem),
      ("password_ref", .text i.oob.passwordRef), ("username_ref", .text i.oob.usernameRef)]),
    ("pool", .text i.pool), ("pseries_fadump", .ofBool i.pseriesFadump),
    ("ssh_key_ref", .text i.sshKeyRef), ("ssh_target", .text i.sshTarget),
    ("vcpus", .ofInt i.vcpus)]

structure CostClassEntry where
  name : String
  coeff : ℚ

structure InventoryDoc where
  image : List ImageEntry := []
  remoteLibvirt : List RemoteLibvirtInstance := []
  localLibvirt : List LocalLibvirtInstance := []
  faultInject : List FaultInjectInstance := []
  costClass : List CostClassEntry := []
  byoHost : List ByoHostInstance := []

def ByoHostOob.coordinates (o : ByoHostOob) : String × Option String × Option String :=
  if o.kind = "hmc" then (o.endpoint, o.managedSystem, o.lparName) else (o.endpoint, none, none)

structure InventoryDoc.Checked (doc : InventoryDoc) : Prop where
  images : (doc.image.map ImageEntry.identity).Nodup
  baseImages : ∀ i ∈ doc.remoteLibvirt, i.baseImage ∈ doc.image.map ImageEntry.name
  remotes : (doc.remoteLibvirt.map RemoteLibvirtInstance.name).Nodup
  locals : (doc.localLibvirt.map LocalLibvirtInstance.name).Nodup
  faults : (doc.faultInject.map FaultInjectInstance.name).Nodup
  byos : (doc.byoHost.map ByoHostInstance.name).Nodup
  costClasses : (doc.costClass.map CostClassEntry.name).Nodup
  sshTargets : (doc.byoHost.map ByoHostInstance.sshTarget).Nodup
  partitions : ((doc.byoHost.filter (fun i => i.oob.kind = "hmc")).map
    (fun i => i.oob.coordinates)).Nodup
  controllers : ((doc.byoHost.filter (fun i => i.oob.kind ≠ "hmc")).map
    (fun i => i.oob.coordinates)).Nodup

end Document

section Rows

structure ResourceRow where
  id : Uuid
  kind : ResourceKind
  name : Option String
  hostUri : String
  costClass : String
  capabilities : Option Dict
  pool : String
  managedBy : ManagedBy
  leaseExpiresAt : Option Instant := none
  ownerProject : Option String := none
  affinityAllowlist : List String := []
  cordoned : Bool := false
  deriving DecidableEq

structure ConfigFields where
  format : String
  rootDevice : String
  visibility : ImageVisibility
  capabilities : List String
  description : Option String
  deriving DecidableEq

/-- The columns that realizing an image writes; `provenance` is `none` where it is no object. -/
structure RuntimeFields where
  state : ImageState
  objectKey : Option String
  volume : Option String
  path : Option String
  digest : Option String
  provenance : Option Dict
  provenanceAttested : Bool
  kernelConfigKey : Option String
  deriving DecidableEq

structure ImageRow where
  id : Uuid
  identity : ImageIdentity
  config : ConfigFields
  runtime : RuntimeFields
  managedBy : ManagedBy
  owner : Option String := none
  publicationAttemptId : Option Uuid := none
  deriving DecidableEq

structure Coefficient where
  costClass : String
  coeff : ℚ
  deriving DecidableEq

inductive Disposition where
  | detached | removed
  deriving DecidableEq

abbrev ResourceIdentity := String × String

structure InventoryOverride where
  identity : ResourceIdentity
  disposition : Disposition
  deriving DecidableEq

structure Catalog where
  resources : List ResourceRow
  images : List ImageRow
  coefficients : List Coefficient
  overrides : List InventoryOverride
  deriving DecidableEq

def ResourceRow.identity (r : ResourceRow) : Option (ResourceKind × String) :=
  r.name.map (fun name => (r.kind, name))

def ImageRow.slot (r : ImageRow) : Option (ImageState × ImageIdentity) :=
  if r.config.visibility = .publicImage ∧ r.runtime.state ≠ .pending then
    some (r.runtime.state, r.identity)
  else none

/-- `image_private_owner` and `image_object_present`. -/
def ImageRow.Admissible (r : ImageRow) : Prop :=
  (r.config.visibility = .privateImage ↔ r.owner.isSome) ∧
    [r.runtime.objectKey, r.runtime.volume, r.runtime.path].countP Option.isSome =
      if r.runtime.state = .defined then 0 else 1

instance (r : ImageRow) : Decidable r.Admissible := inferInstanceAs (Decidable (_ ∧ _))

structure ImagesValid (rows : List ImageRow) : Prop where
  ids : (rows.map ImageRow.id).Nodup
  slots : (rows.filterMap ImageRow.slot).Nodup
  admissible : ∀ r ∈ rows, r.Admissible
  ownerless : ∀ r ∈ rows, r.managedBy = .config → r.owner = none

/-- The constraints on resource rows; a discovered host is never config-managed. -/
structure ResourcesValid (rows : List ResourceRow) : Prop where
  ids : (rows.map ResourceRow.id).Nodup
  names : (rows.filterMap ResourceRow.identity).Nodup
  discovered : ∀ r ∈ rows, r.kind = .localLibvirt → r.managedBy ≠ .config

/-- The constraints of the schema, and the ownership that every writer keeps. -/
structure Catalog.Valid (c : Catalog) : Prop where
  images : ImagesValid c.images
  resources : ResourcesValid c.resources
  classes : (c.coefficients.map Coefficient.costClass).Nodup
  ledger : (c.overrides.map InventoryOverride.identity).Nodup

end Rows

section Reports

structure ReconcileRecord where
  name : String
  entry : String
  detail : String := ""
  deriving DecidableEq

structure ReconcileDiff where
  created : List ReconcileRecord := []
  updated : List ReconcileRecord := []
  pruned : List ReconcileRecord := []
  cordoned : List ReconcileRecord := []
  warned : List ReconcileRecord := []
  deriving DecidableEq

inductive ReconcileError where
  | uniqueViolation | checkViolation | foreignKeyViolation
  | inventoryError (table field message : String)
  deriving DecidableEq

abbrev Pass := Except ReconcileError (Catalog × ReconcileDiff)

/-- Nothing was written, and nothing reported as created, updated or pruned. -/
structure Quiet (before after : Catalog × ReconcileDiff) : Prop where
  catalog : after.1 = before.1
  created : after.2.created = before.2.created
  updated : after.2.updated = before.2.updated
  pruned : after.2.pruned = before.2.pruned

theorem Quiet.refl (s : Catalog × ReconcileDiff) : Quiet s s := ⟨rfl, rfl, rfl, rfl⟩

theorem Quiet.trans {s t u : Catalog × ReconcileDiff} (first : Quiet s t) (second : Quiet t u) :
    Quiet s u :=
  ⟨second.catalog.trans first.catalog, second.created.trans first.created,
    second.updated.trans first.updated, second.pruned.trans first.pruned⟩

end Reports

structure RootSpec where
  architecture : String
  authority : String
  sourceKind : String
  identity : String

/-- What reconciliation reads and does not write: the object store, the files beside staged images,
and the rows that refer to the inventory. -/
structure Surroundings where
  /-- `head_present`; `none` where the store cannot be reached. -/
  headPresent : String → Option Bool
  /-- Whether the captured config can be put under the key. -/
  putArtifact : String → Bool
  readSidecar : String → Option Dict
  /-- Whether a staged path has a config sibling. -/
  readConfigSibling : String → Bool
  rootSpec : Json → Option RootSpec
  imageReferenced : ImageRow → Bool
  allocations : List (Uuid × AllocationState)
  /-- Some row other than an allocation holds a restricting foreign key on the resource. -/
  otherReference : Uuid → Bool
  isAlnum : Char → Bool
  decimalText : ℚ → String
  /-- `gen_random_uuid()`, given the ids in use. -/
  freshId : List Uuid → Uuid
  fresh : ∀ ids, freshId ids ∉ ids

def Surroundings.liveAllocation (env : Surroundings) (id : Uuid) : Bool :=
  env.allocations.any (fun a => a.1 = id ∧ a.2.terminal = false)

def Surroundings.anyAllocation (env : Surroundings) (id : Uuid) : Bool :=
  env.allocations.any (fun a => a.1 = id)

def Surroundings.referenced (env : Surroundings) (id : Uuid) : Bool :=
  env.anyAllocation id || env.otherReference id

end Kdive.Inventory
