import Kdive.Inventory.Records

/-!
The resource pass, the coefficient pass and the clean-up of the override ledger. The resource pass
upserts the config-owned kinds, overlays the discovered local hosts, names the discovered rows that
no instance claims and prunes the config rows that left the document. It reads the ledger once, at
its start; the clean-up reads the rows that the pass left.
-/
namespace Kdive.Inventory
open Json (Dict)

section Declared

structure DeclaredResource where
  kind : ResourceKind
  name : String
  hostUri : String
  costClass : String
  caps : Dict
  pool : String

structure ConfigResourceUpsert where
  declared : DeclaredResource
  adoptByHost : Bool := false
  discoveryOwnedKeys : List String := []
  detached : Bool := false

def DeclaredResource.identity (d : DeclaredResource) : ResourceIdentity := (d.kind.value, d.name)

def disposition (overrides : List InventoryOverride) (identity : ResourceIdentity) :
    Option Disposition :=
  (overrides.find? (fun o => o.identity = identity)).map InventoryOverride.disposition

def vcpusKey : String := "vcpus"

def memoryMbKey : String := "memory_mb"

def concurrentAllocationCapKey : String := "concurrent_allocation_cap"

def declaredCaps (vcpus memoryMb cap : Int) : Dict :=
  .of [(vcpusKey, .ofInt vcpus), (memoryMbKey, .ofInt memoryMb),
    (concurrentAllocationCapKey, .ofInt cap)]

def faultInjectHostUri : String := "fault-inject://local"

def FaultInjectInstance.declared (i : FaultInjectInstance) : DeclaredResource :=
  ⟨.faultInject, i.name, faultInjectHostUri, i.costClass,
    declaredCaps i.vcpus i.memoryMb i.concurrentAllocationCap, i.pool⟩

def RemoteLibvirtInstance.declared (i : RemoteLibvirtInstance) : DeclaredResource :=
  ⟨.remoteLibvirt, i.name, i.uri, i.costClass,
    declaredCaps i.vcpus i.memoryMb i.concurrentAllocationCap, i.pool⟩

def ByoHostInstance.guestArches (i : ByoHostInstance) : Json :=
  .object [(i.arch, .object [("accel", .text "none"), ("emulator", .text "none")])]

def ByoHostInstance.declared (i : ByoHostInstance) : DeclaredResource :=
  ⟨.byoHost, i.name, i.sshTarget, i.costClass,
    (declaredCaps i.vcpus i.memoryMb i.concurrentAllocationCap).merge
      (.of [("guest_arches", i.guestArches), ("pseries_fadump", .ofBool i.pseriesFadump),
        ("byo_host", .object i.modelDump)]), i.pool⟩

def upsertOf (overrides : List InventoryOverride) (d : DeclaredResource) (adoptByHost : Bool)
    (owned : List String) : Option ConfigResourceUpsert :=
  match disposition overrides d.identity with
  | some .removed => none
  | some .detached => some ⟨d, adoptByHost, owned, true⟩
  | none => some ⟨d, adoptByHost, owned, false⟩

def faultInjectUpsert (overrides : List InventoryOverride) (i : FaultInjectInstance) :
    Option ConfigResourceUpsert :=
  upsertOf overrides i.declared false []

def remoteLibvirtUpsert (overrides : List InventoryOverride) (i : RemoteLibvirtInstance) :
    Option ConfigResourceUpsert :=
  upsertOf overrides i.declared true [vcpusKey, memoryMbKey]

def byoHostUpsert (overrides : List InventoryOverride) (i : ByoHostInstance) :
    Option ConfigResourceUpsert :=
  upsertOf overrides i.declared false []

def configResourceUpserts (doc : InventoryDoc) (overrides : List InventoryOverride) :
    List ConfigResourceUpsert :=
  doc.faultInject.filterMap (faultInjectUpsert overrides) ++
    doc.remoteLibvirt.filterMap (remoteLibvirtUpsert overrides) ++
    doc.byoHost.filterMap (byoHostUpsert overrides)

def declaredConfigIdentities (doc : InventoryDoc) : List ResourceIdentity :=
  doc.faultInject.map (fun i => i.declared.identity) ++
    doc.remoteLibvirt.map (fun i => i.declared.identity) ++
    doc.byoHost.map (fun i => i.declared.identity)

end Declared

section Upserting

def resourceRecord (kind : ResourceKind) (name : String) (detail : String) : ReconcileRecord :=
  ⟨name, s!"resource[{kind.value}/{name}]", detail⟩

def checkedResources (c : Catalog) (rows : List ResourceRow) : Except ReconcileError Catalog :=
  if (rows.filterMap ResourceRow.identity).Nodup then .ok { c with resources := rows }
  else .error .uniqueViolation

def setResource (rows : List ResourceRow) (id : Uuid) (f : ResourceRow → ResourceRow) :
    List ResourceRow :=
  rows.map (fun r => if r.id = id then f r else r)

def findNamed (rows : List ResourceRow) (kind : ResourceKind) (name : String) :
    Option ResourceRow :=
  rows.find? (fun r => r.kind = kind ∧ r.name = some name)

def findExisting (rows : List ResourceRow) (u : ConfigResourceUpsert) : Option ResourceRow :=
  match findNamed rows u.declared.kind u.declared.name with
  | some r => some r
  | none =>
    if u.adoptByHost then
      rows.find? (fun r => r.kind = u.declared.kind ∧ r.hostUri = u.declared.hostUri ∧
        r.name = none)
    else none

def ResourceRow.needsConfigAdoption (r : ResourceRow) : Bool :=
  r.managedBy ≠ .config ∨ r.name = none ∨ r.leaseExpiresAt ≠ none ∨ r.ownerProject ≠ none ∨
    r.affinityAllowlist ≠ []

def keepHeld (held merged : Dict) (key : String) : Dict :=
  match held.lookup key with
  | some value => merged.insert key value
  | none => merged

/-- The declared capabilities laid over a row's own, but for the keys that discovery owns. -/
def mergedCaps (u : ConfigResourceUpsert) (held : Dict) : Dict :=
  u.discoveryOwnedKeys.foldl (keepHeld held) (held.merge u.declared.caps)

def insertConfigResource (env : Surroundings) (d : DeclaredResource)
    (s : Catalog × ReconcileDiff) : Pass := do
  let row : ResourceRow := ⟨env.freshId (s.1.resources.map ResourceRow.id), d.kind, some d.name,
    d.hostUri, d.costClass, some d.caps, d.pool, .config, none, none, [], false⟩
  let c ← checkedResources s.1 (s.1.resources ++ [row])
  return (c, { s.2 with created := s.2.created ++ [resourceRecord d.kind d.name ""] })

def ResourceRow.adopted (d : DeclaredResource) (caps : Dict) (r : ResourceRow) : ResourceRow :=
  { r with
    name := some d.name
    hostUri := d.hostUri
    costClass := d.costClass
    capabilities := some caps
    pool := d.pool
    managedBy := .config
    leaseExpiresAt := none
    ownerProject := none
    affinityAllowlist := [] }

def ResourceRow.configured (d : DeclaredResource) (caps : Dict) (r : ResourceRow) : ResourceRow :=
  { r with
    hostUri := d.hostUri
    costClass := d.costClass
    capabilities := some caps
    pool := d.pool }

/-- An `UPDATE` of one row, reported as updated. -/
def writeResource (d : DeclaredResource) (id : Uuid) (f : ResourceRow → ResourceRow)
    (s : Catalog × ReconcileDiff) : Pass := do
  let c ← checkedResources s.1 (setResource s.1.resources id f)
  return (c, { s.2 with updated := s.2.updated ++ [resourceRecord d.kind d.name ""] })

def notAnObject : ReconcileError :=
  .inventoryError "resources" "capabilities" "database row is not a JSON object"

def updateConfigResource (d : DeclaredResource) (row : ResourceRow) (caps : Dict)
    (s : Catalog × ReconcileDiff) : Pass :=
  if row.hostUri = d.hostUri ∧ row.costClass = d.costClass ∧ row.capabilities = some caps ∧
      row.pool = d.pool then .ok s
  else writeResource d row.id (.configured d caps) s

def upsertConfigResource (env : Surroundings) (u : ConfigResourceUpsert)
    (s : Catalog × ReconcileDiff) : Pass :=
  match findExisting s.1.resources u with
  | none => if u.detached then .ok s else insertConfigResource env u.declared s
  | some row =>
    match row.capabilities with
    | none => .error notAnObject
    | some held =>
      if row.needsConfigAdoption then
        writeResource u.declared row.id (.adopted u.declared (mergedCaps u held)) s
      else if u.detached then .ok s
      else updateConfigResource u.declared row (mergedCaps u held) s

end Upserting

section Overlay

def localAt (rows : List ResourceRow) (hostUri : String) : Option ResourceRow :=
  rows.find? (fun r => r.kind = .localLibvirt ∧ r.hostUri = hostUri)

def ResourceRow.overlaid (i : LocalLibvirtInstance) (caps : Dict) (r : ResourceRow) : ResourceRow :=
  { r with name := some i.name, costClass := i.costClass, capabilities := some caps, pool := i.pool }

def overlayOneLocal (i : LocalLibvirtInstance) (s : Catalog × ReconcileDiff) : Pass :=
  match localAt s.1.resources i.hostUri with
  | none => .ok (s.1, { s.2 with warned := s.2.warned ++ [resourceRecord .localLibvirt i.name
      s!"no discovered local-libvirt host at {i.hostUri}; overlay deferred"] })
  | some row =>
    match row.capabilities with
    | none => .error notAnObject
    | some held =>
      let merged := held.insert concurrentAllocationCapKey (.ofInt i.concurrentAllocationCap)
      if row.name ≠ some i.name ∨ row.costClass ≠ i.costClass ∨ row.capabilities ≠ some merged ∨
          row.pool ≠ i.pool then do
        let c ← checkedResources s.1 (setResource s.1.resources row.id (.overlaid i merged))
        return (c, { s.2 with updated := s.2.updated ++ [resourceRecord .localLibvirt i.name ""] })
      else .ok s

def deterministicName (env : Surroundings) (hostUri : String) : String :=
  let cleaned := hostUri.toList.map (fun ch => if env.isAlnum ch then ch else '-')
  let stripped := ((cleaned.dropWhile (· = '-')).reverse.dropWhile (· = '-')).reverse
  if stripped = [] then "discovered-host" else "discovered-" ++ String.ofList stripped

def nameDiscovered (env : Surroundings) (doc : InventoryDoc) (row : ResourceRow)
    (s : Catalog × ReconcileDiff) : Pass :=
  if row.hostUri ∈ doc.localLibvirt.map LocalLibvirtInstance.hostUri then .ok s
  else do
    let c ← checkedResources s.1 (setResource s.1.resources row.id
      (fun r => { r with name := some (deterministicName env row.hostUri) }))
    return (c, s.2)

def unnamedDiscovered (rows : List ResourceRow) : List ResourceRow :=
  rows.filter (fun r => r.managedBy = .discovery ∧ r.name = none)

end Overlay

section Pruning

/-- The end of a prune: the row goes unless something refers to it. -/
def deleteResource (env : Surroundings) (row : ResourceRow) (name : String)
    (s : Catalog × ReconcileDiff) : Pass :=
  if env.referenced row.id then .error .foreignKeyViolation
  else .ok ({ s.1 with resources := s.1.resources.filter (fun r => r.id ≠ row.id) },
    { s.2 with pruned := s.2.pruned ++ [resourceRecord row.kind name ""] })

def ResourceRow.cordon (r : ResourceRow) : ResourceRow :=
  if r.cordoned then r else { r with cordoned := true }

def ResourceRow.cordonRemoved (r : ResourceRow) : ResourceRow :=
  if r.cordoned then r else { r with cordoned := true, leaseExpiresAt := none }

def pruneOrCordonResource (env : Surroundings) (row : ResourceRow) (name : String)
    (s : Catalog × ReconcileDiff) : Pass :=
  if env.liveAllocation row.id then
    .ok ({ s.1 with resources := setResource s.1.resources row.id .cordon },
      { s.2 with cordoned := s.2.cordoned ++ [resourceRecord row.kind name ""] })
  else deleteResource env row name s

def pruneOrCordonRemovedResource (env : Surroundings) (row current : ResourceRow) (name : String)
    (s : Catalog × ReconcileDiff) : Pass :=
  if env.anyAllocation row.id then
    .ok ({ s.1 with resources := setResource s.1.resources row.id .cordonRemoved },
      if current.cordoned then s.2
      else { s.2 with cordoned := s.2.cordoned ++ [resourceRecord row.kind name ""] })
  else deleteResource env row name s

def pruneDeparted (env : Surroundings) (doc : InventoryDoc) (overrides : List InventoryOverride)
    (row : ResourceRow) (s : Catalog × ReconcileDiff) : Pass :=
  match row.name with
  | none => .error (.inventoryError "resources" "name" "database row expected str")
  | some name =>
    let identity := (row.kind.value, name)
    let disposed := disposition overrides identity
    if identity ∈ declaredConfigIdentities doc ∧ disposed ≠ some .removed then .ok s
    else if disposed = some .detached then .ok s
    else
      match s.1.resources.find? (fun r => r.id = row.id ∧ r.managedBy = .config) with
      | none => .ok s
      | some current =>
        if disposed = some .removed then pruneOrCordonRemovedResource env row current name s
        else pruneOrCordonResource env row name s

def configResources (rows : List ResourceRow) : List ResourceRow :=
  rows.filter (fun r => r.managedBy = .config)

def reconcileResources (env : Surroundings) (doc : InventoryDoc) (s : Catalog × ReconcileDiff) :
    Pass := do
  let overrides := s.1.overrides
  let s ← Sweep.run (upsertConfigResource env) (configResourceUpserts doc overrides) s
  let s ← Sweep.run overlayOneLocal doc.localLibvirt s
  let s ← Sweep.run (nameDiscovered env doc) (unnamedDiscovered s.1.resources) s
  Sweep.run (pruneDeparted env doc overrides) (configResources s.1.resources) s

end Pruning

section Ledger

/-- The values that the clean-up compares; `byoHost` is kept for that kind alone. -/
structure ComparableValues where
  values : Dict
  byoHost : Option (Option Dict) := none
  deriving DecidableEq

def DeclaredResource.comparable (d : DeclaredResource) (byoHost : Option (Option Dict)) :
    ComparableValues where
  values := (Dict.merge d.caps (.of [("cost_class", .text d.costClass), ("pool", .text d.pool),
    ("host_uri", .text d.hostUri)])).erase "byo_host"
  byoHost := byoHost

def declaredResourceValues (doc : InventoryDoc) (identity : ResourceIdentity) :
    Option ComparableValues :=
  let declared : List (DeclaredResource × Option (Option Dict)) :=
    doc.faultInject.map (fun i => (i.declared, none)) ++
      doc.remoteLibvirt.map (fun i => (i.declared, none)) ++
      doc.byoHost.map (fun i => (i.declared, some (some (Dict.of i.modelDump))))
  (declared.find? (fun d => d.1.identity = identity)).map (fun d => d.1.comparable d.2)

def capability (caps : Dict) (key : String) : Json := (caps.lookup key).getD .null

/-- The live declaration of a byo host: what was stored, under the columns and capacity that hold
now. -/
def liveDeclaration (row : ResourceRow) (name : String) (caps : Dict) : Option Dict :=
  match caps.lookup "byo_host" with
  | some (.object stored) => some (Dict.merge (.of stored) (.of [
      ("cost_class", .text row.costClass), ("pool", .text row.pool),
      (vcpusKey, capability caps vcpusKey), (memoryMbKey, capability caps memoryMbKey),
      (concurrentAllocationCapKey, capability caps concurrentAllocationCapKey),
      ("name", .text name), ("ssh_target", .text row.hostUri),
      ("pseries_fadump", capability caps "pseries_fadump")]))
  | _ => none

def liveValues (row : ResourceRow) (name : String) : ComparableValues :=
  let caps := row.capabilities.getD ∅
  let values : List (String × Json) := [("cost_class", .text row.costClass),
    ("pool", .text row.pool), ("host_uri", .text row.hostUri),
    (vcpusKey, capability caps vcpusKey), (memoryMbKey, capability caps memoryMbKey),
    (concurrentAllocationCapKey, capability caps concurrentAllocationCapKey)]
  if row.kind = .byoHost then
    ⟨.of (values ++ [("guest_arches", capability caps "guest_arches"),
      ("pseries_fadump", capability caps "pseries_fadump")]), some (liveDeclaration row name caps)⟩
  else ⟨.of values, none⟩

def liveRow (rows : List ResourceRow) (identity : ResourceIdentity) : Option ResourceRow :=
  rows.find? (fun r => r.managedBy = .config ∧ r.kind.value = identity.1 ∧
    r.name = some identity.2)

/-- `_resource_entry_is_settled`. -/
def overrideSettled (doc : InventoryDoc) (rows : List ResourceRow) (o : InventoryOverride) :
    Bool :=
  match o.disposition with
  | .removed => o.identity ∉ declaredConfigIdentities doc
  | .detached =>
    match liveRow rows o.identity with
    | none => true
    | some row => declaredResourceValues doc o.identity = some (liveValues row o.identity.2)

def reconcileOverridesGc (doc : InventoryDoc) (c : Catalog) : Catalog :=
  { c with overrides := c.overrides.filter (fun o => !overrideSettled doc c.resources o) }

end Ledger

section Coefficients

/-- `_upsert_one`: without another writer the insert never finds the row taken. -/
def upsertCoefficient (env : Surroundings) (entry : CostClassEntry)
    (s : Catalog × ReconcileDiff) : Pass :=
  let record (detail : String) : ReconcileRecord :=
    ⟨entry.name, s!"cost_class[{entry.name}]", detail⟩
  match s.1.coefficients.find? (fun k => k.costClass = entry.name) with
  | none => .ok ({ s.1 with coefficients := s.1.coefficients ++ [⟨entry.name, entry.coeff⟩] },
      { s.2 with created := s.2.created ++ [record s!"priced at {env.decimalText entry.coeff}"] })
  | some prior =>
    if prior.coeff = entry.coeff then .ok s
    else
      let detail := s!"re-asserted from file: was {env.decimalText prior.coeff}, " ++
        s!"now {env.decimalText entry.coeff}"
      let coefficients := s.1.coefficients.map
        (fun k => if k.costClass = entry.name then { k with coeff := entry.coeff } else k)
      let diff := { s.2 with
        updated := s.2.updated ++ [record detail], warned := s.2.warned ++ [record detail] }
      .ok ({ s.1 with coefficients := coefficients }, diff)

def reconcileCoefficients (env : Surroundings) (doc : InventoryDoc)
    (s : Catalog × ReconcileDiff) : Pass :=
  Sweep.run (upsertCoefficient env) doc.costClass s

end Coefficients

end Kdive.Inventory
