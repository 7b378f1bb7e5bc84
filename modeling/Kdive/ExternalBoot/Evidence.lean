import Kdive.Lib.CanonicalJson
import Kdive.Lib.UuidText
import Kdive.Lib.IsoTime

/-!
The rows of external-boot activations and of released reservations, as Python reads them. Evidence
is JSON that a closed model parses; it has to be of bounded size, its lists of objects sorted, and
a release names the digest of its own canonical text. A value of another JSON type than the field
is written with is refused here; `pydantic` converts some of these.
-/
namespace Kdive.ExternalBoot
open JsonText CanonicalJson

attribute [local instance] JsonText.lawful

section Times

abbrev Uuid := Fin (2 ^ 128)

/-- Microseconds since the start of the year one, before the end of the year 9999. -/
structure Instant where
  micros : Nat
  range : micros < 3652059 * 86400000000

def toChar (i : Instant) : Str :=
  let date := IsoTime.ord2ymd (i.micros / 86400000000 + 1)
  let time := IsoTime.clockOf (i.micros % 86400000000)
  IsoTime.pad 4 date.1 ++ [45] ++ IsoTime.pad 2 date.2.1 ++ [45] ++ IsoTime.pad 2 date.2.2 ++ [84] ++
    IsoTime.pad 2 time.hour ++ [58] ++ IsoTime.pad 2 time.minute ++ [58] ++
    IsoTime.pad 2 time.second ++ [90]

end Times

/-- What the libraries compute: the Unicode database, the digest, `jsonb` as text and on disk, and
the conversions of `pydantic` between strings and times or UUIDs. -/
structure Platform (Time : Type) where
  nfc : Str → Str
  printable : Nat → Bool
  space : Nat → Bool
  sha256 : List Nat → Str
  jsonbText : Value → Str
  columnSize : Value → Nat
  readTime : Str → Option Time
  utcOffset : Time → Option Int
  timeText : Time → Str
  readUuid : Str → Option Uuid

structure Platform.Lawful {Time : Type} (p : Platform Time) : Prop where
  nfc_ascii : ∀ s : Str, (∀ c ∈ s, c < 128) → p.nfc s = s
  printable_ascii : ∀ c, 32 ≤ c → c ≤ 126 → p.printable c = true
  sha256_length : ∀ b, (p.sha256 b).length = 64
  sha256_lower : ∀ b, ∀ c ∈ p.sha256 b, UuidText.Lower c
  read_uuid : ∀ u, p.readUuid (UuidText.text u) = some u
  read_second : ∀ i : Instant, ∃ t, p.readTime (toChar i) = some t ∧ p.utcOffset t = some 0 ∧
    p.timeText t = toChar i

inductive Rejection
  | invalid
  | value (message : String)
  deriving DecidableEq

abbrev Checked := Except Rejection

section Fields

variable {α : Type} {Time : Type}

def closed (names : List Str) : Value → Checked (List (Str × Value))
  | .object members =>
    if members.all (fun m => decide (m.1 ∈ names)) then .ok members else .error .invalid
  | _ => .error .invalid

def required (members : List (Str × Value)) (name : String) (read : Value → Checked α) :
    Checked α :=
  match lookup members (str name) with
  | some v => read v
  | none => .error .invalid

def defaulted (members : List (Str × Value)) (name : String) (default : α)
    (read : Value → Checked α) : Checked α :=
  match lookup members (str name) with
  | some v => read v
  | none => .ok default

def readOptional (read : Value → Checked α) : Value → Checked (Option α)
  | .null => .ok none
  | v => some <$> read v

def readText (fits : Str → Bool) : Value → Checked Str
  | .text s => if fits s then .ok s else .error .invalid
  | _ => .error .invalid

def readLiteral (literal : String) : Value → Checked Unit
  | .text s => if s = str literal then .ok () else .error .invalid
  | _ => .error .invalid

def readTrue : Value → Checked Unit
  | .bool true => .ok ()
  | _ => .error .invalid

def readPositive : Value → Checked Int
  | .int n => if 0 < n then .ok n else .error .invalid
  | _ => .error .invalid

def readUuid (p : Platform Time) : Value → Checked Uuid
  | .text s => match p.readUuid s with
    | some u => .ok u
    | none => .error .invalid
  | _ => .error .invalid

/-- `UtcDateTime`. -/
def readUtc (p : Platform Time) : Value → Checked Time
  | .text s => match p.readTime s with
    | some t =>
      if p.utcOffset t = some 0 then .ok t
      else .error (.value "timestamp must be timezone-aware UTC")
    | none => .error .invalid
  | _ => .error .invalid

def readAll (read : Value → Checked α) : List Value → Checked (List α)
  | [] => .ok []
  | v :: rest => do return (← read v) :: (← readAll read rest)

def readArray (read : Value → Checked α) : Value → Checked (List α)
  | .array elements => readAll read elements
  | _ => .error .invalid

def isLowerHex (c : Nat) : Bool := (decide (48 ≤ c) && decide (c ≤ 57)) ||
  (decide (97 ≤ c) && decide (c ≤ 102))

def isDigest (s : Str) : Bool :=
  decide (s.take 7 = str "sha256:") && decide ((s.drop 7).length = 64) && (s.drop 7).all isLowerHex

def isCanonicalUuid (s : Str) : Bool :=
  decide ((s.splitOn 45).map List.length = [8, 4, 4, 4, 12]) &&
    s.all (fun c => isLowerHex c || c == 45)

def isAlnum (c : Nat) : Bool :=
  JsonText.isDigit c || (decide (65 ≤ c) && decide (c ≤ 90)) || (decide (97 ≤ c) && decide (c ≤ 122))

def isKernelRelease : Str → Bool
  | [] => false
  | c :: rest => isAlnum c && decide (rest.length ≤ 63) &&
    rest.all (fun d => isAlnum d || decide (d ∈ [46, 95, 43, 45]))

def isBuildId (s : Str) : Bool :=
  s.all isLowerHex && decide (s.length % 2 = 0) && decide (8 ≤ s.length) && decide (s.length ≤ 128)

def isArchitecture (s : Str) : Bool := decide (s = str "x86_64") || decide (s = str "ppc64le")

def nfc (p : Platform Time) (value : Str) : Checked Str :=
  if value = [] ∨ p.nfc value ≠ value then .error (.value "value must be nonempty NFC text")
  else .ok value

end Fields

section References

variable {Time : Type}

structure OpaqueProviderRef where
  ref : Str

def dotSegment (segment : Str) : Bool := decide (segment ∈ [[], [46], [46, 46]])

def isOpaque (p : Platform Time) (value : Str) : Bool :=
  !(decide (value.head? = some 47) || (value.splitOn 47).any dotSegment || !value.all p.printable ||
    value.any (fun c => decide (c ∈ [92, 58, 64])))

/-- `OpaqueProviderRef._opaque`. -/
def opaqueRefText (p : Platform Time) (value : Str) : Checked Str := do
  let value ← nfc p value
  if isOpaque p value then .ok value
  else .error (.value "provider reference must be opaque")

def readRef (p : Platform Time) (v : Value) : Checked OpaqueProviderRef := do
  let members ← closed [str "ref"] v
  let ref ← required members "ref" (readText fun s => decide (s.length ≤ 1024))
  return ⟨← opaqueRefText p ref⟩

def dumpRef (r : OpaqueProviderRef) : Value := .object [(str "ref", .text r.ref)]

end References

section Canonical

variable {Time : Type}

def canonicalValueMaxBytes : Nat := 65536

/-- `to_canonical_json` of a model that dumps this value, without its size check. -/
def canonicalJson (dumped : Value) : List Nat := utf8 (canonical quotedWide dumped)

/-- `_canonical_size_is_bounded`. -/
def sizeBounded (dumped : Value) : Checked Unit :=
  if canonicalValueMaxBytes < (canonicalJson dumped).length then
    .error (.value "external-boot canonical value exceeds 65536 bytes")
  else .ok ()

def identity (p : Platform Time) (label : String) (dumped : Value) : Str :=
  str "sha256:" ++ p.sha256 (utf8 (str label) ++ [0] ++ canonicalJson dumped)

/-- `_canonical_refs` and `_canonical_release_objects`: the encodings of the objects, and the noun
of the messages. -/
def canonicalObjects (noun : String) (encoded : List Str) : Checked Unit :=
  if ¬ encoded.Nodup then .error (.value (noun ++ " must be duplicate-free"))
  else if encoded ≠ sortTexts encoded then
    .error (.value (noun ++ " must be sorted by canonical bytes"))
  else .ok ()

end Canonical

section Recorded

variable {Time : Type}

structure ActivationOwnership where
  systemId : Str
  runId : Str

structure MaterializedArtifacts where
  kernel : OpaqueProviderRef
  modules : OpaqueProviderRef
  initrd : Option OpaqueProviderRef
  debuginfo : Option OpaqueProviderRef

structure KernelIdentity where
  architecture : Str
  release : Str
  gnuBuildId : Str

structure ExternalBootMaterialization where
  architecture : Str
  providerKind : Str
  ownership : ActivationOwnership
  planIdentity : Str
  extractedVmlinuz : Str
  sourceModuleManifest : Str
  installedModuleTree : Str
  verifiedBundle : Str
  verifiedInitrd : Option Str
  kernelObservation : KernelIdentity
  artifacts : MaterializedArtifacts
  verifiedDebuginfo : Option Str

def readOwnership (v : Value) : Checked ActivationOwnership := do
  let members ← closed [str "system_id", str "run_id"] v
  let systemId ← required members "system_id" (readText isCanonicalUuid)
  let runId ← required members "run_id" (readText isCanonicalUuid)
  return ⟨systemId, runId⟩

def readArtifacts (p : Platform Time) (v : Value) : Checked MaterializedArtifacts := do
  let members ← closed [str "kernel", str "modules", str "initrd", str "debuginfo"] v
  let kernel ← required members "kernel" (readRef p)
  let modules ← required members "modules" (readRef p)
  let initrd ← required members "initrd" (readOptional (readRef p))
  let debuginfo ← defaulted members "debuginfo" none (readOptional (readRef p))
  return ⟨kernel, modules, initrd, debuginfo⟩

def readKernelIdentity (v : Value) : Checked KernelIdentity := do
  let members ← closed [str "architecture", str "release", str "gnu_build_id"] v
  let architecture ← required members "architecture" (readText isArchitecture)
  let release ← required members "release" (readText isKernelRelease)
  let gnuBuildId ← required members "gnu_build_id" (readText isBuildId)
  return ⟨architecture, release, gnuBuildId⟩

def materializationNames : List Str :=
  [str "schema", str "architecture", str "provider_kind", str "ownership", str "plan_identity",
    str "extracted_vmlinuz_sha256", str "source_module_manifest", str "installed_module_tree",
    str "verified_bundle_sha256", str "verified_initrd_sha256", str "kernel_observation",
    str "artifacts", str "verified_debuginfo_sha256"]

def materializationConsistent (m : ExternalBootMaterialization) : Checked Unit :=
  if m.kernelObservation.architecture ≠ m.architecture then
    .error (.value "kernel observation architecture must match materialization")
  else if m.artifacts.initrd.isNone ≠ m.verifiedInitrd.isNone then
    .error (.value "initrd reference and verified digest must have the same presence")
  else if m.artifacts.debuginfo.isNone ≠ m.verifiedDebuginfo.isNone then
    .error (.value "debuginfo reference and verified digest must have the same presence")
  else .ok ()

def readMaterialization (p : Platform Time) (v : Value) : Checked ExternalBootMaterialization := do
  let members ← closed materializationNames v
  defaulted members "schema" () (readLiteral "external-boot-materialization-v1")
  let architecture ← required members "architecture" (readText isArchitecture)
  let providerKind ← required members "provider_kind"
    (readText fun s => decide (s.length ≤ 255))
  let providerKind ← nfc p providerKind
  let ownership ← required members "ownership" readOwnership
  let planIdentity ← required members "plan_identity" (readText isDigest)
  let extracted ← required members "extracted_vmlinuz_sha256" (readText isDigest)
  let manifest ← required members "source_module_manifest" (readText isDigest)
  let tree ← required members "installed_module_tree" (readText isDigest)
  let bundle ← required members "verified_bundle_sha256" (readText isDigest)
  let initrd ← required members "verified_initrd_sha256" (readOptional (readText isDigest))
  let observation ← required members "kernel_observation" readKernelIdentity
  let artifacts ← required members "artifacts" (readArtifacts p)
  let debuginfo ← defaulted members "verified_debuginfo_sha256" none
    (readOptional (readText isDigest))
  let m : ExternalBootMaterialization := ⟨architecture, providerKind, ownership, planIdentity,
    extracted, manifest, tree, bundle, initrd, observation, artifacts, debuginfo⟩
  materializationConsistent m
  return m

def dumpPresent (name : String) : Option Value → List (Str × Value)
  | none => []
  | some v => [(str name, v)]

def dumpNullable : Option Value → Value
  | none => .null
  | some v => v

def dumpMaterialization (m : ExternalBootMaterialization) : Value :=
  .object ([(str "schema", .text (str "external-boot-materialization-v1")),
    (str "architecture", .text m.architecture), (str "provider_kind", .text m.providerKind),
    (str "ownership", .object [(str "system_id", .text m.ownership.systemId),
      (str "run_id", .text m.ownership.runId)]),
    (str "plan_identity", .text m.planIdentity),
    (str "extracted_vmlinuz_sha256", .text m.extractedVmlinuz),
    (str "source_module_manifest", .text m.sourceModuleManifest),
    (str "installed_module_tree", .text m.installedModuleTree),
    (str "verified_bundle_sha256", .text m.verifiedBundle),
    (str "verified_initrd_sha256", dumpNullable (m.verifiedInitrd.map .text)),
    (str "kernel_observation", .object [
      (str "architecture", .text m.kernelObservation.architecture),
      (str "release", .text m.kernelObservation.release),
      (str "gnu_build_id", .text m.kernelObservation.gnuBuildId)]),
    (str "artifacts", .object ([(str "kernel", dumpRef m.artifacts.kernel),
      (str "modules", dumpRef m.artifacts.modules),
      (str "initrd", dumpNullable (m.artifacts.initrd.map dumpRef))] ++
      dumpPresent "debuginfo" (m.artifacts.debuginfo.map dumpRef)))] ++
    dumpPresent "verified_debuginfo_sha256" (m.verifiedDebuginfo.map .text))

structure ExternalBootActivationBinding where
  systemId : Str
  runId : Str
  activationId : Str

abbrev ComponentState := Option Str

structure ProviderStateIdentity where
  definition : Str
  modules : ComponentState
  debuginfo : Option ComponentState

structure RecoveryPoint where
  binding : ExternalBootActivationBinding
  planIdentity : Str
  materializationIdentity : Str
  recoveryRef : OpaqueProviderRef
  sourceState : ProviderStateIdentity
  targetState : ProviderStateIdentity

def readBinding (v : Value) : Checked ExternalBootActivationBinding := do
  let members ← closed [str "system_id", str "run_id", str "activation_id"] v
  let systemId ← required members "system_id" (readText isCanonicalUuid)
  let runId ← required members "run_id" (readText isCanonicalUuid)
  let activationId ← required members "activation_id" (readText isCanonicalUuid)
  return ⟨systemId, runId, activationId⟩

def readAbsentComponent (v : Value) : Checked ComponentState := do
  let members ← closed [str "state"] v
  defaulted members "state" () (readLiteral "absent")
  return none

def readPresentComponent (v : Value) : Checked ComponentState := do
  let members ← closed [str "state", str "manifest"] v
  defaulted members "state" () (readLiteral "present")
  return some (← required members "manifest" (readText isDigest))

def readComponent (v : Value) : Checked ComponentState :=
  match readAbsentComponent v with
  | .ok c => .ok c
  | .error _ => readPresentComponent v

def readProviderState (v : Value) : Checked ProviderStateIdentity := do
  let members ← closed [str "definition", str "modules", str "debuginfo"] v
  let definition ← required members "definition" (readText isDigest)
  let modules ← required members "modules" readComponent
  let debuginfo ← defaulted members "debuginfo" none (readOptional readComponent)
  return ⟨definition, modules, debuginfo⟩

def readRecoveryPoint (p : Platform Time) (v : Value) : Checked RecoveryPoint := do
  let members ← closed [str "schema", str "binding", str "plan_identity",
    str "materialization_identity", str "recovery_ref", str "source_state", str "target_state"] v
  defaulted members "schema" () (readLiteral "external-boot-recovery-v1")
  let binding ← required members "binding" readBinding
  let planIdentity ← required members "plan_identity" (readText isDigest)
  let materializationIdentity ← required members "materialization_identity" (readText isDigest)
  let recoveryRef ← required members "recovery_ref" (readRef p)
  let sourceState ← required members "source_state" readProviderState
  let targetState ← required members "target_state" readProviderState
  return ⟨binding, planIdentity, materializationIdentity, recoveryRef, sourceState, targetState⟩

structure PreRecoveryEvidence (Time : Type) where
  activationId : Uuid
  systemId : Uuid
  runId : Uuid
  planIdentity : Str
  recoveryObject : OpaqueProviderRef
  sourceCompositeState : Str
  observedAt : Time

def dumpPreRecovery (p : Platform Time) (e : PreRecoveryEvidence Time) : Value :=
  .object [(str "schema", .text (str "external-boot-pre-recovery-evidence-v1")),
    (str "activation_id", .text (UuidText.text e.activationId)),
    (str "system_id", .text (UuidText.text e.systemId)),
    (str "run_id", .text (UuidText.text e.runId)), (str "plan_identity", .text e.planIdentity),
    (str "recovery_object", dumpRef e.recoveryObject),
    (str "source_composite_state", .text e.sourceCompositeState),
    (str "observed_at", .text (p.timeText e.observedAt))]

def readPreRecovery (p : Platform Time) (v : Value) : Checked (PreRecoveryEvidence Time) := do
  let members ← closed [str "schema", str "activation_id", str "system_id", str "run_id",
    str "plan_identity", str "recovery_object", str "source_composite_state", str "observed_at"] v
  defaulted members "schema" () (readLiteral "external-boot-pre-recovery-evidence-v1")
  let activationId ← required members "activation_id" (readUuid p)
  let systemId ← required members "system_id" (readUuid p)
  let runId ← required members "run_id" (readUuid p)
  let planIdentity ← required members "plan_identity" (readText isDigest)
  let recoveryObject ← required members "recovery_object" (readRef p)
  let source ← required members "source_composite_state" (readText isDigest)
  let observedAt ← required members "observed_at" (readUtc p)
  let e : PreRecoveryEvidence Time := ⟨activationId, systemId, runId, planIdentity, recoveryObject,
    source, observedAt⟩
  sizeBounded (dumpPreRecovery p e)
  return e

structure TeardownEvidence (Time : Type) where
  systemId : Uuid
  observedAt : Time

def dumpTeardown (p : Platform Time) (e : TeardownEvidence Time) : Value :=
  .object [(str "schema", .text (str "external-boot-teardown-evidence-v1")),
    (str "system_id", .text (UuidText.text e.systemId)),
    (str "system_state", .text (str "torn_down")),
    (str "observed_at", .text (p.timeText e.observedAt))]

def readTeardown (p : Platform Time) (v : Value) : Checked (TeardownEvidence Time) := do
  let members ← closed [str "schema", str "system_id", str "system_state", str "observed_at"] v
  defaulted members "schema" () (readLiteral "external-boot-teardown-evidence-v1")
  let systemId ← required members "system_id" (readUuid p)
  defaulted members "system_state" () (readLiteral "torn_down")
  let observedAt ← required members "observed_at" (readUtc p)
  let e : TeardownEvidence Time := ⟨systemId, observedAt⟩
  sizeBounded (dumpTeardown p e)
  return e

end Recorded

section Ended

variable {Time : Type}

inductive TerminalOutcome
  | active | abandoned | recovered | recoveryFailed
  deriving DecidableEq

def TerminalOutcome.name : TerminalOutcome → Str
  | .active => str "active"
  | .abandoned => str "abandoned"
  | .recovered => str "recovered"
  | .recoveryFailed => str "recovery_failed"

def readOutcome : Value → Checked TerminalOutcome
  | .text s =>
    if s = str "active" then .ok .active
    else if s = str "abandoned" then .ok .abandoned
    else if s = str "recovered" then .ok .recovered
    else if s = str "recovery_failed" then .ok .recoveryFailed
    else .error .invalid
  | _ => .error .invalid

structure TerminalEvidence (Time : Type) where
  activationId : Uuid
  systemId : Uuid
  outcome : TerminalOutcome
  compositeState : Str
  objects : List OpaqueProviderRef
  observedAt : Time

def dumpTerminal (p : Platform Time) (e : TerminalEvidence Time) : Value :=
  .object [(str "schema", .text (str "external-boot-terminal-evidence-v1")),
    (str "activation_id", .text (UuidText.text e.activationId)),
    (str "system_id", .text (UuidText.text e.systemId)), (str "outcome", .text e.outcome.name),
    (str "composite_state", .text e.compositeState), (str "objects", .array (e.objects.map dumpRef)),
    (str "observed_at", .text (p.timeText e.observedAt))]

def encodedRefs (objects : List OpaqueProviderRef) : List Str :=
  objects.map (fun r => canonicalJson (dumpRef r))

def terminalNames : List Str :=
  [str "schema", str "activation_id", str "system_id", str "outcome", str "composite_state",
    str "objects", str "observed_at"]

def readTerminal (p : Platform Time) (v : Value) : Checked (TerminalEvidence Time) := do
  let members ← closed terminalNames v
  defaulted members "schema" () (readLiteral "external-boot-terminal-evidence-v1")
  let activationId ← required members "activation_id" (readUuid p)
  let systemId ← required members "system_id" (readUuid p)
  let outcome ← required members "outcome" readOutcome
  let compositeState ← required members "composite_state" (readText isDigest)
  let objects ← required members "objects" (readArray (readRef p))
  canonicalObjects "object references" (encodedRefs objects)
  let observedAt ← required members "observed_at" (readUtc p)
  let e : TerminalEvidence Time :=
    ⟨activationId, systemId, outcome, compositeState, objects, observedAt⟩
  sizeBounded (dumpTerminal p e)
  return e

structure ReleaseObject where
  object : OpaqueProviderRef

def dumpReleaseObject (o : ReleaseObject) : Value :=
  .object [(str "object", dumpRef o.object), (str "absent", .bool true)]

def readReleaseObject (p : Platform Time) (v : Value) : Checked ReleaseObject := do
  let members ← closed [str "object", str "absent"] v
  let object ← required members "object" (readRef p)
  defaulted members "absent" () readTrue
  return ⟨object⟩

def encodedReleaseObjects (objects : List ReleaseObject) : List Str :=
  objects.map (fun o => utf8 (canonical quoted (dumpReleaseObject o)))

structure ReleaseEvidence (Time : Type) where
  activationId : Uuid
  systemId : Uuid
  storeIdentity : OpaqueProviderRef
  ownerKey : OpaqueProviderRef
  reservedBytes : Int
  objects : List ReleaseObject
  verifiedAt : Time

def dumpRelease (p : Platform Time) (e : ReleaseEvidence Time) : Value :=
  .object [(str "schema", .text (str "external-boot-release-evidence-v1")),
    (str "activation_id", .text (UuidText.text e.activationId)),
    (str "system_id", .text (UuidText.text e.systemId)),
    (str "store_identity", dumpRef e.storeIdentity), (str "owner_key", dumpRef e.ownerKey),
    (str "reserved_bytes", .int e.reservedBytes), (str "enumeration_complete", .bool true),
    (str "objects", .array (e.objects.map dumpReleaseObject)),
    (str "verified_at", .text (p.timeText e.verifiedAt))]

def releaseNames : List Str :=
  [str "schema", str "activation_id", str "system_id", str "store_identity", str "owner_key",
    str "reserved_bytes", str "enumeration_complete", str "objects", str "verified_at"]

def readReleaseEvidence (p : Platform Time) (v : Value) : Checked (ReleaseEvidence Time) := do
  let members ← closed releaseNames v
  defaulted members "schema" () (readLiteral "external-boot-release-evidence-v1")
  let activationId ← required members "activation_id" (readUuid p)
  let systemId ← required members "system_id" (readUuid p)
  let storeIdentity ← required members "store_identity" (readRef p)
  let ownerKey ← required members "owner_key" (readRef p)
  let reservedBytes ← required members "reserved_bytes" readPositive
  defaulted members "enumeration_complete" () readTrue
  let objects ← required members "objects" (readArray (readReleaseObject p))
  canonicalObjects "release objects" (encodedReleaseObjects objects)
  let verifiedAt ← required members "verified_at" (readUtc p)
  let e : ReleaseEvidence Time :=
    ⟨activationId, systemId, storeIdentity, ownerKey, reservedBytes, objects, verifiedAt⟩
  sizeBounded (dumpRelease p e)
  return e

def releaseLabel : String := "kdive-external-boot-release-evidence-v1"

def teardownLabel : String := "kdive-external-boot-teardown-evidence-v1"

def materializationLabel : String := "kdive-external-boot-materialization-v1"

inductive CleanupMode
  | ordinary | systemTeardown | pendingSystemTeardown
  deriving DecidableEq

def CleanupMode.name : CleanupMode → Str
  | .ordinary => str "ordinary"
  | .systemTeardown => str "system_teardown"
  | .pendingSystemTeardown => str "pending_system_teardown"

def readMode : Value → Checked CleanupMode
  | .text s =>
    if s = str "ordinary" then .ok .ordinary
    else if s = str "system_teardown" then .ok .systemTeardown
    else if s = str "pending_system_teardown" then .ok .pendingSystemTeardown
    else .error .invalid
  | _ => .error .invalid

structure CleanupEvidence (Time : Type) where
  activationId : Uuid
  systemId : Uuid
  releaseIdentity : Option Str
  mode : CleanupMode
  teardownIdentity : Option Str
  completedAt : Time

def dumpCleanup (p : Platform Time) (e : CleanupEvidence Time) : Value :=
  .object [(str "schema", .text (str "external-boot-cleanup-evidence-v1")),
    (str "activation_id", .text (UuidText.text e.activationId)),
    (str "system_id", .text (UuidText.text e.systemId)),
    (str "release_identity", dumpNullable (e.releaseIdentity.map .text)),
    (str "mode", .text e.mode.name),
    (str "teardown_identity", dumpNullable (e.teardownIdentity.map .text)),
    (str "completed_at", .text (p.timeText e.completedAt))]

def modeMatchesTeardown (e : CleanupEvidence Time) : Checked Unit :=
  if (e.mode ≠ .ordinary) ≠ (e.teardownIdentity ≠ none) then
    .error (.value "teardown_identity presence must match cleanup mode")
  else if (e.mode = .pendingSystemTeardown) ≠ (e.releaseIdentity = none) then
    .error (.value "release_identity absence must match pending cleanup mode")
  else .ok ()

def cleanupNames : List Str :=
  [str "schema", str "activation_id", str "system_id", str "release_identity", str "mode",
    str "teardown_identity", str "completed_at"]

def readCleanup (p : Platform Time) (v : Value) : Checked (CleanupEvidence Time) := do
  let members ← closed cleanupNames v
  defaulted members "schema" () (readLiteral "external-boot-cleanup-evidence-v1")
  let activationId ← required members "activation_id" (readUuid p)
  let systemId ← required members "system_id" (readUuid p)
  let releaseIdentity ← defaulted members "release_identity" none
    (readOptional (readText isDigest))
  let mode ← required members "mode" readMode
  let teardownIdentity ← defaulted members "teardown_identity" none
    (readOptional (readText isDigest))
  let completedAt ← required members "completed_at" (readUtc p)
  let e : CleanupEvidence Time :=
    ⟨activationId, systemId, releaseIdentity, mode, teardownIdentity, completedAt⟩
  sizeBounded (dumpCleanup p e)
  modeMatchesTeardown e
  return e

end Ended

section Rows

variable {Time : Type}

inductive ActivationState
  | preparing | prepared | activating | active | recovering | recovered | recoveryConflict
  | recoveryFailed | abandoned | tornDown
  deriving DecidableEq

/-- A row of `external_boot_activations` under its id, without the owner and its own times. -/
structure ActivationRow where
  systemId : Uuid
  runId : Uuid
  planIdentity : Str
  authorityGeneration : Int
  state : ActivationState
  cleanupComplete : Bool
  activationReadinessDeadline : Option Instant
  materialization : Option Value
  recoveryPoint : Option Value
  preRecoveryEvidence : Option Value
  terminalEvidence : Option Value
  teardownEvidence : Option Value
  cleanupEvidence : Option Value
  currentAttemptId : Option Uuid

structure ExternalBootActivation (Time : Type) where
  id : Uuid
  systemId : Uuid
  runId : Uuid
  planIdentity : Str
  authorityGeneration : Int
  state : ActivationState
  cleanupComplete : Bool
  activationReadinessDeadline : Option Instant
  materialization : Option ExternalBootMaterialization
  recoveryPoint : Option RecoveryPoint
  preRecoveryEvidence : Option (PreRecoveryEvidence Time)
  terminalEvidence : Option (TerminalEvidence Time)
  teardownEvidence : Option (TeardownEvidence Time)
  cleanupEvidence : Option (CleanupEvidence Time)
  currentAttemptId : Option Uuid

def cleanupStates : List ActivationState :=
  [.recovered, .abandoned, .recoveryFailed, .recoveryConflict, .tornDown]

def unmaterializedStates : List ActivationState := [.preparing, .abandoned, .tornDown]

def recoveryPointStates : List ActivationState := [.prepared, .activating, .active]

def attemptStates : List ActivationState :=
  [.recovering, .recoveryConflict, .recoveryFailed, .recovered]

def ordinaryHistoryStates : List ActivationState := [.recovered, .abandoned]

def expectedOutcome : ActivationState → Option TerminalOutcome
  | .active => some .active
  | .abandoned => some .abandoned
  | _ => none

def stateRequirements (a : ExternalBootActivation Time) : Checked Unit :=
  if a.cleanupComplete ∧ a.state ∉ cleanupStates then
    .error (.value "cleanup_complete is invalid for this activation state")
  else if a.state ∈ [.activating, .active] ∧ a.activationReadinessDeadline = none then
    .error (.value "activation_readiness_deadline is required")
  else if a.state ∉ unmaterializedStates ∧ a.materialization = none then
    .error (.value "materialization is required for this activation state")
  else if a.state ∈ recoveryPointStates ∧ a.recoveryPoint = none then
    .error (.value "recovery_point is required for this activation state")
  else if a.state ∈ attemptStates ∧ (a.currentAttemptId = none ∨
      (a.recoveryPoint = none ∧ a.preRecoveryEvidence.isNone)) then
    .error (.value "recovery state requires an attempt and recovery basis")
  else if (expectedOutcome a.state).isSome ∧
      a.terminalEvidence.map (·.outcome) ≠ expectedOutcome a.state then
    .error (.value "terminal evidence outcome does not match activation state")
  else .ok ()

def recordedOwnership (p : Platform Time) (a : ExternalBootActivation Time) : Checked Unit :=
  if ∃ m ∈ a.materialization, m.ownership.systemId ≠ UuidText.text a.systemId ∨
      m.ownership.runId ≠ UuidText.text a.runId ∨ m.planIdentity ≠ a.planIdentity then
    .error (.value "materialization ownership does not match activation")
  else if ∃ r ∈ a.recoveryPoint, r.binding.systemId ≠ UuidText.text a.systemId ∨
      r.binding.runId ≠ UuidText.text a.runId ∨ r.binding.activationId ≠ UuidText.text a.id ∨
      r.planIdentity ≠ a.planIdentity ∨
      some r.materializationIdentity ≠ a.materialization.map
        (fun m => identity p materializationLabel (dumpMaterialization m)) then
    .error (.value "recovery point ownership does not match activation")
  else if ∃ e ∈ a.preRecoveryEvidence, e.activationId ≠ a.id ∨ e.systemId ≠ a.systemId ∨
      e.runId ≠ a.runId ∨ e.planIdentity ≠ a.planIdentity then
    .error (.value "pre-recovery evidence ownership does not match activation")
  else .ok ()

def endingOwnership (p : Platform Time) (a : ExternalBootActivation Time) : Checked Unit :=
  if (∃ e ∈ a.terminalEvidence, e.activationId ≠ a.id ∨ e.systemId ≠ a.systemId) ∨
      ∃ e ∈ a.cleanupEvidence, e.activationId ≠ a.id ∨ e.systemId ≠ a.systemId then
    .error (.value "activation evidence ownership does not match activation")
  else if ∃ e ∈ a.teardownEvidence, e.systemId ≠ a.systemId then
    .error (.value "teardown evidence ownership does not match activation")
  else if a.state = .tornDown ∧ (a.teardownEvidence.isNone ∨ ¬ a.cleanupComplete) then
    .error (.value "torn_down activation requires teardown evidence and cleanup")
  else if a.cleanupComplete ≠ a.cleanupEvidence.isSome then
    .error (.value "cleanup evidence presence must match cleanup_complete")
  else if ∃ c ∈ a.cleanupEvidence,
      (c.mode = .ordinary ∧ a.state ∉ ordinaryHistoryStates ++ [.tornDown]) ∨
      (a.state ∈ ordinaryHistoryStates ∧ c.mode ≠ .ordinary) ∨
      decide (a.state ∈ ordinaryHistoryStates) ≠ a.teardownEvidence.isNone ∨
      (c.mode ≠ .ordinary ∧
        (c.teardownIdentity ≠ a.teardownEvidence.map
            (fun e => identity p teardownLabel (dumpTeardown p e)) ∨
          a.teardownEvidence.isNone ∨
          decide (c.mode = .pendingSystemTeardown) ≠ c.releaseIdentity.isNone)) then
    .error (.value "cleanup evidence does not match activation state")
  else .ok ()

def rowInvariants (p : Platform Time) (a : ExternalBootActivation Time) : Checked Unit := do
  stateRequirements a
  recordedOwnership p a
  endingOwnership p a

def readColumn {α : Type} (read : Value → Checked α) : Option Value → Checked (Option α)
  | none => .ok none
  | some v => some <$> read v

/-- `ExternalBootActivation.model_validate` of a row. -/
def readActivation (p : Platform Time) (id : Uuid) (row : ActivationRow) :
    Checked (ExternalBootActivation Time) := do
  if ¬ isDigest row.planIdentity ∨ row.authorityGeneration ≤ 0 then .error .invalid
  let materialization ← readColumn (readMaterialization p) row.materialization
  let recoveryPoint ← readColumn (readRecoveryPoint p) row.recoveryPoint
  let preRecovery ← readColumn (readPreRecovery p) row.preRecoveryEvidence
  let terminal ← readColumn (readTerminal p) row.terminalEvidence
  let teardown ← readColumn (readTeardown p) row.teardownEvidence
  let cleanup ← readColumn (readCleanup p) row.cleanupEvidence
  let a : ExternalBootActivation Time := ⟨id, row.systemId, row.runId, row.planIdentity,
    row.authorityGeneration, row.state, row.cleanupComplete, row.activationReadinessDeadline,
    materialization, recoveryPoint, preRecovery, terminal, teardown, cleanup, row.currentAttemptId⟩
  rowInvariants p a
  return a

structure ReleaseRow where
  activationId : Uuid
  storeIdentity : Str
  ownerKey : Str
  reservedBytes : Int
  releaseIdentity : Str
  releaseEvidence : Value
  teardownEvidence : Option Value

structure ReservationRelease (Time : Type) where
  activationId : Uuid
  storeIdentity : Str
  ownerKey : Str
  reservedBytes : Int
  releaseIdentity : Str
  releaseEvidence : ReleaseEvidence Time
  teardownEvidence : Option (TeardownEvidence Time)

def boundedText (s : Str) : Bool := decide (1 ≤ s.length) && decide (s.length ≤ 1024)

/-- `_release_evidence_matches_row`. -/
def releaseMatchesRow (p : Platform Time) (r : ReservationRelease Time) : Checked Unit :=
  if r.releaseIdentity ≠ identity p releaseLabel (dumpRelease p r.releaseEvidence) then
    .error (.value "release identity does not match release evidence")
  else if r.releaseEvidence.activationId ≠ r.activationId ∨
      r.releaseEvidence.storeIdentity.ref ≠ r.storeIdentity ∨
      r.releaseEvidence.ownerKey.ref ≠ r.ownerKey ∨
      r.releaseEvidence.reservedBytes ≠ r.reservedBytes then
    .error (.value "release evidence ownership does not match release row")
  else .ok ()

/-- `ExternalBootReservationRelease.model_validate` of a row. -/
def readRelease (p : Platform Time) (row : ReleaseRow) : Checked (ReservationRelease Time) := do
  if ¬ boundedText row.storeIdentity ∨ ¬ boundedText row.ownerKey ∨ row.reservedBytes ≤ 0 ∨
      ¬ isDigest row.releaseIdentity then .error .invalid
  let evidence ← readReleaseEvidence p row.releaseEvidence
  let teardown ← readColumn (readTeardown p) row.teardownEvidence
  let r : ReservationRelease Time := ⟨row.activationId, row.storeIdentity, row.ownerKey,
    row.reservedBytes, row.releaseIdentity, evidence, teardown⟩
  releaseMatchesRow p r
  return r

end Rows

end Kdive.ExternalBoot
