import Kdive.Bundles.BootMember
import Kdive.Bundles.GuardedTar
import Kdive.Bundles.Scan
import Kdive.Builds.Validation

/-!
`validate_external_artifacts`, with the exceptions of the libraries it calls: a first pass over the
beginning of the kernel bundle, the build id of an uploaded `vmlinux`, and a second pass over all of
the bundle. What is uploaded under a key is read without errors.
-/
namespace Kdive.Bundles
open PosixPath (Str str)
open Raises
open Builds (ManifestEntry byName)
open Uploads (Key)

structure Stored where
  bytes : Bytes
  checksum : Option String

/-- `zlib.decompressobj`: what one call returns, the state it leaves and whether the stream has
ended, or none where it raises `zlib.error`. -/
structure Decompressor (σ : Type) where
  start : σ
  decompress : σ → Bytes → Nat → Option (Bytes × σ × Bool)

/-- A member as `tarfile` lists it, with what a read of its beginning does. -/
structure Listed where
  name : Str
  regular : Bool
  read : Nat → Except Exc Bytes

/-- What iterating an archive gives: the members, and the exception that ends it. -/
structure Listing where
  members : List Listed
  raised : Option Exc

/-- How the second pass over a bundle ends: at its end, with an exception between two members, or with
one in the content of a regular member of a known size. -/
inductive Ending where
  | closed
  | raised (e : Exc)
  | broken (m : TarInfo) (e : Exc)

/-- What `tarfile` yields of the decompressed stream behind `_GuardedTarReader`. -/
structure Streamed where
  members : List TarInfo
  ending : Ending

structure Libraries (σ : Type) where
  decompressobj : Decompressor σ
  /-- `tarfile.open(…, mode="r:")` of the decompressed bytes. -/
  listed : Bytes → Listing
  /-- `gzip.GzipFile` and `tarfile.open(…, mode="r|")` of the compressed object. -/
  streamed : Bytes → Streamed
  decode : Decoders
  nfc : Str → Str
  sha256 : Bytes → Str

variable {σ : Type}

section FirstPass

def kernelTarScanMaxBytes : Nat := 128 * 1024 * 1024

def gzipMagic : Bytes := [0x1F, 0x8B]

def decompressLoop (d : Decompressor σ) (maxOut : Nat) (s : σ) (out rest : Bytes) :
    Except Exc (Bytes × Bool) :=
  if _done : rest = [] ∨ maxOut ≤ out.length then .ok (out, false)
  else
    match d.decompress s (rest.take decodeChunkBytes) (maxOut - out.length) with
    | none => failed
        "kernel artifact gzip stream is corrupt: decompression failed; re-upload the archive"
    | some (produced, s, ended) =>
      if ended then .ok (out ++ produced, true)
      else decompressLoop d maxOut s (out ++ produced) (rest.drop decodeChunkBytes)
termination_by rest.length
decreasing_by
  rw [not_or] at _done
  have some := List.length_pos_iff.mpr _done.1
  have positive : 0 < decodeChunkBytes := by decide
  rw [List.length_drop]
  omega

def bootPins : Arch → List (Nat × Bytes)
  | .x86_64 => [(0x202, bzimageMagic)]
  | .ppc64le => [(0, elf64lePrefix), (0x12, [21, 0])]

def pinnedLength (arch : Arch) : Nat :=
  (bootPins arch).foldl (fun longest pin => max longest (pin.1 + pin.2.length)) 0

def pinsMatch (arch : Arch) (head : Bytes) : Bool :=
  (bootPins arch).all fun pin => slice head pin.1 (pin.1 + pin.2.length) = pin.2

def normalizedMemberName (name : Str) : Str :=
  (if startsWith name (str "./") then name.drop 2 else name).dropWhile (· = PosixPath.slash)

def moduleSuffixes : List Str := [str ".ko", str ".ko.xz", str ".ko.gz", str ".ko.zst"]

def isKernelModuleMember (path : Str) (m : Listed) : Bool :=
  m.regular && startsWith path modulesMemberPrefix &&
    (path.drop modulesMemberPrefix.length).contains PosixPath.slash &&
    moduleSuffixes.any fun suffix => suffix.isSuffixOf path

structure Shape where
  bootSeen : Bool := false
  bootOk : Bool := false
  modulesOk : Bool := false

def shapeLoop (arch : Arch) (raised : Option Exc) : List Listed → Shape → Shape × Option Exc
  | [], s => (s, raised)
  | m :: rest, s =>
    let path := normalizedMemberName m.name
    if path = kernelBootMember ∧ m.regular then
      match m.read (pinnedLength arch) with
      | .error e => ({ s with bootSeen := true }, some e)
      | .ok head =>
        let s := { s with bootSeen := true, bootOk := pinsMatch arch head }
        if s.bootOk ∧ s.modulesOk then (s, none) else shapeLoop arch raised rest s
    else
      let s := if isKernelModuleMember path m then { s with modulesOk := true } else s
      if s.bootOk ∧ s.modulesOk then (s, none) else shapeLoop arch raised rest s

def container : Arch → String
  | .x86_64 => "bzImage"
  | .ppc64le => "ppc64le ELF (vmlinux)"

def stripHint : Arch → String
  | .x86_64 => ""
  | .ppc64le =>
    " (ppc64le: strip the build-tree vmlinux before packaging - see docs/operating/external-build-upload.md)"

def scanBoundRejectionMessage (arch : Arch) : String :=
  "kernel combined tar boot/vmlinuz exceeds the 128 MiB scan bound before any lib/modules member (the scan stops at the bound, so the boot member's full decompressed size is not measured); strip the boot image or list lib/modules earlier"
    ++ stripHint arch

def shapeVerdict (arch : Arch) (s : Shape) (capReached : Bool) : Except Exc Unit :=
  if s.bootOk = false then
    if s.bootSeen then
      failed ("kernel combined tar boot/vmlinuz is present but is not a " ++ container arch ++
        " member for the declared arch")
    else failed ("kernel combined tar has no boot/vmlinuz " ++ container arch ++ " member")
  else if s.modulesOk = false then
    if capReached then failed (scanBoundRejectionMessage arch)
    else failed "kernel combined tar has no lib/modules member within the scan bound"
  else .ok ()

def verifyCombinedTarShape (arch : Arch) (listing : Listing) (capReached : Bool) : Except Exc Unit :=
  match shapeLoop arch listing.raised listing.members {} with
  | (s, none) => shapeVerdict arch s capReached
  | (s, some e) =>
    if e = .tarError then
      if s.bootOk = false ∧ s.modulesOk = false then failed "kernel artifact is not a readable tar"
      else shapeVerdict arch s capReached
    else .error e

def checkKernelCombinedTar (lib : Libraries σ) (arch : Arch) (object : Bytes) : Except Exc Unit :=
  if slice object 0 2 ≠ gzipMagic then
    failed "kernel artifact is not a gzip-compressed combined tar"
  else
    (decompressLoop lib.decompressobj kernelTarScanMaxBytes lib.decompressobj.start [] object).bind
      fun (data, complete) =>
        let capReached := decide (kernelTarScanMaxBytes ≤ data.length)
        if capReached = false ∧ complete = false then
          failed "kernel artifact gzip stream is truncated: it ended before the gzip trailer, so the combined tar is incomplete; re-upload the full archive"
        else verifyCombinedTarShape arch (lib.listed data) capReached

end FirstPass

section SecondPass

def inspection (lib : Libraries σ) (arch : Arch) : Inspection where
  nfc := lib.nfc
  sha256 := lib.sha256
  inspectBootMember := fun m =>
    (inspectBootMember lib.decode m.content arch).map KernelMetadata.release

def checkedUnread (lib : Libraries σ) (arch : Arch) (m : TarInfo) (s : ScanState) :
    Except Exc ScanState :=
  scanMember { inspection lib arch with inspectBootMember := fun _ => .ok [] } m s

def caughtByScan : Exc → Bool
  | .eofError | .osError | .tarError => true
  | _ => false

def scanRaised {α : Type} (e : Exc) : Except Exc α :=
  caught caughtByScan (.failure ⟨"kernel bundle is not a complete readable gzip tar"⟩) (.error e)

/-- `_scan_external_boot_archive`. -/
def scanStreamed (lib : Libraries σ) (arch : Arch) (bundle : Streamed) : Except Exc Scanned :=
  match Sweep.run (scanMember (inspection lib arch)) bundle.members {} with
  | .error e => .error e
  | .ok s =>
    match bundle.ending with
    | .closed => scanEnd s
    | .raised e => scanRaised e
    | .broken m e =>
      match checkedUnread lib arch m s with
      | .error refusal => .error refusal
      | .ok _ => scanRaised e

def archiveBuildId (lib : Libraries σ) (arch : Arch) (members : List TarInfo) : Option String :=
  (members.find? fun m => m.name = kernelBootMember).bind fun m =>
    (inspectBootMember lib.decode m.content arch).toOption.map (·.gnuBuildId)

def compressedMaxBytes : Nat := 2 * 1024 * 1024 * 1024

def debuginfoMaxBytes : Nat := 1610612736

def initrdMaxBytes : Nat := 512 * 1024 * 1024

structure Evidence where
  bundleSha256 : Str
  initrd : Option (Str × Nat)
  debuginfo : Option (Str × Nat)
  archive : Scanned

def digestObject (lib : Libraries σ) (object : Bytes) : Str × Nat :=
  (sha256Prefix ++ lib.sha256 object, object.length)

def sealEvidence (lib : Libraries σ) (arch : Arch) (buildId : String) (kernel : Bytes)
    (vmlinux initrd : Option Bytes) (archive : Scanned) : Except Exc Evidence :=
  if buildId ≠ "" ∧ archiveBuildId lib arch (lib.streamed kernel).members ≠ some buildId then
    failed "uploaded vmlinux build_id does not match boot/vmlinuz"
  else if initrd.any (·.length > initrdMaxBytes) then
    failed "initrd exceeds the external-boot byte limit; rebuild a smaller initrd"
  else .ok ⟨(digestObject lib kernel).1, initrd.map (digestObject lib), vmlinux.map (digestObject lib),
    archive⟩

def externalBootEvidence (lib : Libraries σ) (arch : Arch) (buildId : String) (kernel : Bytes)
    (vmlinux initrd : Option Bytes) : Except Exc Evidence :=
  if kernel.length > compressedMaxBytes then
    failed "kernel bundle exceeds the external-boot compressed byte limit"
  else if vmlinux.any (·.length > debuginfoMaxBytes) then
    failed "vmlinux exceeds the external-boot byte limit; compress its debug sections (objcopy --compress-debug-sections) and upload again"
  else
    (scanStreamed lib arch (lib.streamed kernel)).bind
      (sealEvidence lib arch buildId kernel vmlinux initrd)

end SecondPass

section Validation

structure Upload where
  store : Key → Option Stored
  keys : String → Option Key
  manifest : List ManifestEntry
  declaredBuildId : Option String

def checkHead (entry : ManifestEntry) (object : Stored) : Except Exc Unit :=
  match entry.chunks with
  | none =>
    if object.checksum = none then
      failed "uploaded artifact has no stored SHA-256 checksum (the upload bypassed the presigned PUT; a direct put_object must send the x-amz-checksum-sha256 header)"
    else if object.bytes.length ≠ entry.sizeBytes ∨ object.checksum ≠ some entry.sha256 then
      failed "uploaded artifact disagrees with its manifest"
    else .ok ()
  | some _ =>
    if object.bytes.length ≠ entry.sizeBytes then
      failed "reassembled artifact size disagrees with its manifest"
    else .ok ()

def checkArtifactContent (lib : Libraries σ) (arch : Arch) (name : String) (object : Bytes) :
    Except Exc Unit :=
  if name = "vmlinux" then
    if slice object 0 4 ≠ elf64lePrefix.take 4 then failed "vmlinux is not an ELF file" else .ok ()
  else if name = "kernel" then checkKernelCombinedTar lib arch object
  else .ok ()

def validateOneArtifact (lib : Libraries σ) (arch : Arch) (upload : Upload)
    (item : String × ManifestEntry) : Except Exc (String × Bytes) :=
  match upload.keys item.1 with
  | none => .error (.configuration "declared artifact has no upload key")
  | some key =>
    match upload.store key with
    | none => .error (.configuration "declared artifact was never uploaded")
    | some object =>
      (checkHead item.2 object).bind fun _ =>
        (checkArtifactContent lib arch item.1 object.bytes).map fun _ => (item.1, object.bytes)

def validateAll (lib : Libraries σ) (arch : Arch) (upload : Upload) :
    List (String × ManifestEntry) → Except Exc (List (String × Bytes))
  | [] => .ok []
  | item :: rest =>
    (validateOneArtifact lib arch upload item).bind fun validated =>
      (validateAll lib arch upload rest).map (validated :: ·)

def checkBuildId (upload : Upload) (heads : List (String × Bytes)) : Except Exc String :=
  match heads.lookup "vmlinux" with
  | none => .ok ""
  | some vmlinux =>
    match upload.declaredBuildId with
    | none => .error (.configuration "a vmlinux upload requires a declared build_id")
    | some declared =>
      if declared = "" then .error (.configuration "a vmlinux upload requires a declared build_id")
      else
        (extractBuildIdRanged vmlinux vmlinux.length).bind fun actual =>
          if actual ≠ declared.toLower then
            failed "declared build_id does not match the uploaded vmlinux"
          else .ok actual

structure ValidatedUpload where
  kernelRef : Key
  debuginfoRef : Option Key
  buildId : String
  evidence : Evidence

def finishValidation (lib : Libraries σ) (arch : Arch) (upload : Upload) (kernelRef : Key)
    (heads : List (String × Bytes)) : Except Exc ValidatedUpload :=
  (checkBuildId upload heads).bind fun buildId =>
    (externalBootEvidence lib arch buildId ((heads.lookup "kernel").getD [])
      (heads.lookup "vmlinux") (heads.lookup "initrd")).map fun evidence =>
        ⟨kernelRef, upload.keys "vmlinux", buildId, evidence⟩

def validateExternalArtifacts (lib : Libraries σ) (arch : Arch) (upload : Upload) :
    Except Exc ValidatedUpload :=
  match (byName upload.manifest).lookup "kernel", upload.keys "kernel" with
  | some _, some kernelRef =>
    (validateAll lib arch upload (byName upload.manifest)).bind
      (finishValidation lib arch upload kernelRef)
  | _, _ => .error (.configuration "external build is missing the required kernel artifact")

end Validation

section Escapes

variable (lib : Libraries σ) (arch : Arch)

/-- What the first pass lets out: anything but a `TarError` that the library raises before both
members are found in the beginning of the bundle. -/
def FirstPassContained (object : Bytes) : Prop :=
  slice object 0 2 = gzipMagic → ∀ data complete,
    decompressLoop lib.decompressobj kernelTarScanMaxBytes lib.decompressobj.start [] object =
      .ok (data, complete) →
    kernelTarScanMaxBytes ≤ data.length ∨ complete = true →
    ∀ e, (shapeLoop arch (lib.listed data).raised (lib.listed data).members {}).2 = some e →
      e = .tarError ∨ e.Categorized

def Complete (s : ScanState) : Prop :=
  ∃ release, s.boot = some release ∧ s.releases = [release] ∧ topologyValid s.entries = true

/-- What the second pass lets out, once the members it has seen are accepted: a path that is no UTF-8,
and every exception but the three kinds that are caught. -/
def SecondPassContained (bundle : Streamed) : Prop :=
  ∀ s, Sweep.run (scanMember (inspection lib arch)) bundle.members {} = .ok s →
    match bundle.ending with
    | .closed => Complete s → ∀ entry ∈ s.entries, Encodes entry.path
    | .raised e => caughtByScan e = true ∨ e.Categorized
    | .broken m e => (∃ s', checkedUnread lib arch m s = .ok s') →
        caughtByScan e = true ∨ e.Categorized

structure NothingEscapes (upload : Upload) : Prop where
  first : ∀ before entry after key object,
    byName upload.manifest = before ++ ("kernel", entry) :: after →
    (∃ heads, validateAll lib arch upload before = .ok heads) →
    upload.keys "kernel" = some key → upload.store key = some object →
    checkHead entry object = .ok () → FirstPassContained lib arch object.bytes
  second : ∀ entry key heads buildId,
    (byName upload.manifest).lookup "kernel" = some entry → upload.keys "kernel" = some key →
    validateAll lib arch upload (byName upload.manifest) = .ok heads →
    checkBuildId upload heads = .ok buildId →
    ((heads.lookup "kernel").getD []).length ≤ compressedMaxBytes →
    (heads.lookup "vmlinux").any (·.length > debuginfoMaxBytes) = false →
    SecondPassContained lib arch (lib.streamed ((heads.lookup "kernel").getD []))

theorem quiet_decompressLoop (d : Decompressor σ) (maxOut : Nat) (s : σ) (out rest : Bytes) :
    Quiet (decompressLoop d maxOut s out rest) := by
  induction left : rest.length using Nat.strongRecOn generalizing s out rest with
  | ind left ih =>
    rw [decompressLoop]
    split
    · exact only_ok _
    rename_i more
    rw [not_or] at more
    split
    · exact quiet_failed _
    · refine only_ite (fun _ => only_ok _) (fun _ => ih _ ?_ _ _ _ rfl)
      have some := List.length_pos_iff.mpr more.1
      have positive : 0 < decodeChunkBytes := by decide
      rw [List.length_drop]
      omega

theorem quiet_shapeVerdict (s : Shape) (capReached : Bool) : Quiet (shapeVerdict arch s capReached) :=
  only_ite (fun _ => only_ite (fun _ => quiet_failed _) fun _ => quiet_failed _) fun _ =>
    only_ite (fun _ => only_ite (fun _ => quiet_failed _) fun _ => quiet_failed _) fun _ => only_ok _

theorem quiet_verifyCombinedTarShape_iff (listing : Listing) (capReached : Bool) :
    Quiet (verifyCombinedTarShape arch listing capReached) ↔
      ∀ e, (shapeLoop arch listing.raised listing.members {}).2 = some e →
        e = .tarError ∨ e.Categorized := by
  rw [verifyCombinedTarShape]
  rcases shapeLoop arch listing.raised listing.members {} with ⟨s, _ | e⟩
  · exact ⟨fun _ e => nofun, fun _ => quiet_shapeVerdict arch s capReached⟩
  · dsimp only
    by_cases tar : e = .tarError
    · rw [if_pos tar]
      constructor
      · intro _ e' same
        exact .inl ((Option.some.inj same).symm.trans tar)
      · intro _
        exact only_ite (fun _ => quiet_failed _) fun _ => quiet_shapeVerdict arch s capReached
    · rw [if_neg tar, Quiet, only_error_iff]
      constructor
      · intro categorized e' same
        rw [← Option.some.inj same]
        exact .inr categorized
      · intro contained
        exact (contained e rfl).resolve_left tar

theorem quiet_checkKernelCombinedTar_iff (object : Bytes) :
    Quiet (checkKernelCombinedTar lib arch object) ↔ FirstPassContained lib arch object := by
  rw [checkKernelCombinedTar, FirstPassContained]
  by_cases gzip : slice object 0 2 = gzipMagic
  · rw [if_neg (not_not.mpr gzip), Quiet, only_bind_iff]
    have loops := quiet_decompressLoop lib.decompressobj kernelTarScanMaxBytes
      lib.decompressobj.start [] object
    constructor
    · rintro ⟨-, quiet⟩ - data complete ran enough
      have shape := quiet (data, complete) ran
      dsimp only at shape
      rw [if_neg (by simpa [or_iff_not_imp_left] using enough)] at shape
      exact (quiet_verifyCombinedTarShape_iff arch _ _).mp shape
    · intro contained
      refine ⟨loops, ?_⟩
      rintro ⟨data, complete⟩ ran
      refine only_ite (fun _ => quiet_failed _) (fun enough => ?_)
      refine (quiet_verifyCombinedTarShape_iff arch _ _).mpr (contained gzip data complete ran ?_)
      simpa [or_iff_not_imp_left] using enough
  · rw [if_pos gzip]
    exact ⟨fun _ same => absurd same gzip, fun _ => quiet_failed _⟩

theorem quiet_scanRaised_iff {α : Type} (e : Exc) :
    Quiet (scanRaised e : Except Exc α) ↔ caughtByScan e = true ∨ e.Categorized := by
  rw [scanRaised, Quiet, only_caught_iff trivial, only_error_iff]

theorem quiet_moduleManifestEntry (tools : Inspection) (m : TarInfo) (relative : Str) :
    Quiet (moduleManifestEntry tools m relative) := by
  rw [moduleManifestEntry]
  split
  · exact only_ok _
  · exact only_ok _
  · exact only_ite (fun _ => quiet_failed _) fun _ => only_ite (fun _ => quiet_failed _) fun _ =>
      only_ite (fun _ => only_ok _) fun _ => only_ite (fun _ => quiet_failed _) fun _ => only_ok _
  · exact quiet_failed _

theorem quiet_moduleMemberPath (path : Str) (m : TarInfo) : Quiet (moduleMemberPath path m) :=
  only_ite (fun _ => only_ite (fun _ => only_ok _) fun _ => quiet_failed _) fun _ =>
    only_ite (fun _ => quiet_failed _) fun _ => only_ite (fun _ => only_ok _) fun _ =>
      only_ite (fun _ => quiet_failed _) fun _ => only_ok _

theorem quiet_canonicalTarPath (tools : Inspection) (m : TarInfo) :
    Quiet (canonicalTarPath tools m) :=
  only_ite (fun _ => quiet_failed _) fun _ => only_ite (fun _ => quiet_failed _) fun _ =>
    only_ite (fun _ => quiet_failed _) fun _ => only_ok _

theorem quiet_scanModule (tools : Inspection) (m : TarInfo) (release relative : Str)
    (s : ScanState) : Quiet (scanModule tools m release relative s) := by
  refine only_ite (fun _ => only_ok _) (fun _ => ?_)
  have entry := quiet_moduleManifestEntry tools m relative
  split
  · rename_i e raised
    exact only_error (entry e raised)
  · exact only_ok _
  · exact only_ok _

section Members

variable {tools : Inspection} (inspects : ∀ m, Quiet (tools.inspectBootMember m))
include inspects

theorem quiet_scanBoot (m : TarInfo) (s : ScanState) : Quiet (scanBoot tools m s) := by
  refine only_ite (fun _ => quiet_failed _) fun _ => only_ite (fun _ => quiet_failed _) fun _ => ?_
  split
  · rename_i e raised
    exact only_error (inspects m e raised)
  · exact only_ok _

theorem quiet_scanNamed (m : TarInfo) (path : Str) (s : ScanState) :
    Quiet (scanNamed tools m path s) := by
  refine only_ite (fun _ => quiet_scanBoot inspects m s) (fun _ => ?_)
  have place := quiet_moduleMemberPath path m
  split
  · rename_i e raised
    exact only_error (place e raised)
  · exact only_ok _
  · exact quiet_scanModule _ _ _ _ _

theorem quiet_scanMember (m : TarInfo) (s : ScanState) : Quiet (scanMember tools m s) := by
  refine only_ite (fun _ => quiet_failed _) (fun _ => ?_)
  have path := quiet_canonicalTarPath tools m
  split
  · rename_i e raised
    exact only_error (path e raised)
  · exact only_ite (fun _ => quiet_failed _) fun _ => only_ite (fun _ => quiet_failed _) fun _ =>
      quiet_scanNamed inspects _ _ _

theorem quiet_run (members : List TarInfo) (s : ScanState) :
    Quiet (Sweep.run (scanMember tools) members s) := by
  induction members generalizing s with
  | nil => exact only_ok _
  | cons m rest ih => exact only_bind (quiet_scanMember inspects m s) fun s' _ => ih s'

end Members

/-- The key of the last sort is an encoding, which fails on a path that is no UTF-8. -/
theorem quiet_scanEnd_iff (s : ScanState) :
    Quiet (scanEnd s) ↔ (Complete s → ∀ entry ∈ s.entries, Encodes entry.path) := by
  rw [scanEnd]
  split
  · rename_i none
    refine ⟨fun _ complete => ?_, fun _ => quiet_failed _⟩
    obtain ⟨release, boot, -⟩ := complete
    exact absurd (none.symm.trans boot) nofun
  rename_i kernelRelease boot
  split
  · rename_i release releases
    by_cases empty : s.entries = []
    · rw [if_pos empty]
      refine ⟨fun _ _ entry member => ?_, fun _ => quiet_failed _⟩
      rw [empty] at member
      cases member
    rw [if_neg empty]
    by_cases flat : topologyValid s.entries = false
    · rw [if_pos flat]
      refine ⟨fun _ complete => ?_, fun _ => quiet_failed _⟩
      obtain ⟨_, _, _, valid⟩ := complete
      exact absurd (flat.symm.trans valid) nofun
    rw [if_neg flat]
    by_cases apart : kernelRelease ≠ release
    · rw [if_pos apart]
      refine ⟨fun _ complete => ?_, fun _ => quiet_failed _⟩
      obtain ⟨known, named, listed, -⟩ := complete
      have first := Option.some.inj (boot.symm.trans named)
      have second := (List.cons.inj (releases.symm.trans listed)).1
      exact absurd (first.trans second.symm) apart
    rw [if_neg apart]
    by_cases encode : ∀ entry ∈ s.entries, Encodes entry.path
    · rw [if_pos encode]
      exact ⟨fun _ _ => encode, fun _ => only_ok _⟩
    · rw [if_neg encode, Quiet, only_error_iff]
      refine ⟨fun refusal => absurd refusal id, fun contained => absurd (contained ?_) encode⟩
      rw [not_not] at apart
      rw [Bool.not_eq_false] at flat
      exact ⟨kernelRelease, boot, by rw [releases, apart], flat⟩
  · rename_i several
    refine ⟨fun _ complete => ?_, fun _ => quiet_failed _⟩
    obtain ⟨release, -, one, -⟩ := complete
    exact absurd one (several release)

theorem quiet_scanStreamed_iff (bundle : Streamed) :
    Quiet (scanStreamed lib arch bundle) ↔ SecondPassContained lib arch bundle := by
  have inspects m : Quiet ((inspection lib arch).inspectBootMember m) :=
    only_map (quiet_inspectBootMember lib.decode m.content arch)
  have runs := quiet_run inspects bundle.members {}
  rw [scanStreamed, SecondPassContained]
  cases ran : Sweep.run (scanMember (inspection lib arch)) bundle.members {} with
  | error e => exact ⟨fun _ _ => nofun, fun _ => only_error (runs e ran)⟩
  | ok s =>
    have one {P : ScanState → Prop} :
        (∀ s', (Except.ok s : Except Exc ScanState) = .ok s' → P s') ↔ P s :=
      ⟨fun all => all s rfl, fun holds s' same => Except.ok.inj same ▸ holds⟩
    rw [one]
    dsimp only
    cases bundle.ending with
    | closed => exact quiet_scanEnd_iff s
    | raised e => exact quiet_scanRaised_iff e
    | broken m e =>
      have checks : Quiet (checkedUnread lib arch m s) := quiet_scanMember (fun _ => only_ok _) m s
      dsimp only
      cases checked : checkedUnread lib arch m s with
      | error refusal =>
        exact ⟨fun _ passed => absurd passed.choose_spec nofun,
          fun _ => only_error (checks refusal checked)⟩
      | ok s' =>
        exact (quiet_scanRaised_iff e).trans ⟨fun contained _ => contained,
          fun contained => contained ⟨s', rfl⟩⟩

theorem quiet_checkHead (entry : ManifestEntry) (object : Stored) : Quiet (checkHead entry object) := by
  rw [checkHead]
  split
  · exact only_ite (fun _ => quiet_failed _) fun _ =>
      only_ite (fun _ => quiet_failed _) fun _ => only_ok _
  · exact only_ite (fun _ => quiet_failed _) fun _ => only_ok _

theorem quiet_checkArtifactContent_iff (name : String) (object : Bytes) :
    Quiet (checkArtifactContent lib arch name object) ↔
      (name = "kernel" → FirstPassContained lib arch object) := by
  rw [checkArtifactContent]
  by_cases vmlinux : name = "vmlinux"
  · rw [if_pos vmlinux]
    refine ⟨fun _ kernel => ?_, fun _ => only_ite (fun _ => quiet_failed _) fun _ => only_ok _⟩
    rw [vmlinux] at kernel
    exact absurd kernel (by decide)
  rw [if_neg vmlinux]
  by_cases kernel : name = "kernel"
  · rw [if_pos kernel, quiet_checkKernelCombinedTar_iff]
    exact ⟨fun contained _ => contained, fun contained => contained kernel⟩
  · rw [if_neg kernel]
    exact ⟨fun _ same => absurd same kernel, fun _ => only_ok _⟩

theorem quiet_validateOneArtifact_iff (upload : Upload) (name : String) (entry : ManifestEntry) :
    Quiet (validateOneArtifact lib arch upload (name, entry)) ↔
      (name = "kernel" → ∀ key object, upload.keys "kernel" = some key →
        upload.store key = some object → checkHead entry object = .ok () →
        FirstPassContained lib arch object.bytes) := by
  rw [validateOneArtifact]
  dsimp only
  cases known : upload.keys name with
  | none =>
    refine ⟨fun _ kernel key _ found => ?_, fun _ => only_error trivial⟩
    rw [← kernel, known] at found
    cases found
  | some key =>
    dsimp only
    cases stored : upload.store key with
    | none =>
      refine ⟨fun _ kernel key' object found uploaded => ?_, fun _ => only_error trivial⟩
      rw [← kernel, known] at found
      obtain rfl := Option.some.inj found
      rw [stored] at uploaded
      cases uploaded
    | some object =>
      dsimp only
      constructor
      · intro quiet kernel key' object' found uploaded heads
        rw [← kernel, known] at found
        obtain rfl := Option.some.inj found
        obtain rfl := Option.some.inj (stored.symm.trans uploaded)
        have content := only_map_iff.mp ((only_bind_iff.mp quiet).2 () heads)
        exact (quiet_checkArtifactContent_iff lib arch name object.bytes).mp content kernel
      · intro contained
        refine only_bind (quiet_checkHead entry object) fun _ heads => only_map ?_
        refine (quiet_checkArtifactContent_iff lib arch name object.bytes).mpr fun kernel => ?_
        refine contained kernel key object ?_ stored heads
        rw [← kernel]
        exact known

theorem quiet_validateAll_iff (upload : Upload) (items : List (String × ManifestEntry)) :
    Quiet (validateAll lib arch upload items) ↔
      ∀ earlier item later, items = earlier ++ item :: later →
        (∃ heads, validateAll lib arch upload earlier = .ok heads) →
        Quiet (validateOneArtifact lib arch upload item) := by
  induction items with
  | nil =>
    refine ⟨fun _ earlier item later split => ?_, fun _ => only_ok _⟩
    simp at split
  | cons first rest ih =>
    rw [validateAll, Quiet, only_bind_iff]
    constructor
    · rintro ⟨one, more⟩ earlier item later split ⟨heads, passed⟩
      cases earlier with
      | nil =>
        obtain ⟨rfl, -⟩ := List.cons.inj split
        exact one
      | cons first' earlier =>
        obtain ⟨rfl, tail⟩ := List.cons.inj split
        rw [validateAll] at passed
        cases validated : validateOneArtifact lib arch upload first with
        | error e =>
          rw [validated] at passed
          cases passed
        | ok pair =>
          rw [validated] at passed
          refine ih.mp (only_map_iff.mp (more pair validated)) earlier item later tail ?_
          cases before : validateAll lib arch upload earlier with
          | error e =>
            rw [Except.bind, before] at passed
            cases passed
          | ok heads => exact ⟨heads, rfl⟩
    · intro reached
      refine ⟨reached [] first rest rfl ⟨[], rfl⟩, fun pair validated => only_map (ih.mpr ?_)⟩
      rintro earlier item later rfl ⟨heads, passed⟩
      refine reached (first :: earlier) item later rfl ⟨pair :: heads, ?_⟩
      rw [validateAll, validated, Except.bind, passed]
      rfl

theorem quiet_checkBuildId (upload : Upload) (heads : List (String × Bytes)) :
    Quiet (checkBuildId upload heads) := by
  rw [checkBuildId]
  split
  · exact only_ok _
  split
  · exact only_error trivial
  refine only_ite (fun _ => only_error trivial) fun _ => ?_
  exact only_bind (quiet_extractBuildIdRanged _ _) fun actual _ =>
    only_ite (fun _ => quiet_failed _) fun _ => only_ok _

theorem quiet_externalBootEvidence_iff (buildId : String) (kernel : Bytes)
    (vmlinux initrd : Option Bytes) :
    Quiet (externalBootEvidence lib arch buildId kernel vmlinux initrd) ↔
      (kernel.length ≤ compressedMaxBytes → vmlinux.any (·.length > debuginfoMaxBytes) = false →
        SecondPassContained lib arch (lib.streamed kernel)) := by
  rw [externalBootEvidence]
  by_cases large : kernel.length > compressedMaxBytes
  · rw [if_pos large]
    exact ⟨fun _ small => absurd small (Nat.not_le.mpr large), fun _ => quiet_failed _⟩
  rw [if_neg large]
  by_cases heavy : vmlinux.any (·.length > debuginfoMaxBytes) = true
  · rw [if_pos heavy]
    exact ⟨fun _ _ light => absurd (heavy.symm.trans light) nofun, fun _ => quiet_failed _⟩
  rw [if_neg heavy, ← quiet_scanStreamed_iff, Quiet, only_bind_iff]
  rw [Bool.not_eq_true] at heavy
  constructor
  · intro both _ _
    exact both.1
  · intro contained
    refine ⟨contained (Nat.not_lt.mp large) heavy, fun archive _ => ?_⟩
    exact only_ite (fun _ => quiet_failed _) fun _ => only_ite (fun _ => quiet_failed _) fun _ =>
      only_ok _

/-- Validation returns or raises a categorized error exactly when, as far as each pass is reached,
the libraries raise what it catches and the paths it sorts are UTF-8. -/
theorem validation_categorized_iff (upload : Upload) :
    Quiet (validateExternalArtifacts lib arch upload) ↔ NothingEscapes lib arch upload := by
  rw [validateExternalArtifacts]
  cases declared : (byName upload.manifest).lookup "kernel" with
  | none =>
    -- without a kernel neither pass is reached
    refine ⟨fun _ => ⟨?_, ?_⟩, fun _ => only_error trivial⟩
    · intro earlier entry later key object split
      have absent := List.lookup_eq_none_iff.mp declared ("kernel", entry) (by simp [split])
      simp at absent
    · intro entry key heads buildId found
      rw [declared] at found
      cases found
  | some entry =>
    cases known : upload.keys "kernel" with
    | none =>
      refine ⟨fun _ => ⟨?_, ?_⟩, fun _ => only_error trivial⟩
      · intro earlier entry later key object _ _ found
        rw [known] at found
        cases found
      · intro entry key heads buildId _ found
        rw [known] at found
        cases found
    | some ref =>
      dsimp only
      have artifacts := quiet_validateAll_iff lib arch upload (byName upload.manifest)
      rw [Quiet, only_bind_iff]
      constructor
      · rintro ⟨all, finish⟩
        have one := artifacts.mp all
        refine ⟨?_, ?_⟩
        · intro earlier entry later key object split passed
          exact (quiet_validateOneArtifact_iff lib arch upload "kernel" entry).mp
            (one earlier ("kernel", entry) later split passed) rfl key object
        · intro _ _ heads buildId _ _ passed checked
          have ends := only_bind_iff.mp (finish heads passed)
          have evidence := only_map_iff.mp (ends.2 buildId checked)
          exact (quiet_externalBootEvidence_iff lib arch buildId _ _ _).mp evidence
      · rintro ⟨first, second⟩
        refine ⟨artifacts.mpr ?_, ?_⟩
        · rintro earlier ⟨name, entry⟩ later split passed
          refine (quiet_validateOneArtifact_iff lib arch upload name entry).mpr ?_
          rintro rfl key object
          exact first earlier entry later key object split passed
        · intro heads passed
          refine only_bind (quiet_checkBuildId upload heads) fun buildId checked => only_map ?_
          exact (quiet_externalBootEvidence_iff lib arch buildId _ _ _).mpr
            (second entry ref heads buildId declared known passed checked)

end Escapes

section SurrogateName

def bannerKernel : Bytes :=
  elf64lePrefix ++ List.replicate 12 0 ++ [21, 0] ++ List.replicate 12 0 ++
    [64, 0, 0, 0, 0, 0, 0, 0] ++ List.replicate 14 0 ++ [56, 0, 1, 0] ++ List.replicate 6 0 ++
    [4, 0, 0, 0, 0, 0, 0, 0, 120, 0, 0, 0, 0, 0, 0, 0] ++ List.replicate 16 0 ++
    [20, 0, 0, 0, 0, 0, 0, 0] ++ List.replicate 16 0 ++
    [4, 0, 0, 0, 4, 0, 0, 0, 3, 0, 0, 0, 0x47, 0x4E, 0x55, 0, 0xDE, 0xAD, 0xBE, 0xEF] ++
    bannerMarker ++ [0x36, 0x2E, 0x31, 0x20]

def asciiBytes (text : String) : Bytes := text.toList.map fun c => UInt8.ofNat c.toNat

def surrogateTar : Bytes :=
  octalHeader (asciiBytes "boot/vmlinuz") 0x30 158 ++ bannerKernel ++ List.replicate 354 0 ++
    octalHeader (asciiBytes "lib/modules/6.1/" ++ [0xFF] ++ asciiBytes ".ko") 0x30 0 ++
    List.replicate 1024 0

def surrogateObject : Bytes :=
  [0x1F, 0x8B, 8, 0, 0, 0, 0, 0, 0, 0xFF, 1, 0, 10, 0xFF, 0xF5] ++ surrogateTar ++
    [160, 236, 205, 224, 0, 10, 0, 0]

def surrogateName : Str := str "lib/modules/6.1/" ++ [0xDCFF] ++ str ".ko"

def surrogateLibraries : Libraries Unit where
  decompressobj := ⟨(), fun _ _ _ => some (surrogateTar, (), true)⟩
  listed := fun _ => ⟨[⟨kernelBootMember, true, fun n => .ok (bannerKernel.take n)⟩,
    ⟨surrogateName, true, fun _ => .ok []⟩], none⟩
  streamed := fun _ => ⟨[⟨kernelBootMember, .regular, 0, 0, 0, [], bannerKernel⟩,
    ⟨surrogateName, .regular, 0, 0, 0, [], []⟩], .closed⟩
  decode := fun _ _ => ([], false)
  nfc := id
  sha256 := fun _ => str "e3b0c44298fc1c149afbf4c8996fb92427ae41e4649b934ca495991b7852b855"

def surrogateUpload : Upload where
  store := fun _ => some ⟨surrogateObject, some "ceZTQT3PmQIPqa6XhfhDOWY4oTl2cL7lFISHIsJAsEQ="⟩
  keys := fun name => if name = "kernel" then some [.text "local", .text "runs", .text name] else none
  manifest := [⟨"kernel", "ceZTQT3PmQIPqa6XhfhDOWY4oTl2cL7lFISHIsJAsEQ=", 2583, none⟩]
  declaredBuildId := none

/-- The sort encodes the name, which raises. -/
theorem surrogate_name_escapes :
    ¬Quiet (validateExternalArtifacts surrogateLibraries .ppc64le surrogateUpload) := by
  have raised : (match validateExternalArtifacts surrogateLibraries .ppc64le surrogateUpload with
      | .error e => some e
      | .ok _ => none) = some .unicodeEncodeError := by
    decide +kernel
  intro quiet
  split at raised
  · rename_i e same
    obtain rfl := Option.some.inj raised
    exact quiet _ same
  · cases raised

end SurrogateName

end Kdive.Bundles
