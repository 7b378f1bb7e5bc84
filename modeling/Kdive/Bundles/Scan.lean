import Kdive.Bundles.Elf
import Kdive.Lib.Sweep
import Mathlib.Data.List.Lex

/-!
`_scan_external_boot_archive` over the members that `tarfile` yields: which bundles it accepts and
the module entries it reports. A path is a list of code points, halves of surrogate pairs among them
where the bytes of a name were no UTF-8.
-/
namespace Kdive.Bundles
open PosixPath (Str str)

attribute [local instance] PosixPath.lawful

inductive MemberType where
  | regular | directory | symlink | other
  deriving DecidableEq

/-- What is read of a `TarInfo`. The content is that of a regular member, as long as its size. -/
structure TarInfo where
  name : Str
  type : MemberType
  mode : Int := 0o644
  uid : Int := 0
  gid : Int := 0
  linkname : Str := []
  content : Bytes := []

def TarInfo.isreg (m : TarInfo) : Bool := m.type = .regular

def TarInfo.isdir (m : TarInfo) : Bool := m.type = .directory

def TarInfo.issym (m : TarInfo) : Bool := m.type = .symlink

def TarInfo.size (m : TarInfo) : Nat := m.content.length

def TarInfo.executable (m : TarInfo) : Bool := (m.mode % 512).toNat &&& 0o111 ≠ 0

inductive EntryKind where
  | dir
  | file (mode : String) (sha256 : Str) (size : Nat)
  | symlink (target : Str)
  deriving DecidableEq

structure ModuleEntry where
  path : Str
  kind : EntryKind
  deriving DecidableEq

/-- What the scan takes from elsewhere: the Unicode database, the digest, and what the inspection of
`boot/vmlinuz` says its release is. -/
structure Inspection where
  nfc : Str → Str
  sha256 : Bytes → Str
  inspectBootMember : TarInfo → Except Exc Str

def kernelBootMember : Str := str "boot/vmlinuz"

def modulesMemberPrefix : Str := str "lib/modules/"

def scanMaxMembers : Nat := 200000

def scanMaxBytes : Nat := 8 * 1024 * 1024 * 1024

def memberMaxBytes : Nat := 512 * 1024 * 1024

def sha256Prefix : Str := str "sha256:"

section Members

def Encodes (s : Str) : Prop := ∀ c ∈ s, ¬ (0xD800 ≤ c ∧ c ≤ 0xDFFF)

instance (s : Str) : Decidable (Encodes s) := by unfold Encodes; infer_instance

def startsWith (s start : Str) : Bool := start.isPrefixOf s

def trimmedName (m : TarInfo) : Str :=
  if m.isdir ∧ m.name.getLast? = some PosixPath.slash then m.name.dropLast else m.name

def canonicalTarPath (tools : Inspection) (m : TarInfo) : Except Exc Str :=
  let value := trimmedName m
  if value = [] ∨ startsWith value (str "/") ∨ startsWith value (str "./") ∨ 92 ∈ value then
    failed "kernel bundle contains a noncanonical member path"
  else
    let normalized := PosixPath.normpath value
    if normalized ≠ value ∨ normalized = PosixPath.dot ∨ normalized = PosixPath.dotdot ∨
        startsWith normalized (str "../") then
      failed "kernel bundle contains a noncanonical member path"
    else if tools.nfc value ≠ value then failed "kernel bundle member paths must be NFC"
    else .ok value

def partitioned (s : Str) : Str × Bool × Str :=
  let head := s.takeWhile (· ≠ PosixPath.slash)
  (head, head.length < s.length, s.drop (head.length + 1))

def moduleMemberPath (path : Str) (m : TarInfo) : Except Exc (Option (Str × Str)) :=
  if path = str "lib" ∨ path = str "lib/modules" then
    if m.isdir then .ok none
    else failed "kernel bundle module ancestors must be directories"
  else if startsWith path modulesMemberPrefix = false then
    failed "kernel bundle contains an unrelated member"
  else
    let (release, separator, relative) := partitioned (path.drop modulesMemberPrefix.length)
    if release ≠ [] ∧ separator = false ∧ m.isdir then .ok (some (release, []))
    else if release = [] ∨ separator = false ∨ relative = [] then
      failed "kernel bundle has an invalid module-tree member"
    else .ok (some (release, relative))

def resolvedTarget (relative target : Str) : Str :=
  PosixPath.normpath (PosixPath.join (PosixPath.dirname relative) target)

def moduleManifestEntry (tools : Inspection) (m : TarInfo) (relative : Str) :
    Except Exc (Option ModuleEntry) :=
  match m.type with
  | .directory => .ok (some ⟨relative, .dir⟩)
  | .regular => .ok (some ⟨relative, .file (if m.executable then "0755" else "0644")
      (sha256Prefix ++ tools.sha256 m.content) m.size⟩)
  | .symlink =>
    let target := m.linkname
    if ¬ Encodes target then failed "module symlink target is not UTF-8"
    else if tools.nfc target ≠ target then failed "module symlink target must be NFC"
    else if (relative = str "build" ∨ relative = str "source") ∧ startsWith target (str "/") then
      .ok none
    else
      let resolved := resolvedTarget relative target
      if startsWith target (str "/") ∨ PosixPath.leaves resolved then
        failed "module symlink escapes its release tree"
      else .ok (some ⟨relative, .symlink target⟩)
  | .other => failed "kernel bundle contains an unsupported module member"

end Members

section Scanning

structure ScanState where
  memberCount : Nat := 0
  names : List Str := []
  archiveBytes : Nat := 0
  moduleBytes : Nat := 0
  boot : Option Str := none
  releases : List Str := []
  entries : List ModuleEntry := []

def scanBoot (tools : Inspection) (m : TarInfo) (s : ScanState) : Except Exc ScanState :=
  if m.isreg = false ∨ s.boot ≠ none then
    failed "boot/vmlinuz must be exactly one regular file"
  else if m.size > memberMaxBytes then failed "boot/vmlinuz exceeds the external-boot byte limit"
  else
    match tools.inspectBootMember m with
    | .error e => .error e
    | .ok release => .ok { s with boot := some release }

def noteRelease (release : Str) (s : ScanState) : ScanState :=
  if release ∈ s.releases then s else { s with releases := s.releases ++ [release] }

def scanModule (tools : Inspection) (m : TarInfo) (release relative : Str) (s : ScanState) :
    Except Exc ScanState :=
  let s := noteRelease release s
  if relative = [] then .ok s
  else
    let s := if m.isreg then { s with moduleBytes := s.moduleBytes + m.size } else s
    match moduleManifestEntry tools m relative with
    | .error e => .error e
    | .ok none => .ok s
    | .ok (some entry) => .ok { s with entries := s.entries ++ [entry] }

def scanNamed (tools : Inspection) (m : TarInfo) (path : Str) (s : ScanState) :
    Except Exc ScanState :=
  if path = kernelBootMember then scanBoot tools m s
  else
    match moduleMemberPath path m with
    | .error e => .error e
    | .ok none => .ok s
    | .ok (some (release, relative)) => scanModule tools m release relative s

def scanMember (tools : Inspection) (m : TarInfo) (s : ScanState) : Except Exc ScanState :=
  if s.memberCount + 1 > scanMaxMembers then
    failed "kernel bundle exceeds the external-boot member limit"
  else
    match canonicalTarPath tools m with
    | .error e => .error e
    | .ok path =>
      if path ∈ s.names then failed "kernel bundle contains a duplicate member"
      else if m.isreg ∧ s.archiveBytes + m.size > scanMaxBytes then
        failed "kernel bundle exceeds the external-boot uncompressed byte limit"
      else scanNamed tools m path { s with
        memberCount := s.memberCount + 1
        names := s.names ++ [path]
        archiveBytes := if m.isreg then s.archiveBytes + m.size else s.archiveBytes }

def ancestors (path : Str) : List Str :=
  let parts := PosixPath.components path
  (List.range' 1 (parts.length - 1)).map (fun n => PosixPath.joined (parts.take n))

/-- `_validate_module_topology`; every path has one entry. -/
def topologyValid (entries : List ModuleEntry) : Bool :=
  entries.all (fun e => (ancestors e.path).all (fun ancestor =>
    match entries.find? (fun a => a.path = ancestor) with
    | some a => a.kind = .dir
    | none => true))

structure Scanned where
  release : Str
  entries : List ModuleEntry
  memberCount : Nat
  archiveBytes : Nat
  moduleBytes : Nat
  deriving DecidableEq

def byPath (a b : ModuleEntry) : Prop := a.path ≤ b.path

instance : DecidableRel byPath := fun a b => inferInstanceAs (Decidable (a.path ≤ b.path))

def scanEnd (s : ScanState) : Except Exc Scanned :=
  match s.boot with
  | none => failed "kernel bundle has no regular boot/vmlinuz member"
  | some kernelRelease =>
    match s.releases with
    | [release] =>
      if s.entries = [] then
        failed "kernel bundle must contain exactly one lib/modules/<release> tree"
      else if topologyValid s.entries = false then
        failed "module-tree member has a non-directory ancestor"
      else if kernelRelease ≠ release then
        failed "boot/vmlinuz release does not match its module tree"
      else if ∀ e ∈ s.entries, Encodes e.path then
        .ok ⟨release, s.entries.insertionSort byPath, s.memberCount, s.archiveBytes, s.moduleBytes⟩
      -- the key of the last sort is an encoding
      else .error .unicodeEncodeError
    | _ => failed "kernel bundle must contain exactly one lib/modules/<release> tree"

def scanExternalBootArchive (tools : Inspection) (members : List TarInfo) :
    Except Exc Scanned :=
  (Sweep.run (scanMember tools) members {}).bind scanEnd

end Scanning

end Kdive.Bundles
