import Kdive.Bundles.Scan
import Kdive.Lib.Collect
import Mathlib.Algebra.GroupWithZero.Nat
import Mathlib.Algebra.Group.Int.Defs

/-!
The canonical module archive: what `convert_kernel_bundle_modules` writes from a bundle, what reading
it back yields, and the two readers of it, `_validate_archive` on the local side and
`_extract_canonical_module_archive` on the remote one.
-/
namespace Kdive.Bundles
open PosixPath (Str str slash)

attribute [local instance] PosixPath.lawful

inductive TreeKind where
  | directory
  | regular (content : Bytes)
  | symlink (target : Str)
  deriving DecidableEq

structure ModuleNode where
  path : Str
  kind : TreeKind

def TreeKind.size : TreeKind → Nat
  | .regular content => content.length
  | _ => 0

def TreeKind.target : TreeKind → Str
  | .symlink target => target
  | _ => []

def maxModuleEntries : Nat := 200000

def maxModuleRegularBytes : Nat := 8589934592

def maxModuleArchiveBytes : Nat := maxModuleRegularBytes + maxModuleEntries * 4096

section Convert

/-- A bundle as it is listed. The scan of an upload reads every member of the gzip file; a stream that
`tarfile` opens as `r|gz` ends with the first, which holds the first members, and may be cut off within
one. -/
structure Bundle where
  members : List TarInfo
  first : Nat
  cut : Bool := false

structure ConvertedMember where
  name : Str
  mode : Int
  uid : Int
  gid : Int
  kind : TreeKind
  deriving DecidableEq

def ConvertedMember.view (c : ConvertedMember) : ModuleNode := ⟨c.name, c.kind⟩

def regularBytes (kinds : List TreeKind) : Nat := (kinds.map TreeKind.size).sum

def releaseRoot (release : Str) : Str := modulesMemberPrefix ++ release ++ [slash]

def improper (part : Str) : Bool := part = [] || part = PosixPath.dot || part = PosixPath.dotdot

def canonicalBundlePath (nfc : Str → Str) (value : Str) : Except String Str :=
  if value = [] ∨ startsWith value (str "/") ∨ nfc value ≠ value ∨
      (PosixPath.components value).any improper then
    .error "module bundle path is not canonical relative text"
  else .ok value

def canonicalBundleTarget (nfc : Str → Str) (name target : Str) : Except String Str :=
  if nfc target ≠ target then .error "module bundle symlink target is not NFC"
  else if startsWith target (str "/") then .error "module bundle symlink escapes the release tree"
  else if PosixPath.leaves (resolvedTarget name target) then
    .error "module bundle symlink escapes the release tree"
  else .ok target

def bundleMemberKind (nfc : Str → Str) (name : Str) (m : TarInfo) : Except String TreeKind :=
  match m.type with
  | .directory => .ok .directory
  | .regular => .ok (.regular m.content)
  | .symlink => (canonicalBundleTarget nfc name m.linkname).map .symlink
  | .other => .error "module bundle contains forbidden topology"

def isBackReference (name : Str) (m : TarInfo) : Bool :=
  m.issym && startsWith m.linkname (str "/") && (name = str "build" || name = str "source")

def isBundleAncestor (release name : Str) : Bool :=
  name = kernelBootMember || name = str "lib" || name = str "lib/modules" ||
    name = modulesMemberPrefix ++ release

def convertMember (nfc : Str → Str) (release : Str) (m : TarInfo) (entries : List ConvertedMember) :
    Except String (List ConvertedMember) :=
  if isBundleAncestor release m.name then .ok []
  else if startsWith m.name (releaseRoot release) = false then
    .error "module bundle contains a cross-release or unknown entry"
  else
    (canonicalBundlePath nfc (m.name.drop (releaseRoot release).length)).bind fun name =>
    if isBackReference name m then .ok []
    else if name ∈ entries.map (·.name) then .error "module bundle contains duplicate entries"
    else
      (bundleMemberKind nfc name m).bind fun kind =>
      if regularBytes (entries.map (·.kind)) + kind.size > maxModuleRegularBytes then
        .error "module bundle exceeds the regular-byte bound"
      else if entries.length + 1 > maxModuleEntries then
        .error "module bundle exceeds the entry-count bound"
      else .ok [⟨name, m.mode, m.uid, m.gid, kind⟩]

def byMemberName (a b : ConvertedMember) : Prop := a.name ≤ b.name

instance : DecidableRel byMemberName := fun a b => inferInstanceAs (Decidable (a.name ≤ b.name))

/-- `convert_kernel_bundle_modules`: the members in the order they are written, when the archive that
the writer makes of them has `written` bytes. -/
def convertKernelBundleModules (nfc : Str → Str) (written : List ConvertedMember → Nat)
    (release : Str) (bundle : Bundle) : Except String (List ConvertedMember) :=
  (Collect.run (convertMember nfc release) (bundle.members.take bundle.first) []).bind fun entries =>
  if bundle.cut then .error "unexpected end of data"
  else if ∀ e ∈ entries, Encodes e.name then
    let archive := entries.insertionSort byMemberName
    if written archive > maxModuleArchiveBytes then
      .error "canonical module archive exceeds its byte bound"
    else .ok archive
  else .error "surrogates not allowed"

end Convert

section Pax

inductive PaxKey where
  | xattrsSupported | path | linkpath | uid | gid | size
  deriving DecidableEq

/-- A member as it is read back: what a reader of the archive looks at. Its time is zero and its
owner has no name, as written. -/
structure ReadMember where
  name : Str
  type : MemberType
  mode : Nat
  uid : Int
  gid : Int
  linkname : Str
  content : Bytes
  pax : List PaxKey

def needsRecord (text : Str) : Bool := text.any (128 ≤ ·) || 100 < text.length

def fitsOwner (id : Int) : Bool := 0 ≤ id ∧ id < 8 ^ 7

def fitsSize (size : Nat) : Bool := size < 8 ^ 11

def field (text : Str) : Str := text.takeWhile (· ≠ 0)

def withoutSlashes (text : Str) : Str := (text.reverse.dropWhile (· = slash)).reverse

def TreeKind.type : TreeKind → MemberType
  | .directory => .directory
  | .regular _ => .regular
  | .symlink _ => .symlink

def TreeKind.content : TreeKind → Bytes
  | .regular content => content
  | _ => []

def writtenName (c : ConvertedMember) : Str :=
  if c.kind = .directory then c.name ++ [slash] else c.name

def readName (c : ConvertedMember) : Str :=
  if needsRecord (writtenName c) then withoutSlashes (writtenName c)
  else if c.kind = .directory then withoutSlashes (field (writtenName c))
  else field (writtenName c)

def readTarget (target : Str) : Str := if needsRecord target then target else field target

def paxKeys (c : ConvertedMember) : List PaxKey :=
  [.xattrsSupported] ++ (if needsRecord (writtenName c) then [.path] else []) ++
    (if needsRecord c.kind.target then [.linkpath] else []) ++
    (if fitsOwner c.uid then [] else [.uid]) ++ (if fitsOwner c.gid then [] else [.gid]) ++
    (if fitsSize c.kind.size then [] else [.size])

def readBack (c : ConvertedMember) : ReadMember where
  name := readName c
  type := c.kind.type
  mode := (c.mode % 4096).toNat
  uid := c.uid
  gid := c.gid
  linkname := readTarget c.kind.target
  content := c.kind.content
  pax := paxKeys c

end Pax

section Local

def maxOwnerId : Int := 2147483647

def moduleText (nfc : Str → Str) (what : String) (value : Str) : Except String Str :=
  if ¬ Encodes value then .error ("module-tree " ++ what ++ " is not UTF-8")
  else if nfc value ≠ value then .error ("module-tree " ++ what ++ " is not NFC")
  else .ok value

def modulePath (nfc : Str → Str) (value : Str) : Except String Str :=
  (moduleText nfc "path" value).bind fun value =>
  if startsWith value (str "/") ∨ (PosixPath.components value).any improper then
    .error "module-tree path is not canonical relative text"
  else .ok value

structure LocalEntry where
  path : Str
  kind : TreeKind
  mode : Nat
  uid : Int
  gid : Int
  deriving DecidableEq

def LocalEntry.view (e : LocalEntry) : ModuleNode := ⟨e.path, e.kind⟩

def validateMemberShape (m : ReadMember) : Except String Unit :=
  if m.mode > 0o7777 then .error "module archive mode is outside the canonical range"
  else if ¬ (0 ≤ m.uid ∧ m.uid ≤ maxOwnerId) ∨ ¬ (0 ≤ m.gid ∧ m.gid ≤ maxOwnerId) then
    .error "module archive owner id is outside the canonical range"
  else if m.type = .regular ∧ m.linkname ≠ [] then
    .error "module archive regular metadata is not canonical"
  else if m.type = .directory ∧ (m.content ≠ [] ∨ m.linkname ≠ []) then
    .error "module archive directory metadata is not canonical"
  else if m.type = .symlink ∧ (m.content ≠ [] ∨ m.linkname = []) then
    .error "module archive symlink metadata is not canonical"
  else .ok ()

def localPaxKeys : List PaxKey := [.xattrsSupported, .path, .linkpath]

/-- `_member_kind` and `_manifest_from_member`. -/
def manifestFromMember (nfc : Str → Str) (m : ReadMember) (path : Str) : Except String LocalEntry :=
  (validateMemberShape m).bind fun _ =>
  if .xattrsSupported ∉ m.pax then .error "module archive lacks canonical xattr support metadata"
  else if ¬ m.pax ⊆ localPaxKeys then .error "module archive contains unknown metadata"
  else
    match m.type with
    | .directory => .ok ⟨path, .directory, m.mode, m.uid, m.gid⟩
    | .regular => .ok ⟨path, .regular m.content, m.mode, m.uid, m.gid⟩
    | .symlink => (moduleText nfc "symlink target" m.linkname).map fun target =>
        ⟨path, .symlink target, m.mode, m.uid, m.gid⟩
    | .other => .error "module archive contains forbidden topology"

def validateMember (nfc : Str → Str) (m : ReadMember) (entries : List LocalEntry) :
    Except String (List LocalEntry) :=
  (modulePath nfc m.name).bind fun path =>
  if path ∈ entries.map (·.path) then .error "module archive contains duplicate paths"
  else if regularBytes (entries.map (·.kind)) + m.content.length > maxModuleRegularBytes then
    .error "module archive exceeds 8589934592 regular bytes"
  else
    (manifestFromMember nfc m path).bind fun entry =>
    if entries.length + 1 > maxModuleEntries then .error "module archive exceeds 200000 entries"
    else .ok [entry]

def validateArchive (nfc : Str → Str) (archive : List ReadMember) : Except String (List LocalEntry) :=
  Collect.run (validateMember nfc) archive []

end Local

section Remote

/-- The names and link targets that the file system takes. A null ends a name, and a link points
somewhere. -/
structure FileSystem where
  takesName : Str → Bool
  takesTarget : Str → Bool
  name_null : ∀ name, 0 ∈ name → takesName name = false
  target_null : ∀ target, 0 ∈ target → takesTarget target = false
  target_empty : takesTarget [] = false

def canonicalArchivePath (nfc : Str → Str) (value : Str) : Except String Str :=
  if ¬ Encodes value then .error "canonical module archive path is not UTF-8"
  else if value = [] ∨ startsWith value (str "/") ∨ nfc value ≠ value ∨
      (PosixPath.components value).any improper then
    .error "canonical module archive path is not canonical relative text"
  else .ok value

def canonicalArchiveLinkTarget (nfc : Str → Str) (name target : Str) : Except String Unit :=
  if ¬ Encodes target then .error "canonical module archive symlink target is not UTF-8"
  else if nfc target ≠ target ∨ startsWith target (str "/") then
    .error "canonical module archive symlink escapes the module tree"
  else if PosixPath.leaves (resolvedTarget name target) then
    .error "canonical module archive symlink escapes the module tree"
  else .ok ()

def canonicalArchiveMemberKind (nfc : Str → Str) (m : ReadMember) : Except String TreeKind :=
  if m.type = .other then .error "canonical module archive contains forbidden topology"
  else if .xattrsSupported ∉ m.pax then .error "canonical module archive metadata is invalid"
  else
    match m.type with
    | .regular =>
      if m.linkname ≠ [] then .error "canonical module archive regular metadata is invalid"
      else .ok (.regular m.content)
    | .directory =>
      if m.content ≠ [] ∨ m.linkname ≠ [] then
        .error "canonical module archive directory metadata is invalid"
      else .ok .directory
    | .symlink =>
      (canonicalArchiveLinkTarget nfc m.name m.linkname).bind fun _ =>
      if m.content ≠ [] then .error "canonical module archive symlink metadata is invalid"
      else .ok (.symlink m.linkname)
    | .other => .error "canonical module archive contains forbidden topology"

/-- A path that stands in the tree: one that was extracted, or a directory made for one below it. -/
def Exists (tree : List ModuleNode) (path : Str) : Prop :=
  ∃ n ∈ tree, n.path = path ∨ path ∈ ancestors n.path

instance (tree : List ModuleNode) (path : Str) : Decidable (Exists tree path) :=
  inferInstanceAs (Decidable (∃ n ∈ tree, _))

def extractArchiveMember (fs : FileSystem) (tree : List ModuleNode) (path : Str) :
    TreeKind → Except String Unit
  | .directory =>
    if fs.takesName path = false ∨ ∃ n ∈ tree, n.path = path ∧ n.kind ≠ .directory then
      .error "OSError"
    else .ok ()
  | .regular _ =>
    if fs.takesName path = false ∨ Exists tree path then .error "OSError" else .ok ()
  | .symlink target =>
    if fs.takesName path = false ∨ Exists tree path ∨ fs.takesTarget target = false then
      .error "OSError"
    else .ok ()

/-- One turn of the loop of `_extract_canonical_module_archive`, with the members extracted so far. -/
def extractMember (nfc : Str → Str) (fs : FileSystem) (m : ReadMember) (tree : List ModuleNode) :
    Except String (List ModuleNode) :=
  (canonicalArchivePath nfc m.name).bind fun path =>
  if tree.getLast?.any (fun prior => path ≤ prior.path) then
    .error "canonical module archive entries are duplicate or unordered"
  else
    (canonicalArchiveMemberKind nfc m).bind fun kind =>
    if ∃ n ∈ tree, n.path ∈ ancestors path ∧ n.kind ≠ .directory then
      .error "canonical module archive member has a non-directory ancestor"
    else if tree.length + 1 > maxModuleEntries then .error "module tree exceeds 200000 entries"
    else if regularBytes (tree.map (·.kind)) + kind.size > maxModuleRegularBytes then
      .error "module tree exceeds 8589934592 content bytes"
    else (extractArchiveMember fs tree path kind).map fun _ => [⟨path, kind⟩]

def extractCanonicalModuleArchive (nfc : Str → Str) (fs : FileSystem) (archive : List ReadMember) :
    Except String (List ModuleNode) :=
  Collect.run (extractMember nfc fs) archive []

end Remote

end Kdive.Bundles
