import Kdive.Bundles.Accepted
import Kdive.Bundles.ExternalArtifacts

/-!
The module tree of an accepted bundle, and what the converter writes of it. The converter has rules of
its own, which the members of a bundle that the scan accepts meet unless a name keeps a slash.
-/
namespace Kdive.Bundles
open PosixPath (Str str slash components)

section Tree

variable {tools : Inspection} {m : TarInfo} {release : Str} {paths : List Str}

def memberKind (m : TarInfo) : Option TreeKind :=
  match m.type with
  | .directory => some .directory
  | .regular => some (.regular m.content)
  | .symlink => some (.symlink m.linkname)
  | .other => none

def moduleMember (release : Str) (m : TarInfo) : Option ConvertedMember :=
  let relative := (trimmedName m).drop (releaseRoot release).length
  if startsWith (trimmedName m) (releaseRoot release) ∧ relative ≠ [] ∧
      isBackReference relative m = false then
    (memberKind m).map fun kind => ⟨relative, m.mode, m.uid, m.gid, kind⟩
  else none

def moduleTree (release : Str) (members : List TarInfo) : List ConvertedMember :=
  members.filterMap (moduleMember release)

inductive Located (tools : Inspection) (release : Str) (paths : List Str) (m : TarInfo) : Prop
  | above (name : isBundleAncestor release (trimmedName m) = true)
      (none : moduleMember release m = none)
  | back (relative : Str) (below : relative ≠ [])
      (name : trimmedName m = releaseRoot release ++ relative)
      (back : isBackReference relative m = true) (none : moduleMember release m = none)
  | inside (relative : Str) (kind : TreeKind) (below : relative ≠ [])
      (name : trimmedName m = releaseRoot release ++ relative)
      (stays : isBackReference relative m = false) (listed : relative ∈ paths)
      (fits : FitsTree tools m relative) (known : memberKind m = some kind)
      (member : moduleMember release m = some ⟨relative, m.mode, m.uid, m.gid, kind⟩)

theorem moduleMember_of_other (other : startsWith (trimmedName m) (releaseRoot release) = false) :
    moduleMember release m = none := by
  rw [moduleMember]
  refine if_neg fun both => ?_
  rw [other] at both
  exact absurd both.1 nofun

theorem startsWith_releaseRoot {name : Str}
    (other : modulesMemberPrefix.isPrefixOf name = false) :
    startsWith name (releaseRoot release) = false := by
  rw [← Bool.not_eq_true]
  intro starts
  obtain ⟨rest, same⟩ := startsWith_iff.mp starts
  exact releaseRoot_ne_of_head other same.symm

theorem memberKind_some {relative : Str} (fits : FitsTree tools m relative) : ∃ kind, memberKind m = some kind := by
  have kind := fits.kind
  rw [memberKind]
  split
  · exact ⟨_, rfl⟩
  · exact ⟨_, rfl⟩
  · exact ⟨_, rfl⟩
  · rename_i other
    exact absurd other kind

theorem Placed.located (placed : Placed tools [release] paths m) : Located tools release paths m := by
  cases placed with
  | boot name =>
    refine .above (by simp [isBundleAncestor, name]) (moduleMember_of_other ?_)
    rw [name]
    exact startsWith_releaseRoot (by decide)
  | top name =>
    rcases name with name | name
    · refine .above (by simp [isBundleAncestor, name]) (moduleMember_of_other ?_)
      rw [name]
      exact startsWith_releaseRoot (by decide)
    · refine .above (by simp [isBundleAncestor, name]) (moduleMember_of_other ?_)
      rw [name]
      exact startsWith_releaseRoot (by decide)
  | root release' known name =>
    obtain rfl := List.mem_singleton.mp known
    refine .above (by simp [isBundleAncestor, name]) (moduleMember_of_other ?_)
    rw [← Bool.not_eq_true]
    intro starts
    have longer := (startsWith_iff.mp starts).length_le
    rw [name, releaseRoot] at longer
    simp only [List.length_append, List.length_singleton] at longer
    omega
  | inside release' relative proper known below name fits listed =>
    obtain rfl := List.mem_singleton.mp known
    have starts : startsWith (trimmedName m) (releaseRoot release') = true := by
      rw [startsWith_iff, name]
      exact List.prefix_append _ _
    have rest : (trimmedName m).drop (releaseRoot release').length = relative := by
      rw [name, List.drop_left]
    cases back : isBackReference relative m with
    | true =>
      refine .back relative below name back ?_
      rw [moduleMember, rest]
      refine if_neg fun both => ?_
      rw [back] at both
      cases both.2.2
    | false =>
      obtain ⟨kind, known⟩ := memberKind_some fits
      refine .inside relative kind below name back (listed.resolve_left (by simp [back])) fits known ?_
      rw [moduleMember, rest, if_pos ⟨starts, below, back⟩, known]
      rfl

end Tree

section Names

variable {nfc : Str → Str} {name : Str}

structure CanonicalName (nfc : Str → Str) (name : Str) : Prop where
  names : ∀ c ∈ components name, PosixPath.IsName c
  normal : nfc name = name
  encodes : Encodes name

theorem CanonicalName.relative (canonical : CanonicalName nfc name) : startsWith name (str "/") = false := by
  have first := PosixPath.head_joined canonical.names
  rw [PosixPath.joined_components] at first
  rw [← Bool.not_eq_true]
  intro starts
  obtain ⟨rest, rfl⟩ := startsWith_iff.mp starts
  exact first rfl

theorem CanonicalName.nonempty (canonical : CanonicalName nfc name) : name ≠ [] := by
  rintro rfl
  exact (canonical.names [] (by simp [components])).1 rfl

theorem CanonicalName.proper (canonical : CanonicalName nfc name) :
    (components name).any improper = false := by
  rw [List.any_eq_false]
  intro part member
  obtain ⟨some, dot, dotdot, -⟩ := canonical.names part member
  simp [improper, some, dot, dotdot]

theorem canonicalBundlePath_ok (canonical : CanonicalName nfc name) :
    canonicalBundlePath nfc name = .ok name := by
  refine if_neg ?_
  rw [canonical.relative, canonical.proper, canonical.normal]
  simp [canonical.nonempty]

theorem modulePath_ok (canonical : CanonicalName nfc name) : modulePath nfc name = .ok name := by
  have text : moduleText nfc "path" name = .ok name := by
    rw [moduleText, if_neg (not_not.mpr canonical.encodes), if_neg (not_not.mpr canonical.normal)]
  rw [modulePath, text]
  refine if_neg ?_
  rw [canonical.relative, canonical.proper]
  simp

theorem canonicalArchivePath_ok (canonical : CanonicalName nfc name) :
    canonicalArchivePath nfc name = .ok name := by
  rw [canonicalArchivePath, if_neg (not_not.mpr canonical.encodes)]
  refine if_neg ?_
  rw [canonical.relative, canonical.proper, canonical.normal]
  simp [canonical.nonempty]

end Names

section Converting

variable {tools : Inspection} {m : TarInfo} {release : Str} {paths : List Str}
  {members : List TarInfo}

def NormalParts (nfc : Str → Str) : Prop :=
  ∀ front back, nfc (front ++ slash :: back) = front ++ slash :: back → nfc back = back

def KeepsSlash (m : TarInfo) : Prop := m.isdir = true ∧ m.name.getLast? = some slash

instance (m : TarInfo) : Decidable (KeepsSlash m) := inferInstanceAs (Decidable (_ ∧ _))

theorem trimmedName_eq (plain : ¬KeepsSlash m) : trimmedName m = m.name := if_neg plain

theorem releaseRoot_append (release relative : Str) :
    releaseRoot release ++ relative = modulesMemberPrefix ++ release ++ slash :: relative := by
  simp [releaseRoot]

theorem canonicalName_of_inside {relative : Str} (parts : NormalParts tools.nfc)
    (canonical : canonicalTarPath tools m = .ok (trimmedName m))
    (name : trimmedName m = releaseRoot release ++ relative) (encodes : Encodes relative) :
    CanonicalName tools.nfc relative := by
  rw [releaseRoot_append] at name
  refine ⟨?_, ?_, encodes⟩
  · intro c member
    refine canonicalTarPath_names canonical c ?_
    rw [name, PosixPath.components_append]
    exact List.mem_append_right _ member
  · refine parts (modulesMemberPrefix ++ release) relative ?_
    rw [← name]
    rw [canonicalTarPath] at canonical
    dsimp only at canonical
    split at canonical
    · cases canonical
    split at canonical
    · cases canonical
    split at canonical
    · cases canonical
    · rename_i normal
      exact not_not.mp normal

structure TreeMember (nfc : Str → Str) (c : ConvertedMember) : Prop where
  name : CanonicalName nfc c.name
  link : ∀ target, c.kind = .symlink target → Encodes target ∧ nfc target = target ∧
    startsWith target (str "/") = false ∧ PosixPath.leaves (resolvedTarget c.name target) = false

theorem isBundleAncestor_inside (relative : Str) :
    isBundleAncestor release (releaseRoot release ++ relative) = false := by
  have apart : ∀ name, modulesMemberPrefix.isPrefixOf name = false →
      releaseRoot release ++ relative ≠ name :=
    fun name other same => releaseRoot_ne_of_head other same.symm
  have longer : releaseRoot release ++ relative ≠ modulesMemberPrefix ++ release := by
    intro same
    have lengths := congrArg List.length same
    rw [releaseRoot] at lengths
    simp only [List.length_append, List.length_singleton] at lengths
    omega
  rw [isBundleAncestor]
  simp [apart kernelBootMember (by decide), apart (str "lib") (by decide),
    apart (str "lib/modules") (by decide), longer]

theorem bundleMemberKind_ok {relative : Str} {kind : TreeKind} (fits : FitsTree tools m relative)
    (stays : isBackReference relative m = false) (known : memberKind m = some kind) :
    bundleMemberKind tools.nfc relative m = .ok kind ∧ ∀ target, kind = .symlink target →
      Encodes target ∧ tools.nfc target = target ∧ startsWith target (str "/") = false ∧
      PosixPath.leaves (resolvedTarget relative target) = false := by
  cases type : m.type with
  | directory =>
    simp only [memberKind, type] at known
    obtain rfl := Option.some.inj known
    simp only [bundleMemberKind, type]
    exact ⟨trivial, nofun⟩
  | regular =>
    simp only [memberKind, type] at known
    obtain rfl := Option.some.inj known
    simp only [bundleMemberKind, type]
    exact ⟨trivial, nofun⟩
  | symlink =>
    simp only [memberKind, type] at known
    obtain rfl := Option.some.inj known
    obtain ⟨encodes, normal, back | ⟨inner, inside⟩⟩ := fits.link type
    · exact absurd (stays.symm.trans back) nofun
    · simp only [bundleMemberKind, type]
      rw [canonicalBundleTarget, if_neg (not_not.mpr normal), if_neg (by simp [inner]),
        if_neg (by simp [inside])]
      refine ⟨rfl, ?_⟩
      rintro target ⟨rfl⟩
      exact ⟨encodes, normal, inner, inside⟩
  | other =>
    simp only [memberKind, type] at known
    cases known

theorem Located.treeMember {c : ConvertedMember} (parts : NormalParts tools.nfc)
    (canonical : canonicalTarPath tools m = .ok (trimmedName m))
    (located : Located tools release paths m) (encode : ∀ path ∈ paths, Encodes path)
    (member : moduleMember release m = some c) : TreeMember tools.nfc c := by
  cases located with
  | above _ none => exact absurd (none.symm.trans member) nofun
  | back _ _ _ _ none => exact absurd (none.symm.trans member) nofun
  | inside relative kind _ name stays listed fits known member' =>
    obtain rfl := Option.some.inj (member'.symm.trans member)
    exact ⟨canonicalName_of_inside parts canonical name (encode relative listed),
      (bundleMemberKind_ok fits stays known).2⟩

theorem isBundleAncestor_of_slash {name : Str} (proper : ProperRelease release)
    (ends : name.getLast? = some slash) : isBundleAncestor release name = false := by
  have apart : ∀ other : Str, other.getLast? ≠ some slash → name ≠ other := by
    rintro other plain rfl
    exact plain ends
  have last : (modulesMemberPrefix ++ release).getLast? ≠ some slash := by
    rw [List.getLast?_append_of_ne_nil _ proper.1]
    exact fun last => proper.2 (List.mem_of_getLast? last)
  rw [isBundleAncestor]
  simp [apart kernelBootMember (by decide), apart (str "lib") (by decide),
    apart (str "lib/modules") (by decide), apart _ last]

theorem convertMember_of_slash {done added : List ConvertedMember} {nfc : Str → Str}
    (proper : ProperRelease release) (ends : m.name.getLast? = some slash) :
    convertMember nfc release m done ≠ .ok added := by
  intro converted
  rw [convertMember, isBundleAncestor_of_slash proper ends, if_neg nofun] at converted
  split at converted
  · cases converted
  rename_i starts
  obtain ⟨rest, same⟩ := startsWith_iff.mp (Bool.not_eq_false _ ▸ starts)
  have refused : canonicalBundlePath nfc rest =
      .error "module bundle path is not canonical relative text" := by
    rw [canonicalBundlePath]
    refine if_pos ?_
    rcases List.eq_nil_or_concat rest with rfl | ⟨front, last, rfl⟩
    · exact .inl rfl
    · rw [← same, List.concat_eq_append, ← List.append_assoc, List.getLast?_concat] at ends
      obtain rfl := Option.some.inj ends
      refine .inr (.inr (.inr ?_))
      rw [List.concat_eq_append, PosixPath.components_append, List.any_append]
      simp [components, improper]
  rw [← same, List.drop_left, refused] at converted
  cases converted

theorem encodes_of_backReference {relative : Str} (back : isBackReference relative m = true) :
    Encodes relative := by
  rw [isBackReference, Bool.and_eq_true, Bool.or_eq_true] at back
  rcases back.2 with build | source
  · rw [of_decide_eq_true build]
    decide
  · rw [of_decide_eq_true source]
    decide

theorem convertMember_eq (parts : NormalParts tools.nfc) (plain : ¬KeepsSlash m)
    (canonical : canonicalTarPath tools m = .ok (trimmedName m))
    (located : Located tools release paths m) (encode : ∀ path ∈ paths, Encodes path)
    (done : List ConvertedMember) : convertMember tools.nfc release m done =
      match moduleMember release m with
      | none => .ok []
      | some c =>
        if c.name ∈ done.map (·.name) then .error "module bundle contains duplicate entries"
        else if regularBytes (done.map (·.kind)) + c.kind.size > maxModuleRegularBytes then
          .error "module bundle exceeds the regular-byte bound"
        else if done.length + 1 > maxModuleEntries then
          .error "module bundle exceeds the entry-count bound"
        else .ok [c] := by
  rw [convertMember, ← trimmedName_eq plain]
  -- what is read of a member below the release, whether it is left out or not
  have inside : ∀ relative, trimmedName m = releaseRoot release ++ relative → Encodes relative →
      isBundleAncestor release (trimmedName m) = false ∧
      startsWith (trimmedName m) (releaseRoot release) = true ∧
      canonicalBundlePath tools.nfc ((trimmedName m).drop (releaseRoot release).length) =
        .ok relative := by
    intro relative name encodes
    have canonical := canonicalBundlePath_ok (canonicalName_of_inside parts canonical name encodes)
    rw [name, List.drop_left]
    exact ⟨isBundleAncestor_inside relative, startsWith_iff.mpr (List.prefix_append _ _), canonical⟩
  cases located with
  | above name none => rw [name, none, if_pos rfl]
  | back relative below name back none =>
    obtain ⟨ancestor, starts, path⟩ := inside relative name (encodes_of_backReference back)
    rw [ancestor, starts, path, none, if_neg nofun, if_neg nofun]
    exact if_pos back
  | inside relative kind below name stays listed fits known member =>
    obtain ⟨ancestor, starts, path⟩ := inside relative name (encode relative listed)
    rw [ancestor, starts, path, member, if_neg nofun, if_neg nofun]
    refine (if_neg (Bool.eq_false_iff.mp stays)).trans ?_
    rw [(bundleMemberKind_ok fits stays known).1]
    rfl

end Converting

section Proper

variable {tools : Inspection} {m : TarInfo} {c : ConvertedMember} {release : Str}
  {members : List TarInfo} {tree tree' : List ConvertedMember} {nfc : Str → Str}

structure ProperTree (nfc : Str → Str) (tree : List ConvertedMember) : Prop where
  member : ∀ c ∈ tree, TreeMember nfc c
  nodup : (tree.map (·.name)).Nodup
  count : tree.length ≤ maxModuleEntries
  bytes : regularBytes (tree.map (·.kind)) < maxModuleRegularBytes
  topology : ∀ c ∈ tree, ∀ c' ∈ tree, c.name ∈ ancestors c'.name → c.kind = .directory

theorem regularBytes_append (kinds kinds' : List TreeKind) :
    regularBytes (kinds ++ kinds') = regularBytes kinds + regularBytes kinds' := by
  simp [regularBytes]

theorem ProperTree.perm (proper : ProperTree nfc tree) (same : tree'.Perm tree) :
    ProperTree nfc tree' := by
  refine ⟨fun c member => proper.member c (same.subset member),
    (same.map _).nodup_iff.mpr proper.nodup, same.length_eq.trans_le proper.count, ?_, ?_⟩
  · rw [regularBytes, ((same.map _).map _).sum_nat]
    exact proper.bytes
  · intro c member c' member'
    exact proper.topology c (same.subset member) c' (same.subset member')

theorem ProperTree.room {before after : List ConvertedMember}
    (proper : ProperTree nfc (before ++ c :: after)) : c.name ∉ before.map (·.name) ∧
      regularBytes (before.map (·.kind)) + c.kind.size < maxModuleRegularBytes ∧
      before.length + 1 ≤ maxModuleEntries := by
  have nodup := proper.nodup
  have count := proper.count
  have bytes := proper.bytes
  rw [List.map_append, List.map_cons] at nodup
  rw [List.length_append, List.length_cons] at count
  rw [List.map_append, regularBytes_append, List.map_cons, regularBytes, regularBytes,
    List.map_cons, List.sum_cons] at bytes
  refine ⟨fun earlier => (List.nodup_append.mp nodup).2.2 _ earlier _ (.head _) rfl, ?_, ?_⟩
  · rw [regularBytes]
    omega
  · omega

theorem moduleMember_some (found : moduleMember release m = some c) :
    trimmedName m = releaseRoot release ++ c.name ∧ c.name ≠ [] ∧
      isBackReference c.name m = false ∧ memberKind m = some c.kind := by
  rw [moduleMember] at found
  split at found
  · rename_i inside
    obtain ⟨starts, below, stays⟩ := inside
    obtain ⟨kind, known, rfl⟩ := Option.map_eq_some_iff.mp found
    obtain ⟨rest, same⟩ := startsWith_iff.mp starts
    refine ⟨?_, below, stays, known⟩
    rw [← same, List.drop_left]
  · cases found

theorem size_of_memberKind {kind : TreeKind} (known : memberKind m = some kind) :
    kind.size = if m.isreg then m.size else 0 := by
  rw [memberKind] at known
  split at known <;> cases known <;> simp_all [TarInfo.isreg, TreeKind.size, TarInfo.size]

theorem type_of_memberKind {kind : TreeKind} (known : memberKind m = some kind) :
    kind = .directory ↔ m.type = .directory := by
  rw [memberKind] at known
  split at known <;> cases known <;> simp_all

theorem moduleTree_cons (release : Str) (m : TarInfo) (members : List TarInfo) :
    moduleTree release (m :: members) = (moduleMember release m).toList ++ moduleTree release members := by
  rw [moduleTree, List.filterMap_cons]
  cases moduleMember release m with
  | none => rfl
  | some c => rfl

theorem moduleTree_append (release : Str) (members more : List TarInfo) :
    moduleTree release (members ++ more) = moduleTree release members ++ moduleTree release more :=
  List.filterMap_append

theorem regularBytes_moduleTree (release : Str) (members : List TarInfo) :
    regularBytes ((moduleTree release members).map (·.kind)) ≤ memberBytes members := by
  induction members with
  | nil => exact Nat.le_refl 0
  | cons m rest ih =>
    have one : regularBytes ((moduleMember release m).toList.map (·.kind)) ≤
        if m.isreg then m.size else 0 := by
      cases found : moduleMember release m with
      | none => exact Nat.zero_le _
      | some c =>
        rw [← size_of_memberKind (moduleMember_some found).2.2.2]
        simp [regularBytes]
    rw [moduleTree_cons, List.map_append, regularBytes_append, memberBytes, List.map_cons,
      List.sum_cons]
    exact Nat.add_le_add one ih

theorem memberBytes_append (members more : List TarInfo) :
    memberBytes (members ++ more) = memberBytes members + memberBytes more := by
  simp [memberBytes]

theorem regularBytes_lt (accepted : AcceptedBundle tools members release)
    (boots : ∀ m kernelRelease, tools.inspectBootMember m = .ok kernelRelease → 0 < m.size) :
    regularBytes ((moduleTree release members).map (·.kind)) < maxModuleRegularBytes := by
  obtain ⟨boot, member, name, regular, kernelRelease, inspected⟩ := accepted.boot
  have some := boots boot kernelRelease inspected
  have apart : moduleMember release boot = none := by
    refine moduleMember_of_other ?_
    rw [name]
    exact startsWith_releaseRoot (by decide)
  have bytes := accepted.bytes
  obtain ⟨before, after, rfl⟩ := List.append_of_mem member
  have first := regularBytes_moduleTree release before
  have second := regularBytes_moduleTree release after
  have own : memberBytes [boot] = boot.size := by simp [memberBytes, TarInfo.isreg, regular]
  rw [← List.singleton_append, memberBytes_append, memberBytes_append, own] at bytes
  rw [moduleTree_append, moduleTree_cons, apart, Option.toList_none, List.nil_append,
    List.map_append, regularBytes_append]
  have : scanMaxBytes = maxModuleRegularBytes := by decide
  omega

theorem AcceptedBundle.properTree (accepted : AcceptedBundle tools members release)
    (parts : NormalParts tools.nfc)
    (boots : ∀ m kernelRelease, tools.inspectBootMember m = .ok kernelRelease → 0 < m.size) :
    ProperTree tools.nfc (moduleTree release members) := by
  obtain ⟨paths, encode, placed⟩ := accepted.placed
  refine ⟨?_, ?_, ?_, regularBytes_lt accepted boots, ?_⟩
  · intro c member
    obtain ⟨m, member, found⟩ := List.mem_filterMap.mp member
    exact (placed m member).located.treeMember parts (accepted.canonical m member) encode found
  · -- two members of the bundle with one path below the release have one name
    have nodup := accepted.nodup
    rw [List.Nodup, List.pairwise_map] at nodup ⊢
    refine List.pairwise_filterMap.mpr (nodup.imp ?_)
    intro m m' apart c found c' found' same
    refine apart ?_
    rw [(moduleMember_some found).1, (moduleMember_some found').1, same]
  · exact (List.length_filterMap_le _ _).trans accepted.count
  · intro c member c' member' above
    obtain ⟨m, member, found⟩ := List.mem_filterMap.mp member
    obtain ⟨m', member', found'⟩ := List.mem_filterMap.mp member'
    obtain ⟨name, below, stays, known⟩ := moduleMember_some found
    obtain ⟨name', below', stays', -⟩ := moduleMember_some found'
    refine (type_of_memberKind known).mpr ?_
    exact accepted.topology m member m' member' _ _ name below stays name' below' stays' above

end Proper

section Converted

variable {tools : Inspection} {release : Str} {written : List ConvertedMember → Nat} {bundle : Bundle}

theorem size_pos_of_inspected {σ : Type} (lib : Libraries σ) (arch : Arch) (m : TarInfo)
    (kernelRelease : Str) (inspected : (inspection lib arch).inspectBootMember m = .ok kernelRelease) :
    0 < m.size := by
  refine List.length_pos_iff.mpr fun empty => ?_
  have refused : ∃ message, bootRelease [] arch = failed message := by
    cases arch with
    | x86_64 => exact ⟨"boot/vmlinuz has no usable x86 boot header", rfl⟩
    | ppc64le =>
      refine ⟨"decoded boot/vmlinuz has no bounded Linux release banner", ?_⟩
      rw [bootRelease, bannerRelease]
      rfl
  obtain ⟨message, refused⟩ := refused
  have failure : inspectBootMember lib.decode m.content arch = failed message := by
    rw [empty, inspectBootMember, refused]
    rfl
  rw [inspection] at inspected
  dsimp only at inspected
  rw [failure] at inspected
  cases inspected

theorem convert_run (accepted : AcceptedBundle tools bundle.members release)
    (parts : NormalParts tools.nfc) (proper : ProperTree tools.nfc (moduleTree release bundle.members))
    (entries : List ConvertedMember) :
    Collect.run (convertMember tools.nfc release) (bundle.members.take bundle.first) [] = .ok entries ↔
      (∀ m ∈ bundle.members.take bundle.first, ¬KeepsSlash m) ∧
        entries = moduleTree release (bundle.members.take bundle.first) := by
  obtain ⟨paths, encode, placed⟩ := accepted.placed
  have turn : ∀ m ∈ bundle.members, ¬KeepsSlash m → ∀ done, _ := fun m member plain done =>
    convertMember_eq parts plain (accepted.canonical m member) (placed m member).located encode done
  rw [moduleTree, List.filterMap_eq_flatMap_toList]
  constructor
  · intro ran
    refine (Collect.collected ?_ ran).symm
    intro m member done added converted
    have plain : ¬KeepsSlash m := fun keeps =>
      convertMember_of_slash accepted.proper keeps.2 converted
    refine ⟨?_, plain⟩
    rw [turn m (List.mem_of_mem_take member) plain done] at converted
    cases found : moduleMember release m with
    | none =>
      rw [found] at converted
      exact (Except.ok.inj converted).symm
    | some c =>
      rw [found] at converted
      dsimp only at converted
      split at converted
      · cases converted
      split at converted
      · cases converted
      split at converted
      · cases converted
      exact (Except.ok.inj converted).symm
  · rintro ⟨plain, rfl⟩
    refine Collect.run_ok ?_
    intro before m after split
    have member : m ∈ bundle.members.take bundle.first := by simp [split]
    rw [List.nil_append, turn m (List.mem_of_mem_take member) (plain m member),
      ← List.filterMap_eq_flatMap_toList]
    cases found : moduleMember release m with
    | none => rfl
    | some c =>
      -- the whole tree is what is collected before, this member and what follows
      obtain ⟨rest, all⟩ : ∃ rest, bundle.members = before ++ m :: rest := by
        refine ⟨after ++ bundle.members.drop bundle.first, ?_⟩
        rw [← List.cons_append, ← List.append_assoc, ← split, List.take_append_drop]
      have whole : moduleTree release bundle.members =
          moduleTree release before ++ c :: moduleTree release rest := by
        rw [all, moduleTree_append, moduleTree_cons, found]
        rfl
      obtain ⟨fresh, bytes, count⟩ := ProperTree.room (whole ▸ proper)
      exact (if_neg fresh).trans ((if_neg (Nat.not_lt.mpr bytes.le)).trans
        (if_neg (Nat.not_lt.mpr count)))

theorem convert_ok_iff (accepted : AcceptedBundle tools bundle.members release)
    (parts : NormalParts tools.nfc) (proper : ProperTree tools.nfc (moduleTree release bundle.members))
    (archive : List ConvertedMember) :
    convertKernelBundleModules tools.nfc written release bundle = .ok archive ↔
      (∀ m ∈ bundle.members.take bundle.first, ¬KeepsSlash m) ∧ bundle.cut = false ∧
        archive = (moduleTree release (bundle.members.take bundle.first)).insertionSort byMemberName ∧
        written archive ≤ maxModuleArchiveBytes := by
  have loop := convert_run accepted parts proper
  rw [convertKernelBundleModules]
  constructor
  · intro converted
    cases ran : Collect.run (convertMember tools.nfc release) (bundle.members.take bundle.first) [] with
    | error e =>
      rw [ran] at converted
      cases converted
    | ok entries =>
      rw [ran] at converted
      obtain ⟨plain, rfl⟩ := (loop entries).mp ran
      dsimp only [Except.bind] at converted
      split at converted
      · cases converted
      rename_i whole
      split at converted
      · split at converted
        · cases converted
        · rename_i small
          obtain rfl := Except.ok.inj converted
          exact ⟨plain, Bool.not_eq_true _ ▸ whole, rfl, Nat.not_lt.mp small⟩
      · cases converted
  · rintro ⟨plain, whole, rfl, small⟩
    have encode : ∀ e ∈ moduleTree release (bundle.members.take bundle.first), Encodes e.name := by
      intro e member
      refine (proper.member e ?_).name.encodes
      obtain ⟨m, member, found⟩ := List.mem_filterMap.mp member
      exact List.mem_filterMap.mpr ⟨m, List.mem_of_mem_take member, found⟩
    rw [(loop _).mpr ⟨plain, rfl⟩, Except.bind]
    dsimp only
    rw [if_neg (by simp [whole]), if_pos encode, if_neg (Nat.not_lt.mpr small)]

end Converted

end Kdive.Bundles
