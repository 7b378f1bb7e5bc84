import Kdive.Bundles.Converted
import Mathlib.Data.List.TakeWhile

/-!
Which accepted bundles reach both sides: the two readers of the canonical archive, each with its own
rules, on the tree that the converter writes.
-/
namespace Kdive.Bundles
open PosixPath (Str str slash components)

section ReadBack

variable {nfc : Str → Str} {c : ConvertedMember} {init target : Str} {last : Nat}

theorem withoutSlashes_ends (letter : last ≠ slash) (slashes : Nat) :
    withoutSlashes (init ++ [last] ++ List.replicate slashes slash) = init ++ [last] := by
  rw [withoutSlashes, List.reverse_append, List.reverse_replicate]
  induction slashes with
  | zero => simp [letter]
  | succ n ih => simpa [List.replicate_succ] using ih

theorem field_eq {text : Str} (plain : 0 ∉ text) : field text = text := by
  refine List.takeWhile_eq_self_iff.mpr fun x member => ?_
  refine decide_eq_true ?_
  rintro rfl
  exact plain member

theorem readName_eq (canonical : CanonicalName nfc c.name) (plain : 0 ∉ c.name) :
    readName c = c.name := by
  obtain ⟨init, last, ends, letter⟩ :=
    PosixPath.joined_ends canonical.names (List.splitOn_ne_nil slash c.name)
  rw [PosixPath.joined_components] at ends
  have bare : withoutSlashes c.name = c.name := by
    have := @withoutSlashes_ends init last letter 0
    rwa [List.replicate_zero, List.append_nil, ← ends] at this
  have trimmed : withoutSlashes (c.name ++ [slash]) = c.name := by
    have := @withoutSlashes_ends init last letter 1
    rwa [List.replicate_one, ← ends] at this
  have whole : field (c.name ++ [slash]) = c.name ++ [slash] := by
    refine field_eq fun inside => ?_
    rcases List.mem_append.mp inside with inside | inside
    · exact plain inside
    · exact absurd inside (by decide)
  rw [readName, writtenName]
  by_cases directory : c.kind = .directory
  · rw [if_pos directory, if_pos directory, whole, trimmed]
    exact ite_self _
  · rw [if_neg directory, if_neg directory, bare, field_eq plain]
    exact ite_self _

theorem readTarget_eq (plain : 0 ∉ target) : readTarget target = target := by
  rw [readTarget, field_eq plain]
  exact ite_self _

def TreeKind.readBack : TreeKind → TreeKind
  | .symlink target => .symlink (readTarget target)
  | kind => kind

def ConvertedMember.seen (c : ConvertedMember) : ModuleNode := ⟨readName c, c.kind.readBack⟩

theorem readBack_linkname (c : ConvertedMember) :
    (Bundles.readBack c).linkname = c.kind.readBack.target := by
  cases kind : c.kind <;> simp [Bundles.readBack, kind, TreeKind.readBack, TreeKind.target, readTarget, needsRecord, field]

theorem readBack_content (c : ConvertedMember) : (Bundles.readBack c).content.length = c.kind.size := by
  rw [Bundles.readBack]
  cases c.kind <;> rfl

/-- A name and a target that are read as they were written, and a target that points somewhere. -/
structure Legible (c : ConvertedMember) : Prop where
  name : 0 ∉ c.name
  target : ∀ target, c.kind = .symlink target → 0 ∉ target ∧ target ≠ []

theorem Legible.kind_eq (legible : Legible c) : c.kind.readBack = c.kind := by
  cases kind : c.kind with
  | directory => rfl
  | regular content => rfl
  | symlink target => rw [TreeKind.readBack, readTarget_eq (legible.target target kind).1]

theorem Legible.seen_eq (legible : Legible c) (member : TreeMember nfc c) : c.seen = c.view := by
  rw [ConvertedMember.seen, readName_eq member.name legible.name, legible.kind_eq]
  rfl

end ReadBack

section LocalReader

variable {nfc : Str → Str} {c : ConvertedMember} {archive : List ConvertedMember}

def localEntry (c : ConvertedMember) : LocalEntry :=
  ⟨readName c, c.kind.readBack, (c.mode % 4096).toNat, c.uid, c.gid⟩

theorem moduleText_eq {what : String} {value text : Str} (taken : moduleText nfc what value = .ok text) :
    text = value := by
  rw [moduleText] at taken
  split at taken
  · cases taken
  split at taken
  · cases taken
  · exact (Except.ok.inj taken).symm

theorem modulePath_eq {value path : Str} (taken : modulePath nfc value = .ok path) : path = value := by
  obtain ⟨value', text, taken⟩ := Collect.ok_of_bind taken
  split at taken
  · cases taken
  · rw [← Except.ok.inj taken, moduleText_eq text]

theorem fitsOwner_of_paxKeys (known : paxKeys c ⊆ localPaxKeys) :
    fitsOwner c.uid = true ∧ fitsOwner c.gid = true := by
  constructor
  · by_contra large
    have listed : PaxKey.uid ∈ paxKeys c := by simp [paxKeys, large]
    exact absurd (known listed) (by decide)
  · by_contra large
    have listed : PaxKey.gid ∈ paxKeys c := by simp [paxKeys, large]
    exact absurd (known listed) (by decide)

theorem manifestFromMember_sound {path : Str} {entry : LocalEntry}
    (made : manifestFromMember nfc (readBack c) path = .ok entry) :
    entry = ⟨path, c.kind.readBack, (c.mode % 4096).toNat, c.uid, c.gid⟩ ∧
      fitsOwner c.uid = true ∧ fitsOwner c.gid = true := by
  obtain ⟨-, -, made⟩ := Collect.ok_of_bind made
  split at made
  · cases made
  split at made
  · cases made
  rename_i known
  refine ⟨?_, fitsOwner_of_paxKeys (not_not.mp known)⟩
  cases kind : c.kind with
  | directory =>
    simp only [readBack, kind, TreeKind.type] at made
    exact (Except.ok.inj made).symm
  | regular content =>
    simp only [readBack, kind, TreeKind.type, TreeKind.content] at made
    exact (Except.ok.inj made).symm
  | symlink target =>
    simp only [readBack, kind, TreeKind.type, TreeKind.target] at made
    cases text : moduleText nfc "symlink target" (readTarget target) with
    | error e =>
      rw [text] at made
      cases made
    | ok seen =>
      rw [text, moduleText_eq text] at made
      exact (Except.ok.inj made).symm

theorem validateMember_sound {done added : List LocalEntry}
    (validated : validateMember nfc (readBack c) done = .ok added) :
    added = [localEntry c] ∧ fitsOwner c.uid = true ∧ fitsOwner c.gid = true := by
  obtain ⟨path, taken, validated⟩ := Collect.ok_of_bind validated
  obtain rfl := modulePath_eq taken
  split at validated
  · cases validated
  split at validated
  · cases validated
  obtain ⟨entry, made, validated⟩ := Collect.ok_of_bind validated
  split at validated
  · cases validated
  obtain ⟨rfl, fits⟩ := manifestFromMember_sound made
  exact ⟨(Except.ok.inj validated).symm, fits⟩

theorem validateArchive_sound {entries : List LocalEntry}
    (validated : validateArchive nfc (archive.map readBack) = .ok entries) :
    entries = archive.map localEntry ∧
      ∀ c ∈ archive, fitsOwner c.uid = true ∧ fitsOwner c.gid = true := by
  rw [validateArchive, Collect.run_map] at validated
  have sound : ∀ c ∈ archive, ∀ done added, validateMember nfc (readBack c) done = .ok added →
      added = [localEntry c] ∧ fitsOwner c.uid = true ∧ fitsOwner c.gid = true :=
    fun c _ done added => validateMember_sound
  have found := Collect.collected sound validated
  rwa [List.nil_append, ← List.map_eq_flatMap] at found

theorem paxKeys_subset (uid : fitsOwner c.uid = true) (gid : fitsOwner c.gid = true)
    (size : c.kind.size < maxModuleRegularBytes) : paxKeys c ⊆ localPaxKeys := by
  have small : fitsSize c.kind.size = true := decide_eq_true size
  rw [paxKeys, if_pos uid, if_pos gid, if_pos small, List.append_nil, List.append_nil,
    List.append_nil]
  refine List.append_subset.mpr ⟨List.append_subset.mpr ⟨by decide, ?_⟩, ?_⟩
  · split
    · decide
    · exact List.nil_subset _
  · split
    · decide
    · exact List.nil_subset _

theorem validateMemberShape_ok (legible : Legible c) (uid : fitsOwner c.uid = true)
    (gid : fitsOwner c.gid = true) : validateMemberShape (readBack c) = .ok () := by
  have owners : ∀ id, fitsOwner id = true → 0 ≤ id ∧ id ≤ maxOwnerId := by
    intro id fits
    have bounds := of_decide_eq_true fits
    rw [maxOwnerId]
    omega
  have mode : (readBack c).mode ≤ 0o7777 := by
    rw [readBack]
    dsimp only
    omega
  rw [validateMemberShape, if_neg (Nat.not_lt.mpr mode), if_neg (by
    rw [not_or, not_not, not_not]
    exact ⟨owners _ uid, owners _ gid⟩), readBack_linkname, legible.kind_eq]
  cases kind : c.kind with
  | directory => simp [readBack, kind, TreeKind.type, TreeKind.target, TreeKind.content]
  | regular content => simp [readBack, kind, TreeKind.type, TreeKind.target]
  | symlink target =>
    have some := (legible.target target kind).2
    simp [readBack, kind, TreeKind.type, TreeKind.target, TreeKind.content, some]

theorem manifestFromMember_ok (member : TreeMember nfc c) (legible : Legible c)
    (uid : fitsOwner c.uid = true) (gid : fitsOwner c.gid = true)
    (size : c.kind.size < maxModuleRegularBytes) :
    manifestFromMember nfc (readBack c) (readName c) = .ok (localEntry c) := by
  have known : (readBack c).pax ⊆ localPaxKeys := paxKeys_subset uid gid size
  have supported : .xattrsSupported ∈ (readBack c).pax := by simp [readBack, paxKeys]
  rw [manifestFromMember, validateMemberShape_ok legible uid gid, Except.bind,
    if_neg (not_not.mpr supported), if_neg (not_not.mpr known), localEntry]
  cases kind : c.kind with
  | directory =>
    simp only [readBack, kind, TreeKind.type]
    rfl
  | regular content =>
    simp only [readBack, kind, TreeKind.type]
    rfl
  | symlink target =>
    obtain ⟨encodes, normal, -⟩ := member.link target kind
    have text : moduleText nfc "symlink target" target = .ok target := by
      rw [moduleText, if_neg (not_not.mpr encodes), if_neg (not_not.mpr normal)]
    simp only [readBack, kind, TreeKind.type, TreeKind.target, TreeKind.readBack,
      readTarget_eq (legible.target target kind).1]
    rw [text]
    rfl

theorem validateMember_ok {done : List LocalEntry} (member : TreeMember nfc c) (legible : Legible c)
    (uid : fitsOwner c.uid = true) (gid : fitsOwner c.gid = true)
    (fresh : c.name ∉ done.map (·.path))
    (bytes : regularBytes (done.map (·.kind)) + c.kind.size < maxModuleRegularBytes)
    (count : done.length + 1 ≤ maxModuleEntries) :
    validateMember nfc (readBack c) done = .ok [localEntry c] := by
  have name := readName_eq member.name legible.name
  have path : modulePath nfc (readBack c).name = .ok (readName c) := by
    have taken := modulePath_ok member.name
    rwa [← name] at taken
  have small : c.kind.size < maxModuleRegularBytes := Nat.lt_of_le_of_lt (Nat.le_add_left _ _) bytes
  rw [validateMember, path, Except.bind, name, if_neg fresh, readBack_content, if_neg (by omega),
    ← name, manifestFromMember_ok member legible uid gid small]
  exact if_neg (Nat.not_lt.mpr count)

theorem validateArchive_ok (proper : ProperTree nfc archive) (legible : ∀ c ∈ archive, Legible c)
    (owners : ∀ c ∈ archive, fitsOwner c.uid = true ∧ fitsOwner c.gid = true) :
    validateArchive nfc (archive.map readBack) = .ok (archive.map localEntry) := by
  rw [validateArchive, Collect.run_map, List.map_eq_flatMap]
  refine Collect.run_ok ?_
  rintro before c after rfl
  have own : c ∈ before ++ c :: after := by simp
  obtain ⟨fresh, bytes, count⟩ := proper.room
  have held : ∀ d ∈ before, d ∈ before ++ c :: after := fun d => List.mem_append_left _
  have names : (before.map localEntry).map (·.path) = before.map (·.name) := by
    rw [List.map_map]
    refine List.map_congr_left fun d member => ?_
    exact readName_eq (proper.member d (held d member)).name (legible d (held d member)).name
  have kinds : (before.map localEntry).map (·.kind) = before.map (·.kind) := by
    rw [List.map_map]
    exact List.map_congr_left fun d member => (legible d (held d member)).kind_eq
  rw [List.nil_append, ← List.map_eq_flatMap]
  refine validateMember_ok (proper.member c own) (legible c own) (owners c own).1 (owners c own).2
    ?_ ?_ (by rwa [List.length_map])
  · rwa [names]
  · rwa [kinds]

end LocalReader

section RemoteReader

variable {nfc : Str → Str} {fs : FileSystem} {c : ConvertedMember} {archive : List ConvertedMember}

def Takes (fs : FileSystem) (name : Str) (kind : TreeKind) : Prop :=
  fs.takesName name = true ∧ ∀ target, kind = .symlink target → fs.takesTarget target = true

theorem canonicalArchivePath_eq {value path : Str} (taken : canonicalArchivePath nfc value = .ok path) :
    path = value := by
  rw [canonicalArchivePath] at taken
  split at taken
  · cases taken
  split at taken
  · cases taken
  · exact (Except.ok.inj taken).symm

theorem canonicalArchiveMemberKind_eq {kind : TreeKind}
    (taken : canonicalArchiveMemberKind nfc (readBack c) = .ok kind) : kind = c.kind.readBack := by
  rw [canonicalArchiveMemberKind] at taken
  split at taken
  · cases taken
  split at taken
  · cases taken
  cases known : c.kind with
  | directory =>
    simp only [readBack, known, TreeKind.type] at taken
    split at taken
    · cases taken
    · exact (Except.ok.inj taken).symm
  | regular content =>
    simp only [readBack, known, TreeKind.type] at taken
    split at taken
    · cases taken
    · exact (Except.ok.inj taken).symm
  | symlink target =>
    simp only [readBack, known, TreeKind.type] at taken
    obtain ⟨-, -, taken⟩ := Collect.ok_of_bind taken
    split at taken
    · cases taken
    · exact (Except.ok.inj taken).symm

theorem takes_of_extractArchiveMember {tree : List ModuleNode} {path : Str} {kind : TreeKind}
    (extracted : extractArchiveMember fs tree path kind = .ok ()) : Takes fs path kind := by
  cases kind with
  | directory =>
    rw [extractArchiveMember] at extracted
    split at extracted
    · cases extracted
    · rename_i taken
      rw [not_or, Bool.not_eq_false] at taken
      exact ⟨taken.1, nofun⟩
  | regular content =>
    rw [extractArchiveMember] at extracted
    split at extracted
    · cases extracted
    · rename_i taken
      rw [not_or, Bool.not_eq_false] at taken
      exact ⟨taken.1, nofun⟩
  | symlink target =>
    rw [extractArchiveMember] at extracted
    split at extracted
    · cases extracted
    · rename_i taken
      rw [not_or, not_or, Bool.not_eq_false, Bool.not_eq_false] at taken
      refine ⟨taken.1, ?_⟩
      rintro _ ⟨rfl⟩
      exact taken.2.2

theorem extractMember_sound {done added : List ModuleNode}
    (extracted : extractMember nfc fs (readBack c) done = .ok added) :
    added = [c.seen] ∧ Takes fs c.seen.path c.seen.kind := by
  obtain ⟨path, taken, extracted⟩ := Collect.ok_of_bind extracted
  obtain rfl := canonicalArchivePath_eq taken
  split at extracted
  · cases extracted
  obtain ⟨kind, known, extracted⟩ := Collect.ok_of_bind extracted
  obtain rfl := canonicalArchiveMemberKind_eq known
  split at extracted
  · cases extracted
  split at extracted
  · cases extracted
  split at extracted
  · cases extracted
  cases written : extractArchiveMember fs done (readBack c).name c.kind.readBack with
  | error e =>
    rw [written] at extracted
    cases extracted
  | ok =>
    rw [written] at extracted
    exact ⟨(Except.ok.inj extracted).symm, takes_of_extractArchiveMember written⟩

theorem extract_sound {tree : List ModuleNode}
    (extracted : extractCanonicalModuleArchive nfc fs (archive.map readBack) = .ok tree) :
    tree = archive.map ConvertedMember.seen ∧ ∀ c ∈ archive, Takes fs c.seen.path c.seen.kind := by
  rw [extractCanonicalModuleArchive, Collect.run_map] at extracted
  have sound : ∀ c ∈ archive, ∀ done added, extractMember nfc fs (readBack c) done = .ok added →
      added = [c.seen] ∧ Takes fs c.seen.path c.seen.kind :=
    fun c _ done added => extractMember_sound
  have found := Collect.collected sound extracted
  rwa [List.nil_append, ← List.map_eq_flatMap] at found

theorem legible_of_takes (takes : Takes fs c.name c.kind) : Legible c := by
  refine ⟨fun null => ?_, fun target kind => ⟨fun null => ?_, ?_⟩⟩
  · exact absurd ((fs.name_null c.name null).symm.trans takes.1) nofun
  · exact absurd ((fs.target_null target null).symm.trans (takes.2 target kind)) nofun
  · rintro rfl
    exact absurd (fs.target_empty.symm.trans (takes.2 [] kind)) nofun

theorem lt_append_cons (front rest : Str) (next : Nat) : front < front ++ next :: rest := by
  induction front with
  | nil => exact List.nil_lt_cons next rest
  | cons first front ih => exact List.cons_lt_cons_iff.mpr (.inr ⟨rfl, ih⟩)

theorem ancestors_lt {path ancestor : Str} (above : ancestor ∈ ancestors path) : ancestor < path := by
  obtain ⟨n, inside, rfl⟩ := List.mem_map.mp above
  have bounds := List.mem_range'_1.mp inside
  have front : (components path).take n ≠ [] := by
    rw [← List.length_pos_iff, List.length_take]
    omega
  have back : (components path).drop n ≠ [] := by
    rw [← List.length_pos_iff, List.length_drop]
    omega
  have whole := PosixPath.joined_append front back
  rw [List.take_append_drop, PosixPath.joined_components] at whole
  conv_rhs => rw [whole]
  exact lt_append_cons _ _ _

theorem canonicalArchiveMemberKind_ok (member : TreeMember nfc c) (legible : Legible c) :
    canonicalArchiveMemberKind nfc (readBack c) = .ok c.kind := by
  have supported : .xattrsSupported ∈ (readBack c).pax := by simp [readBack, paxKeys]
  have linkname := readBack_linkname c
  rw [legible.kind_eq] at linkname
  rw [canonicalArchiveMemberKind, linkname]
  cases kind : c.kind with
  | directory => simp [readBack, kind, TreeKind.type, TreeKind.target, TreeKind.content, paxKeys]
  | regular content => simp [readBack, kind, TreeKind.type, TreeKind.target, TreeKind.content, paxKeys]
  | symlink target =>
    obtain ⟨encodes, normal, relative, inside⟩ := member.link target kind
    have type : (readBack c).type = .symlink := by simp [readBack, kind, TreeKind.type]
    have empty : (readBack c).content = [] := by simp [readBack, kind, TreeKind.content]
    have name : (readBack c).name = c.name := readName_eq member.name legible.name
    have stays : canonicalArchiveLinkTarget nfc c.name target = .ok () := by
      rw [canonicalArchiveLinkTarget, if_neg (not_not.mpr encodes), if_neg (by simp [normal, relative]),
        if_neg (by simp [inside])]
    rw [type, if_neg nofun, if_neg (not_not.mpr supported), name, empty]
    dsimp only [TreeKind.target]
    rw [stays]
    rfl

theorem extractArchiveMember_ok {done : List ModuleNode} {path : Str} {kind : TreeKind}
    (takes : Takes fs path kind) (fresh : ¬Exists done path) :
    extractArchiveMember fs done path kind = .ok () := by
  cases kind with
  | directory =>
    refine if_neg ?_
    rw [takes.1, not_or]
    refine ⟨nofun, ?_⟩
    rintro ⟨n, member, same, -⟩
    exact fresh ⟨n, member, .inl same⟩
  | regular content => exact if_neg (by simp [takes.1, fresh])
  | symlink target => exact if_neg (by simp [takes.1, takes.2 target rfl, fresh])

theorem extractMember_ok {done : List ModuleNode} (member : TreeMember nfc c)
    (takes : Takes fs c.name c.kind) (order : ∀ n ∈ done, n.path < c.name)
    (topology : ∀ n ∈ done, n.path ∈ ancestors c.name → n.kind = .directory)
    (bytes : regularBytes (done.map (·.kind)) + c.kind.size < maxModuleRegularBytes)
    (count : done.length + 1 ≤ maxModuleEntries) :
    extractMember nfc fs (readBack c) done = .ok [c.view] := by
  have legible := legible_of_takes takes
  have name : (readBack c).name = c.name := readName_eq member.name legible.name
  have ordered : done.getLast?.any (fun prior => c.name ≤ prior.path) = false := by
    cases last : done.getLast? with
    | none => rfl
    | some prior =>
      exact decide_eq_false (not_le.mpr (order prior (List.mem_of_getLast? last)))
  have below : ¬∃ n ∈ done, n.path ∈ ancestors c.name ∧ n.kind ≠ .directory := by
    rintro ⟨n, held, above, other⟩
    exact other (topology n held above)
  have fresh : ¬Exists done c.name := by
    rintro ⟨n, held, same | above⟩
    · exact lt_irrefl _ (same ▸ order n held)
    · exact lt_asymm (order n held) (ancestors_lt above)
  rw [extractMember, name, canonicalArchivePath_ok member.name, Except.bind, ordered, if_neg nofun,
    canonicalArchiveMemberKind_ok member legible, Except.bind, if_neg below,
    if_neg (Nat.not_lt.mpr count), if_neg (by omega), extractArchiveMember_ok takes fresh]
  rfl

theorem extract_ok (proper : ProperTree nfc archive) (takes : ∀ c ∈ archive, Takes fs c.name c.kind)
    (sorted : archive.Pairwise fun a b => a.name < b.name) :
    extractCanonicalModuleArchive nfc fs (archive.map readBack) =
      .ok (archive.map ConvertedMember.view) := by
  rw [extractCanonicalModuleArchive, Collect.run_map, List.map_eq_flatMap]
  refine Collect.run_ok ?_
  rintro before c after rfl
  have own : c ∈ before ++ c :: after := by simp
  obtain ⟨-, bytes, count⟩ := proper.room
  rw [List.nil_append, ← List.map_eq_flatMap]
  refine extractMember_ok (proper.member c own) (takes c own) ?_ ?_ ?_ (by rwa [List.length_map])
  · intro n earlier
    obtain ⟨d, member, rfl⟩ := List.mem_map.mp earlier
    exact (List.pairwise_append.mp sorted).2.2 d member c (.head after)
  · intro n earlier above
    obtain ⟨d, member, rfl⟩ := List.mem_map.mp earlier
    exact proper.topology d (List.mem_append_left _ member) c own above
  · rwa [List.map_map]

end RemoteReader

section Agreement

def bundleTree (release : Str) (bundle : Bundle) : List ConvertedMember :=
  (moduleTree release bundle.members).insertionSort byMemberName

def Agreed (nfc : Str → Str) (written : List ConvertedMember → Nat) (fs : FileSystem) (release : Str)
    (bundle : Bundle) : Prop :=
  ∃ archive entries tree, convertKernelBundleModules nfc written release bundle = .ok archive ∧
    validateArchive nfc (archive.map readBack) = .ok entries ∧
    extractCanonicalModuleArchive nfc fs (archive.map readBack) = .ok tree ∧
    entries.map LocalEntry.view = (bundleTree release bundle).map ConvertedMember.view ∧
    tree = (bundleTree release bundle).map ConvertedMember.view

/-- The tree lies in the first member of the gzip file, no directory keeps a slash, every owner has an
octal field, the file system takes the names and the targets, and the archive is small enough. -/
structure Portable (written : List ConvertedMember → Nat) (fs : FileSystem) (release : Str)
    (bundle : Bundle) : Prop where
  uncut : bundle.cut = false
  first : ∀ m ∈ bundle.members.drop bundle.first, moduleMember release m = none
  plain : ∀ m ∈ bundle.members.take bundle.first, ¬KeepsSlash m
  owners : ∀ c ∈ moduleTree release bundle.members, fitsOwner c.uid = true ∧ fitsOwner c.gid = true
  takes : ∀ c ∈ moduleTree release bundle.members, Takes fs c.name c.kind
  small : written (bundleTree release bundle) ≤ maxModuleArchiveBytes

variable {nfc : Str → Str} {written : List ConvertedMember → Nat} {fs : FileSystem} {release : Str}
  {bundle : Bundle} {tree : List ConvertedMember}

theorem moduleTree_split (release : Str) (bundle : Bundle) : moduleTree release bundle.members =
    moduleTree release (bundle.members.take bundle.first) ++
      moduleTree release (bundle.members.drop bundle.first) := by
  rw [← moduleTree_append, List.take_append_drop]

theorem moduleTree_take (none : moduleTree release (bundle.members.drop bundle.first) = []) :
    moduleTree release (bundle.members.take bundle.first) = moduleTree release bundle.members := by
  rw [moduleTree_split release bundle, none, List.append_nil]

theorem sorted_insertionSort (nodup : (tree.map (·.name)).Nodup) :
    (tree.insertionSort byMemberName).Pairwise fun a b => a.name < b.name := by
  have total : Std.Total byMemberName := ⟨fun a b => le_total a.name b.name⟩
  have trans : IsTrans ConvertedMember byMemberName := ⟨fun a b c => le_trans⟩
  have ordered := List.pairwise_insertionSort byMemberName tree
  have apart : ((tree.insertionSort byMemberName).map (·.name)).Nodup :=
    ((List.perm_insertionSort byMemberName tree).map _).nodup_iff.mpr nodup
  rw [List.Nodup, List.pairwise_map] at apart
  exact (ordered.and apart).imp fun both => lt_of_le_of_ne both.1 both.2

theorem agreed_iff {tools : Inspection} (accepted : AcceptedBundle tools bundle.members release)
    (parts : NormalParts tools.nfc)
    (proper : ProperTree tools.nfc (moduleTree release bundle.members)) :
    Agreed tools.nfc written fs release bundle ↔ Portable written fs release bundle := by
  have same := List.perm_insertionSort byMemberName (moduleTree release bundle.members)
  constructor
  · rintro ⟨archive, entries, seen, converted, validated, extracted, locally, remotely⟩
    obtain ⟨plain, uncut, rfl, small⟩ := (convert_ok_iff accepted parts proper archive).mp converted
    obtain ⟨rfl, owners⟩ := validateArchive_sound validated
    obtain ⟨rfl, takes⟩ := extract_sound extracted
    -- as many members are seen as the whole tree has, so that none is left behind
    have none : moduleTree release (bundle.members.drop bundle.first) = [] := by
      have lengths := congrArg List.length remotely
      rw [List.length_map, List.length_map, bundleTree, List.length_insertionSort,
        List.length_insertionSort, moduleTree_split, List.length_append] at lengths
      exact List.eq_nil_of_length_eq_zero (by omega)
    have all := moduleTree_take none
    rw [all] at small owners takes remotely
    refine ⟨uncut, List.filterMap_eq_nil_iff.mp none, plain, ?_, ?_, small⟩
    · exact fun c member => owners c (same.mem_iff.mpr member)
    · intro c member
      have taken := takes c (same.mem_iff.mpr member)
      rw [bundleTree] at remotely
      rw [List.map_inj_left.mp remotely c (same.mem_iff.mpr member)] at taken
      exact taken
  · intro portable
    have none : moduleTree release (bundle.members.drop bundle.first) = [] :=
      List.filterMap_eq_nil_iff.mpr portable.first
    have all := moduleTree_take none
    have sorted := proper.perm same
    have takes : ∀ c ∈ bundleTree release bundle, Takes fs c.name c.kind :=
      fun c member => portable.takes c (same.mem_iff.mp member)
    have legible : ∀ c ∈ bundleTree release bundle, Legible c :=
      fun c member => legible_of_takes (takes c member)
    refine ⟨bundleTree release bundle, (bundleTree release bundle).map localEntry,
      (bundleTree release bundle).map ConvertedMember.view, ?_, ?_, ?_, ?_, rfl⟩
    · refine (convert_ok_iff accepted parts proper _).mpr ⟨portable.plain, portable.uncut, ?_,
        portable.small⟩
      rw [all, bundleTree]
    · exact validateArchive_ok sorted legible
        fun c member => portable.owners c (same.mem_iff.mp member)
    · exact extract_ok sorted takes (sorted_insertionSort proper.nodup)
    · rw [List.map_map]
      exact List.map_congr_left fun c member => (legible c member).seen_eq (sorted.member c member)

/-- An accepted bundle reaches both sides as it is exactly when it is portable. -/
theorem agreed_iff_portable {σ : Type} (lib : Libraries σ) (arch : Arch)
    (written : List ConvertedMember → Nat) (fs : FileSystem) (bundle : Bundle) (scanned : Scanned)
    (parts : NormalParts lib.nfc)
    (accepted : scanExternalBootArchive (inspection lib arch) bundle.members = .ok scanned) :
    Agreed lib.nfc written fs scanned.release bundle ↔ Portable written fs scanned.release bundle := by
  have known := accepted_bundle accepted
  have parts : NormalParts (inspection lib arch).nfc := parts
  exact agreed_iff known parts (known.properTree parts (size_pos_of_inspected lib arch))

end Agreement

section Owners

def plainFileSystem : FileSystem where
  takesName := fun name => 0 ∉ name ∧ ∀ part ∈ components name, part.length ≤ 255
  takesTarget := fun target => 0 ∉ target ∧ target ≠ [] ∧ target.length ≤ 4095
  name_null := fun name null => by simp [null]
  target_null := fun target null => by simp [null]
  target_empty := by decide

def ownedBundle (uid : Int) : Bundle where
  members := [⟨kernelBootMember, .regular, 0o644, 0, 0, [], bannerKernel⟩,
    ⟨str "lib/modules/6.1/a.ko", .regular, 0o644, uid, 0, [], []⟩]
  first := 2

def ownedScan : Scanned where
  release := str "6.1"
  entries := [⟨str "a.ko", .file "0644" (sha256Prefix ++ surrogateLibraries.sha256 []) 0⟩]
  memberCount := 2
  archiveBytes := 158
  moduleBytes := 0

/-- The archive of one small member is one record. -/
theorem small_owner_agrees :
    scanExternalBootArchive (inspection surrogateLibraries .ppc64le) (ownedBundle 1000).members =
      .ok ownedScan ∧
    Agreed id (fun _ => 10240) plainFileSystem (str "6.1") (ownedBundle 1000) := by
  have accepted : scanExternalBootArchive (inspection surrogateLibraries .ppc64le)
      (ownedBundle 1000).members = .ok ownedScan := by decide +kernel
  refine ⟨accepted, (agreed_iff_portable surrogateLibraries .ppc64le (fun _ => 10240) plainFileSystem
    (ownedBundle 1000) ownedScan (fun _ _ _ => rfl) accepted).mpr ?_⟩
  have tree : moduleTree ownedScan.release (ownedBundle 1000).members =
      [⟨str "a.ko", 0o644, 1000, 0, .regular []⟩] := by decide +kernel
  refine ⟨rfl, nofun, by decide, by decide, ?_, by decide⟩
  intro c member
  rw [tree] at member
  obtain rfl := List.mem_singleton.mp member
  exact ⟨by decide, nofun⟩

/-- The scan and the remote reader take an owner with more than seven octal digits; the local check
does not know its record. -/
theorem large_owner_disagrees :
    scanExternalBootArchive (inspection surrogateLibraries .ppc64le) (ownedBundle 2097152).members =
      .ok ownedScan ∧
    ¬Agreed id (fun _ => 10240) plainFileSystem (str "6.1") (ownedBundle 2097152) := by
  refine ⟨by decide +kernel, ?_⟩
  rintro ⟨archive, entries, tree, converted, validated, -⟩
  have wrote : convertKernelBundleModules id (fun _ => 10240) (str "6.1") (ownedBundle 2097152) =
      .ok [⟨str "a.ko", 0o644, 2097152, 0, .regular []⟩] := by decide +kernel
  obtain rfl := Except.ok.inj (wrote.symm.trans converted)
  have refused : validateArchive id ([⟨str "a.ko", 0o644, 2097152, 0, .regular []⟩].map readBack) =
      .error "module archive contains unknown metadata" := by decide +kernel
  exact absurd (refused.symm.trans validated) nofun

end Owners

end Kdive.Bundles
