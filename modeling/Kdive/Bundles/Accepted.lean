import Kdive.Bundles.ModuleArchive
import Kdive.Bundles.Links

/-!
What the scan of an upload makes sure of the members of a bundle it accepts: where each of them stands,
and the bounds on all of them.
-/
namespace Kdive.Bundles
open PosixPath (Str str slash)

section Accepted

variable {tools : Inspection} {m : TarInfo} {s s' : ScanState} {done members : List TarInfo}

def ProperRelease (release : Str) : Prop := release ≠ [] ∧ slash ∉ release

structure FitsTree (tools : Inspection) (m : TarInfo) (relative : Str) : Prop where
  kind : m.type ≠ .other
  link : m.type = .symlink → Encodes m.linkname ∧ tools.nfc m.linkname = m.linkname ∧
    (isBackReference relative m = true ∨ startsWith m.linkname (str "/") = false ∧
      PosixPath.leaves (resolvedTarget relative m.linkname) = false)

/-- Where a member of an accepted bundle stands, and that its path is among the entries. -/
inductive Placed (tools : Inspection) (releases paths : List Str) (m : TarInfo) : Prop
  | boot (name : trimmedName m = kernelBootMember) (regular : m.type = .regular)
  | top (name : trimmedName m = str "lib" ∨ trimmedName m = str "lib/modules")
      (directory : m.type = .directory)
  | root (release : Str) (known : release ∈ releases)
      (name : trimmedName m = modulesMemberPrefix ++ release) (directory : m.type = .directory)
  | inside (release relative : Str) (proper : ProperRelease release) (known : release ∈ releases)
      (below : relative ≠ []) (name : trimmedName m = releaseRoot release ++ relative)
      (fits : FitsTree tools m relative)
      (listed : isBackReference relative m = true ∨ relative ∈ paths)

theorem Placed.mono {releases releases' paths paths' : List Str}
    (placed : Placed tools releases paths m) (more : releases ⊆ releases') (longer : paths ⊆ paths') :
    Placed tools releases' paths' m := by
  cases placed with
  | boot name regular => exact .boot name regular
  | top name directory => exact .top name directory
  | root release known name directory => exact .root release (more known) name directory
  | inside release relative proper known below name fits listed =>
    exact .inside release relative proper (more known) below name fits (listed.imp_right (longer ·))

theorem moduleMemberPath_cases {path : Str} {found : Option (Str × Str)}
    (taken : moduleMemberPath path m = .ok found) :
    (path = str "lib" ∨ path = str "lib/modules") ∧ m.isdir ∧ found = none ∨
    (∃ release, path = modulesMemberPrefix ++ release ∧ m.isdir ∧ found = some (release, [])) ∨
    ∃ release relative, ProperRelease release ∧ relative ≠ [] ∧
      path = releaseRoot release ++ relative ∧ found = some (release, relative) := by
  rw [moduleMemberPath] at taken
  split at taken
  · rename_i top
    split at taken
    · rename_i directory
      exact .inl ⟨top, directory, (Except.ok.inj taken).symm⟩
    · cases taken
  split at taken
  · cases taken
  rename_i inside
  obtain ⟨rest, rfl⟩ := startsWith_iff.mp (Bool.not_eq_false _ ▸ inside)
  rw [List.drop_left] at taken
  have parts := @eq_partitioned rest
  have whole : (partitioned rest).2.1 = false → rest = (partitioned rest).1 := by
    intro none
    have short : ¬(rest.takeWhile (· ≠ slash)).length < rest.length := of_decide_eq_false none
    exact (List.IsPrefix.eq_of_length_le (List.takeWhile_prefix _) (Nat.not_lt.mp short)).symm
  have single : slash ∉ (partitioned rest).1 := by
    intro inside
    have other := List.all_eq_true.mp (List.all_takeWhile (l := rest)) slash inside
    simp at other
  generalize partitioned rest = divided at taken parts whole single
  obtain ⟨head, separator, tail⟩ := divided
  dsimp only at taken parts whole single
  split at taken
  · rename_i root
    obtain ⟨-, undivided, directory⟩ := root
    refine .inr (.inl ⟨head, ?_, directory, (Except.ok.inj taken).symm⟩)
    rw [whole undivided]
  split at taken
  · cases taken
  rename_i divides
  simp only [not_or, Bool.not_eq_false] at divides
  refine .inr (.inr ⟨head, tail, ⟨divides.1, single⟩, divides.2.2, ?_, (Except.ok.inj taken).symm⟩)
  rw [parts divides.2.1, releaseRoot]
  simp

theorem moduleManifestEntry_cases {relative : Str} {entry : Option ModuleEntry}
    (made : moduleManifestEntry tools m relative = .ok entry) : FitsTree tools m relative ∧
      (isBackReference relative m = true ∧ entry = none ∨
        ∃ kind, entry = some ⟨relative, kind⟩ ∧ (kind = .dir → m.type = .directory)) := by
  rw [moduleManifestEntry] at made
  split at made
  · rename_i type
    refine ⟨⟨by simp [type], fun link => by cases type.symm.trans link⟩, .inr ?_⟩
    exact ⟨_, (Except.ok.inj made).symm, fun _ => type⟩
  · rename_i type
    refine ⟨⟨by simp [type], fun link => by cases type.symm.trans link⟩, .inr ?_⟩
    exact ⟨_, (Except.ok.inj made).symm, fun dir => by cases dir⟩
  · rename_i type
    have symlink : m.type ≠ .other := by simp [type]
    dsimp only at made
    split at made
    · cases made
    rename_i encodes
    split at made
    · cases made
    rename_i normal
    rw [not_not] at encodes normal
    split at made
    · rename_i back
      have back : isBackReference relative m = true := by
        simpa [isBackReference, TarInfo.issym, type, and_comm] using back
      exact ⟨⟨symlink, fun _ => ⟨encodes, normal, .inl back⟩⟩,
        .inl ⟨back, (Except.ok.inj made).symm⟩⟩
    split at made
    · cases made
    · rename_i stays
      rw [not_or, Bool.not_eq_true, Bool.not_eq_true] at stays
      exact ⟨⟨symlink, fun _ => ⟨encodes, normal, .inr stays⟩⟩,
        .inr ⟨_, (Except.ok.inj made).symm, fun dir => by cases dir⟩⟩
  · cases made

def memberBytes (members : List TarInfo) : Nat :=
  (members.map fun m => if m.isreg then m.size else 0).sum

structure ScanInv (tools : Inspection) (done : List TarInfo) (s : ScanState) : Prop where
  count : s.memberCount = done.length
  limit : s.memberCount ≤ scanMaxMembers
  names : s.names = done.map trimmedName
  nodup : s.names.Nodup
  canonical : ∀ m ∈ done, canonicalTarPath tools m = .ok (trimmedName m)
  bytes : s.archiveBytes = memberBytes done
  bytesLimit : s.archiveBytes ≤ scanMaxBytes
  boot : ∀ release, s.boot = some release → ∃ m ∈ done, trimmedName m = kernelBootMember ∧
    m.type = .regular ∧ tools.inspectBootMember m = .ok release
  placed : ∀ m ∈ done, Placed tools s.releases (s.entries.map (·.path)) m
  origin : ∀ e ∈ s.entries, ∃ m ∈ done, ∃ release ∈ s.releases, ProperRelease release ∧
    trimmedName m = releaseRoot release ++ e.path ∧ (e.kind = .dir → m.type = .directory)

theorem ScanInv.start : ScanInv tools [] {} where
  count := rfl
  limit := Nat.zero_le _
  names := rfl
  nodup := List.nodup_nil
  canonical := nofun
  bytes := rfl
  bytesLimit := Nat.zero_le _
  boot := nofun
  placed := nofun
  origin := nofun

theorem canonicalTarPath_eq {path : Str} (canonical : canonicalTarPath tools m = .ok path) :
    path = trimmedName m := by
  rw [canonicalTarPath] at canonical
  dsimp only at canonical
  split at canonical
  · cases canonical
  split at canonical
  · cases canonical
  split at canonical
  · cases canonical
  · exact (Except.ok.inj canonical).symm

inductive Adds (tools : Inspection) (m : TarInfo) (path : Str) (t s : ScanState) : Prop
  | boot (release : Str) (name : path = kernelBootMember) (regular : m.type = .regular)
      (inspected : tools.inspectBootMember m = .ok release) (sets : s.boot = some release)
      (releases : s.releases = t.releases) (entries : s.entries = t.entries)
  | top (name : path = str "lib" ∨ path = str "lib/modules") (directory : m.type = .directory)
      (boot : s.boot = t.boot) (releases : s.releases = t.releases) (entries : s.entries = t.entries)
  | root (release : Str) (name : path = modulesMemberPrefix ++ release)
      (directory : m.type = .directory) (boot : s.boot = t.boot) (known : release ∈ s.releases)
      (releases : t.releases ⊆ s.releases) (entries : s.entries = t.entries)
  | inside (release relative : Str) (entry : Option ModuleEntry) (proper : ProperRelease release)
      (below : relative ≠ []) (name : path = releaseRoot release ++ relative)
      (made : moduleManifestEntry tools m relative = .ok entry) (boot : s.boot = t.boot)
      (known : release ∈ s.releases) (releases : t.releases ⊆ s.releases)
      (entries : s.entries = t.entries ++ entry.toList)

theorem noteRelease_releases (release : Str) (t : ScanState) :
    release ∈ (noteRelease release t).releases ∧ t.releases ⊆ (noteRelease release t).releases := by
  rw [noteRelease]
  split
  · rename_i known
    exact ⟨known, List.Subset.refl _⟩
  · exact ⟨by simp, List.subset_append_left _ _⟩

theorem noteRelease_same (release : Str) (t : ScanState) :
    (noteRelease release t).boot = t.boot ∧ (noteRelease release t).entries = t.entries ∧
      (noteRelease release t).memberCount = t.memberCount ∧
      (noteRelease release t).names = t.names ∧
      (noteRelease release t).archiveBytes = t.archiveBytes := by
  rw [noteRelease]
  split <;> exact ⟨rfl, rfl, rfl, rfl, rfl⟩

def SameCounters (s t : ScanState) : Prop :=
  s.memberCount = t.memberCount ∧ s.names = t.names ∧ s.archiveBytes = t.archiveBytes

theorem type_of_isdir (directory : m.isdir = true) : m.type = .directory := of_decide_eq_true directory

theorem scanModule_adds {release relative : Str} {t : ScanState}
    (below : relative ≠ []) (scanned : scanModule tools m release relative t = .ok s) :
    SameCounters s t ∧ ∃ entry, moduleManifestEntry tools m relative = .ok entry ∧
      s.boot = t.boot ∧ release ∈ s.releases ∧ t.releases ⊆ s.releases ∧
      s.entries = t.entries ++ entry.toList := by
  obtain ⟨known, more⟩ := noteRelease_releases release t
  obtain ⟨boot, entries, count, names, bytes⟩ := noteRelease_same release t
  rw [scanModule] at scanned
  dsimp only at scanned
  rw [if_neg below] at scanned
  have counted : ∀ u : ScanState,
      (if m.isreg then { u with moduleBytes := u.moduleBytes + m.size } else u) =
      { u with moduleBytes := if m.isreg then u.moduleBytes + m.size else u.moduleBytes } := by
    intro u
    split <;> rfl
  rw [counted] at scanned
  split at scanned
  · cases scanned
  · rename_i made
    obtain rfl := Except.ok.inj scanned
    exact ⟨⟨count, names, bytes⟩, none, made, boot, known, more, by simpa using entries⟩
  · rename_i entry made
    obtain rfl := Except.ok.inj scanned
    refine ⟨⟨count, names, bytes⟩, some entry, made, boot, known, more, ?_⟩
    simpa using entries

theorem scanNamed_adds {path : Str} {t : ScanState} (scanned : scanNamed tools m path t = .ok s) :
    SameCounters s t ∧ Adds tools m path t s := by
  rw [scanNamed] at scanned
  split at scanned
  · rename_i name
    rw [scanBoot] at scanned
    split at scanned
    · cases scanned
    rename_i alone
    rw [not_or, Bool.not_eq_false] at alone
    split at scanned
    · cases scanned
    split at scanned
    · cases scanned
    · rename_i release inspected
      obtain rfl := Except.ok.inj scanned
      exact ⟨⟨rfl, rfl, rfl⟩,
        .boot release name (of_decide_eq_true alone.1) inspected rfl rfl rfl⟩
  split at scanned
  · cases scanned
  · rename_i taken
    obtain rfl := Except.ok.inj scanned
    rcases moduleMemberPath_cases taken with 
      ⟨name, directory, -⟩ | ⟨_, _, _, wrong⟩ | ⟨_, _, _, _, _, wrong⟩
    · exact ⟨⟨rfl, rfl, rfl⟩, .top name (type_of_isdir directory) rfl rfl rfl⟩
    · cases wrong
    · cases wrong
  · rename_i release relative taken
    rcases moduleMemberPath_cases taken with
      ⟨_, _, wrong⟩ | ⟨_, name, directory, same⟩ | ⟨_, _, proper, below, name, same⟩
    · cases wrong
    · cases same
      rw [scanModule, if_pos rfl] at scanned
      obtain rfl := Except.ok.inj scanned
      obtain ⟨known, more⟩ := noteRelease_releases release t
      obtain ⟨boot, entries, count, names, bytes⟩ := noteRelease_same release t
      exact ⟨⟨count, names, bytes⟩,
        .root release name (type_of_isdir directory) boot known more entries⟩
    · cases same
      obtain ⟨counters, entry, made, boot, known, more, entries⟩ := scanModule_adds below scanned
      exact ⟨counters,
        .inside release relative entry proper below name made boot known more entries⟩

theorem Adds.grows {path : Str} {t : ScanState} (adds : Adds tools m path t s) :
    t.releases ⊆ s.releases ∧ t.entries ⊆ s.entries := by
  cases adds with
  | boot _ _ _ _ _ releases entries => rw [releases, entries]; exact ⟨fun _ h => h, fun _ h => h⟩
  | top _ _ _ releases entries => rw [releases, entries]; exact ⟨fun _ h => h, fun _ h => h⟩
  | root _ _ _ _ _ releases entries => rw [entries]; exact ⟨releases, fun _ h => h⟩
  | inside _ _ _ _ _ _ _ _ _ releases entries =>
    rw [entries]
    exact ⟨releases, List.subset_append_left _ _⟩

theorem Adds.placed {t : ScanState} (adds : Adds tools m (trimmedName m) t s) :
    Placed tools s.releases (s.entries.map (·.path)) m := by
  cases adds with
  | boot _ name regular => exact .boot name regular
  | top name directory => exact .top name directory
  | root release name directory _ known => exact .root release known name directory
  | inside release relative entry proper below name made _ known _ entries =>
    obtain ⟨fits, back | ⟨kind, same, -⟩⟩ := moduleManifestEntry_cases made
    · exact .inside release relative proper known below name fits (.inl back.1)
    · refine .inside release relative proper known below name fits (.inr ?_)
      rw [entries, same]
      simp

theorem Adds.origin {t : ScanState} {e : ModuleEntry} (adds : Adds tools m (trimmedName m) t s)
    (member : e ∈ s.entries) : e ∈ t.entries ∨ ∃ release ∈ s.releases, ProperRelease release ∧
      trimmedName m = releaseRoot release ++ e.path ∧ (e.kind = .dir → m.type = .directory) := by
  cases adds with
  | boot _ _ _ _ _ _ entries => exact .inl (entries ▸ member)
  | top _ _ _ _ entries => exact .inl (entries ▸ member)
  | root _ _ _ _ _ _ entries => exact .inl (entries ▸ member)
  | inside release relative entry proper _ name made _ known _ entries =>
    rw [entries] at member
    rcases List.mem_append.mp member with held | own
    · exact .inl held
    obtain ⟨-, back | ⟨kind, same, directory⟩⟩ := moduleManifestEntry_cases made
    · rw [back.2] at own
      cases own
    · rw [same] at own
      obtain rfl := List.mem_singleton.mp own
      exact .inr ⟨release, known, proper, name, directory⟩

theorem Adds.booted {t : ScanState} {release : Str} (adds : Adds tools m (trimmedName m) t s)
    (found : s.boot = some release) : t.boot = some release ∨ trimmedName m = kernelBootMember ∧
      m.type = .regular ∧ tools.inspectBootMember m = .ok release := by
  cases adds with
  | boot release' name regular inspected sets =>
    obtain rfl := Option.some.inj (sets.symm.trans found)
    exact .inr ⟨name, regular, inspected⟩
  | top _ _ boot => exact .inl (boot ▸ found)
  | root _ _ _ boot => exact .inl (boot ▸ found)
  | inside _ _ _ _ _ _ _ boot => exact .inl (boot ▸ found)

theorem ScanInv.step (inv : ScanInv tools done s) (scanned : scanMember tools m s = .ok s') :
    ScanInv tools (done ++ [m]) s' := by
  rw [scanMember] at scanned
  split at scanned
  · cases scanned
  rename_i few
  split at scanned
  · cases scanned
  rename_i path canonical
  obtain rfl := canonicalTarPath_eq canonical
  split at scanned
  · cases scanned
  rename_i fresh
  split at scanned
  · cases scanned
  rename_i light
  obtain ⟨⟨count, names, bytes⟩, adds⟩ := scanNamed_adds scanned
  dsimp only at count names bytes
  obtain ⟨more, longer⟩ := adds.grows
  have placed := adds.placed
  refine ⟨?_, ?_, ?_, ?_, ?_, ?_, ?_, ?_, ?_, ?_⟩
  · rw [count, inv.count, List.length_append, List.length_singleton]
  · rw [count]
    omega
  · rw [names, inv.names, List.map_append, List.map_singleton]
  · rw [names]
    refine List.nodup_append.mpr ⟨inv.nodup, List.nodup_singleton _, ?_⟩
    intro a held b own same
    rw [List.mem_singleton.mp own] at same
    exact fresh (same ▸ held)
  · intro m' member
    rcases List.mem_append.mp member with held | own
    · exact inv.canonical m' held
    · rw [List.mem_singleton.mp own]
      exact canonical
  · rw [bytes, inv.bytes, memberBytes, memberBytes, List.map_append, List.sum_append]
    split <;> simp_all
  · rw [bytes]
    have before := inv.bytesLimit
    split
    · rename_i regular
      rw [not_and, Nat.not_lt] at light
      exact light regular
    · exact before
  · intro release found
    rcases adds.booted found with held | own
    · obtain ⟨m', held, rest⟩ := inv.boot release held
      exact ⟨m', List.mem_append_left _ held, rest⟩
    · exact ⟨m, List.mem_append_right _ (List.mem_singleton_self m), own⟩
  · intro m' member
    rcases List.mem_append.mp member with held | own
    · exact (inv.placed m' held).mono more (List.map_subset _ longer)
    · rw [List.mem_singleton.mp own]
      exact placed
  · intro e member
    rcases adds.origin member with held | ⟨release, known, own⟩
    · obtain ⟨m', held, release, known, rest⟩ := inv.origin e held
      exact ⟨m', List.mem_append_left _ held, release, more known, rest⟩
    · exact ⟨m, List.mem_append_right _ (List.mem_singleton_self m), release, known, own⟩

theorem ScanInv.run (inv : ScanInv tools done s)
    (ran : Sweep.run (scanMember tools) members s = .ok s') : ScanInv tools (done ++ members) s' := by
  induction members generalizing done s with
  | nil =>
    cases ran
    rw [List.append_nil]
    exact inv
  | cons m rest ih =>
    obtain ⟨s₁, one, ran⟩ := Sweep.run_cons_ok ran
    have later := ih (inv.step one) ran
    rwa [List.append_assoc] at later

theorem releaseRoot_ne_of_head {release relative name : Str}
    (other : modulesMemberPrefix.isPrefixOf name = false) : name ≠ releaseRoot release ++ relative := by
  rintro rfl
  rw [releaseRoot, List.append_assoc, List.append_assoc] at other
  rw [List.isPrefixOf_iff_prefix.mpr (List.prefix_append _ _)] at other
  cases other

theorem Placed.of_inside {release relative : Str} {paths : List Str}
    (placed : Placed tools [release] paths m) (name : trimmedName m = releaseRoot release ++ relative)
    (below : relative ≠ []) :
    FitsTree tools m relative ∧ (isBackReference relative m = true ∨ relative ∈ paths) := by
  cases placed with
  | boot other => exact absurd (other.symm.trans name) (releaseRoot_ne_of_head (by decide))
  | top other =>
    rcases other with other | other
    · exact absurd (other.symm.trans name) (releaseRoot_ne_of_head (by decide))
    · exact absurd (other.symm.trans name) (releaseRoot_ne_of_head (by decide))
  | root release' known other =>
    obtain rfl := List.mem_singleton.mp known
    have lengths := congrArg List.length (other.symm.trans name)
    rw [releaseRoot] at lengths
    simp at lengths
  | inside release' relative' proper known below' other fits listed =>
    obtain rfl := List.mem_singleton.mp known
    obtain rfl := List.append_cancel_left (other.symm.trans name)
    exact ⟨fits, listed⟩

structure AcceptedBundle (tools : Inspection) (members : List TarInfo) (release : Str) : Prop where
  proper : ProperRelease release
  count : members.length ≤ scanMaxMembers
  nodup : (members.map trimmedName).Nodup
  canonical : ∀ m ∈ members, canonicalTarPath tools m = .ok (trimmedName m)
  bytes : memberBytes members ≤ scanMaxBytes
  boot : ∃ m ∈ members, trimmedName m = kernelBootMember ∧ m.type = .regular ∧
    ∃ kernelRelease, tools.inspectBootMember m = .ok kernelRelease
  placed : ∃ paths, (∀ path ∈ paths, Encodes path) ∧ ∀ m ∈ members, Placed tools [release] paths m
  topology : ∀ m ∈ members, ∀ m' ∈ members, ∀ relative relative',
    trimmedName m = releaseRoot release ++ relative → relative ≠ [] →
    isBackReference relative m = false →
    trimmedName m' = releaseRoot release ++ relative' → relative' ≠ [] →
    isBackReference relative' m' = false →
    relative ∈ ancestors relative' → m.type = .directory

theorem accepted_bundle {scanned : Scanned}
    (accepted : scanExternalBootArchive tools members = .ok scanned) :
    AcceptedBundle tools members scanned.release := by
  rw [scanExternalBootArchive] at accepted
  cases ran : Sweep.run (scanMember tools) members {} with
  | error e =>
    rw [ran] at accepted
    cases accepted
  | ok s =>
    rw [ran] at accepted
    have inv := ScanInv.start.run ran
    rw [List.nil_append] at inv
    have accepted : scanEnd s = .ok scanned := accepted
    rw [scanEnd] at accepted
    split at accepted
    · cases accepted
    rename_i kernelRelease boot
    split at accepted
    · rename_i release releases
      split at accepted
      · cases accepted
      rename_i nonempty
      split at accepted
      · cases accepted
      rename_i flat
      split at accepted
      · cases accepted
      split at accepted
      · rename_i encodes
        obtain rfl := Except.ok.inj accepted
        have placed := inv.placed
        have origin := inv.origin
        rw [releases] at placed origin
        have proper : ProperRelease release := by
          obtain ⟨e, held⟩ := List.exists_mem_of_ne_nil _ nonempty
          obtain ⟨_, _, release', released, proper, _⟩ := origin e held
          exact List.mem_singleton.mp released ▸ proper
        refine ⟨proper, inv.count ▸ inv.limit, inv.names ▸ inv.nodup, inv.canonical,
          inv.bytes ▸ inv.bytesLimit, ?_, ⟨s.entries.map (·.path), ?_, placed⟩, ?_⟩
        · obtain ⟨m, member, name, regular, inspected⟩ := inv.boot kernelRelease boot
          exact ⟨m, member, name, regular, kernelRelease, inspected⟩
        · intro path member
          obtain ⟨e, held, rfl⟩ := List.mem_map.mp member
          exact encodes e held
        · intro m member m' member' relative relative' name below stays name' below' stays' above
          rw [Bool.not_eq_false] at flat
          have listed := ((placed m member).of_inside name below).2.resolve_left (by simp [stays])
          have listed' := ((placed m' member').of_inside name' below').2.resolve_left (by simp [stays'])
          obtain ⟨e', held', rfl⟩ := List.mem_map.mp listed'
          obtain ⟨e, held, same⟩ := List.mem_map.mp listed
          have checked := List.all_eq_true.mp (List.all_eq_true.mp flat e' held') relative above
          obtain ⟨a, found⟩ : ∃ a, s.entries.find? (fun a => a.path = relative) = some a := by
            cases none : s.entries.find? (fun a => a.path = relative) with
            | some a => exact ⟨a, rfl⟩
            | none => exact absurd same (by simpa using List.find?_eq_none.mp none e held)
          rw [found] at checked
          have here : a.path = relative := by simpa using List.find?_some found
          obtain ⟨m₀, known, release', released, -, name₀, directory⟩ :=
            origin a (List.mem_of_find?_eq_some found)
          obtain rfl := List.mem_singleton.mp released
          have nodup : (members.map trimmedName).Nodup := inv.names ▸ inv.nodup
          obtain rfl : m₀ = m := by
            refine List.inj_on_of_nodup_map nodup known member ?_
            rw [name₀, name, here]
          exact directory (of_decide_eq_true checked)
      · cases accepted
    · cases accepted

end Accepted

end Kdive.Bundles
