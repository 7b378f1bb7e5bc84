import Kdive.Lib.Unpack

/-!
`ModuleDebuginfoResolver`: the module members of a kernel archive are extracted once into the
directory of the attachment, and a module is then looked up by the name of its file. A module's name
has underscores where the file's may have dashes; the lookup tries the name as it is and with every
underscore replaced, and no mixture of the two.
-/
namespace Kdive.Debug.ModuleFiles
open PosixPath (Str str)
open Unpack (Member Tree Path extractAll named)

section Resolver

/-- What the host makes of paths: how many steps it follows one, and the order in which `rglob` walks
a tree. -/
structure Disk where
  limit : Nat
  walk : Tree → List Path
  mem_walk : ∀ tree p, p ∈ walk tree ↔ ∃ node, (p, node) ∈ tree

def isModulesMember (name : Str) : Bool :=
  (str "lib/modules/").isPrefixOf (name.dropWhile (fun c => c == 46 || c == 47))

def modulesMember (m : Member) : Bool := isModulesMember m.name

def replaced (old new : Nat) (text : Str) : Str := text.map (fun c => if c = old then new else c)

def suffix : Str := str ".ko"

def fileNames (module : Str) : List Str := [module ++ suffix, replaced 95 45 module ++ suffix]

def rglobKo (disk : Disk) (root : Tree) : List Path :=
  (disk.walk root).filter (fun p => p.getLast?.any suffix.isSuffixOf)

def locateKo (disk : Disk) (root : Tree) (module : Str) : Option Path :=
  (rglobKo disk root).find? (fun p => p.getLast?.any (fileNames module).contains)

inductive ResolveError where
  | unowned
  | missing (module : Str)
  | extraction
  | identity (ko : Path)

structure ModuleFile where
  path : Path
  srcversion : Option Str
  buildId : Option Str

/-- The members of the archive that the Run's kernel reference names, if it has one, and what is read
of a file. -/
structure Source where
  archive : Option (List Member)
  readIdentity : Path → Option (Option Str × Option Str)

abbrev Owner := Option (Option Tree)

variable (disk : Disk) (source : Source)

def stage (owner : Owner) (module : Str) : Except ResolveError Tree :=
  match owner with
  | none => .error .unowned
  | some (some root) => .ok root
  | some none =>
    match source.archive with
    | none => .error (.missing module)
    | some archive =>
      match extractAll disk.limit modulesMember archive with
      | none => .error .extraction
      | some root => .ok root

def resolve (owner : Owner) (module : Str) : Except ResolveError ModuleFile × Owner :=
  match stage disk source owner module with
  | .error e => (.error e, owner)
  | .ok root =>
    let answer := match locateKo disk root module with
      | none => .error (.missing module)
      | some ko =>
        match source.readIdentity ko with
        | none => .error (.identity ko)
        | some identity => .ok ⟨ko, identity.1, identity.2⟩
    (answer, some (some root))

def answerAfter (before : List Str) (module : Str) : Except ResolveError ModuleFile :=
  (resolve disk source
    (before.foldl (fun owner other => (resolve disk source owner other).2) (some none)) module).1

def found : Except ResolveError ModuleFile → Option Path
  | .ok file => some file.path
  | .error (.identity ko) => some ko
  | .error _ => none

end Resolver

section Naming

def NamesModule (name module : Str) : Prop :=
  ∃ stem, name = stem ++ suffix ∧ replaced 45 95 stem = module

def IsModule (module : Str) : Prop :=
  ∀ c ∈ module, (48 ≤ c ∧ c ≤ 57) ∨ (65 ≤ c ∧ c ≤ 90) ∨ (97 ≤ c ∧ c ≤ 122) ∨ c = 95

def Held (archive : List Member) (module : Str) : Prop :=
  ∃ m ∈ archive, modulesMember m = true ∧ ∃ name, m.path.getLast? = some name ∧
    NamesModule name module

/-- A file is found exactly for a module that the archive holds, and it is that module's. -/
structure Right (archive : List Member) (module : Str)
    (answer : Except ResolveError ModuleFile) : Prop where
  finds : (found answer).isSome = true ↔ Held archive module
  own : ∀ ko, found answer = some ko → ∃ name, ko.getLast? = some name ∧ NamesModule name module

/-- The file is spelled in the path of a member, as its own name or as that of a directory above. -/
def Spelled (archive : List Member) (module : Str) : Prop :=
  ∃ name ∈ fileNames module, ∃ m ∈ archive, modulesMember m = true ∧ name ∈ m.path

/-- The file is written through a symbolic link that leads to nothing. -/
def Stray (limit : Nat) (archive : List Member) (module : Str) : Prop :=
  ∃ name ∈ fileNames module, Unpack.Strays limit modulesMember archive name

def LinkSpelled (archive : List Member) (module : Str) : Prop :=
  ∃ name ∈ fileNames module, ∃ m ∈ archive, ∃ target, m.kind = .symlink target ∧
    name ∈ PosixPath.components (PosixPath.normpath target)

theorem namesModule_of_mem {name module : Str} (isModule : IsModule module)
    (isName : name ∈ fileNames module) : NamesModule name module := by
  have noDash : ∀ c ∈ module, c ≠ 45 := by
    intro c member
    have := isModule c member
    omega
  simp only [fileNames, List.mem_cons, List.not_mem_nil, or_false] at isName
  rcases isName with rfl | rfl
  · refine ⟨module, rfl, ?_⟩
    exact (List.map_congr_left (fun c member => if_neg (noDash c member))).trans (List.map_id' module)
  · refine ⟨replaced 95 45 module, rfl, ?_⟩
    rw [replaced, replaced, List.map_map]
    refine (List.map_congr_left (fun c member => ?_)).trans (List.map_id' module)
    by_cases underscore : c = 95
    · simp [underscore]
    · simp [underscore, noDash c member]

/-- A name that ends as a file of a module does is found by the pattern and is no dot. -/
theorem fileNames_suffix {name module : Str} (isName : name ∈ fileNames module) :
    suffix.isSuffixOf name = true ∧ named name = true := by
  have ends : suffix <:+ name := by
    simp only [fileNames, List.mem_cons, List.not_mem_nil, or_false] at isName
    rcases isName with rfl | rfl
    · exact List.suffix_append _ _
    · exact List.suffix_append _ _
  refine ⟨List.isSuffixOf_iff_suffix.mpr ends, ?_⟩
  have long : 3 ≤ name.length := ends.length_le
  simp only [named, Bool.and_eq_true, bne_iff_ne]
  refine ⟨⟨?_, ?_⟩, ?_⟩ <;> rintro rfl <;> exact absurd long (by decide)

end Naming

section Lookup

variable {disk : Disk} {source : Source} {archive : List Member} {root : Tree} {module : Str}

theorem any_name {p : Path} {names : List Str} :
    p.getLast?.any names.contains = true ↔ ∃ name, p.getLast? = some name ∧ name ∈ names := by
  cases p.getLast? with
  | none => simp
  | some name => simp

theorem locateKo_name {ko : Path} (located : locateKo disk root module = some ko) :
    ∃ name, ko.getLast? = some name ∧ name ∈ fileNames module := by
  rw [locateKo] at located
  have isFile := List.find?_some located
  exact any_name.mp isFile

theorem locateKo_isSome :
    (locateKo disk root module).isSome = true ↔ ∃ name ∈ fileNames module, root.Has name := by
  rw [locateKo, List.find?_isSome]
  constructor
  · rintro ⟨p, walked, isFile⟩
    obtain ⟨name, last, isName⟩ := any_name.mp isFile
    obtain ⟨node, member⟩ := (disk.mem_walk root p).mp (List.mem_filter.mp walked).1
    exact ⟨name, isName, (p, node), member, last⟩
  · rintro ⟨name, isName, ⟨p, node⟩, member, last⟩
    have ends : p.getLast?.any suffix.isSuffixOf = true := by
      rw [last, Option.any_some]
      exact (fileNames_suffix isName).1
    refine ⟨p, List.mem_filter.mpr ⟨(disk.mem_walk root p).mpr ⟨node, member⟩, ends⟩, ?_⟩
    exact any_name.mpr ⟨name, last, isName⟩

theorem stage_known (listed : source.archive = some archive)
    (staged : extractAll disk.limit modulesMember archive = some root) {owner : Owner}
    (known : owner = some none ∨ owner = some (some root)) (module : Str) :
    stage disk source owner module = .ok root := by
  rcases known with rfl | rfl
  · rw [stage, listed]
    dsimp only
    rw [staged]
  · rfl

theorem staged_after (listed : source.archive = some archive)
    (staged : extractAll disk.limit modulesMember archive = some root) (before : List Str) :
    let owner := before.foldl (fun owner other => (resolve disk source owner other).2) (some none)
    owner = some none ∨ owner = some (some root) := by
  have run (owner : Owner) (known : owner = some none ∨ owner = some (some root)) :
      let last := before.foldl (fun owner other => (resolve disk source owner other).2) owner
      last = some none ∨ last = some (some root) := by
    induction before generalizing owner with
    | nil => exact known
    | cons other rest ih =>
      refine ih (resolve disk source owner other).2 (.inr ?_)
      rw [resolve, stage_known listed staged known]
  exact run (some none) (.inl rfl)

theorem found_answerAfter (listed : source.archive = some archive)
    (staged : extractAll disk.limit modulesMember archive = some root) (before : List Str)
    (module : Str) :
    found (answerAfter disk source before module) = locateKo disk root module := by
  have known := @staged_after disk source archive root listed staged before
  dsimp only at known
  rw [answerAfter]
  generalize before.foldl (fun owner other => (resolve disk source owner other).2) (some none) =
    owner at known
  rw [resolve, stage_known listed staged known]
  dsimp only
  cases locateKo disk root module with
  | none => rfl
  | some ko =>
    dsimp only
    cases source.readIdentity ko with
    | none => rfl
    | some identity => rfl

theorem located_iff (staged : extractAll disk.limit modulesMember archive = some root) :
    (locateKo disk root module).isSome = true ↔
      Spelled archive module ∨ Stray disk.limit archive module := by
  rw [locateKo_isSome, Spelled, Stray]
  constructor
  · rintro ⟨name, isName, there⟩
    rcases (Unpack.extractFrom_has staged).mp there with empty | ⟨m, member, kept, part, -⟩ | stray
    · obtain ⟨entry, member, -⟩ := empty
      cases member
    · exact .inl ⟨name, isName, m, member, kept, part⟩
    · exact .inr ⟨name, isName, stray⟩
  · rintro (⟨name, isName, m, member, kept, part⟩ | ⟨name, isName, stray⟩)
    · refine ⟨name, isName, (Unpack.extractFrom_has staged).mpr (.inr (.inl ?_))⟩
      exact ⟨m, member, kept, part, (fileNames_suffix isName).2⟩
    · exact ⟨name, isName, (Unpack.extractFrom_has staged).mpr (.inr (.inr stray))⟩

/-- A stray has the name that some symbolic link points to, or that of a member. -/
theorem spelled_of_stray (staged : extractAll disk.limit modulesMember archive = some root)
    (stray : Stray disk.limit archive module) :
    Spelled archive module ∨ LinkSpelled archive module := by
  obtain ⟨name, isName, stray⟩ := stray
  have there := (Unpack.extractFrom_has staged).mpr (.inr (.inr stray))
  rcases Unpack.origin_of_has staged there with ⟨m, member, kept, part⟩ | ⟨m, member, link⟩
  · exact .inl ⟨name, isName, m, member, kept, part⟩
  · exact .inr ⟨name, isName, m, member, link⟩

def plainDisk : Disk where
  limit := 64
  walk root := root.map Prod.fst
  mem_walk root p := by simp

def dashedArchive : List Member :=
  [⟨str "./lib/modules/6.1.0/kernel/fs/foo-bar.ko", .regular⟩]

def sourceOf (archive : List Member) : Source := ⟨some archive, fun _ => some (none, none)⟩

def mixedArchive : List Member :=
  [⟨str "lib/modules/6.1.0/kernel/arch/x86/crypto/twofish-x86_64.ko", .regular⟩]

end Lookup

end Kdive.Debug.ModuleFiles
