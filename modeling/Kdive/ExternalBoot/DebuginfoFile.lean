import Kdive.ExternalBoot.Host
import Mathlib.Algebra.Group.Int.Defs

/-!
`GuestDebuginfoFile`: the live, staging and old names of one release's `vmlinux`, guest step by guest
step. No phase is recorded. Each call reads the three names and compares digests, so an upload that
happens to have the target's digest is the target to it; what it renames are the files themselves.
-/
namespace Kdive.ExternalBoot.GuestDebuginfoFile
open Calls Interrupts

structure GuestFile where
  content : List UInt8
  mode : Nat
  uid : Nat
  gid : Nat

abbrev Manifest := String

def factsText (size : Nat) (sha256 : String) (mode uid gid : Nat) : String :=
  let octal := String.ofList (Nat.toDigits 8 mode)
  "\x7b\"gid\":" ++ toString gid ++ ",\"mode\":\"" ++
    String.ofList (List.replicate (4 - octal.length) '0') ++ octal ++ "\",\"sha256\":\"" ++ sha256 ++
    "\",\"size\":" ++ toString size ++ ",\"uid\":" ++ toString uid ++ "\x7d"

def debuginfoFileState (hash : List UInt8 → String) (size : Nat) (sha256 : String)
    (mode uid gid : Nat) : Manifest :=
  "sha256:" ++ hash (("kdive-debuginfo-file-v1\x00" ++
    factsText size sha256 mode uid gid).toUTF8.toList)

structure Statvfs where
  bavail : Int
  blocks : Int
  frsize : Int

def vmlinuxHeadroomBytes : Int := 512 * 1024 * 1024

def maxFragmentBytes : Int := 1024 * 1024

def maxBytes : Int := 2 ^ 63 - 1

/-- `_free_bytes`, or the reason why the statistics cannot be trusted. -/
def freeBytes (stats : Statvfs) : Except String Int :=
  if ¬(0 ≤ stats.bavail ∧ stats.bavail ≤ maxBytes ∧ 0 ≤ stats.blocks ∧ stats.blocks ≤ maxBytes ∧
      0 ≤ stats.frsize ∧ stats.frsize ≤ maxBytes) then
    .error "has a negative, oversized or non-integer field"
  else if ¬(0 < stats.frsize ∧ stats.frsize ≤ maxFragmentBytes) ∨ stats.bavail > stats.blocks ∨
      stats.blocks * stats.frsize > maxBytes then
    .error "is internally inconsistent"
  else .ok (stats.bavail * stats.frsize)

section Steps

inductive Path where
  | directory (depth : Nat)
  | name (name : Name)

inductive GuestStep where
  | exists (path : Path)
  | isDir (depth : Nat) (followsymlinks : Bool)
  | isSymlink (name : Name)
  | lstatns (name : Name)
  | checksum (name : Name)
  | statvfs
  | mkdir (depth : Nat)
  | rmRf (name : Name)
  | upload (file : GuestFile)
  | chmod (mode : Nat) (name : Name)
  | chown (uid gid : Nat) (name : Name)
  | mv (source target : Name)
  | sync

structure Status where
  size : Nat
  mode : Nat
  uid : Nat
  gid : Nat

def StepAnswer : GuestStep → Type
  | .exists _ | .isDir _ _ | .isSymlink _ => Bool
  | .lstatns _ => Status
  | .checksum _ => String
  | .statvfs => Statvfs
  | .mkdir _ | .rmRf _ | .upload _ | .chmod _ _ | .chown _ _ _ | .mv _ _ | .sync => Unit

/-- How many of the directories exist, and the files under the three names. -/
structure Guest where
  directories : Nat
  files : Layout GuestFile

/-- What the guest answers besides: its hash and the statistics of its file system. -/
structure Appliance where
  hash : List UInt8 → String
  stats : Statvfs

def serveGuest (a : Appliance) (g : Guest) :
    (step : GuestStep) → Option (StepAnswer step) × Guest
  | .exists (.directory depth) => (some (decide (depth < g.directories)), g)
  | .exists (.name name) => (some (g.files.get name).isSome, g)
  | .isDir depth _ => (some (decide (depth < g.directories)), g)
  | .isSymlink _ => (some false, g)
  | .lstatns name => ((g.files.get name).map (fun f => ⟨f.content.length, f.mode, f.uid, f.gid⟩), g)
  | .checksum name => ((g.files.get name).map (fun f => a.hash f.content), g)
  | .statvfs => (some a.stats, g)
  | .mkdir depth =>
    if depth = g.directories then (some (), { g with directories := depth + 1 }) else (none, g)
  | .rmRf name => (some (), { g with files := g.files.set name none })
  | .upload file =>
    if g.directories = 4 then (some (), { g with files := g.files.set .staging (some file) })
    else (none, g)
  | .chmod mode name =>
    match g.files.get name with
    | some f => (some (), { g with files := g.files.set name (some { f with mode := mode }) })
    | none => (none, g)
  | .chown uid gid name =>
    match g.files.get name with
    | some f => (some (), { g with files := g.files.set name (some { f with uid := uid, gid := gid }) })
    | none => (none, g)
  | .mv source target =>
    if (g.files.get source).isSome then (some (), { g with files := g.files.rename source target })
    else (none, g)
  | .sync => (some (), g)

inductive Reached where
  | nothing | whole
  | part (file : GuestFile)

def leaves (a : Appliance) (g : Guest) (step : GuestStep) : Reached → Guest
  | .nothing => g
  | .whole => (serveGuest a g step).2
  | .part file =>
    match step with
    | .upload _ =>
      if g.directories = 4 then { g with files := g.files.set .staging (some file) } else g
    | _ => g

def guestDevice (a : Appliance) : Device Guest GuestStep StepAnswer Reached where
  serve := serveGuest a
  fail := fun reached g step => (none, leaves a g step reached)

end Steps

section Calls

/-- `ValueError`, the two refusals of the free-space check, and the error of a guest step. -/
inductive CallError where
  | valueError (message : String)
  | implausibleReply (reason : String)
  | tooLittleSpace (free size needed : Int)
  | guestError

abbrev GuestProgram (α : Type) := Calls.Program GuestStep StepAnswer CallError α

def conflict {α : Type} (message : String) : GuestProgram α := throw (.valueError message)

def doStep (step : GuestStep) : GuestProgram (StepAnswer step) := demand .guestError step

def pathExists (path : Path) : GuestProgram Bool := doStep (.exists path)

def isDirectory (depth : Nat) (follow : Bool) : GuestProgram Bool := doStep (.isDir depth follow)

def isSymlink (name : Name) : GuestProgram Bool := doStep (.isSymlink name)

def lstatns (name : Name) : GuestProgram Status := doStep (.lstatns name)

def checksum (name : Name) : GuestProgram String := doStep (.checksum name)

def statvfs : GuestProgram Statvfs := doStep .statvfs

def mkdir (depth : Nat) : GuestProgram Unit := doStep (.mkdir depth)

def rmRf (name : Name) : GuestProgram Unit := doStep (.rmRf name)

def upload (file : GuestFile) : GuestProgram Unit := doStep (.upload file)

def chmod (mode : Nat) (name : Name) : GuestProgram Unit := doStep (.chmod mode name)

def chown (uid gid : Nat) (name : Name) : GuestProgram Unit := doStep (.chown uid gid name)

def mv (source target : Name) : GuestProgram Unit := doStep (.mv source target)

def sync : GuestProgram Unit := doStep .sync

def directoriesFrom (create : Bool) : List (Nat × Bool) → GuestProgram Bool
  | [] => pure true
  | (depth, follow) :: rest => do
    let there ← pathExists (.directory depth)
    if there = false then
      if create then do
        mkdir depth
        directoriesFrom create rest
      else pure false
    else do
      let directory ← isDirectory depth follow
      if directory = false then conflict "external-boot debuginfo directory is not a directory"
      else directoriesFrom create rest

def directories (create : Bool) : GuestProgram Bool :=
  directoriesFrom create [(0, true), (1, true), (2, true), (3, false)]

def observe (a : Appliance) (name : Name) : GuestProgram (Option Manifest) := do
  let symlink ← isSymlink name
  if symlink then conflict "external-boot debuginfo name is not a regular file"
  else do
    let there ← pathExists (.name name)
    if there = false then pure none
    else do
      let status ← lstatns name
      let sum ← checksum name
      pure (some (debuginfoFileState a.hash status.size ("sha256:" ++ sum) status.mode status.uid
        status.gid))

def layout (a : Appliance) : GuestProgram (Layout Manifest) := do
  let there ← directories false
  if there = false then pure ⟨none, none, none⟩
  else do
    let live ← observe a .live
    let staging ← observe a .staging
    let old ← observe a .old
    pure ⟨live, staging, old⟩

def requireFreeSpaceForVmlinux (size : Int) : GuestProgram Unit := do
  let stats ← statvfs
  match freeBytes stats with
  | .error reason => throw (.implausibleReply reason)
  | .ok free =>
    if free ≥ size + vmlinuxHeadroomBytes then pure ()
    else throw (.tooLittleSpace free size (size + vmlinuxHeadroomBytes))

def uploadTarget (a : Appliance) (target : Manifest) (file : GuestFile) (size : Int) :
    GuestProgram Unit := do
  let _ ← directories true
  requireFreeSpaceForVmlinux size
  upload file
  chmod 0o644 .staging
  chown 0 0 .staging
  let staged ← observe a .staging
  if staged ≠ some target then
    conflict "staged debuginfo does not match the materialized vmlinux"
  else sync

def stage (a : Appliance) (prior : Option Manifest) (target : Manifest) (file : GuestFile)
    (size : Int) : GuestProgram Unit := do
  let seen ← layout a
  if seen.live ≠ prior ∨ seen.old ≠ none then conflict "external-boot debuginfo staging conflict"
  else if seen.staging = some target then pure ()
  else if seen.staging ≠ none then do
    rmRf .staging
    uploadTarget a target file size
  else uploadTarget a target file size

def setAside (prior : Option Manifest) (target : Manifest) (seen : Layout Manifest) :
    GuestProgram (Layout Manifest) :=
  if prior ≠ none ∧ seen = ⟨prior, some target, none⟩ then do
    mv .live .old
    pure ⟨none, some target, prior⟩
  else pure seen

def checkPublished (a : Appliance) (prior : Option Manifest) (target : Manifest) :
    GuestProgram Unit := do
  let seen ← layout a
  if seen ≠ ⟨some target, none, prior⟩ then
    conflict "external-boot debuginfo publication did not complete"
  else pure ()

def publish (a : Appliance) (prior : Option Manifest) (target : Manifest) : GuestProgram Unit := do
  let seen ← layout a
  let seen ← setAside prior target seen
  if seen = ⟨none, some target, prior⟩ then do
    mv .staging .live
    sync
    checkPublished a prior target
  else if seen ≠ ⟨some target, none, prior⟩ then
    conflict "external-boot debuginfo publication conflict"
  else checkPublished a prior target

def putBack (prior : Option Manifest) (target : Manifest) (seen : Layout Manifest) :
    GuestProgram (Layout Manifest) :=
  if seen = ⟨some target, none, prior⟩ ∨ seen = ⟨none, some target, prior⟩ then
    if prior ≠ none then do
      mv .old .live
      pure ⟨prior, seen.staging, none⟩
    else if seen.live ≠ none then do
      rmRf .live
      pure ⟨prior, seen.staging, none⟩
    else pure ⟨prior, seen.staging, none⟩
  else pure seen

def checkRestored (a : Appliance) (prior : Option Manifest) : GuestProgram Unit := do
  sync
  let seen ← layout a
  if seen ≠ ⟨prior, none, none⟩ then conflict "external-boot debuginfo recovery did not complete"
  else pure ()

def restore (a : Appliance) (prior : Option Manifest) (target : Manifest) : GuestProgram Unit := do
  let seen ← layout a
  if seen = ⟨prior, none, none⟩ then pure ()
  else do
    let seen ← putBack prior target seen
    if seen.live ≠ prior ∨ seen.old ≠ none then conflict "external-boot debuginfo recovery conflict"
    else if seen.staging ≠ none then do
      rmRf .staging
      checkRestored a prior
    else checkRestored a prior

end Calls

section Reading

variable {a : Appliance} {g : Guest} {Inv : Guest → Prop}

def fileState (a : Appliance) (f : GuestFile) : Manifest :=
  debuginfoFileState a.hash f.content.length ("sha256:" ++ a.hash f.content) f.mode f.uid f.gid

def manifests (a : Appliance) (l : Layout GuestFile) : Layout Manifest :=
  ⟨l.live.map (fileState a), l.staging.map (fileState a), l.old.map (fileState a)⟩

structure Placed (g : Guest) : Prop where
  depth : g.directories ≤ 4
  files : g.directories < 4 → g.files = ⟨none, none, none⟩

theorem keeps_step {step : GuestStep} (holds : Inv g)
    (stays : ∀ reached, Inv (leaves a g step reached)) :
    Keeps (guestDevice a) Inv
      (fun answer t => (serveGuest a g step).1 = some answer ∧ t = (serveGuest a g step).2)
      (doStep step) g := by
  refine keeps_demand holds ?_ ?_
  · intro fate
    cases fate with
    | none => exact stays .whole
    | some reached => exact stays reached
  · intro fate answer answered
    cases fate with
    | none => exact ⟨answered, rfl⟩
    | some reached => cases answered

theorem keeps_read {step : GuestStep} (holds : Inv g)
    (reads : ∀ reached, leaves a g step reached = g) :
    Keeps (guestDevice a) Inv (fun answer t => (serveGuest a g step).1 = some answer ∧ g = t)
      (doStep step) g := by
  refine (keeps_step holds (fun reached => by rw [reads reached]; exact holds)).imp ?_
  rintro answer _ ⟨answered, rfl⟩
  exact ⟨answered, (reads .whole).symm⟩

theorem leaves_exists (path : Path) (reached : Reached) :
    leaves a g (.exists path) reached = g := by
  cases path <;> cases reached <;> rfl

theorem keeps_observe (holds : Inv g) (name : Name) :
    Keeps (guestDevice a) Inv
      (fun seen t => seen = (g.files.get name).map (fileState a) ∧ g = t) (observe a name) g := by
  have reads : ∀ step, step = .isSymlink name ∨ step = .lstatns name ∨ step = .checksum name →
      ∀ reached, leaves a g step reached = g := by
    rintro step (rfl | rfl | rfl) reached <;> cases reached <;> rfl
  refine (keeps_read holds (reads _ (.inl rfl))).bind ?_
  rintro symlink _ _ ⟨answered, rfl⟩
  obtain rfl : false = symlink := Option.some.inj answered
  refine (keeps_read holds (leaves_exists _)).bind ?_
  rintro there _ _ ⟨answered, rfl⟩
  obtain rfl : (g.files.get name).isSome = there := Option.some.inj answered
  cases found : g.files.get name with
  | none => exact keeps_pure holds ⟨rfl, rfl⟩
  | some file =>
    refine (keeps_read holds (reads _ (.inr (.inl rfl)))).bind ?_
    rintro status _ _ ⟨answered, rfl⟩
    refine (keeps_read holds (reads _ (.inr (.inr rfl)))).bind ?_
    rintro sum _ _ ⟨answered', rfl⟩
    have status : (⟨file.content.length, file.mode, file.uid, file.gid⟩ : Status) = status := by
      simp only [serveGuest, found] at answered
      exact Option.some.inj answered
    have sum : a.hash file.content = sum := by
      simp only [serveGuest, found] at answered'
      exact Option.some.inj answered'
    subst status sum
    exact keeps_pure holds ⟨rfl, rfl⟩

theorem keeps_directories_false (holds : Inv g) (walk : List (Nat × Bool)) :
    Keeps (guestDevice a) Inv
      (fun there t => there = walk.all (fun step => step.1 < g.directories) ∧ g = t)
      (directoriesFrom false walk) g := by
  induction walk with
  | nil => exact keeps_pure holds ⟨rfl, rfl⟩
  | cons step rest ih =>
    obtain ⟨depth, follow⟩ := step
    refine (keeps_read holds (leaves_exists _)).bind ?_
    rintro there _ _ ⟨answered, rfl⟩
    obtain rfl : decide (depth < g.directories) = there := Option.some.inj answered
    by_cases deep : depth < g.directories
    · simp only [deep, decide_true, Bool.true_eq_false, if_false]
      refine (keeps_read holds (fun reached => by cases reached <;> rfl)).bind ?_
      rintro directory _ _ ⟨answered, rfl⟩
      obtain rfl : decide (depth < g.directories) = directory := Option.some.inj answered
      simp only [deep, decide_true, Bool.true_eq_false, if_false]
      refine ih.imp ?_
      rintro there _ ⟨rfl, rfl⟩
      simp [deep]
    · simp only [deep, decide_false, if_true]
      exact keeps_pure holds (by simp [deep])

theorem keeps_layout (holds : Inv g) (placed : Placed g) :
    Keeps (guestDevice a) Inv (fun seen t => seen = manifests a g.files ∧ g = t) (layout a) g := by
  refine (keeps_directories_false holds _).bind ?_
  rintro there _ _ ⟨rfl, rfl⟩
  split
  · rename_i missing
    have shallow : g.directories < 4 := by
      by_contra deep
      have full : g.directories = 4 := by have := placed.depth; omega
      simp [full] at missing
    refine keeps_pure holds ⟨?_, rfl⟩
    rw [placed.files shallow]
    rfl
  · refine (keeps_observe holds .live).bind ?_
    rintro _ _ _ ⟨rfl, rfl⟩
    refine (keeps_observe holds .staging).bind ?_
    rintro _ _ _ ⟨rfl, rfl⟩
    refine (keeps_observe holds .old).bind ?_
    rintro _ _ _ ⟨rfl, rfl⟩
    exact keeps_pure holds ⟨rfl, rfl⟩

end Reading

section Keeping

variable {a : Appliance} {g : Guest} {prior : Option GuestFile} {target : Manifest}

def Kept (a : Appliance) (prior : Option GuestFile) (target : Manifest) (l : Layout GuestFile) :
    Prop :=
  (l.live = prior ∧ l.old = none) ∨
    (l.live = none ∧ l.staging.map (fileState a) = some target ∧ l.old = prior) ∨
    (l.live.map (fileState a) = some target ∧ l.staging = none ∧ l.old = prior)

structure Held (a : Appliance) (prior : Option GuestFile) (target : Manifest) (g : Guest) : Prop
    extends Placed g where
  kept : Kept a prior target g.files

abbrev Holding (a : Appliance) (prior : Option GuestFile) (target : Manifest)
    (p : GuestProgram Unit) (g : Guest) : Prop :=
  Keeps (guestDevice a) (Held a prior target) (fun _ _ => True) p g

def Live (prior : Option GuestFile) (l : Layout GuestFile) : Prop := l.live = prior ∧ l.old = none

theorem Held.staged {file : Option GuestFile} (held : Held a prior target g)
    (deep : g.directories = 4) (live : Live prior g.files) :
    Held a prior target { g with files := g.files.set .staging file } := by
  refine ⟨⟨held.depth, ?_⟩, .inl live⟩
  intro shallow
  exact absurd shallow (by simp [deep])

/-- A layout with the prior digest live and nothing aside has the prior file itself there. -/
theorem Kept.live {l : Layout GuestFile} (kept : Kept a prior target l)
    (same : l.live.map (fileState a) = prior.map (fileState a)) (free : l.old = none) :
    Live prior l := by
  rcases kept with live | ⟨live, -, old⟩ | ⟨live, -, old⟩
  · exact live
  · exact ⟨by rw [live, ← old, free], free⟩
  · rw [free] at old
    rw [live, ← old] at same
    cases same

theorem keeps_sync (held : Held a prior target g) :
    Holding a prior target sync g := by
  refine (@keeps_read a g _ .sync held ?_).imp (fun _ _ _ => trivial)
  intro reached
  cases reached <;> rfl

theorem Held.deeper {n : Nat} (held : Held a prior target g) (more : g.directories ≤ n)
    (bounded : n ≤ 4) : Held a prior target { g with directories := n } :=
  ⟨⟨bounded, fun shallow => held.files (Nat.lt_of_le_of_lt more shallow)⟩, held.kept⟩

theorem keeps_directories_true {walk : List (Nat × Bool)} {k : Nat}
    (held : Held a prior target g) (order : walk.map Prod.fst = List.range' k walk.length)
    (last : k + walk.length = 4) (reached : k ≤ g.directories) :
    Keeps (guestDevice a) (Held a prior target) (fun _ t => t = { g with directories := 4 })
      (directoriesFrom true walk) g := by
  induction walk generalizing k g with
  | nil =>
    have full : g.directories = 4 := by
      have := held.depth
      simp only [List.length_nil] at last
      omega
    refine keeps_pure held ?_
    rw [← full]
  | cons step rest ih =>
    obtain ⟨depth, follow⟩ := step
    simp only [List.map_cons, List.length_cons, List.range'_succ, List.cons.injEq] at order
    obtain ⟨rfl, order⟩ := order
    have last' : depth + 1 + rest.length = 4 := by
      simp only [List.length_cons] at last
      omega
    refine (keeps_read held (leaves_exists _)).bind ?_
    rintro there _ _ ⟨answered, rfl⟩
    obtain rfl : decide (depth < g.directories) = there := Option.some.inj answered
    by_cases deep : depth < g.directories
    · simp only [deep, decide_true, Bool.true_eq_false, if_false]
      refine (keeps_read held (fun reached => by cases reached <;> rfl)).bind ?_
      rintro directory _ _ ⟨answered, rfl⟩
      obtain rfl : decide (depth < g.directories) = directory := Option.some.inj answered
      simp only [deep, decide_true, Bool.true_eq_false, if_false]
      exact ih held order last' deep
    · have here : depth = g.directories := by omega
      have made : serveGuest a g (.mkdir depth) = (some (), { g with directories := depth + 1 }) :=
        if_pos here
      have held' : Held a prior target { g with directories := depth + 1 } :=
        held.deeper (by omega) (by omega)
      simp only [deep, decide_false, if_true]
      refine (keeps_step held ?_).bind ?_
      · intro reached
        cases reached with
        | whole =>
          rw [leaves, made]
          exact held'
        | nothing | part => exact held
      · rintro _ _ _ ⟨-, rfl⟩
        rw [made]
        exact ih held' order last' (Nat.le_refl _)

theorem keeps_requireFreeSpace (held : Held a prior target g) (size : Int) :
    Keeps (guestDevice a) (Held a prior target) (fun _ t => g = t)
      (requireFreeSpaceForVmlinux size) g := by
  refine (keeps_read held (fun reached => by cases reached <;> rfl)).bind ?_
  rintro stats _ _ ⟨-, rfl⟩
  split
  · exact keeps_throw held
  · split
    · exact keeps_pure held rfl
    · exact keeps_throw held

theorem keeps_staging {step : GuestStep} (held : Held a prior target g)
    (deep : g.directories = 4) (live : Live prior g.files)
    (writes : ∀ reached, ∃ file, leaves a g step reached =
      { g with files := g.files.set .staging file }) :
    Keeps (guestDevice a) (Held a prior target)
      (fun _ t => t.directories = 4 ∧ Live prior t.files) (doStep step) g := by
  refine (keeps_step held ?_).imp ?_
  · intro reached
    obtain ⟨file, same⟩ := writes reached
    rw [same]
    exact held.staged deep live
  · rintro _ _ ⟨-, rfl⟩
    obtain ⟨file, same⟩ := writes .whole
    change (leaves a g step .whole).directories = 4 ∧ Live prior (leaves a g step .whole).files
    rw [same]
    exact ⟨deep, live⟩

theorem set_staging_self (g : Guest) :
    g = { g with files := g.files.set .staging g.files.staging } := rfl

theorem writes_chmod (mode : Nat) (reached : Reached) :
    ∃ file, leaves a g (.chmod mode .staging) reached =
      { g with files := g.files.set .staging file } := by
  cases reached with
  | nothing | part => exact ⟨_, set_staging_self g⟩
  | whole =>
    rw [leaves, serveGuest]
    split
    · exact ⟨_, rfl⟩
    · exact ⟨_, set_staging_self g⟩

theorem writes_chown (uid gid : Nat) (reached : Reached) :
    ∃ file, leaves a g (.chown uid gid .staging) reached =
      { g with files := g.files.set .staging file } := by
  cases reached with
  | nothing | part => exact ⟨_, set_staging_self g⟩
  | whole =>
    rw [leaves, serveGuest]
    split
    · exact ⟨_, rfl⟩
    · exact ⟨_, set_staging_self g⟩

theorem keeps_uploadTarget (held : Held a prior target g) (live : Live prior g.files)
    (file : GuestFile) (size : Int) :
    Holding a prior target (uploadTarget a target file size) g := by
  refine (keeps_directories_true held rfl rfl (Nat.zero_le _)).bind ?_
  rintro _ _ held rfl
  refine (keeps_requireFreeSpace held size).bind ?_
  rintro _ _ _ rfl
  refine (keeps_staging held rfl live ?_).bind ?_
  · intro reached
    cases reached with
    | nothing => exact ⟨_, set_staging_self _⟩
    | whole => exact ⟨some file, rfl⟩
    | part file => exact ⟨some file, rfl⟩
  rintro _ g₁ held₁ ⟨deep₁, live₁⟩
  refine (keeps_staging held₁ deep₁ live₁ (writes_chmod _)).bind ?_
  rintro _ g₂ held₂ ⟨deep₂, live₂⟩
  refine (keeps_staging held₂ deep₂ live₂ (writes_chown _ _)).bind ?_
  rintro _ g₃ held₃ _
  refine (keeps_observe held₃ .staging).bind ?_
  rintro _ _ _ ⟨rfl, rfl⟩
  split
  · exact keeps_throw held₃
  · exact keeps_sync held₃

theorem keeps_rmRf {name : Name} (held : Held a prior target g)
    (kept : Kept a prior target (g.files.set name none)) :
    Keeps (guestDevice a) (Held a prior target)
      (fun _ t => t = { g with files := g.files.set name none }) (rmRf name) g := by
  have held' : Held a prior target { g with files := g.files.set name none } := by
    refine ⟨⟨held.depth, ?_⟩, kept⟩
    intro shallow
    change g.files.set name none = _
    rw [held.files shallow]
    cases name <;> rfl
  refine (@keeps_step a g _ (.rmRf name) held ?_).imp ?_
  · intro reached
    cases reached with
    | nothing | part => exact held
    | whole => exact held'
  · rintro _ _ ⟨-, rfl⟩
    rfl

theorem keeps_stage (held : Held a prior target g) (file : GuestFile) (size : Int) :
    Holding a prior target (stage a (prior.map (fileState a)) target file size) g := by
  refine (keeps_layout held held.toPlaced).bind ?_
  rintro _ _ _ ⟨rfl, rfl⟩
  split
  · exact keeps_throw held
  rename_i settled
  simp only [not_or, not_not] at settled
  -- a published or set-aside file differs from the layout that staging wants
  have live : Live prior g.files := held.kept.live settled.1 (by simpa [manifests] using settled.2)
  split
  · exact keeps_pure held trivial
  split
  · have kept : Kept a prior target (g.files.set .staging none) := .inl live
    refine (keeps_rmRf held kept).bind ?_
    rintro _ _ held₁ rfl
    exact keeps_uploadTarget held₁ live file size
  · exact keeps_uploadTarget held live file size

theorem keeps_mv {source destination : Name} (held : Held a prior target g)
    (found : (g.files.get source).isSome)
    (kept : Kept a prior target (g.files.rename source destination)) :
    Keeps (guestDevice a) (Held a prior target)
      (fun _ t => t = { g with files := g.files.rename source destination })
      (mv source destination) g := by
  have deep : ¬ g.directories < 4 := by
    intro shallow
    rw [held.files shallow] at found
    cases source <;> cases found
  have moved : serveGuest a g (.mv source destination) =
      (some (), { g with files := g.files.rename source destination }) := if_pos found
  refine (@keeps_step a g _ (.mv source destination) held ?_).imp ?_
  · intro reached
    cases reached with
    | nothing | part => exact held
    | whole =>
      rw [leaves, moved]
      exact ⟨⟨held.depth, fun shallow => absurd shallow deep⟩, kept⟩
  · rintro _ _ ⟨-, rfl⟩
    rw [moved]

theorem Kept.aside {l : Layout GuestFile} (kept : Kept a prior target l) (free : l.live = none) :
    l.old = prior := by
  rcases kept with ⟨live, old⟩ | ⟨-, -, old⟩ | ⟨live, -, -⟩
  · rw [old, ← live, free]
  · exact old
  · rw [free] at live
    cases live

abbrev Knowing (a : Appliance) (prior : Option GuestFile) (target : Manifest)
    (p : GuestProgram (Layout Manifest)) (g : Guest) : Prop :=
  Keeps (guestDevice a) (Held a prior target) (fun seen t => seen = manifests a t.files) p g

theorem isSome_of_map_ne_none {file : Option GuestFile}
    (there : file.map (fileState a) ≠ none) : file.isSome := by
  cases file with
  | none => exact absurd rfl there
  | some file => rfl

theorem keeps_setAside (held : Held a prior target g) :
    Knowing a prior target (setAside (prior.map (fileState a)) target (manifests a g.files)) g := by
  rw [setAside]
  split
  · rename_i staged
    obtain ⟨there, seen⟩ := staged
    obtain ⟨live, staging, old⟩ := Layout.ext_iff.mp seen
    obtain ⟨live, -⟩ := held.kept.live live (by simpa [manifests] using old)
    have found : (g.files.get .live).isSome := by
      rw [Layout.get, live]
      exact isSome_of_map_ne_none there
    have kept : Kept a prior target (g.files.rename .live .old) := .inr (.inl ⟨rfl, staging, live⟩)
    refine (keeps_mv held found kept).bind ?_
    rintro _ _ held' rfl
    refine keeps_pure held' (Layout.ext rfl staging.symm ?_)
    rw [← live]
    rfl
  · exact keeps_pure held rfl

theorem keeps_checkPublished (held : Held a prior target g) (expected : Option Manifest) :
    Holding a prior target (checkPublished a expected target) g := by
  refine (keeps_layout held held.toPlaced).bind ?_
  rintro _ _ _ ⟨rfl, rfl⟩
  split
  · exact keeps_throw held
  · exact keeps_pure held trivial

theorem keeps_publish (held : Held a prior target g) :
    Holding a prior target (publish a (prior.map (fileState a)) target) g := by
  refine (keeps_layout held held.toPlaced).bind ?_
  rintro _ _ _ ⟨rfl, rfl⟩
  refine (keeps_setAside held).bind ?_
  rintro _ g held rfl
  split
  · rename_i seen
    obtain ⟨live, staging, -⟩ := Layout.ext_iff.mp seen
    have free : g.files.live = none := by simpa [manifests] using live
    have found : (g.files.get .staging).isSome :=
      isSome_of_map_ne_none (fun none => absurd (none.symm.trans staging) nofun)
    have kept : Kept a prior target (g.files.rename .staging .live) :=
      .inr (.inr ⟨staging, rfl, held.kept.aside free⟩)
    refine (keeps_mv held found kept).bind ?_
    rintro _ _ held' rfl
    refine (keeps_sync held').bind ?_
    intro _ g'' held'' _
    exact keeps_checkPublished held'' _
  · split
    · exact keeps_throw held
    · exact keeps_checkPublished held _

theorem Kept.published {l : Layout GuestFile} (kept : Kept a prior target l)
    (seen : manifests a l = ⟨some target, none, prior.map (fileState a)⟩ ∨
      manifests a l = ⟨none, some target, prior.map (fileState a)⟩) : l.old = prior := by
  have old : l.old.map (fileState a) = prior.map (fileState a) := by
    rcases seen with seen | seen <;> exact (Layout.ext_iff.mp seen).2.2
  rcases kept with ⟨live, free⟩ | ⟨-, -, old⟩ | ⟨-, -, old⟩
  · rw [free] at old
    cases prior with
    | none => exact free
    | some file => cases old
  · exact old
  · exact old

theorem keeps_putBack (held : Held a prior target g) :
    Knowing a prior target (putBack (prior.map (fileState a)) target (manifests a g.files)) g := by
  rw [putBack]
  split
  · rename_i seen
    have old := held.kept.published seen
    split
    · rename_i there
      have found : (g.files.get .old).isSome := by
        rw [Layout.get, old]
        exact isSome_of_map_ne_none there
      have kept : Kept a prior target (g.files.rename .old .live) := .inl ⟨old, rfl⟩
      refine (keeps_mv held found kept).bind ?_
      rintro _ _ held' rfl
      refine keeps_pure held' ?_
      rw [← old]
      rfl
    · rename_i absent
      obtain rfl : prior = none := by simpa using absent
      split
      · have kept : Kept a none target (g.files.set .live none) := .inl ⟨rfl, old⟩
        refine (keeps_rmRf held kept).bind ?_
        rintro _ _ held' rfl
        refine keeps_pure held' ?_
        exact Layout.ext rfl rfl (congrArg (Option.map (fileState a)) old).symm
      · rename_i free
        refine keeps_pure held (Layout.ext ?_ rfl (congrArg (Option.map (fileState a)) old).symm)
        exact (not_not.mp free).symm
  · exact keeps_pure held rfl

theorem keeps_checkRestored (held : Held a prior target g) (expected : Option Manifest) :
    Holding a prior target (checkRestored a expected) g := by
  refine (keeps_sync held).bind ?_
  intro _ g held _
  refine (keeps_layout held held.toPlaced).bind ?_
  rintro _ _ _ ⟨rfl, rfl⟩
  split
  · exact keeps_throw held
  · exact keeps_pure held trivial

theorem keeps_restore (held : Held a prior target g) :
    Holding a prior target (restore a (prior.map (fileState a)) target) g := by
  refine (keeps_layout held held.toPlaced).bind ?_
  rintro _ _ _ ⟨rfl, rfl⟩
  split
  · exact keeps_pure held trivial
  refine (keeps_putBack held).bind ?_
  rintro _ g held rfl
  split
  · exact keeps_throw held
  rename_i settled
  simp only [not_or, not_not] at settled
  have live : Live prior g.files := held.kept.live settled.1 (by simpa [manifests] using settled.2)
  split
  · have kept : Kept a prior target (g.files.set .staging none) := .inl live
    refine (keeps_rmRf held kept).bind ?_
    intro _ g held _
    exact keeps_checkRestored held _
  · exact keeps_checkRestored held _

end Keeping

section Restoring

variable {a : Appliance} {g : Guest} {prior : Option GuestFile} {target : Manifest}

theorem run_doStep {step : GuestStep} {answer : StepAnswer step} {t : Guest}
    (served : serveGuest a g step = (some answer, t)) :
    run (guestDevice a) (doStep step) g = (.ok answer, t) := run_demand served

theorem run_observe (name : Name) :
    run (guestDevice a) (observe a name) g = (.ok ((g.files.get name).map (fileState a)), g) := by
  have symlink : run (guestDevice a) (isSymlink name) g = (.ok false, g) := run_doStep rfl
  have there : run (guestDevice a) (pathExists (.name name)) g =
      (.ok (g.files.get name).isSome, g) := run_doStep rfl
  rw [observe, run_bind, symlink, andThen_ok]
  rw [if_neg nofun, run_bind, there, andThen_ok]
  cases found : g.files.get name with
  | none => rfl
  | some file =>
    have status : run (guestDevice a) (lstatns name) g =
        (.ok ⟨file.content.length, file.mode, file.uid, file.gid⟩, g) := by
      refine run_doStep ?_
      simp only [serveGuest, found]
      rfl
    have sum : run (guestDevice a) (checksum name) g = (.ok (a.hash file.content), g) := by
      refine run_doStep ?_
      simp only [serveGuest, found]
      rfl
    rw [if_neg nofun, run_bind, status, andThen_ok, run_bind, sum, andThen_ok]
    rfl

theorem run_directories (walk : List (Nat × Bool)) :
    run (guestDevice a) (directoriesFrom false walk) g =
      (.ok (walk.all (fun step => step.1 < g.directories)), g) := by
  induction walk with
  | nil => rfl
  | cons step rest ih =>
    obtain ⟨depth, follow⟩ := step
    have there : run (guestDevice a) (pathExists (.directory depth)) g =
        (.ok (decide (depth < g.directories)), g) := run_doStep rfl
    have directory : run (guestDevice a) (isDirectory depth follow) g =
        (.ok (decide (depth < g.directories)), g) := run_doStep rfl
    rw [directoriesFrom, run_bind, there, andThen_ok]
    by_cases deep : depth < g.directories
    · simp only [deep, decide_true, Bool.true_eq_false, if_false]
      rw [run_bind, directory, andThen_ok]
      simp only [deep, decide_true, Bool.true_eq_false, if_false]
      rw [ih]
      simp [deep]
    · simp [deep]

theorem run_layout (placed : Placed g) :
    run (guestDevice a) (layout a) g = (.ok (manifests a g.files), g) := by
  rw [layout, directories, run_bind, run_directories, andThen_ok]
  split
  · rename_i missing
    have shallow : g.directories < 4 := by
      by_contra deep
      have full : g.directories = 4 := by have := placed.depth; omega
      simp [full] at missing
    rw [placed.files shallow]
    rfl
  · simp only [run_bind, run_observe, andThen_ok, run_pure]
    rfl

theorem run_rmRf (name : Name) : run (guestDevice a) (rmRf name) g =
    (.ok (), { g with files := g.files.set name none }) := run_doStep rfl

theorem run_mv {source destination : Name} (found : (g.files.get source).isSome) :
    run (guestDevice a) (mv source destination) g =
      (.ok (), { g with files := g.files.rename source destination }) :=
  run_doStep (if_pos found)

theorem Placed.of_some {name : Name} (placed : Placed g) (found : (g.files.get name).isSome) :
    g.directories = 4 := by
  by_contra shallow
  have empty := placed.files (by have := placed.depth; omega)
  rw [empty] at found
  cases name <;> cases found

/-- With nothing going wrong the prior file is live again, whatever is staged. -/
theorem run_putBack (held : Held a prior target g) :
    ∃ l : Layout GuestFile, Live prior l ∧ Placed { g with files := l } ∧
      run (guestDevice a) (putBack (prior.map (fileState a)) target (manifests a g.files)) g =
        (.ok (manifests a l), { g with files := l }) := by
  rw [putBack]
  split
  · rename_i seen
    have old := held.kept.published seen
    split
    · rename_i there
      have found : (g.files.get .old).isSome := by
        rw [Layout.get, old]
        exact isSome_of_map_ne_none there
      refine ⟨g.files.rename .old .live, ⟨old, rfl⟩, ⟨held.depth, ?_⟩, ?_⟩
      · intro shallow
        exact absurd shallow (by simp [held.of_some found])
      · rw [run_bind, run_mv found, andThen_ok, ← old]
        rfl
    · rename_i absent
      obtain rfl : prior = none := by simpa using absent
      split
      · refine ⟨g.files.set .live none, ⟨rfl, old⟩, ⟨held.depth, ?_⟩, ?_⟩
        · intro shallow
          change g.files.set .live none = _
          rw [held.files shallow]
          rfl
        · have removed : (⟨none, (manifests a g.files).staging, none⟩ : Layout Manifest) =
              manifests a (g.files.set .live none) :=
            Layout.ext rfl rfl (congrArg (Option.map (fileState a)) old).symm
          rw [run_bind, run_rmRf, andThen_ok, run_pure, Option.map_none, removed]
      · rename_i free
        have free : g.files.live = none := by simpa [manifests] using free
        refine ⟨g.files, ⟨free, old⟩, held.toPlaced, ?_⟩
        have same : (⟨none, (manifests a g.files).staging, none⟩ : Layout Manifest) =
            manifests a g.files :=
          Layout.ext (congrArg (Option.map (fileState a)) free).symm rfl
            (congrArg (Option.map (fileState a)) old).symm
        rw [run_pure, Option.map_none, same]
  · rename_i unpublished
    refine ⟨g.files, ?_, held.toPlaced, rfl⟩
    rcases held.kept with live | ⟨live, staging, old⟩ | ⟨live, staging, old⟩
    · exact live
    · refine absurd (.inr (Layout.ext ?_ staging ?_)) unpublished <;> simp [manifests, live, old]
    · refine absurd (.inl (Layout.ext live ?_ ?_)) unpublished <;> simp [manifests, staging, old]

theorem run_checkRestored (placed : Placed g) (restored : g.files = ⟨prior, none, none⟩) :
    run (guestDevice a) (checkRestored a (prior.map (fileState a))) g = (.ok (), g) := by
  have synced : run (guestDevice a) sync g = (.ok (), g) := run_doStep rfl
  have seen : manifests a g.files = ⟨prior.map (fileState a), none, none⟩ := by
    rw [restored]
    rfl
  rw [checkRestored, run_bind, synced, andThen_ok, run_bind, run_layout placed, andThen_ok, seen]
  simp

theorem run_restore (held : Held a prior target g) :
    run (guestDevice a) (restore a (prior.map (fileState a)) target) g =
      (.ok (), { g with files := ⟨prior, none, none⟩ }) := by
  rw [restore, run_bind, run_layout held.toPlaced, andThen_ok]
  split
  · rename_i seen
    obtain ⟨live, staging, old⟩ := Layout.ext_iff.mp seen
    have free : g.files.old = none := by simpa [manifests] using old
    have bare : g.files.staging = none := by simpa [manifests] using staging
    have same : g.files = ⟨prior, none, none⟩ :=
      Layout.ext (held.kept.live live free).1 bare free
    rw [run_pure, ← same]
  · obtain ⟨l, live, placed, back⟩ := run_putBack held
    rw [run_bind, back, andThen_ok]
    have settled : ¬((manifests a l).live ≠ prior.map (fileState a) ∨ (manifests a l).old ≠ none) := by
      simp [manifests, live.1, live.2]
    rw [if_neg settled]
    have cleared : l.set .staging none = ⟨prior, none, none⟩ := by
      rw [← live.1, ← live.2]
      rfl
    split
    · have placed' : Placed { g with files := l.set .staging none } := by
        refine ⟨held.depth, fun shallow => ?_⟩
        have empty : l = ⟨none, none, none⟩ := placed.files shallow
        change l.set .staging none = _
        rw [empty]
        rfl
      rw [run_bind, run_rmRf, andThen_ok]
      change run (guestDevice a) _ { g with files := l.set .staging none } = _
      rw [run_checkRestored placed' cleared, cleared]
    · rename_i bare
      have bare : l.staging = none := by simpa [manifests] using bare
      have same : l = ⟨prior, none, none⟩ := Layout.ext live.1 bare live.2
      rw [run_checkRestored placed same, same]

end Restoring

section Attempts

inductive Call where
  | stage (file : GuestFile) (size : Int)
  | publish
  | restore

def Call.program (a : Appliance) (prior : Option Manifest) (target : Manifest) :
    Call → GuestProgram Unit
  | .stage file size => GuestDebuginfoFile.stage a prior target file size
  | .publish => GuestDebuginfoFile.publish a prior target
  | .restore => GuestDebuginfoFile.restore a prior target

abbrev Attempt := Call × List (Option Reached)

/-- The guest before the first call: no file, with some of the directories, or the prior file. -/
inductive Start where
  | absent (directories : Fin 5)
  | present (file : GuestFile)

def Start.file : Start → Option GuestFile
  | .absent _ => none
  | .present file => some file

def Start.guest : Start → Guest
  | .absent directories => ⟨directories, ⟨none, none, none⟩⟩
  | .present file => ⟨4, ⟨some file, none, none⟩⟩

def attempted (a : Appliance) (start : Start) (target : Manifest) (attempts : List Attempt) : Guest :=
  Trace.run (fun g attempt => crash (guestDevice a) attempt.2
    (attempt.1.program a (start.file.map (fileState a)) target) g) start.guest attempts

theorem held_start (a : Appliance) (start : Start) (target : Manifest) :
    Held a start.file target start.guest := by
  cases start with
  | absent directories =>
    exact ⟨⟨Nat.le_of_lt_succ directories.isLt, fun _ => rfl⟩, .inl ⟨rfl, rfl⟩⟩
  | present file => exact ⟨⟨Nat.le_refl 4, fun shallow => absurd shallow (Nat.lt_irrefl 4)⟩,
      .inl ⟨rfl, rfl⟩⟩

theorem held_attempted (a : Appliance) (start : Start) (target : Manifest)
    (attempts : List Attempt) : Held a start.file target (attempted a start target attempts) := by
  refine Trace.invariant_along (Q := fun _ _ => True) ?_ (held_start a start target)
    (Trace.along_of_forall (fun _ _ => trivial) _ _)
  rintro g ⟨call, fates⟩ held _
  cases call with
  | stage file size => exact (keeps_stage held file size).crash fates
  | publish => exact (keeps_publish held).crash fates
  | restore => exact (keeps_restore held).crash fates

/-- However calls were interrupted, the prior file is under the live or the old name, and a
`restore` that is not interrupted leaves it live and nothing else. -/
theorem interrupted_calls_restored (a : Appliance) (start : Start) (target : Manifest)
    (attempts : List Attempt) :
    (∀ file, start.file = some file →
      (attempted a start target attempts).files.live = some file ∨
        (attempted a start target attempts).files.old = some file) ∧
    run (guestDevice a) (restore a (start.file.map (fileState a)) target)
        (attempted a start target attempts) =
      (.ok (), { attempted a start target attempts with files := ⟨start.file, none, none⟩ }) := by
  have held := held_attempted a start target attempts
  refine ⟨?_, run_restore held⟩
  intro file present
  rcases held.kept with ⟨live, -⟩ | ⟨-, -, old⟩ | ⟨-, -, old⟩
  · exact .inl (live.trans present)
  · exact .inr (old.trans present)
  · exact .inr (old.trans present)

end Attempts

end Kdive.ExternalBoot.GuestDebuginfoFile
