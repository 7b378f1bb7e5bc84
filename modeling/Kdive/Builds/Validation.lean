import Kdive.Lib.Calls
import Kdive.Lib.ObjectStore
import Kdive.Uploads.Versions

/-!
Upload manifests and the validation of what was uploaded: a program that reads the store through the
interface `ValidatorStore`, and the wrapper that fences those reads to the first version observed.
-/
namespace Kdive.Builds
open ObjectStore Uploads

structure ChunkEntry where
  sha256 : String
  sizeBytes : Nat
  deriving DecidableEq

/-- A declared artifact; without `chunks` it is uploaded in a single PUT. -/
structure ManifestEntry where
  name : String
  sha256 : String
  sizeBytes : Nat
  chunks : Option (List ChunkEntry)

inductive BuildError
  | categorized (category : ErrorCategory) (message : String)
  | configuration (reason : String)
  | windowExpired
  | alreadyRecorded
  | runtime (message : String)
  deriving DecidableEq

def buildFailure (message : String) : BuildError := .categorized .buildFailure message

def infrastructureFailure (operation : String) : BuildError :=
  .categorized .infrastructureFailure operation

section Keys

def runOwner (run : Uuid) : Owner := ⟨.runs, run⟩

def artifactKey (run : Uuid) (name : String) : Key := ownerKey (runOwner run) name

def padded (n : Nat) : String :=
  String.ofList (List.replicate (4 - (Nat.toDigits 10 n).length) '0' ++ Nat.toDigits 10 n)

def chunkKey (run : Uuid) (name : String) (partNumber : Nat) : Key :=
  ownerKey (runOwner run) (name ++ ".part" ++ padded partNumber)

def runArtifactNames : List String := ["effective_config", "kernel", "initrd", "vmlinux"]

def hasChunks (entries : List ManifestEntry) : Bool := entries.any (fun e => e.chunks.isSome)

def keyOf (run : Uuid) (entries : List ManifestEntry) (name : String) : Option Key :=
  if name ∈ entries.map (·.name) then some (artifactKey run name) else none

/-- Assignment to a dictionary: a key keeps the place of its first value. -/
def insertKey {κ ν : Type} [DecidableEq κ] (dict : List (κ × ν)) (item : κ × ν) : List (κ × ν) :=
  if dict.any (fun old => decide (old.1 = item.1)) then
    dict.map (fun old => if old.1 = item.1 then item else old)
  else dict ++ [item]

def byName (entries : List ManifestEntry) : List (String × ManifestEntry) :=
  entries.foldl (fun dict e => insertKey dict (e.name, e)) []

theorem ownerKey_injective {o o' : Owner} {name name' : String}
    (same : ownerKey o name = ownerKey o' name') : o = o' ∧ name = name' := by
  have inside : ownerRoot o <+: ownerKey o' name' := by
    rw [← same]
    exact List.prefix_append _ _
  have owners : o = o' := owner_of_root inside
  subst owners
  have last := List.append_cancel_left same
  simp only [List.cons.injEq, Component.text.injEq, and_true] at last
  exact ⟨rfl, last⟩

theorem artifactKey_injective {run run' : Uuid} {name name' : String}
    (same : artifactKey run name = artifactKey run' name') : run = run' ∧ name = name' := by
  obtain ⟨owners, names⟩ := ownerKey_injective same
  exact ⟨congrArg Owner.id owners, names⟩

theorem padded_injective {n m : Nat} (same : padded n = padded m) : n = m := by
  have value (k : Nat) : Nat.ofDigitChars 10 (padded k).toList 0 = k := by
    rw [padded, String.toList_ofList, Nat.ofDigitChars_append]
    rw [Nat.ofDigitChars_replicate_zero, Nat.mul_zero]
    exact Nat.ofDigitChars_ten_toDigits
  rw [← value n, same, value]

theorem chunkKey_injective {run : Uuid} {name : String} {n m : Nat}
    (same : chunkKey run name n = chunkKey run name m) : n = m := by
  obtain ⟨_, names⟩ := ownerKey_injective same
  apply padded_injective
  have chars := congrArg String.toList names
  simp only [String.toList_append] at chars
  exact String.toList_inj.mp (List.append_cancel_left chars)

theorem chunkKey_ne_artifactKey {run run' : Uuid} {name name' : String} {n : Nat}
    (allowed : name' ∈ runArtifactNames) : chunkKey run name n ≠ artifactKey run' name' := by
  intro same
  obtain ⟨_, names⟩ := ownerKey_injective same
  have dotted : '.' ∈ name'.toList := by
    rw [← names, String.toList_append, String.toList_append]
    exact List.mem_append_left _ (List.mem_append_right _ (by decide))
  have plain : ∀ name ∈ runArtifactNames, '.' ∉ name.toList := by decide
  exact plain name' allowed dotted

end Keys

section Dictionaries

variable {κ ν : Type} [DecidableEq κ]

theorem mem_insertKey {dict : List (κ × ν)} {item old : κ × ν} (found : old ∈ insertKey dict item) :
    old = item ∨ (old ∈ dict ∧ old.1 ≠ item.1) := by
  rw [insertKey] at found
  split at found
  · obtain ⟨before, isOld, same⟩ := List.mem_map.mp found
    split at same
    · exact .inl same.symm
    · subst same
      exact .inr ⟨isOld, ‹_›⟩
  · rename_i absent
    rcases List.mem_append.mp found with isOld | new
    · refine .inr ⟨isOld, ?_⟩
      intro same
      exact absent (List.any_eq_true.mpr ⟨old, isOld, decide_eq_true same⟩)
    · exact .inl (List.mem_singleton.mp new)

theorem mem_foldl_insertKey {items dict : List (κ × ν)} {old : κ × ν}
    (found : old ∈ items.foldl insertKey dict) : old ∈ items ∨ old ∈ dict := by
  induction items generalizing dict with
  | nil => exact .inr found
  | cons item rest ih =>
    rcases ih found with later | now
    · exact .inl (List.mem_cons_of_mem _ later)
    · rcases mem_insertKey now with rfl | ⟨before, _⟩
      · exact .inl List.mem_cons_self
      · exact .inr before

variable {κ ν : Type} [BEq κ] [LawfulBEq κ]

theorem lookup_map {κ' ν' : Type} [BEq κ'] [LawfulBEq κ'] (φ : κ → κ') (ψ : ν → ν')
    (injective : Function.Injective φ) (dict : List (κ × ν)) (key : κ) :
    (dict.map (fun item => (φ item.1, ψ item.2))).lookup (φ key) = (dict.lookup key).map ψ := by
  induction dict with
  | nil => rfl
  | cons item rest ih =>
    obtain ⟨k, v⟩ := item
    rw [List.map_cons, List.lookup_cons, List.lookup_cons, ih]
    by_cases same : key = k
    · subst same
      rw [beq_self_eq_true, beq_self_eq_true]
      rfl
    · have different : φ key ≠ φ k := fun equal => same (injective equal)
      rw [beq_false_of_ne same, beq_false_of_ne different]

theorem lookup_forall₂ {ν' : Type} {P : κ → ν → ν' → Prop} {dict : List (κ × ν)}
    {dict' : List (κ × ν')}
    (related : List.Forall₂ (fun a b => b.1 = a.1 ∧ P a.1 a.2 b.2) dict dict') {key : κ} {v' : ν'}
    (found : dict'.lookup key = some v') : ∃ v, dict.lookup key = some v ∧ P key v v' := by
  induction related with
  | nil => cases found
  | @cons a b dict dict' here rest ih =>
    obtain ⟨same, holds⟩ := here
    rw [List.lookup_cons, same] at found
    rw [List.lookup_cons]
    by_cases isKey : key = a.1
    · rw [isKey, beq_self_eq_true] at found ⊢
      obtain rfl := Option.some.inj found
      exact ⟨a.2, rfl, holds⟩
    · rw [beq_false_of_ne isKey] at found ⊢
      exact ih found

theorem mem_of_lookup {dict : List (κ × ν)} {key : κ} {v : ν} (found : dict.lookup key = some v) :
    (key, v) ∈ dict := by
  obtain ⟨before, after, rfl, _⟩ := List.lookup_eq_some_iff.mp found
  exact List.mem_append_right _ List.mem_cons_self

theorem mapM_forall₂ {α β : Type} {f : α → Option β} :
    ∀ {as : List α} {bs : List β}, as.mapM f = some bs → List.Forall₂ (fun a b => f a = some b) as bs := by
  intro as
  induction as with
  | nil =>
    intro bs mapped
    obtain rfl : [] = bs := Option.some.inj mapped
    exact .nil
  | cons a rest ih =>
    intro bs mapped
    rw [List.mapM_cons] at mapped
    obtain ⟨b, first, mapped⟩ := Option.bind_eq_some_iff.mp mapped
    obtain ⟨others, second, last⟩ := Option.bind_eq_some_iff.mp mapped
    obtain rfl := Option.some.inj last
    exact .cons first (ih second)

end Dictionaries

section Reads

inductive ReadRequest
  | head (key : Key)
  | getRange (key : Key) (start length : Nat) (version : Option Nat)

def ReadRequest.Answer : ReadRequest → Type
  | .head _ => Option (Head String)
  | .getRange _ _ _ _ => Bytes

abbrev Reads := Calls.Program ReadRequest ReadRequest.Answer BuildError

def readHead (key : Key) : Reads (Option (Head String)) :=
  Calls.demand (infrastructureFailure "head_object") (ReadRequest.head key)

def readRange (key : Key) (start length : Nat) : Reads Bytes :=
  Calls.demand (infrastructureFailure "get_object") (ReadRequest.getRange key start length none)

/-- The parsers of the payloads: what they read next depends on what they have read. -/
structure ContentChecks where
  kernelCombinedTar : (arch : String) → Key → (size : Nat) → Reads Unit
  buildId : Key → (maxSize : Nat) → Reads String
  externalBootEvidence : (String → Option Key) → List (String × Head String) →
    (arch buildId : String) → Reads String

def elfMagic : Bytes := [0x7f, 0x45, 0x4c, 0x46]

def bootFormats : List String := ["x86_64", "ppc64le"]

def checkArtifactContent (checks : ContentChecks) (name : String) (key : Key) (size : Nat)
    (arch : String) : Reads Unit :=
  if name = "vmlinux" then do
    let magic ← readRange key 0 4
    if magic = elfMagic then pure () else Calls.throw (buildFailure "vmlinux is not an ELF file")
  else if name = "kernel" then checks.kernelCombinedTar arch key size
  else pure ()

def checkHead (entry : ManifestEntry) (head : Head String) : Except BuildError Unit :=
  match entry.chunks with
  | none =>
    if head.checksum = none then
      .error (buildFailure "uploaded artifact has no stored SHA-256 checksum (the upload bypassed the presigned PUT; a direct put_object must send the x-amz-checksum-sha256 header)")
    else if head.size ≠ entry.sizeBytes ∨ head.checksum ≠ some entry.sha256 then
      .error (buildFailure "uploaded artifact disagrees with its manifest")
    else .ok ()
  | some _ =>
    if head.size ≠ entry.sizeBytes then
      .error (buildFailure "reassembled artifact size disagrees with its manifest")
    else .ok ()

def validateOneArtifact (checks : ContentChecks) (name : String) (entry : ManifestEntry) (key : Key)
    (arch : String) : Reads (Head String) := do
  match ← readHead key with
  | none => Calls.throw (.categorized .configurationError "declared artifact was never uploaded")
  | some head =>
    match checkHead entry head with
    | .error e => Calls.throw e
    | .ok _ => do
      checkArtifactContent checks name key head.size arch
      pure head

def validateAll (checks : ContentChecks) (keys : String → Option Key) (arch : String) :
    List (String × ManifestEntry) → Reads (List (String × Head String))
  | [] => pure []
  | (name, entry) :: rest =>
    match keys name with
    | none => Calls.throw (.categorized .configurationError "declared artifact has no upload key")
    | some key => do
      let head ← validateOneArtifact checks name entry key arch
      let heads ← validateAll checks keys arch rest
      pure ((name, head) :: heads)

structure ValidatedUpload where
  kernelRef : Key
  debuginfoRef : Option Key
  buildId : String
  heads : List (String × Head String)
  externalBootEvidence : String

def checkBuildId (checks : ContentChecks) (entries : List ManifestEntry)
    (keys : String → Option Key) (heads : List (String × Head String)) (declared : Option String) :
    Reads String :=
  if entries.any (fun e => e.name == "vmlinux") then
    match declared, keys "vmlinux", heads.lookup "vmlinux" with
    | some declared, some key, some head =>
      if declared = "" then
        Calls.throw (.categorized .configurationError "a vmlinux upload requires a declared build_id")
      else do
        let found ← checks.buildId key head.size
        if found = declared.toLower then pure found
        else Calls.throw (buildFailure "declared build_id does not match the uploaded vmlinux")
    | _, _, _ =>
      Calls.throw (.categorized .configurationError "a vmlinux upload requires a declared build_id")
  else pure ""

def validateExternalArtifacts (checks : ContentChecks) (manifest : List ManifestEntry)
    (keys : String → Option Key) (declaredBuildId : Option String) (arch : String) :
    Reads ValidatedUpload :=
  if arch ∉ bootFormats then
    Calls.throw (.categorized .configurationError "unsupported build arch")
  else
    match keys "kernel" with
    | none => Calls.throw
        (.categorized .configurationError "external build is missing the required kernel artifact")
    | some kernel => do
      let heads ← validateAll checks keys arch (byName manifest)
      let buildId ← checkBuildId checks manifest keys heads declaredBuildId
      let evidence ← checks.externalBootEvidence keys heads arch buildId
      pure ⟨kernel, keys "vmlinux", buildId, heads, evidence⟩

end Reads

section Observed

variable {Request : Type} {Answer : Request → Type} {σ : Type}

abbrev StoreWrapper (Request : Type) (Answer : Request → Type) (σ : Type) :=
  Calls.Wrapper ReadRequest ReadRequest.Answer Request Answer BuildError σ

def observedVersionStore (inner : StoreWrapper Request Answer σ) :
    StoreWrapper Request Answer ((Key → Option Nat) × σ)
  | (versions, w), .head key => do
    let (answer, w) ← inner w (.head key)
    match answer with
    | some (some head) => pure (answer, Function.update versions key (some head.version), w)
    | _ => pure (answer, versions, w)
  | (versions, w), .getRange key start length _ =>
    match versions key with
    | some version => do
      let (answer, w) ← inner w (.getRange key start length (some version))
      pure (answer, versions, w)
    | none => Calls.throw (.runtime "KeyError")

end Observed

end Kdive.Builds
