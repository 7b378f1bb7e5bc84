import Kdive.Domain
import Mathlib.Data.List.Infix

/-!
Object keys of the upload lane and the exact-version surface of the object store: bounded captures
of a key's history and the order in which a captured batch is deleted.
-/
namespace Kdive.Uploads

inductive OwnerKind
  | runs
  | investigations
  deriving DecidableEq

def OwnerKind.text : OwnerKind → String
  | .runs => "runs"
  | .investigations => "investigations"

@[ext]
structure Owner where
  kind : OwnerKind
  id : Uuid
  deriving DecidableEq

/-- A component of an object key between slashes: an id, or any other text. -/
inductive Component
  | uuid (id : Uuid)
  | text (text : String)
  deriving DecidableEq

abbrev Key := List Component

theorem lawful : LawfulBEq Key := inferInstance

/-- `owner_prefix`. -/
def ownerRoot (o : Owner) : Key := [.text "local", .text o.kind.text, .uuid o.id]

/-- `artifact_key`. -/
def ownerKey (o : Owner) (name : String) : Key := ownerRoot o ++ [.text name]

def ownerKind (text : String) : Option OwnerKind :=
  [OwnerKind.runs, .investigations].find? (fun kind => kind.text == text)

def attributed : Key → Option Owner
  | [.text tenant, .text kind, .uuid id, name] =>
    if tenant = "local" ∧ name ≠ .text "" then (ownerKind kind).map (fun kind => ⟨kind, id⟩) else none
  | _ => none

structure ObjectVersion where
  key : Key
  versionId : Nat
  lastModified : Instant
  isLatest : Bool
  isDeleteMarker : Bool
  deriving DecidableEq

structure VersionPage where
  entries : List ObjectVersion
  isTruncated : Bool
  nextKeyMarker : Option Key

structure VersionBatch where
  key : Key
  targets : List ObjectVersion
  historyComplete : Bool

def captureOrder (complete : Bool) (exact : List ObjectVersion) : List ObjectVersion :=
  if complete then exact
  else exact.filter (·.isLatest) ++ exact.filter (fun entry => !entry.isLatest)

/-- `capture_exact_versions`, with the targets found on the pages read so far. Nothing when the
store fails before the key's history ends. -/
def captureFrom (key : Key) (limit : Nat) : List ObjectVersion → List VersionPage → Option VersionBatch
  | _, [] => none
  | targets, page :: rest =>
    let exact := page.entries.filter (fun entry => entry.key == key)
    let remaining := limit - targets.length
    let more := page.isTruncated && page.nextKeyMarker == some key
    let complete := !(decide (remaining < exact.length) || more)
    let targets := targets ++ (captureOrder complete exact).take remaining
    if targets.length = limit then some ⟨key, targets, complete⟩
    else if more then captureFrom key limit targets rest
    else some ⟨key, targets, true⟩

def captureExactVersions (key : Key) (limit : Nat) (pages : List VersionPage) : Option VersionBatch :=
  captureFrom key limit [] pages

/-- The deletions of `delete_batch` in their order: the latest version goes last, and only when the
history is complete. A batch that mixes keys or names two latest versions is refused. -/
def deletionOrder (batch : VersionBatch) : Option (List ObjectVersion) :=
  let latest := batch.targets.filter (·.isLatest)
  if batch.targets.any (fun target => target.key != batch.key) || decide (1 < latest.length) then none
  else
    some (batch.targets.filter (fun target => !target.isLatest) ++
      if batch.historyComplete then latest else [])

section Owners

theorem ownerKind_text (kind : OwnerKind) : ownerKind kind.text = some kind := by
  cases kind <;> decide

theorem text_injective {a b : OwnerKind} (same : a.text = b.text) : a = b := by
  have found : some a = some b := by rw [← ownerKind_text a, same, ownerKind_text]
  exact Option.some.inj found

theorem owner_of_root {o o' : Owner} {name : String} (inside : ownerRoot o <+: ownerKey o' name) :
    o = o' := by
  obtain ⟨rest, whole⟩ := inside
  simp only [ownerRoot, ownerKey, List.cons_append, List.nil_append, List.cons.injEq,
    Component.text.injEq, Component.uuid.injEq] at whole
  obtain ⟨_, kind, id, _⟩ := whole
  exact Owner.ext (text_injective kind) id

theorem owner_of_attribute {o o' : Owner} {name : String}
    (found : attributed (ownerKey o' name) = some o) : o = o' := by
  simp only [ownerKey, ownerRoot, List.cons_append, List.nil_append, attributed, ownerKind_text,
    Option.map_some] at found
  split at found
  · exact (Option.some.inj found).symm
  · cases found

end Owners

section Batches

theorem mem_of_mem_captureOrder {complete : Bool} {exact : List ObjectVersion}
    {target : ObjectVersion} (found : target ∈ captureOrder complete exact) : target ∈ exact := by
  rw [captureOrder] at found
  split at found
  · exact found
  · rcases List.mem_append.mp found with latest | other
    · exact List.mem_of_mem_filter latest
    · exact List.mem_of_mem_filter other

theorem captureFrom_spec {key : Key} {limit : Nat} : ∀ {pages : List VersionPage}
    {targets : List ObjectVersion} {batch : VersionBatch},
    captureFrom key limit targets pages = some batch → batch.key = key ∧
      ∀ target ∈ batch.targets, target ∈ targets ∨ ∃ page ∈ pages, target ∈ page.entries := by
  intro pages
  induction pages with
  | nil =>
    intro targets batch captured
    cases captured
  | cons page rest ih =>
    intro targets batch captured
    have onPage {complete : Bool} {count : Nat} {target : ObjectVersion}
        (isTarget : target ∈ targets ++
          (captureOrder complete (page.entries.filter (fun e => e.key == key))).take count) :
        target ∈ targets ∨ ∃ other ∈ page :: rest, target ∈ other.entries := by
      rcases List.mem_append.mp isTarget with old | new
      · exact .inl old
      · have exact := mem_of_mem_captureOrder (List.mem_of_mem_take new)
        exact .inr ⟨page, List.mem_cons_self, List.mem_of_mem_filter exact⟩
    rw [captureFrom] at captured
    split at captured
    · obtain rfl := Option.some.inj captured
      exact ⟨rfl, fun target isTarget => onPage isTarget⟩
    · split at captured
      · obtain ⟨same, sources⟩ := ih captured
        refine ⟨same, ?_⟩
        intro target isTarget
        rcases sources target isTarget with old | ⟨other, isPage, here⟩
        · exact onPage old
        · exact .inr ⟨other, List.mem_cons_of_mem page isPage, here⟩
      · obtain rfl := Option.some.inj captured
        exact ⟨rfl, fun target isTarget => onPage isTarget⟩

theorem deletionOrder_spec {batch : VersionBatch} {order : List ObjectVersion}
    (ordered : deletionOrder batch = some order) :
    ∀ target ∈ order, target ∈ batch.targets ∧ target.key = batch.key := by
  intro target isDeleted
  rw [deletionOrder] at ordered
  split at ordered
  · cases ordered
  · rename_i proper
    obtain rfl := Option.some.inj ordered
    have isTarget : target ∈ batch.targets := by
      rcases List.mem_append.mp isDeleted with older | last
      · exact List.mem_of_mem_filter older
      · split at last
        · exact List.mem_of_mem_filter last
        · cases last
    refine ⟨isTarget, ?_⟩
    simp only [Bool.or_eq_true, List.any_eq_true, not_or, not_exists, not_and] at proper
    simpa using proper.1 target isTarget

end Batches

end Kdive.Uploads
