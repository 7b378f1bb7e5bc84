import Kdive.Lib.Trace
import Kdive.Uploads.Versions

/-!
Writers and deleters of the upload prefixes. A writer covers its owner with a write lease or an
upload window, puts object versions and registers their keys in the transaction that gives the
cover up. The abandoned-upload reaper and the orphan sweep capture the exact versions of a key,
evaluate the fence and then delete what they captured. Every transaction here runs under the
owner's advisory lock and is one step; the store calls between the transactions are steps of their
own.
-/
namespace Kdive.Uploads

attribute [local instance] lawful

/-- A row of `upload_manifests`, with the number of the writer that minted the window. -/
structure Manifest where
  writer : Nat
  root : Key
  deadline : Instant

/-- An object version as the store issued it; `writer` is the writer it was put for, under its
cover. -/
structure Issued where
  key : Key
  lastModified : Instant
  isDeleteMarker : Bool
  writer : Option Nat
  deriving DecidableEq

inductive Cover
  | lease (job : Uuid)
  | window
  deriving DecidableEq

structure Writer where
  owner : Owner
  names : List String
  cover : Cover
  deriving DecidableEq

/-- A window is lost to a later mint for the same owner, or to the reaper past its deadline. -/
inductive Phase
  | holding
  | registered
  | lost
  deriving DecidableEq

/-- What a deleter goes on with after a key: the reaper's remaining keys, or the sweep's page. -/
inductive Task
  | reap (owner : Owner) (rest : List Key)
  | sweep (owner : Owner)

inductive Deleter
  | idle
  | claimed (owner : Owner) (root : Key)
  | visiting (owner : Owner) (keys : List Key)
  | captured (task : Task) (batch : VersionBatch)
  | deleting (task : Task) (rowsAtFence : List Key) (order : List ObjectVersion)

structure Deletion where
  version : ObjectVersion
  rowsAtFence : List Key
  deriving DecidableEq

/-- The committed tables, the store, the writers and the deleters. `journals` are the keys a
capture execution or a capture publication owns; the version id of an issued version is its
position. -/
structure State where
  now : Instant
  rows : List Key
  journals : List Key
  manifests : Owner → Option Manifest
  leases : List (Owner × Uuid)
  jobs : Uuid → Option (JobState × Instant)
  issued : List Issued
  writers : List Writer
  phase : Nat → Phase
  deleters : Nat → Deleter
  deleted : List Deletion

def Task.owner : Task → Owner
  | .reap owner _ => owner
  | .sweep owner => owner

def Task.next : Task → Deleter
  | .reap owner rest => .visiting owner rest
  | .sweep _ => .idle

structure Config where
  orphanGrace : Duration
  uploadTtl : Duration

def versionsPerKey : Nat := 20

section Fences

def State.liveHolder (s : State) (job : Uuid) : Bool :=
  match s.jobs job with
  | some (.running, lease) => decide (s.now < lease)
  | _ => false

/-- `_OWNER_FENCE_SQL`: nothing protects the key. -/
def State.unfenced (s : State) (owner : Owner) (key : Key) : Bool :=
  decide (key ∉ s.rows) && decide (key ∉ s.journals) && (s.manifests owner).isNone &&
    s.leases.all (fun lease => !(lease.1 == owner && s.liveHolder lease.2))

def youngest (targets : List ObjectVersion) : Option Instant :=
  (targets.map (·.lastModified)).max?

def State.reclaimable (config : Config) (s : State) (task : Task) (batch : VersionBatch) : Bool :=
  match task with
  | .reap owner _ => s.unfenced owner batch.key
  | .sweep owner =>
    (youngest batch.targets).any
      (fun modified => decide (modified < s.now - (config.orphanGrace + config.uploadTtl))) &&
      s.unfenced owner batch.key

end Fences

/-- One step of some party. `hold`, `mint`, `put` and `register` are the writers'; a `stray` put is
any other write to the bucket; `claim` to `delete` are the deleters'. A page or a listing is what
the store answered, possibly some time ago; a lock that is held or a store call that fails makes
the deleter pass on. -/
inductive Event
  | tick (now : Instant)
  | setJob (job : Uuid) (row : Option (JobState × Instant))
  | journal (keys : List Key)
  | stray (key : Key) (modified : Instant) (isDeleteMarker : Bool)
  | hold (owner : Owner) (names : List String) (job : Uuid)
  | mint (owner : Owner) (names : List String) (ttl : Duration)
  | refresh (owner : Owner) (deadline : Instant)
  | put (writer : Nat) (name : String) (modified : Instant)
  | register (writer : Nat)
  | reapStaleLeases
  | claim (deleter : Nat) (owner : Owner)
  | list (deleter : Nat) (page : Option VersionPage)
  | capture (deleter : Nat) (key : Key) (limit : Nat) (pages : List VersionPage)
  | finish (deleter : Nat)
  | fence (deleter : Nat) (locked : Bool)
  | delete (deleter : Nat) (lands : Bool)

namespace State

def setPhase (s : State) (writer : Nat) (phase : Phase) : State :=
  { s with phase := Function.update s.phase writer phase }

def setDeleter (s : State) (deleter : Nat) (stage : Deleter) : State :=
  { s with deleters := Function.update s.deleters deleter stage }

def issue (s : State) (version : Issued) : State := { s with issued := s.issued ++ [version] }

def loseWindow (s : State) (owner : Owner) : State :=
  match s.manifests owner with
  | some m => s.setPhase m.writer .lost
  | none => s

def addWriter (s : State) (writer : Writer) : State :=
  { s with writers := s.writers ++ [writer] }.setPhase s.writers.length .holding

def isHeld (s : State) (owner : Owner) (job : Uuid) : Bool :=
  (List.range s.writers.length).any (fun i => s.phase i == .holding &&
    s.writers[i]?.any (fun w => w.owner == owner && w.cover == .lease job))

/-- `hold_write_lease`. A live job has one attempt at a time, so no other writer holds its lease. -/
def hold (s : State) (owner : Owner) (names : List String) (job : Uuid) : State :=
  if s.liveHolder job && !s.isHeld owner job then
    { s with leases := s.leases.insert (owner, job) }.addWriter ⟨owner, names, .lease job⟩
  else s

def setManifest (s : State) (owner : Owner) (m : Option Manifest) : State :=
  { s with manifests := Function.update s.manifests owner m }

/-- `replace_manifest`. -/
def mint (s : State) (owner : Owner) (names : List String) (ttl : Duration) : State :=
  ((s.loseWindow owner).addWriter ⟨owner, names, .window⟩).setManifest owner
    (some ⟨s.writers.length, ownerRoot owner, s.now + ttl⟩)

def refresh (s : State) (owner : Owner) (deadline : Instant) : State :=
  match s.manifests owner with
  | some m => s.setManifest owner (some { m with deadline := max m.deadline deadline })
  | none => s

def put (s : State) (writer : Nat) (name : String) (modified : Instant) : State :=
  match s.writers[writer]? with
  | some w =>
    if s.phase writer = .holding ∧ name ∈ w.names then
      s.issue ⟨ownerKey w.owner name, modified, false, some writer⟩
    else s
  | none => s

/-- The rows of the writer's keys, and the end of its cover, in one commit. A window that is no
longer the owner's is refused. -/
def register (s : State) (writer : Nat) : State :=
  match s.writers[writer]? with
  | some w =>
    if s.phase writer = .holding then
      let named := { s with rows := s.rows ++ w.names.map (ownerKey w.owner) }.setPhase writer .registered
      match w.cover with
      | .lease job => { named with leases := s.leases.erase (w.owner, job) }
      | .window =>
        if (s.manifests w.owner).map (·.writer) = some writer then named.setManifest w.owner none else s
    else s
  | none => s

def reapStaleLeases (s : State) : State :=
  { s with leases := s.leases.filter (fun lease => s.liveHolder lease.2) }

def genuine (s : State) (entry : ObjectVersion) : Bool :=
  s.issued[entry.versionId]?.any (fun version => version.key == entry.key)

def claim (s : State) (deleter : Nat) (owner : Owner) : State :=
  match s.deleters deleter, s.manifests owner with
  | .idle, some m =>
    if m.deadline < s.now then
      ((s.loseWindow owner).setManifest owner none).setDeleter deleter (.claimed owner m.root)
    else s
  | _, _ => s

/-- `_first_page_version_keys`. -/
def list (s : State) (deleter : Nat) (page : Option VersionPage) : State :=
  match s.deleters deleter, page with
  | .claimed _ _, none => s.setDeleter deleter .idle
  | .claimed owner root, some page =>
    if page.entries.all (fun entry => s.genuine entry && decide (root <+: entry.key)) then
      s.setDeleter deleter (.visiting owner (page.entries.map (·.key)).dedup)
    else s
  | _, _ => s

def capture (s : State) (deleter : Nat) (key : Key) (limit : Nat) (pages : List VersionPage) : State :=
  if pages.all (fun page => page.entries.all s.genuine) then
    match s.deleters deleter with
    | .visiting owner (next :: rest) =>
      if next = key then
        match captureExactVersions key versionsPerKey pages with
        | some batch => s.setDeleter deleter (.captured (.reap owner rest) batch)
        | none => s.setDeleter deleter (.visiting owner rest)
      else s
    | .idle =>
      match attributed key, captureExactVersions key (min versionsPerKey limit) pages with
      | some owner, some batch =>
        if batch.targets.isEmpty then s else s.setDeleter deleter (.captured (.sweep owner) batch)
      | _, _ => s
    | _ => s
  else s

def finish (s : State) (deleter : Nat) : State :=
  match s.deleters deleter with
  | .visiting _ [] => s.setDeleter deleter .idle
  | _ => s

def fence (config : Config) (s : State) (deleter : Nat) (locked : Bool) : State :=
  match s.deleters deleter with
  | .captured task batch =>
    if batch.targets.isEmpty || locked || !s.reclaimable config task batch then
      s.setDeleter deleter task.next
    else
      match deletionOrder batch with
      | some order => s.setDeleter deleter (.deleting task s.rows order)
      | none => s.setDeleter deleter .idle
  | _ => s

def delete (s : State) (deleter : Nat) (lands : Bool) : State :=
  match s.deleters deleter with
  | .deleting task seen (version :: rest) =>
    if lands then
      ({ s with deleted := s.deleted ++ [⟨version, seen⟩] } : State).setDeleter deleter
        (.deleting task seen rest)
    else s.setDeleter deleter task.next
  | .deleting task _ [] => s.setDeleter deleter task.next
  | _ => s

def step (config : Config) (s : State) : Event → State
  | .tick now => { s with now := max s.now now }
  | .setJob job row => { s with jobs := Function.update s.jobs job row }
  | .journal keys => { s with journals := keys }
  | .stray key modified isDeleteMarker => s.issue ⟨key, modified, isDeleteMarker, none⟩
  | .hold owner names job => s.hold owner names job
  | .mint owner names ttl => s.mint owner names ttl
  | .refresh owner deadline => s.refresh owner deadline
  | .put writer name modified => s.put writer name modified
  | .register writer => s.register writer
  | .reapStaleLeases => s.reapStaleLeases
  | .claim deleter owner => s.claim deleter owner
  | .list deleter page => s.list deleter page
  | .capture deleter key limit pages => s.capture deleter key limit pages
  | .finish deleter => s.finish deleter
  | .fence deleter locked => s.fence config deleter locked
  | .delete deleter lands => s.delete deleter lands

def initial (now : Instant) : State where
  now := now
  rows := []
  journals := []
  manifests := fun _ => none
  leases := []
  jobs := fun _ => none
  issued := []
  writers := []
  phase := fun _ => .holding
  deleters := fun _ => .idle
  deleted := []

end State

def HoldersLive (s : State) : Prop :=
  ∀ i w job, s.writers[i]? = some w → s.phase i = .holding → w.cover = .lease job →
    s.liveHolder job = true

def State.isLive (s : State) : Cover → Bool
  | .lease job => s.liveHolder job
  | .window => true

instance (s : State) : Decidable (HoldersLive s) :=
  decidable_of_iff (∀ i < s.writers.length, ∀ w ∈ s.writers[i]?, s.phase i = .holding →
      s.isLive w.cover = true) <| by
    constructor
    · intro checked i w job found holding lease
      have live := checked i (List.getElem?_eq_some_iff.mp found).1 w found holding
      rw [lease] at live
      exact live
    · intro live i _ w found holding
      cases cover : w.cover with
      | lease job => exact live i w job found holding cover
      | window => rfl

end Kdive.Uploads
