import Kdive.Jobs.History
import Kdive.Lib.UuidText

/-!
Systems and their checkpoints beside the queue that works on them: what admits a forced crash, a
restore and a capture, what the handlers of those jobs commit, and the three repairs that settle a
System or a checkpoint no job will finish. A repair chooses its candidates in one statement and
settles them one after another later, so everything else may happen in between. A handler whose job
was given to another worker, dead-lettered or canceled still commits what it has left to commit.
-/
namespace Kdive.Systems
open Table Jobs JsonText

abbrev Id := Fin (2 ^ 128)

inductive SnapshotState where
  | creating | available | failed
  deriving DecidableEq

def SnapshotState.next : SnapshotState → List SnapshotState
  | .creating => [.available, .failed]
  | .available => [.failed]
  | .failed => []

structure SystemRow where
  id : Id
  state : SystemState

structure SnapshotRow where
  id : Id
  systemId : Id
  name : String
  includeMemory : Bool
  state : SnapshotState

section Payloads

def ofStr (text : Str) : String := String.ofList (text.map Char.ofNat)

def idText (u : Id) : String := ofStr (UuidText.text u)

def dumpPayload (members : List (Str × Value)) : Payload :=
  { externalBootAuthority := false, authoritySystem := false, runId := none
    body := ofStr (dumps (str ", ") (str ": ") (.object members)) }

def member (p : Payload) (name : String) : Option Value :=
  match loads 1 p.body.toByteArray.data.toList with
  | .ok (.object members) => lookup members (str name)
  | _ => none

def memberText (p : Payload) (name : String) : Option Str :=
  match member p name with
  | some (.text s) => some s
  | _ => none

def forceCrashPayload (systemId : String) : Payload :=
  dumpPayload [(str "system_id", .text (str systemId))]

def snapshotPayload (systemId : String) (snapshotId : Id) (name : String) (includeMemory : Bool) :
    Payload :=
  dumpPayload [(str "system_id", .text (str systemId)),
    (str "snapshot_id", .text (UuidText.text snapshotId)), (str "name", .text (str name)),
    (str "include_memory", .bool includeMemory)]

def restorePayload (systemId name : String) (startPaused : Bool) : Payload :=
  dumpPayload [(str "system_id", .text (str systemId)), (str "name", .text (str name)),
    (str "start_paused", .bool startPaused)]

def forceCrashKey (u : Id) : String := idText u ++ ":force_crash"

def snapshotKey (u : Id) (name : String) : String := idText u ++ ":snapshot:" ++ name

def restoreKey (u : Id) (name : String) (startPaused : Bool) : String :=
  idText u ++ ":restore:" ++ name ++ ":" ++ if startPaused then "True" else "False"

def defaultMaxAttempts : Int := 3

def forceCrashRequest (systemId : String) (u : Id) (authorizing : String) : EnqueueRequest :=
  ⟨.forceCrash, forceCrashPayload systemId, authorizing, forceCrashKey u, defaultMaxAttempts, .never⟩

def snapshotRequest (systemId : String) (u snapshotId : Id) (name : String) (includeMemory : Bool)
    (authorizing : String) : EnqueueRequest :=
  ⟨.snapshot, snapshotPayload systemId snapshotId name includeMemory, authorizing,
    snapshotKey u name, defaultMaxAttempts, .terminalOrCanceled⟩

def restoreRequest (systemId : String) (u : Id) (name : String) (startPaused : Bool)
    (authorizing : String) : EnqueueRequest :=
  ⟨.restore, restorePayload systemId name startPaused, authorizing, restoreKey u name startPaused,
    defaultMaxAttempts, .terminal⟩

/-- What every other producer enqueues: another kind of job, under a key of its own. -/
structure Foreign (request : EnqueueRequest) : Prop where
  kind : request.kind ≠ .forceCrash ∧ request.kind ≠ .snapshot ∧ request.kind ≠ .restore
  crash : ∀ u, request.dedupKey ≠ forceCrashKey u
  capture : ∀ u name, request.dedupKey ≠ snapshotKey u name
  revert : ∀ u name startPaused, request.dedupKey ≠ restoreKey u name startPaused

end Payloads

inductive Repair where
  | crashing | restoring | creating
  deriving DecidableEq

/-- `minted` are the checkpoint ids drawn so far, `checked` the calls of `control.force_crash` that
read their System as ready, `started` the jobs that were handed to a worker. A pass of a repair
keeps its candidates, and the repair of checkpoints the one it has just read again. -/
structure Fleet where
  queue : World
  systems : Keyed SystemRow Id SystemRow.id
  snapshots : Keyed SnapshotRow Id SnapshotRow.id
  minted : List Id
  checked : List String
  started : List Job
  candidates : Repair → Nat → List Id
  confirmed : Nat → Option Id

structure Surroundings where
  inProject : Bool
  externalBootDenied : Bool
  liveRun : Bool
  sessionAttached : Bool

section Rows

def systemState (w : Fleet) (u : Id) : Option SystemState := (find w.systems u).map SystemRow.state

def setSystemState (w : Fleet) (u : Id) (state : SystemState) : Fleet :=
  { w with
    systems := Table.update w.systems (fun r => r.id = u) (fun r => { r with state := state })
      (by intro _; rfl) }

def advance (w : Fleet) (u : Id) (source target : SystemState) : Fleet :=
  if systemState w u = some source then setSystemState w u target else w

def updateState (w : Fleet) (u : Id) (target : SystemState) : Fleet :=
  match systemState w u with
  | some state => if target ∈ state.next then setSystemState w u target else w
  | none => w

def setSnapshotState (w : Fleet) (sn : Id) (state : SnapshotState) : Fleet :=
  { w with
    snapshots := Table.update w.snapshots (fun r => r.id = sn)
      (fun r => { r with state := state }) (by intro _; rfl) }

/-- `SNAPSHOTS.update_state`. -/
def updateSnapshot (w : Fleet) (sn : Id) (target : SnapshotState) : Fleet :=
  match find w.snapshots sn with
  | some row => if target ∈ row.state.next then setSnapshotState w sn target else w
  | none => w

def snapshotByName (w : Fleet) (u : Id) (name : String) : Option SnapshotRow :=
  w.snapshots.rows.find? (fun r => decide (r.systemId = u) && decide (r.name = name))

def activeJob (j : Job) : Bool := decide (j.state = .queued) || decide (j.state = .running)

end Rows

section Steps

variable (credential : String → List UInt8) (unicode : UuidText.Unicode)

def readId (text : String) : Option Id := UuidText.uuid unicode (str text)

def subject (p : Payload) (name : String) : Option Id :=
  (memberText p name).bind (UuidText.uuid unicode)

def enqueue (w : Fleet) (request : EnqueueRequest) (newId : Uuid) : Fleet :=
  { w with queue := Jobs.step credential w.queue (.enqueue request newId) }

def handed (w : World) (e : Event) : Option Job :=
  (claimTaken credential w e).bind (fun c => find (Jobs.step credential w e).db.jobs c.jobId)

/-- `force_crash_system` up to its lock. -/
def forceCrashCheck (w : Fleet) (systemId : String) (s : Surroundings) : Fleet :=
  match readId unicode systemId with
  | some u =>
    if s.inProject ∧ systemState w u = some .ready then { w with checked := systemId :: w.checked }
    else w
  | none => w

/-- `force_crash_system` under the lock: the state is not read again, and a row under the key is
returned as it is. -/
def forceCrashSystem (w : Fleet) (systemId authorizing : String) (s : Surroundings)
    (newId : Uuid) : Fleet :=
  if systemId ∈ w.checked then
    match readId unicode systemId with
    | some u =>
      let w := { w with checked := w.checked.erase systemId }
      if w.queue.db.jobs.rows.any (fun j => j.dedupKey = forceCrashKey u) ∨ s.externalBootDenied
      then w
      else enqueue credential w (forceCrashRequest systemId u authorizing) newId
    | none => w
  else w

structure SnapshotCall where
  systemId : String
  name : String
  includeMemory : Bool
  authorizing : String

def isNameChar (c : Char) : Bool :=
  c.isAlphanum || c == '.' || c == '_' || c == '-'

def snapshotNameMaxLen : Nat := 64

/-- `_NAME_RE.match`; the end of the pattern also stands before a last newline. -/
def validName (name : String) : Bool :=
  let chars := if name.toList.getLast? = some '\n' then name.toList.dropLast else name.toList
  chars.all isNameChar && decide (1 ≤ chars.length) && decide (chars.length ≤ snapshotNameMaxLen)

def snapshotReplay (w : Fleet) (u : Id) (name : String) : Bool :=
  match snapshotByName w u name with
  | some row => decide (row.state = .creating) && w.queue.db.jobs.rows.any (fun j =>
      decide (j.dedupKey = snapshotKey u name) &&
        decide (j.state ∉ recyclableStates .terminalOrCanceled))
  | none => false

def createSnapshot (w : Fleet) (call : SnapshotCall) (u snapshotId : Id) (newId : Uuid) : Fleet :=
  let kept := Table.delete w.snapshots
    (fun r => decide (r.systemId = u) && decide (r.name = call.name))
  enqueue credential
    { w with
      snapshots := Table.insert kept ⟨snapshotId, u, call.name, call.includeMemory, .creating⟩
      minted := snapshotId :: w.minted }
    (snapshotRequest call.systemId u snapshotId call.name call.includeMemory call.authorizing) newId

def snapshotSystem (w : Fleet) (call : SnapshotCall) (s : Surroundings) (newId : Uuid)
    (snapshotId : Id) : Fleet :=
  match readId unicode call.systemId with
  | some u =>
    if s.inProject ∧ validName call.name ∧ systemState w u = some .ready ∧
        snapshotReplay w u call.name = false ∧ s.externalBootDenied = false ∧
        (snapshotByName w u call.name).map SnapshotRow.state ≠ some .available ∧
        snapshotId ∉ w.minted
    then createSnapshot credential w call u snapshotId newId
    else w
  | none => w

structure RestoreCall where
  systemId : String
  name : String
  startPaused : Bool
  authorizing : String

def snapshotOpKinds : List JobKind := [.snapshot, .restore, .deleteSnapshot]

def activeSnapshotOp (w : Fleet) (u : Id) : Bool :=
  w.queue.db.jobs.rows.any (fun j =>
    activeJob j && decide (j.kind ∈ snapshotOpKinds) &&
      decide (memberText j.payload "system_id" = some (UuidText.text u)))

def restoreTarget (w : Fleet) (call : RestoreCall) (s : Surroundings) : Option Id :=
  match readId unicode call.systemId with
  | some u =>
    match snapshotByName w u call.name with
    | some row =>
      if s.inProject ∧ systemState w u = some .ready ∧ s.externalBootDenied = false ∧
          row.state = .available ∧ (call.startPaused = true → row.includeMemory = true) ∧
          s.liveRun = false ∧ activeSnapshotOp w u = false ∧ s.sessionAttached = false
      then some u
      else none
    | none => none
  | none => none

def restoreSystem (w : Fleet) (call : RestoreCall) (s : Surroundings) (newId : Uuid) : Fleet :=
  match restoreTarget unicode w call s with
  | some u => enqueue credential (setSystemState w u .restoring)
      (restoreRequest call.systemId u call.name call.startPaused call.authorizing) newId
  | none => w

inductive Commit where
  | enterCrashing | finalizeForceCrash | restoreResult | restoreFailure
  | captureLanded | captureFailed
  deriving DecidableEq

def Commit.kind : Commit → JobKind
  | .enterCrashing | .finalizeForceCrash => .forceCrash
  | .restoreResult | .restoreFailure => .restore
  | .captureLanded | .captureFailed => .snapshot

def restoreOutcome (p : Payload) : SystemState :=
  match member p "start_paused" with
  | some (.bool true) => .paused
  | _ => .ready

def commitSystem (w : Fleet) (j : Job) (u : Id) : Commit → Fleet
  | .enterCrashing => advance w u .ready .crashing
  | .finalizeForceCrash => advance w u .crashing .crashed
  | .restoreResult => advance w u .restoring (restoreOutcome j.payload)
  | .restoreFailure => updateState w u .failed
  | .captureLanded | .captureFailed => w

def commitSnapshot (w : Fleet) (sn : Id) : Commit → Fleet
  | .captureLanded =>
    if (find w.snapshots sn).map SnapshotRow.state = some .creating then
      setSnapshotState w sn .available
    else w
  | .captureFailed => updateSnapshot w sn .failed
  | _ => w

def commit (w : Fleet) (n : Nat) (c : Commit) : Fleet :=
  match w.started[n]? with
  | some j =>
    if j.kind ≠ c.kind then w
    else if j.kind = .snapshot then
      match subject unicode j.payload "snapshot_id" with
      | some sn => commitSnapshot w sn c
      | none => w
    else match subject unicode j.payload "system_id" with
      | some u => commitSystem w j u c
      | none => w
  | none => w

def blocks : Repair → Id → Job → Bool
  | .crashing, u, j => decide (j.dedupKey = forceCrashKey u)
  | .restoring, u, j => decide (j.kind = .restore) &&
      decide (memberText j.payload "system_id" = some (UuidText.text u))
  | .creating, sn, j => decide (j.kind = .snapshot) &&
      decide (memberText j.payload "snapshot_id" = some (UuidText.text sn))

def stalled (w : Fleet) : Repair → List Id
  | .crashing => (w.systems.rows.filter (fun r => decide (r.state = .crashing))).map SystemRow.id
  | .restoring => (w.systems.rows.filter (fun r => decide (r.state = .restoring))).map SystemRow.id
  | .creating =>
    (w.snapshots.rows.filter (fun r => decide (r.state = .creating))).map SnapshotRow.id

def candidatesOf (w : Fleet) (r : Repair) : List Id :=
  (stalled w r).filter (fun u => !w.queue.db.jobs.rows.any (fun j => activeJob j && blocks r u j))

/-- What the next write of a pass settles. A System is read again in the transaction of the write,
under its lock; a checkpoint was read again before and is written wherever its state allows. -/
def settles (w : Fleet) : Repair → Nat → Option Id
  | .crashing, pass => (w.candidates .crashing pass).head?.filter
      (fun u => systemState w u = some .crashing)
  | .restoring, pass => (w.candidates .restoring pass).head?.filter
      (fun u => systemState w u = some .restoring)
  | .creating, pass => (w.confirmed pass).filter (fun sn =>
      match find w.snapshots sn with
      | some row => decide (SnapshotState.failed ∈ row.state.next)
      | none => false)

def settle (w : Fleet) (u : Id) : Repair → Fleet
  | .crashing => setSystemState w u .crashed
  | .restoring => setSystemState w u .failed
  | .creating => setSnapshotState w u .failed

def consume (w : Fleet) (r : Repair) (pass : Nat) : Fleet :=
  match r with
  | .creating => { w with confirmed := Function.update w.confirmed pass none }
  | r =>
    { w with
      candidates := Function.update w.candidates r
        (Function.update (w.candidates r) pass (w.candidates r pass).tail) }

def repairWrite (w : Fleet) (r : Repair) (pass : Nat) : Fleet :=
  match settles w r pass with
  | some u => settle (consume w r pass) u r
  | none => consume w r pass

/-- `SNAPSHOTS.get` of the next candidate, in the transaction but before the statement of the
write. -/
def recheckSnapshot (w : Fleet) (pass : Nat) : Fleet :=
  match w.candidates .creating pass with
  | sn :: rest =>
    { w with
      candidates := Function.update w.candidates .creating
        (Function.update (w.candidates .creating) pass rest)
      confirmed := Function.update w.confirmed pass
        (if (find w.snapshots sn).map SnapshotRow.state = some .creating then some sn else none) }
  | [] => w

inductive Act where
  | queue (e : Event) (quiet : ∀ request newId, e ≠ .enqueue request newId)
  | enqueueOther (request : EnqueueRequest) (newId : Uuid) (foreign : Foreign request)
  | forceCrashCheck (systemId : String) (s : Surroundings)
  | forceCrash (systemId authorizing : String) (s : Surroundings) (newId : Uuid)
  | snapshot (call : SnapshotCall) (s : Surroundings) (newId : Uuid) (snapshotId : Id)
  | restore (call : RestoreCall) (s : Surroundings) (newId : Uuid)
  | commit (n : Nat) (c : Commit)
  | addSystem (u : Id)
  | moveSystem (u : Id) (target : SystemState)
      (elsewhere : target ≠ .crashing ∧ target ≠ .restoring)
  | dropSnapshots (ids : List Id)
  | repairRead (r : Repair) (pass : Nat)
  | recheckSnapshot (pass : Nat)
  | repairWrite (r : Repair) (pass : Nat)

def step (w : Fleet) : Act → Fleet
  | .queue e _ =>
    { w with
      queue := Jobs.step credential w.queue e
      started := w.started ++ (handed credential w.queue e).toList }
  | .enqueueOther request newId _ => enqueue credential w request newId
  | .forceCrashCheck systemId s => forceCrashCheck unicode w systemId s
  | .forceCrash systemId authorizing s newId =>
    forceCrashSystem credential unicode w systemId authorizing s newId
  | .snapshot call s newId snapshotId => snapshotSystem credential unicode w call s newId snapshotId
  | .restore call s newId => restoreSystem credential unicode w call s newId
  | .commit n c => commit unicode w n c
  | .addSystem u => { w with systems := Table.insert w.systems ⟨u, .provisioning⟩ }
  | .moveSystem u target _ => updateState w u target
  | .dropSnapshots ids => { w with snapshots := Table.delete w.snapshots (fun r => r.id ∈ ids) }
  | .repairRead r pass =>
    { w with
      candidates := Function.update w.candidates r
        (Function.update (w.candidates r) pass (candidatesOf w r)) }
  | .recheckSnapshot pass => recheckSnapshot w pass
  | .repairWrite r pass => repairWrite w r pass

def owns : Repair → Id → Job → Prop
  | .crashing, u, j => j.kind = .forceCrash ∧ subject unicode j.payload "system_id" = some u
  | .restoring, u, j => j.kind = .restore ∧ subject unicode j.payload "system_id" = some u
  | .creating, sn, j => j.kind = .snapshot ∧ subject unicode j.payload "snapshot_id" = some sn

instance decidableOwns : ∀ (r : Repair) (u : Id) (j : Job), Decidable (owns unicode r u j)
  | .crashing, _, _ => inferInstanceAs (Decidable (_ ∧ _))
  | .restoring, _, _ => inferInstanceAs (Decidable (_ ∧ _))
  | .creating, _, _ => inferInstanceAs (Decidable (_ ∧ _))

def Idle (w : Fleet) (r : Repair) (u : Id) : Prop :=
  ∀ j ∈ w.queue.db.jobs.rows, activeJob j = true → ¬ owns unicode r u j

def WritesAlone (w : Fleet) (a : Act) : Prop :=
  ∀ r pass, a = .repairWrite r pass → ∀ u, settles w r pass = some u → Idle unicode w r u

/-- An admitted restore spells its System as the database does, and no pass of the restoring repair
keeps that System as a candidate. -/
def Unforeseen (w : Fleet) (a : Act) : Prop :=
  ∀ call s newId, a = .restore call s newId → ∀ u, restoreTarget unicode w call s = some u →
    str call.systemId = UuidText.text u ∧ ∀ pass, u ∉ w.candidates .restoring pass

structure Initial (w : Fleet) : Prop where
  jobs : w.queue.db.jobs.rows = []
  systems : w.systems.rows = []
  snapshots : w.snapshots.rows = []
  started : w.started = []
  candidates : ∀ r pass, w.candidates r pass = []
  confirmed : ∀ pass, w.confirmed pass = none

end Steps

end Kdive.Systems
