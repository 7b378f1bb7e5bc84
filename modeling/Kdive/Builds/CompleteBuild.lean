import Kdive.Builds.Validation

/-!
`runs.complete_build` as a program of database transactions and store calls, with everything that
interleaves with it: mints of upload windows, the upload reaper, PUTs to the same keys and other
changes of the rows it reads. A chunked finalize takes the `RUN` lock when it refreshes the window
and keeps it, with the refreshed deadline uncommitted, until its transaction ends.
-/
namespace Kdive.Builds
open ObjectStore Uploads

attribute [local instance] Uploads.lawful

section Records

inductive RunState
  | created | running | succeeded | failed | canceled
  deriving DecidableEq

def RunState.text : RunState → String
  | .created => "created"
  | .running => "running"
  | .succeeded => "succeeded"
  | .failed => "failed"
  | .canceled => "canceled"

structure RunRow where
  investigation : Uuid
  targetKind : String
  buildProfile : String
  arch : Option String
  state : RunState

structure UploadManifest where
  entries : List ManifestEntry
  deadline : Instant
  windowStartedAt : Instant
  window : Nat

inductive Identity
  | checksum (sha256 : String)
  | chunks (chunks : List ChunkEntry) (sizeBytes : Nat)
  deriving DecidableEq

def contentIdentity (entry : ManifestEntry) : Identity :=
  match entry.chunks with
  | none => .checksum entry.sha256
  | some chunks => .chunks chunks entry.sizeBytes

structure BuildStepResult where
  kernelRef : Key
  debuginfoRef : Option Key
  initrdRef : Option Key
  buildId : String
  cmdline : Option String
  provenance : Option String

def BuildStepResult.refs (result : BuildStepResult) : List (String × Key) :=
  (result.initrdRef.map (fun key => ("initrd", key))).toList ++ [("kernel", result.kernelRef)] ++
    (result.debuginfoRef.map (fun key => ("vmlinux", key))).toList

structure Registered where
  name : String
  key : Key
  version : Nat
  deriving DecidableEq

structure CanonicalDocument where
  version : Nat
  targetKind : String
  buildProfile : String
  artifacts : List (String × Identity)
  buildId : String
  cmdline : Option String
  provenance : Option String
  externalBootEvidence : String
  deriving DecidableEq

structure InvestigationBuild where
  investigation : Uuid
  contentDigest : String
  canonicalDocument : CanonicalDocument
  buildResult : BuildStepResult
  artifacts : List Registered
  active : Bool
  expiresAt : Instant
  createdAt : Instant

structure Finalization where
  run : Uuid
  row : RunRow
  manifest : UploadManifest
  output : ValidatedUpload
  chunked : Bool
  chunkHeads : List (Key × Head String)
  windowDeadline : Instant
  cmdline : Option String
  provenance : Option String

inductive Verdict
  | succeeded (created : Bool) (versions rows : List Registered)
  | existing
  | rejected (error : BuildError)

end Records

section History

structure Reading where
  run : Uuid
  window : Nat
  deadline : Instant

structure Final where
  process : Nat
  used : Finalization
  present : Option Nat
  verdict : Verdict

structure Drop where
  run : Uuid
  used : Nat
  present : Option Nat
  deriving DecidableEq

structure ContentRead where
  process : Nat
  key : Key
  version : Nat

end History

/-- The committed tables and the object store, the `RUN` locks with the holder's uncommitted
deadline, and the history. -/
structure State where
  store : Store Key String
  runs : Uuid → Option RunRow
  accepting : Uuid → Bool
  manifests : Uuid → Option UploadManifest
  locks : Uuid → Option (Nat × Option Instant)
  rows : List Registered
  builds : List InvestigationBuild
  results : Uuid → Option BuildStepResult
  mints : Nat
  readings : List Reading
  contentReads : List ContentRead
  finals : List Final
  drops : List Drop
  removed : List Nat

structure Settings where
  sha256 : Bytes → String
  documentDigest : CanonicalDocument → String
  ttl : Duration
  maxWindow : Duration
  retention : Duration
  checks : ContentChecks

section Requests

inductive StoreRequest
  | head (key : Key) (version : Option Nat)
  | getRange (key : Key) (version : Option Nat) (start length : Nat)
  | createMultipartUpload (key : Key)
  | uploadPartCopy (key : Key) (upload part : Nat) (sourceKey : Key) (sourceVersion : Nat)
  | completeMultipartUpload (key : Key) (upload : Nat) (parts : List Nat)
  | abortMultipartUpload (key : Key) (upload : Nat)
  | deleteVersion (key : Key) (version : Nat)

def StoreRequest.Answer : StoreRequest → Type
  | .head _ _ => Option (Head String)
  | .getRange _ _ _ _ => Bytes
  | .createMultipartUpload _ => Nat
  | .uploadPartCopy _ _ _ _ _ => Unit
  | .completeMultipartUpload _ _ _ => Nat
  | .abortMultipartUpload _ _ => Unit
  | .deleteVersion _ _ => Unit

/-- The calls of `complete_build`, and the transactions and writes of everybody else. -/
inductive Request
  | store (request : StoreRequest)
  | getRun (run : Uuid)
  | getManifest (run : Uuid)
  | refreshDeadline (run : Uuid) (read : UploadManifest) (now : Instant)
  | existingBuildResult (run : Uuid)
  | finalize (finalization : Finalization) (now : Instant)
  | deleteManifest (finalization : Finalization)
  | mint (run : Uuid) (entries : List ManifestEntry) (now : Instant) (ttl : Duration)
  | reap (run : Uuid) (now : Instant)
  | put (key : Key) (content : Bytes) (checksummed : Bool)
  | putDeleteMarker (key : Key)
  | removeVersion (version : Nat)
  | setRunState (run : Uuid) (state : RunState)
  | setAccepting (investigation : Uuid) (accepting : Bool)
  | retireBuild (build : Nat)

def Request.Answer : Request → Type
  | .store r => r.Answer
  | .getRun _ => Option RunRow
  | .getManifest _ => Option UploadManifest
  | .refreshDeadline _ _ _ => Option Instant
  | .existingBuildResult _ => Option BuildStepResult
  | .finalize _ _ => Verdict
  | _ => Unit

end Requests

def refreshedDeadline (settings : Settings) (m : UploadManifest) (now : Instant) : Instant :=
  max m.deadline (min (now + settings.ttl) (m.windowStartedAt + settings.maxWindow))

namespace State

variable (settings : Settings)

def unlocked (s : State) (i : Nat) (run : Uuid) : Bool :=
  (s.locks run).all (fun lock => lock.1 == i)

def manifestSeen (s : State) (i : Nat) (run : Uuid) : Option UploadManifest :=
  match s.locks run with
  | some (holder, some deadline) =>
    if holder = i then (s.manifests run).map (fun m => { m with deadline := deadline })
    else s.manifests run
  | _ => s.manifests run

/-- The transaction of the process ends: its locks go, and its deadlines with it or into the rows. -/
def endTransaction (s : State) (i : Nat) (commits : Bool) : State :=
  { s with
    manifests := fun run => if commits then s.manifestSeen i run else s.manifests run
    locks := fun run => (s.locks run).filter (fun lock => lock.1 != i) }

def setManifest (s : State) (run : Uuid) (m : Option UploadManifest) : State :=
  { s with manifests := Function.update s.manifests run m }

def acceptsUpload (s : State) (run : Uuid) : Bool :=
  (s.runs run).any (fun row => row.state == .created && s.accepting row.investigation)

/-- `_create_upload` for a Run, from its locks on. -/
def mint (s : State) (run : Uuid) (entries : List ManifestEntry) (now : Instant) (ttl : Duration) :
    State :=
  if s.acceptsUpload run && !entries.isEmpty &&
      entries.all (fun e => decide (e.name ∈ runArtifactNames)) then
    ({ s with mints := s.mints + 1 } : State).setManifest run (some ⟨entries, now + ttl, now, s.mints⟩)
  else s

/-- `_claim_abandoned_prefix`. -/
def reap (s : State) (run : Uuid) (now : Instant) : State :=
  match s.manifests run with
  | some m => if m.deadline < now then s.setManifest run none else s
  | none => s

/-- `refresh_deadline`, as `_reassemble_chunked_artifacts` calls it under the locks it then keeps. -/
def refreshDeadline (s : State) (i : Nat) (run : Uuid) (now : Instant) : Option Instant × State :=
  let refreshed := ((s.manifests run).filter (fun m => decide (now ≤ m.deadline))).map
    (fun m => refreshedDeadline settings m now)
  (refreshed, { s with locks := Function.update s.locks run (some (i, refreshed)) })

end State

section Publication

def Finalization.heads (f : Finalization) : List (Key × Head String) :=
  f.output.heads.map (fun named => (artifactKey f.run named.1, named.2))

def Finalization.identities (f : Finalization) : List (Key × Identity) :=
  (byName f.manifest.entries).map (fun named => (artifactKey f.run named.1, contentIdentity named.2))

def Finalization.candidate (f : Finalization) : BuildStepResult :=
  ⟨f.output.kernelRef, f.output.debuginfoRef, keyOf f.run f.manifest.entries "initrd",
    f.output.buildId, f.cmdline, f.provenance⟩

def Finalization.artifactVersions (f : Finalization) : Option (List Registered) :=
  f.candidate.refs.mapM (fun ref =>
    (f.heads.lookup ref.2).map (fun head => ⟨ref.1, ref.2, head.version⟩))

/-- `canonical_build_document`. -/
def Finalization.canonicalDocument (f : Finalization) : Option CanonicalDocument :=
  (f.candidate.refs.mapM (fun ref =>
    (f.identities.lookup ref.2).map (fun identity => (ref.1, identity)))).map (fun artifacts =>
      ⟨2, f.row.targetKind, f.row.buildProfile, artifacts, f.output.buildId, f.cmdline, f.provenance,
        f.output.externalBootEvidence⟩)

/-- `_insert_run_only_artifact_rows`. -/
def Finalization.runOnlyRows (f : Finalization) : List Registered :=
  (f.output.heads.filter (fun named =>
    decide (artifactKey f.run named.1 ∉ f.candidate.refs.map Prod.snd))).map
      (fun named => ⟨named.1, artifactKey f.run named.1, named.2.version⟩)

def activeByDigest (builds : List InvestigationBuild) (investigation : Uuid) (digest : String)
    (now : Instant) : Option InvestigationBuild :=
  (builds.filter (fun b => decide (b.investigation = investigation ∧ b.contentDigest = digest ∧
    b.active = true ∧ now < b.expiresAt))).foldl (fun best b =>
      match best with
      | some b' => if b'.createdAt < b.createdAt then some b else some b'
      | none => some b) none

end Publication

namespace State

variable (settings : Settings)

def publish (s : State) (f : Finalization) (created : Option InvestigationBuild)
    (result : BuildStepResult) (rows : List Registered) : State :=
  { s with
    builds := s.builds ++ created.toList
    rows := s.rows ++ rows
    results := Function.update s.results f.run (some ((s.results f.run).getD result))
    runs := Function.update s.runs f.run
      ((s.runs f.run).map (fun run => { run with state := .succeeded })) }

def publishOrReuse (s : State) (f : Finalization) (now : Instant) : Verdict × State :=
  match f.canonicalDocument, f.artifactVersions with
  | some document, some versions =>
    match activeByDigest s.builds f.row.investigation (settings.documentDigest document) now with
    | some build =>
      if build.canonicalDocument ≠ document then
        (.rejected (.runtime "matching build digest has a different canonical document"), s)
      else
        (.succeeded false build.artifacts f.runOnlyRows,
          s.publish f none build.buildResult f.runOnlyRows)
    | none =>
      (.succeeded true versions (versions ++ f.runOnlyRows),
        s.publish f (some ⟨f.row.investigation, settings.documentDigest document, document,
          f.candidate, versions, true, now + settings.retention, now⟩)
          f.candidate (versions ++ f.runOnlyRows))
  | _, _ => (.rejected (.runtime "validated HEAD is required"), s)

def requireCurrent (s : State) (i : Nat) (f : Finalization) : Option Verdict :=
  if !s.accepting f.row.investigation then
    some (.rejected (.configuration "investigation_not_accepting_upload"))
  else
    match (s.runs f.run).map RunRow.state with
    | none => some (.rejected (.configuration ""))
    | some .succeeded => some .existing
    | some .created =>
      match s.manifestSeen i f.run with
      | none => some (.rejected (.configuration "no_upload_manifest"))
      | some m =>
        if m.deadline ≠ f.windowDeadline then
          some (.rejected (.configuration "upload_window_replaced"))
        else none
    | some state => some (.rejected (.configuration state.text))

def recordFinal (s : State) (i : Nat) (f : Finalization) (present : Option Nat) (verdict : Verdict) :
    State :=
  { s with finals := s.finals ++ [⟨i, f, present, verdict⟩] }

/-- `delete_manifest`, by a finalize. -/
def dropManifest (s : State) (f : Finalization) : State :=
  let drop : Drop := ⟨f.run, f.manifest.window, (s.manifests f.run).map (·.window)⟩
  ({ s with drops := s.drops ++ [drop] } : State).setManifest f.run none

def finalize (s : State) (i : Nat) (f : Finalization) (now : Instant) : Verdict × State :=
  let present := (s.manifestSeen i f.run).map (·.window)
  match s.requireCurrent i f with
  | some verdict => (verdict, s.recordFinal i f present verdict)
  | none =>
    match s.publishOrReuse settings f now with
    | (.succeeded created versions rows, published) =>
      let committed := (published.recordFinal i f present
        (.succeeded created versions rows)).endTransaction i true
      (.succeeded created versions rows, if f.chunked then committed else committed.dropManifest f)
    | (verdict, _) => (verdict, s.recordFinal i f present verdict)

def serveStore (s : State) (i : Nat) : (r : StoreRequest) → Option (r.Answer × State)
  | .head key version => some (s.store.head key version, s)
  | .getRange key version start length =>
    match s.store.find key version with
    | some (found, o) =>
      some ((o.content.drop start).take length,
        { s with contentReads := s.contentReads ++ [⟨i, key, found⟩] })
    | none => none
  | .createMultipartUpload key =>
    let (upload, store) := s.store.createUpload i key
    some (upload, { s with store := store })
  | .uploadPartCopy key upload part sourceKey sourceVersion =>
    (s.store.copyPart key upload part sourceKey sourceVersion).map
      (fun store => ((), { s with store := store }))
  | .completeMultipartUpload key upload parts =>
    (s.store.completeUpload key upload parts).map
      (fun completed => (completed.1, { s with store := completed.2 }))
  | .abortMultipartUpload _ upload => some ((), { s with store := s.store.abortUpload upload })
  | .deleteVersion _ version =>
    some ((), { s with store := s.store.remove version, removed := s.removed ++ [version] })

def serve (s : State) (i : Nat) : (r : Request) → Option (r.Answer × State)
  | .store r => s.serveStore i r
  | .getRun run => some (s.runs run, s)
  | .getManifest run =>
    some (s.manifests run, { s with readings := s.readings ++
      ((s.manifests run).map (fun m => ⟨run, m.window, m.deadline⟩)).toList })
  | .refreshDeadline run _ now =>
    if (s.locks run).isNone then some (s.refreshDeadline settings i run now) else none
  | .existingBuildResult run => some (s.results run, s)
  | .finalize f now => if s.unlocked i f.run then some (s.finalize settings i f now) else none
  | .deleteManifest f => some ((), s.dropManifest f)
  | .mint run entries now ttl =>
    if (s.locks run).isNone then some ((), s.mint run entries now ttl) else none
  | .reap run now => if (s.locks run).isNone then some ((), s.reap run now) else none
  | .put key content checksummed =>
    let checksum := if checksummed then some (settings.sha256 content) else none
    some ((), { s with store := s.store.put ⟨key, content, checksum, false⟩ })
  | .putDeleteMarker key => some ((), { s with store := s.store.put ⟨key, [], none, true⟩ })
  | .removeVersion version => some ((), { s with store := s.store.remove version })
  | .setRunState run state =>
    if state = .created then none
    else
      let row := (s.runs run).map (fun row => { row with state := state })
      some ((), { s with runs := Function.update s.runs run row })
  | .setAccepting investigation accepting =>
    some ((), { s with accepting := Function.update s.accepting investigation accepting })
  | .retireBuild build =>
    some ((), { s with builds := s.builds.modify build (fun b => { b with active := false }) })

end State

def service (settings : Settings) : Calls.Service State Request Request.Answer where
  serve i s r := s.serve settings i r
  leave i commits s := s.endTransaction i commits

section Program

abbrev Build := Calls.Program Request Request.Answer BuildError

def callStore (operation : String) (r : StoreRequest) : Build r.Answer :=
  Calls.demand (infrastructureFailure operation) (Request.store r)

def callDatabase (r : Request) : Build r.Answer := Calls.demand (.runtime "OperationalError") r

def versionPinnedStore (versions : Key → Option Nat) :
    StoreWrapper Request Request.Answer (Key → Option Nat)
  | observed, .head key => do
    let (answer : Option (Option (Head String))) ←
      Calls.ask (Request.store (.head key ((versions key).or (observed key))))
    match answer with
    | some (some head) => pure (answer, Function.update observed key (some head.version))
    | _ => pure (answer, observed)
  | observed, .getRange key start length version => do
    let answer ← Calls.ask
      (Request.store (.getRange key ((version.or (versions key)).or (observed key)) start length))
    pure (answer, observed)

def verifyChunks (run : Uuid) (name : String) : Nat → List ChunkEntry →
    Build (List (Key × Head String))
  | _, [] => pure []
  | part, chunk :: rest => do
    match ← callStore "head_object" (.head (chunkKey run name part) none) with
    | none => Calls.throw (.categorized .configurationError "declared chunk was never uploaded")
    | some head =>
      if head.size ≠ chunk.sizeBytes ∨ head.checksum ≠ some chunk.sha256 then
        Calls.throw (buildFailure "uploaded chunk disagrees with its manifest")
      else do
        let heads ← verifyChunks run name (part + 1) rest
        pure ((chunkKey run name part, head) :: heads)

def copyParts (run : Uuid) (name : String) (upload : Nat) (heads : List (Key × Head String)) :
    List Nat → Build Unit
  | [] => pure ()
  | part :: rest =>
    match heads.lookup (chunkKey run name part) with
    | none => Calls.throw (.runtime "KeyError")
    | some head => do
      callStore "upload_part_copy" (.uploadPartCopy (artifactKey run name) upload part
        (chunkKey run name part) head.version)
      copyParts run name upload heads rest

def reassembleChunked (run : Uuid) (name : String) (chunks : List ChunkEntry) :
    Build (List (Key × Head String) × Nat) := do
  let heads ← verifyChunks run name 1 chunks
  let upload ← callStore "create_multipart_upload" (.createMultipartUpload (artifactKey run name))
  Calls.rescue (do
      copyParts run name upload heads (List.range' 1 chunks.length)
      let version ← callStore "complete_multipart_upload"
        (.completeMultipartUpload (artifactKey run name) upload (List.range' 1 chunks.length))
      pure (heads, version))
    (fun e => do
      let _ ← Calls.ask (Request.store (.abortMultipartUpload (artifactKey run name) upload))
      Calls.throw e)

/-- What reassembly leaves: the chunk heads, and the versions of the reassembled keys. -/
structure Reassembled where
  chunkHeads : List (Key × Head String)
  finalVersions : Key → Option Nat

def reassembleArtifacts (run : Uuid) : List ManifestEntry → Reassembled → Build Reassembled
  | [], done => pure done
  | entry :: rest, done =>
    match entry.chunks with
    | none => reassembleArtifacts run rest done
    | some chunks => do
      let (heads, version) ← reassembleChunked run entry.name chunks
      reassembleArtifacts run rest ⟨heads.foldl insertKey done.chunkHeads,
        Function.update done.finalVersions (artifactKey run entry.name) (some version)⟩

def reassembleChunkedArtifacts (run : Uuid) (manifest : UploadManifest) (now : Instant) :
    Build (Instant × Reassembled) := do
  match ← callDatabase (.refreshDeadline run manifest now) with
  | none =>
    match ← callDatabase (.existingBuildResult run) with
    | some _ => Calls.throw .alreadyRecorded
    | none => Calls.throw (.configuration "no_upload_manifest")
  | some deadline => do
    let reassembled ← Calls.rescue (reassembleArtifacts run manifest.entries ⟨[], fun _ => none⟩)
      (fun e => do
        match ← callDatabase (.existingBuildResult run) with
        | some _ => Calls.throw .alreadyRecorded
        | none => Calls.throw e)
    pure (deadline, reassembled)

def cleanupChunksAndManifest (f : Finalization) : List (Key × Head String) → Build Unit
  | [] => do
    let _ ← Calls.ask (Request.deleteManifest f)
    pure ()
  | (key, head) :: rest => do
    match ← Calls.ask (Request.store (.deleteVersion key head.version)) with
    | some _ => cleanupChunksAndManifest f rest
    | none => pure ()

def cleanupLosingBuildVersions (f : Finalization) : List (String × Key) → Build Unit
  | [] => pure ()
  | (_, key) :: rest =>
    match f.heads.lookup key with
    | none => Calls.throw (.runtime "KeyError")
    | some head => do
      let _ ← Calls.ask (Request.store (.deleteVersion key head.version))
      cleanupLosingBuildVersions f rest

def cleanup (f : Finalization) (created : Bool) : Build Unit := do
  (if f.chunked then cleanupChunksAndManifest f f.chunkHeads else pure ())
  (if created then pure () else cleanupLosingBuildVersions f f.candidate.refs)

def finalizeExternalBuild (f : Finalization) (now : Instant) : Build Verdict := do
  match ← callDatabase (.finalize f now) with
  | .rejected e => Calls.throw e
  | .existing => pure .existing
  | .succeeded created versions rows => do
    cleanup f created
    pure (.succeeded created versions rows)

structure CompleteBuildCall where
  run : Uuid
  now : Instant
  publishedAt : Instant
  buildId : Option String
  cmdline : Option String
  provenance : Option String

def reassembleIfChunked (call : CompleteBuildCall) (manifest : UploadManifest) :
    Build (Instant × Reassembled) :=
  if hasChunks manifest.entries then reassembleChunkedArtifacts call.run manifest call.now
  else pure (manifest.deadline, ⟨[], fun _ => none⟩)

def validateCompleteBuild (checks : ContentChecks) (call : CompleteBuildCall) (row : RunRow)
    (manifest : UploadManifest) (exactVersions : Key → Option Nat) : Build ValidatedUpload :=
  Calls.through (observedVersionStore (versionPinnedStore exactVersions))
    (validateExternalArtifacts checks manifest.entries (keyOf call.run manifest.entries)
      call.buildId (row.arch.getD "x86_64"))
    (fun _ => none, fun _ => none)

/-- `_validate_uploads` and the finalize. -/
def completeOpenWindow (checks : ContentChecks) (call : CompleteBuildCall) (row : RunRow)
    (manifest : UploadManifest) : Build Verdict := do
  let (deadline, reassembled) ← reassembleIfChunked call manifest
  match ← callDatabase (.existingBuildResult call.run) with
  | some _ => Calls.throw .alreadyRecorded
  | none => do
    let output ← validateCompleteBuild checks call row manifest reassembled.finalVersions
    finalizeExternalBuild ⟨call.run, row, manifest, output, hasChunks manifest.entries,
      reassembled.chunkHeads, deadline, call.cmdline, call.provenance⟩ call.publishedAt

/-- `_prepare` and what follows it, for a Run that is still `created`. -/
def completeCreatedRun (checks : ContentChecks) (call : CompleteBuildCall) (row : RunRow) :
    Build Verdict := do
  match ← callDatabase (.getManifest call.run) with
  | none => Calls.throw (.configuration "no_upload_manifest")
  | some manifest =>
    if manifest.deadline < call.now then Calls.throw .windowExpired
    else completeOpenWindow checks call row manifest

def completeRun (checks : ContentChecks) (call : CompleteBuildCall) : Build Verdict := do
  match ← callDatabase (.getRun call.run) with
  | none => Calls.throw (.configuration "run_not_found")
  | some row =>
    if row.state ≠ .created then Calls.throw (.configuration row.state.text)
    else completeCreatedRun checks call row

def completeBuild (checks : ContentChecks) (call : CompleteBuildCall) : Build Verdict :=
  Calls.rescue (completeRun checks call)
    (fun e => if e = .alreadyRecorded then pure .existing else Calls.throw e)

/-- Whoever is at work: a finalize, or one transaction or write of somebody else. -/
inductive Operation
  | completeBuild (call : CompleteBuildCall)
  | mint (run : Uuid) (entries : List ManifestEntry) (now : Instant) (ttl : Duration)
  | reap (run : Uuid) (now : Instant)
  | put (key : Key) (content : Bytes) (checksummed : Bool)
  | putDeleteMarker (key : Key)
  | removeVersion (version : Nat)
  | setRunState (run : Uuid) (state : RunState)
  | setAccepting (investigation : Uuid) (accepting : Bool)
  | retireBuild (build : Nat)

def other (r : Request) : Build Verdict := do
  let _ ← Calls.ask r
  pure .existing

def Operation.program (checks : ContentChecks) : Operation → Build Verdict
  | .completeBuild call => Builds.completeBuild checks call
  | .mint run entries now ttl => other (.mint run entries now ttl)
  | .reap run now => other (.reap run now)
  | .put key content checksummed => other (.put key content checksummed)
  | .putDeleteMarker key => other (.putDeleteMarker key)
  | .removeVersion version => other (.removeVersion version)
  | .setRunState run state => other (.setRunState run state)
  | .setAccepting investigation accepting => other (.setAccepting investigation accepting)
  | .retireBuild build => other (.retireBuild build)

end Program

def State.initial (runs : Uuid → Option RunRow) (accepting : Uuid → Bool) : State where
  store := .empty
  runs := runs
  accepting := accepting
  manifests := fun _ => none
  locks := fun _ => none
  rows := []
  builds := []
  results := fun _ => none
  mints := 0
  readings := []
  contentReads := []
  finals := []
  drops := []
  removed := []

end Kdive.Builds
