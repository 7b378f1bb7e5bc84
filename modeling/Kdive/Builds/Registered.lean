import Kdive.Builds.Windows
import Mathlib.Data.List.Forall2

/-!
What a finalize registers. Every version it names is the one its checks read, with the content the
manifest declares; and what its cleanups delete is named by nobody. Stored versions never change, so
what a call has learnt about one stays true, whatever is written to the same keys.
-/
namespace Kdive.Builds
open ObjectStore Uploads

abbrev Objects := List (Object Key String)

section Content

variable (sha256 : Bytes → String) (objects : Objects)

def ChunksMatch (run : Uuid) (name : String) : Nat → List ChunkEntry → Objects → Prop
  | _, [], [] => True
  | part, chunk :: rest, o :: others => o ∈ objects ∧ o.key = chunkKey run name part ∧
      o.content.length = chunk.sizeBytes ∧ sha256 o.content = chunk.sha256 ∧
      ChunksMatch run name (part + 1) rest others
  | _, _, _ => False

def Assembled (name : String) (chunks : List ChunkEntry) (content : Bytes) : Prop :=
  ∃ run parts, ChunksMatch sha256 objects run name 1 chunks parts ∧
    content = (parts.map Object.content).flatten

def HasIdentity (entry : ManifestEntry) (content : Bytes) : Prop :=
  content.length = entry.sizeBytes ∧
    match entry.chunks with
    | none => sha256 content = entry.sha256
    | some chunks => Assembled sha256 objects entry.name chunks content

def Proves (name : String) (content : Bytes) : Identity → Prop
  | .checksum digest => sha256 content = digest
  | .chunks chunks size => content.length = size ∧ Assembled sha256 objects name chunks content

def CollisionFree : Prop :=
  ∀ o ∈ objects, ∀ o' ∈ objects, sha256 o.content = sha256 o'.content → o.content = o'.content

variable {sha256 objects} {objects' : Objects}

theorem ChunksMatch.mono (grown : objects <+: objects') {run : Uuid} {name : String} :
    ∀ {part : Nat} {chunks : List ChunkEntry} {parts : Objects},
      ChunksMatch sha256 objects run name part chunks parts →
        ChunksMatch sha256 objects' run name part chunks parts := by
  intro part chunks
  induction chunks generalizing part with
  | nil =>
    intro parts holds
    cases parts with
    | nil => trivial
    | cons o others => exact holds.elim
  | cons chunk rest ih =>
    intro parts holds
    cases parts with
    | nil => exact holds.elim
    | cons o others =>
      obtain ⟨isObject, key, size, digest, later⟩ := holds
      exact ⟨grown.subset isObject, key, size, digest, ih later⟩

theorem Assembled.mono (grown : objects <+: objects') {name : String} {chunks : List ChunkEntry}
    {content : Bytes} (holds : Assembled sha256 objects name chunks content) :
    Assembled sha256 objects' name chunks content := by
  obtain ⟨run, parts, matching, whole⟩ := holds
  exact ⟨run, parts, matching.mono grown, whole⟩

theorem HasIdentity.mono (grown : objects <+: objects') {entry : ManifestEntry} {content : Bytes}
    (holds : HasIdentity sha256 objects entry content) :
    HasIdentity sha256 objects' entry content := by
  obtain ⟨size, rest⟩ := holds
  refine ⟨size, ?_⟩
  split at rest
  · exact rest
  · exact rest.mono grown

theorem Proves.mono (grown : objects <+: objects') {name : String} {content : Bytes}
    {identity : Identity} (holds : Proves sha256 objects name content identity) :
    Proves sha256 objects' name content identity := by
  cases identity with
  | checksum digest => exact holds
  | chunks chunks size => exact ⟨holds.1, holds.2.mono grown⟩

theorem HasIdentity.proves {entry : ManifestEntry} {content : Bytes}
    (holds : HasIdentity sha256 objects entry content) :
    Proves sha256 objects entry.name content (contentIdentity entry) := by
  obtain ⟨size, rest⟩ := holds
  rw [contentIdentity]
  cases shape : entry.chunks with
  | none =>
    simp only [shape] at rest
    exact rest
  | some chunks =>
    simp only [shape] at rest
    exact ⟨size, rest⟩

/-- Content proved to have the identity of an entry that some stored content has, has it. -/
theorem HasIdentity.of_proves {entry : ManifestEntry} {o o' : Object Key String}
    (free : CollisionFree sha256 objects) (isObject : o ∈ objects) (isOther : o' ∈ objects)
    (own : HasIdentity sha256 objects entry o'.content)
    (proves : Proves sha256 objects entry.name o.content (contentIdentity entry)) :
    HasIdentity sha256 objects entry o.content := by
  rw [HasIdentity]
  rw [HasIdentity] at own
  rw [contentIdentity] at proves
  cases shape : entry.chunks with
  | none =>
    rw [shape] at own proves
    have same : o.content = o'.content := by
      refine free o isObject o' isOther ?_
      exact Eq.trans proves own.2.symm
    rw [same]
    exact own
  | some chunks =>
    rw [shape] at proves
    exact proves

end Content

section Invariant

/-- The version a row or a generation names, with the content its Run's manifest declares: it is
proved to have the entry's identity, and some stored version has it. -/
def Truthful (sha256 : Bytes → String) (objects : Objects) (entries : List ManifestEntry)
    (r : Registered) : Prop :=
  ∃ entry ∈ entries, entry.name = r.name ∧
    (∃ o, objects[r.version]? = some o ∧ o.key = r.key ∧
      Proves sha256 objects r.name o.content (contentIdentity entry)) ∧
    ∃ o ∈ objects, HasIdentity sha256 objects entry o.content

structure FinalRight (sha256 : Bytes → String) (s : State) (f : Final) (created : Bool)
    (versions rows : List Registered) : Prop where
  truthful : ∀ r ∈ versions ++ rows, Truthful sha256 s.store.objects f.used.manifest.entries r
  keys : ∀ r ∈ rows, r.key = artifactKey f.used.run r.name ∧ r.name ∈ runArtifactNames
  refs : ∀ ref ∈ f.used.candidate.refs, ref.2 = artifactKey f.used.run ref.1
  losing : created = false → ∀ r ∈ rows, r.key ∉ f.used.candidate.refs.map Prod.snd
  reads : ∀ r ∈ rows, ∀ read ∈ s.contentReads, read.process = f.process → read.key = r.key →
    read.version = r.version

/-- A generation: each artifact proves its identity in the document, and a success created it. -/
structure BuildRight (sha256 : Bytes → String) (s : State) (b : InvestigationBuild) : Prop where
  proves : List.Forall₂ (fun named r => r.name = named.1 ∧ ∃ o,
      s.store.objects[r.version]? = some o ∧ o.key = r.key ∧
        Proves sha256 s.store.objects r.name o.content named.2)
    b.canonicalDocument.artifacts b.artifacts
  origin : ∃ f ∈ s.finals, ∃ versions rows, f.verdict = .succeeded true versions rows ∧
    ∀ r ∈ b.artifacts, r.key = artifactKey f.used.run r.name ∧ r.name ∈ runArtifactNames

/-- A version that a cleanup has deleted: of a chunk, or of an artifact whose Run reused another
build. -/
def Discarded (s : State) (version : Nat) : Prop :=
  ∃ o, s.store.objects[version]? = some o ∧ ((∃ run name part, o.key = chunkKey run name part) ∨
    ∃ f ∈ s.finals, ∃ versions rows, f.verdict = .succeeded false versions rows ∧
      o.key ∈ f.used.candidate.refs.map Prod.snd)

structure Registry (sha256 : Bytes → String) (s : State) : Prop where
  checksums : ∀ o ∈ s.store.objects, ∀ digest, o.checksum = some digest → sha256 o.content = digest
  names : ∀ {run m}, s.manifests run = some m → ∀ e ∈ m.entries, e.name ∈ runArtifactNames
  finished : ∀ f ∈ s.finals, f.verdict.isSuccess = true →
    ∀ row, s.runs f.used.run = some row → row.state ≠ .created
  once : ∀ f ∈ s.finals, ∀ g ∈ s.finals, f.verdict.isSuccess = true → g.verdict.isSuccess = true →
    f.used.run = g.used.run → f = g
  finals : ∀ f ∈ s.finals, ∀ created versions rows, f.verdict = .succeeded created versions rows →
    FinalRight sha256 s f created versions rows
  rows : ∀ r ∈ s.rows, ∃ f ∈ s.finals, ∃ created versions rows,
    f.verdict = .succeeded created versions rows ∧ r ∈ rows
  builds : ∀ b ∈ s.builds, BuildRight sha256 s b
  removed : ∀ version ∈ s.removed, Discarded s version

/-- Versions never change, and what a process has read and finalized is its own doing. -/
structure Later (i : Nat) (s t : State) : Prop where
  objects : s.store.objects <+: t.store.objects
  reads : ∀ read ∈ t.contentReads, read.process = i → read ∈ s.contentReads
  own : ∀ f ∈ t.finals, f.process = i → f ∈ s.finals

structure Grown (i : Nat) (s t : State) : Prop extends Later i s t where
  uploads : ∀ {n : Nat} {u : Upload Key}, s.store.uploads[n]? = some u →
    ∃ u', t.store.uploads[n]? = some u' ∧ u'.initiator = u.initiator ∧ (u.initiator = i → u' = u)
  finals : s.finals ⊆ t.finals

theorem Later.refl (i : Nat) (s : State) : Later i s s where
  objects := List.prefix_refl _
  reads _ isRead _ := isRead
  own _ isFinal _ := isFinal

theorem Later.trans {i : Nat} {s t u : State} (first : Later i s t) (second : Later i t u) :
    Later i s u where
  objects := first.objects.trans second.objects
  reads read isRead mine := first.reads read (second.reads read isRead mine) mine
  own f isFinal mine := first.own f (second.own f isFinal mine) mine

theorem Grown.refl (i : Nat) (s : State) : Grown i s s where
  toLater := Later.refl i s
  uploads found := ⟨_, found, rfl, fun _ => rfl⟩
  finals := List.Subset.refl _

theorem Grown.trans {i : Nat} {s t u : State} (first : Grown i s t) (second : Grown i t u) :
    Grown i s u where
  toLater := first.toLater.trans second.toLater
  uploads found := by
    obtain ⟨v, there, initiator, own⟩ := first.uploads found
    obtain ⟨v', there', initiator', own'⟩ := second.uploads there
    refine ⟨v', there', initiator'.trans initiator, ?_⟩
    intro mine
    rw [own' (initiator.trans mine), own mine]
  finals := List.Subset.trans first.finals second.finals

theorem prefix_getElem? {α : Type} {l l' : List α} (grown : l <+: l') {n : Nat} {a : α}
    (found : l[n]? = some a) : l'[n]? = some a := by
  obtain ⟨more, rfl⟩ := grown
  rw [List.getElem?_append_left (List.getElem?_eq_some_iff.mp found).1]
  exact found

variable {sha256 : Bytes → String} {s t : State}

theorem Truthful.mono {objects objects' : Objects} (grown : objects <+: objects')
    {entries : List ManifestEntry} {r : Registered} (holds : Truthful sha256 objects entries r) :
    Truthful sha256 objects' entries r := by
  obtain ⟨entry, isEntry, name, ⟨o, found, key, proves⟩, o', isOther, own⟩ := holds
  exact ⟨entry, isEntry, name, ⟨o, prefix_getElem? grown found, key, proves.mono grown⟩, o',
    grown.subset isOther, own.mono grown⟩

theorem FinalRight.mono {f : Final} {created : Bool} {versions rows : List Registered}
    (right : FinalRight sha256 s f created versions rows)
    (objects : s.store.objects <+: t.store.objects)
    (reads : ∀ read ∈ t.contentReads, read.process = f.process → read ∈ s.contentReads) :
    FinalRight sha256 t f created versions rows where
  truthful r isRegistered := (right.truthful r isRegistered).mono objects
  keys := right.keys
  refs := right.refs
  losing := right.losing
  reads r isRow read isRead mine key := right.reads r isRow read (reads read isRead mine) mine key

theorem BuildRight.mono {b : InvestigationBuild} (right : BuildRight sha256 s b)
    (objects : s.store.objects <+: t.store.objects) (finals : s.finals ⊆ t.finals) :
    BuildRight sha256 t b where
  proves := by
    refine right.proves.imp ?_
    intro named r holds
    obtain ⟨name, o, found, key, proves⟩ := holds
    exact ⟨name, o, prefix_getElem? objects found, key, proves.mono objects⟩
  origin := by
    obtain ⟨f, isFinal, rest⟩ := right.origin
    exact ⟨f, finals isFinal, rest⟩

theorem Discarded.mono {version : Nat} (discarded : Discarded s version)
    (objects : s.store.objects <+: t.store.objects) (finals : s.finals ⊆ t.finals) :
    Discarded t version := by
  obtain ⟨o, found, kind⟩ := discarded
  refine ⟨o, prefix_getElem? objects found, ?_⟩
  rcases kind with chunk | ⟨f, isFinal, rest⟩
  · exact .inl chunk
  · exact .inr ⟨f, finals isFinal, rest⟩

end Invariant

section Frames

variable {sha256 : Bytes → String} {s t : State}

theorem Registry.frame (registry : Registry sha256 s)
    (objects : s.store.objects <+: t.store.objects)
    (checksums : ∀ o ∈ t.store.objects, ∀ digest, o.checksum = some digest → sha256 o.content = digest)
    (names : ∀ {run m}, t.manifests run = some m → ∀ e ∈ m.entries, e.name ∈ runArtifactNames)
    (created : ∀ run row, t.runs run = some row → row.state = .created →
      ∃ old, s.runs run = some old ∧ old.state = .created)
    (reads : ∀ f ∈ s.finals, f.verdict.isSuccess = true → ∀ read ∈ t.contentReads,
      read.process = f.process → read ∈ s.contentReads)
    (finals : t.finals = s.finals) (rows : t.rows = s.rows)
    (builds : ∀ b ∈ t.builds, ∃ old ∈ s.builds, b.canonicalDocument = old.canonicalDocument ∧
      b.artifacts = old.artifacts)
    (removed : ∀ version ∈ t.removed, version ∈ s.removed ∨ Discarded s version) :
    Registry sha256 t where
  checksums := checksums
  names := names
  finished f isFinal success row isRow := by
    rw [finals] at isFinal
    intro isCreated
    obtain ⟨old, isOld, wasCreated⟩ := created _ row isRow isCreated
    exact registry.finished f isFinal success old isOld wasCreated
  once := by
    rw [finals]
    exact registry.once
  finals f isFinal created versions rows verdict := by
    rw [finals] at isFinal
    refine (registry.finals f isFinal created versions rows verdict).mono objects ?_
    exact reads f isFinal (by rw [verdict]; rfl)
  rows := by
    rw [finals, rows]
    exact registry.rows
  builds b isBuild := by
    obtain ⟨old, isOld, document, artifacts⟩ := builds b isBuild
    have right := (registry.builds old isOld).mono objects (by rw [finals]; exact List.Subset.refl _)
    refine ⟨?_, ?_⟩
    · rw [document, artifacts]
      exact right.proves
    · rw [artifacts]
      exact right.origin
  removed version isRemoved := by
    have discarded : Discarded s version := by
      rcases removed version isRemoved with old | new
      · exact registry.removed version old
      · exact new
    exact discarded.mono objects (by rw [finals]; exact List.Subset.refl _)

structure StoreOnly (s t : State) : Prop where
  manifests : t.manifests = s.manifests
  runs : t.runs = s.runs
  contentReads : t.contentReads = s.contentReads
  finals : t.finals = s.finals
  rows : t.rows = s.rows
  builds : t.builds = s.builds
  removed : t.removed = s.removed

theorem Registry.store (registry : Registry sha256 s) (same : StoreOnly s t)
    (objects : s.store.objects <+: t.store.objects)
    (checksums : ∀ o ∈ t.store.objects, o ∈ s.store.objects ∨
      ∀ digest, o.checksum = some digest → sha256 o.content = digest) : Registry sha256 t := by
  refine registry.frame objects ?_ ?_ ?_ ?_ same.finals same.rows ?_ ?_
  · intro o isObject
    rcases checksums o isObject with old | new
    · exact registry.checksums o old
    · exact new
  · rw [same.manifests]
    exact registry.names
  · intro run row isRow isCreated
    exact ⟨row, same.runs ▸ isRow, isCreated⟩
  · intro f _ _ read isRead _
    exact same.contentReads ▸ isRead
  · intro b isBuild
    exact ⟨b, same.builds ▸ isBuild, rfl, rfl⟩
  · intro version isRemoved
    exact .inl (same.removed ▸ isRemoved)

theorem StoreOnly.grown (same : StoreOnly s t) (i : Nat)
    (objects : s.store.objects <+: t.store.objects)
    (uploads : ∀ {n : Nat} {u : Upload Key}, s.store.uploads[n]? = some u →
      ∃ u', t.store.uploads[n]? = some u' ∧ u'.initiator = u.initiator ∧
        (u.initiator = i → u' = u)) : Grown i s t where
  objects := objects
  uploads := uploads
  reads read isRead _ := same.contentReads ▸ isRead
  finals := by
    rw [same.finals]
    exact List.Subset.refl _
  own f isFinal _ := same.finals ▸ isFinal

theorem StoreOnly.grown_of_uploads (same : StoreOnly s t) (i : Nat)
    (objects : s.store.objects <+: t.store.objects) (uploads : t.store.uploads = s.store.uploads) :
    Grown i s t := by
  refine same.grown i objects ?_
  intro n u found
  exact ⟨u, uploads ▸ found, rfl, fun _ => rfl⟩

theorem Registry.endTransaction (registry : Registry sha256 s) (i : Nat) (commits : Bool) :
    Registry sha256 (s.endTransaction i commits) := by
  refine registry.frame (List.prefix_refl _) registry.checksums ?_ ?_ ?_ rfl rfl ?_ ?_
  · intro run m row
    change (if commits then s.manifestSeen i run else s.manifests run) = some m at row
    split at row
    · obtain ⟨m', row', _, _, entries, _⟩ := seen_spec row
      rw [← entries]
      exact registry.names row'
    · exact registry.names row
  · exact fun run row isRow isCreated => ⟨row, isRow, isCreated⟩
  · exact fun _ _ _ _ isRead _ => isRead
  · exact fun b isBuild => ⟨b, isBuild, rfl, rfl⟩
  · exact fun version isRemoved => .inl isRemoved

theorem Registry.setManifest (registry : Registry sha256 s) (run : Uuid) {m : Option UploadManifest}
    (names : ∀ new, m = some new → ∀ e ∈ new.entries, e.name ∈ runArtifactNames) :
    Registry sha256 (s.setManifest run m) := by
  refine registry.frame (List.prefix_refl _) registry.checksums ?_
    (fun _ row isRow isCreated => ⟨row, isRow, isCreated⟩) (fun _ _ _ _ isRead _ => isRead) rfl rfl
    (fun b isBuild => ⟨b, isBuild, rfl, rfl⟩) (fun _ isRemoved => .inl isRemoved)
  intro r m' row
  change Function.update s.manifests run m r = some m' at row
  rw [Function.update_apply] at row
  split at row
  · exact names m' row
  · exact registry.names row

theorem grown_of_same (i : Nat) (store : t.store = s.store) (reads : t.contentReads = s.contentReads)
    (finals : t.finals = s.finals) : Grown i s t where
  objects := by rw [store]
  uploads found := ⟨_, store ▸ found, rfl, fun _ => rfl⟩
  reads read isRead _ := reads ▸ isRead
  finals := by
    rw [finals]
    exact List.Subset.refl _
  own f isFinal _ := finals ▸ isFinal

end Frames

section Publishing

variable {sha256 : Bytes → String} {settings : Settings} {s : State} {i : Nat} {f : Finalization}
  {now : Instant}

theorem mem_byName {entries : List ManifestEntry} {named : String × ManifestEntry}
    (found : named ∈ byName entries) : named.2.name = named.1 ∧ named.2 ∈ entries := by
  have general : ∀ (rest : List ManifestEntry) (dict : List (String × ManifestEntry)),
      named ∈ rest.foldl (fun dict e => insertKey dict (e.name, e)) dict →
      (named.2.name = named.1 ∧ named.2 ∈ rest) ∨ named ∈ dict := by
    intro rest
    induction rest with
    | nil =>
      intro dict here
      exact .inr here
    | cons e rest ih =>
      intro dict here
      rcases ih _ here with ⟨name, later⟩ | now
      · exact .inl ⟨name, List.mem_cons_of_mem _ later⟩
      · rcases mem_insertKey now with rfl | ⟨before, _⟩
        · exact .inl ⟨rfl, List.mem_cons_self⟩
        · exact .inr before
  rcases general entries [] found with right | none
  · exact right
  · cases none

/-- The validated head of an entry: its version has the declared content, and is the only version of
its key whose content the process has read. -/
def HeadRight (sha256 : Bytes → String) (s : State) (i : Nat) (run : Uuid) (name : String)
    (entry : ManifestEntry) (head : Head String) : Prop :=
  (∃ o, s.store.objects[head.version]? = some o ∧ o.key = artifactKey run name ∧
    HasIdentity sha256 s.store.objects entry o.content) ∧
    ∀ read ∈ s.contentReads, read.process = i → read.key = artifactKey run name →
      read.version = head.version

structure Ready (sha256 : Bytes → String) (i : Nat) (f : Finalization) (s : State) : Prop where
  first : ∀ g ∈ s.finals, g.process ≠ i
  refs : ∀ ref ∈ f.candidate.refs, ref.2 = artifactKey f.run ref.1
  allowed : ∀ e ∈ f.manifest.entries, e.name ∈ runArtifactNames
  heads : List.Forall₂ (fun named head => head.1 = named.1 ∧
    HeadRight sha256 s i f.run named.1 named.2 head.2) (byName f.manifest.entries) f.output.heads
  chunks : ∀ item ∈ f.chunkHeads, ∃ o, s.store.objects[item.2.version]? = some o ∧
    ∃ run name part, o.key = chunkKey run name part

theorem HeadRight.stable {t : State} {run : Uuid} {name : String} {entry : ManifestEntry}
    {head : Head String} (right : HeadRight sha256 s i run name entry head) (later : Later i s t) :
    HeadRight sha256 t i run name entry head := by
  obtain ⟨⟨o, found, key, identity⟩, reads⟩ := right
  refine ⟨⟨o, prefix_getElem? later.objects found, key, identity.mono later.objects⟩, ?_⟩
  intro read isRead mine isKey
  exact reads read (later.reads read isRead mine) mine isKey

theorem Ready.stable {t : State} (ready : Ready sha256 i f s) (later : Later i s t) :
    Ready sha256 i f t where
  first g isFinal mine := ready.first g (later.own g isFinal mine) mine
  refs := ready.refs
  allowed := ready.allowed
  heads := ready.heads.imp (fun named head holds => ⟨holds.1, holds.2.stable later⟩)
  chunks item isChunk := by
    obtain ⟨o, found, key⟩ := ready.chunks item isChunk
    exact ⟨o, prefix_getElem? later.objects found, key⟩

theorem lookup_heads (name : String) :
    f.heads.lookup (artifactKey f.run name) = f.output.heads.lookup name := by
  have mapped := lookup_map (artifactKey f.run) (fun head : Head String => head)
    (fun a b same => (artifactKey_injective same).2) f.output.heads name
  rw [Option.map_id_fun'] at mapped
  exact mapped

theorem lookup_identities (name : String) : f.identities.lookup (artifactKey f.run name) =
    ((byName f.manifest.entries).lookup name).map contentIdentity :=
  lookup_map (artifactKey f.run) contentIdentity (fun _ _ same => (artifactKey_injective same).2)
    (byName f.manifest.entries) name

/-- The head under a reference is that of the entry whose identity the document carries. -/
theorem Ready.ref (ready : Ready sha256 i f s) {ref : String × Key} (isRef : ref ∈ f.candidate.refs)
    {head : Head String} (found : f.heads.lookup ref.2 = some head) :
    ∃ entry ∈ f.manifest.entries, entry.name = ref.1 ∧ ref.1 ∈ runArtifactNames ∧
      f.identities.lookup ref.2 = some (contentIdentity entry) ∧
      HeadRight sha256 s i f.run ref.1 entry head := by
  have key := ready.refs ref isRef
  rw [key, lookup_heads] at found
  obtain ⟨entry, byName, right⟩ := lookup_forall₂ ready.heads found
  obtain ⟨name, isEntry⟩ := mem_byName (mem_of_lookup byName)
  refine ⟨entry, isEntry, name, ?_, ?_, right⟩
  · rw [← show entry.name = ref.1 from name]
    exact ready.allowed entry isEntry
  · rw [key, lookup_identities, byName]
    rfl

theorem Ready.named (ready : Ready sha256 i f s) {named : String × Head String}
    (isHead : named ∈ f.output.heads) : ∃ entry ∈ f.manifest.entries, entry.name = named.1 ∧
      named.1 ∈ runArtifactNames ∧ HeadRight sha256 s i f.run named.1 entry named.2 := by
  obtain ⟨n, bound, rfl⟩ := List.getElem_of_mem isHead
  have bound' : n < (byName f.manifest.entries).length := by
    rw [ready.heads.length_eq]
    exact bound
  obtain ⟨same, right⟩ := ready.heads.get bound' bound
  have isEntry := mem_byName (List.getElem_mem bound')
  simp only [List.get_eq_getElem] at same right
  rw [same]
  refine ⟨_, isEntry.2, isEntry.1, ?_, right⟩
  rw [← isEntry.1]
  exact ready.allowed _ isEntry.2

theorem forall₂_join {α β γ : Type} {P : α → β → Prop} {Q : α → γ → Prop} {as : List α}
    {bs : List β} {cs : List γ} (first : List.Forall₂ P as bs) (second : List.Forall₂ Q as cs) :
    List.Forall₂ (fun b c => ∃ a ∈ as, P a b ∧ Q a c) bs cs := by
  induction first generalizing cs with
  | nil =>
    cases second
    exact .nil
  | cons here rest ih =>
    cases second with
    | cons here' rest' =>
      refine .cons ⟨_, List.mem_cons_self, here, here'⟩ ((ih rest').imp ?_)
      intro b c joined
      obtain ⟨a, isMember, both⟩ := joined
      exact ⟨a, List.mem_cons_of_mem _ isMember, both⟩

theorem publication_related {document : CanonicalDocument}
    {versions : List Registered} (isDocument : f.canonicalDocument = some document)
    (isVersions : f.artifactVersions = some versions) :
    List.Forall₂ (fun named r => ∃ ref ∈ f.candidate.refs, ∃ head, f.heads.lookup ref.2 = some head ∧
      r = ⟨ref.1, ref.2, head.version⟩ ∧ named.1 = ref.1 ∧
        f.identities.lookup ref.2 = some named.2) document.artifacts versions := by
  rw [Finalization.canonicalDocument, Option.map_eq_some_iff] at isDocument
  obtain ⟨artifacts, mapped, rfl⟩ := isDocument
  refine (forall₂_join (mapM_forall₂ mapped) (mapM_forall₂ isVersions)).imp ?_
  intro named r joined
  obtain ⟨ref, isRef, isNamed, isVersion⟩ := joined
  obtain ⟨identity, found, rfl⟩ := Option.map_eq_some_iff.mp isNamed
  obtain ⟨head, found', rfl⟩ := Option.map_eq_some_iff.mp isVersion
  exact ⟨ref, isRef, head, found', rfl, rfl, found⟩

theorem activeByDigest_mem {builds : List InvestigationBuild} {investigation : Uuid} {digest : String}
    {build : InvestigationBuild} (found : activeByDigest builds investigation digest now = some build) :
    build ∈ builds := by
  have general : ∀ (pick : Option InvestigationBuild → InvestigationBuild → Option InvestigationBuild),
      (∀ best b, pick best b = some build → b = build ∨ best = some build) →
      ∀ (rest : List InvestigationBuild) (best : Option InvestigationBuild),
      rest.foldl pick best = some build → build ∈ rest ∨ best = some build := by
    intro pick picks rest
    induction rest with
    | nil =>
      intro best here
      exact .inr here
    | cons b rest ih =>
      intro best here
      rcases ih _ here with later | now
      · exact .inl (List.mem_cons_of_mem _ later)
      · rcases picks best b now with rfl | before
        · exact .inl List.mem_cons_self
        · exact .inr before
  rw [activeByDigest] at found
  refine (general _ ?_ _ none found).elim List.mem_of_mem_filter (fun none => by cases none)
  intro best b now
  split at now
  · split at now
    · exact .inl (Option.some.inj now)
    · exact .inr now
  · exact .inl (Option.some.inj now)

/-- What a success publishes: its own versions in a new generation, or those of an active
generation with the same document. -/
theorem publishOrReuse_success {created : Bool} {versions rows : List Registered} {t : State}
    (published : s.publishOrReuse settings f now = (.succeeded created versions rows, t)) :
    ∃ document own, f.canonicalDocument = some document ∧ f.artifactVersions = some own ∧
      ((created = true ∧ versions = own ∧ rows = own ++ f.runOnlyRows ∧ ∃ b : InvestigationBuild,
          b.canonicalDocument = document ∧ b.artifacts = own ∧
          t = s.publish f (some b) f.candidate rows) ∨
        (created = false ∧ rows = f.runOnlyRows ∧ ∃ b ∈ s.builds, b.canonicalDocument = document ∧
          versions = b.artifacts ∧ t = s.publish f none b.buildResult rows)) := by
  rw [State.publishOrReuse] at published
  split at published
  · rename_i document own isDocument isVersions
    refine ⟨document, own, isDocument, isVersions, ?_⟩
    split at published
    · rename_i build found
      split at published
      · cases published
      · rename_i same
        cases published
        exact .inr ⟨rfl, rfl, build, activeByDigest_mem found, not_not.mp same, rfl, rfl⟩
    · cases published
      exact .inl ⟨rfl, rfl, rfl, _, rfl, rfl, rfl⟩
  · cases published

theorem HeadRight.truthful {entries : List ManifestEntry} {entry : ManifestEntry} {name : String}
    {head : Head String} (right : HeadRight sha256 s i f.run name entry head)
    (isEntry : entry ∈ entries) (isName : entry.name = name) :
    Truthful sha256 s.store.objects entries ⟨name, artifactKey f.run name, head.version⟩ := by
  obtain ⟨⟨o, found, key, identity⟩, _⟩ := right
  refine ⟨entry, isEntry, isName, ⟨o, found, key, ?_⟩, o, List.mem_of_getElem? found, identity⟩
  have proves := identity.proves
  rw [isName] at proves
  exact proves

/-- A version of the finalize's own: at its key, truthful, and the only one read of its key. -/
structure OwnVersion (sha256 : Bytes → String) (s : State) (i : Nat) (f : Finalization)
    (r : Registered) : Prop where
  truthful : Truthful sha256 s.store.objects f.manifest.entries r
  key : r.key = artifactKey f.run r.name
  name : r.name ∈ runArtifactNames
  reads : ∀ read ∈ s.contentReads, read.process = i → read.key = r.key → read.version = r.version

theorem Ready.own (ready : Ready sha256 i f s) {own : List Registered}
    (isVersions : f.artifactVersions = some own) : ∀ r ∈ own, OwnVersion sha256 s i f r := by
  intro r isOwn
  obtain ⟨ref, isRef, version⟩ : ∃ ref ∈ f.candidate.refs, (f.heads.lookup ref.2).map
      (fun head => (⟨ref.1, ref.2, head.version⟩ : Registered)) = some r := by
    have related := (mapM_forall₂ isVersions).flip
    obtain ⟨n, bound, rfl⟩ := List.getElem_of_mem isOwn
    have bound' : n < f.candidate.refs.length := by
      rw [← related.length_eq]
      exact bound
    exact ⟨_, List.getElem_mem bound', related.get bound bound'⟩
  obtain ⟨head, found, rfl⟩ := Option.map_eq_some_iff.mp version
  obtain ⟨entry, isEntry, isName, allowed, _, right⟩ := ready.ref isRef found
  have key := ready.refs ref isRef
  have truthful := right.truthful isEntry isName
  rw [← key] at truthful
  refine ⟨truthful, key, allowed, ?_⟩
  intro read isRead mine isKey
  exact right.2 read isRead mine (isKey.trans key)

theorem Ready.runOnly (ready : Ready sha256 i f s) : ∀ r ∈ f.runOnlyRows, OwnVersion sha256 s i f r := by
  intro r isRow
  obtain ⟨named, isHead, rfl⟩ := List.mem_map.mp isRow
  obtain ⟨entry, isEntry, isName, allowed, right⟩ := ready.named (List.mem_of_mem_filter isHead)
  exact ⟨right.truthful isEntry isName, rfl, allowed, right.2⟩

theorem Ready.reused (ready : Ready sha256 i f s) {document : CanonicalDocument}
    {own : List Registered} {b : InvestigationBuild} (isDocument : f.canonicalDocument = some document)
    (isVersions : f.artifactVersions = some own) (right : BuildRight sha256 s b)
    (same : b.canonicalDocument = document) :
    ∀ r ∈ b.artifacts, Truthful sha256 s.store.objects f.manifest.entries r := by
  have related := publication_related isDocument isVersions
  have proves := right.proves
  rw [same] at proves
  intro r isArtifact
  obtain ⟨n, bound, rfl⟩ := List.getElem_of_mem isArtifact
  have bound' : n < document.artifacts.length := by
    rw [proves.length_eq]
    exact bound
  have bound'' : n < own.length := by
    rw [← related.length_eq]
    exact bound'
  obtain ⟨name, o, found, key, holds⟩ := proves.get bound' bound
  obtain ⟨ref, isRef, head, isHead, _, isNamed, identity⟩ := related.get bound' bound''
  obtain ⟨entry, isEntry, isName, _, identity', headRight⟩ := ready.ref isRef isHead
  rw [identity] at identity'
  obtain ⟨⟨o', found', _, own'⟩, _⟩ := headRight
  refine ⟨entry, isEntry, ?_, ⟨o, found, key, ?_⟩, o', List.mem_of_getElem? found', own'⟩
  · rw [isName, ← isNamed]
    exact name.symm
  · rw [← Option.some.inj identity']
    exact holds

theorem Ready.proves (ready : Ready sha256 i f s) {document : CanonicalDocument}
    {own : List Registered} (isDocument : f.canonicalDocument = some document)
    (isVersions : f.artifactVersions = some own) :
    List.Forall₂ (fun named r => r.name = named.1 ∧ ∃ o,
      s.store.objects[r.version]? = some o ∧ o.key = r.key ∧
        Proves sha256 s.store.objects r.name o.content named.2) document.artifacts own := by
  refine (publication_related isDocument isVersions).imp ?_
  intro named r holds
  obtain ⟨ref, isRef, head, isHead, rfl, isNamed, identity⟩ := holds
  obtain ⟨entry, isEntry, isName, _, identity', right⟩ := ready.ref isRef isHead
  rw [identity] at identity'
  obtain ⟨⟨o, found, key, own'⟩, _⟩ := right
  have proves := own'.proves
  rw [isName] at proves
  refine ⟨isNamed.symm, o, found, ?_, ?_⟩
  · rw [key]
    exact (ready.refs ref isRef).symm
  · rw [Option.some.inj identity']
    exact proves

theorem Ready.finalRight (ready : Ready sha256 i f s) (registry : Registry sha256 s) {t : State}
    {present : Option Nat} {created : Bool} {versions rows : List Registered}
    (published : s.publishOrReuse settings f now = (.succeeded created versions rows, t)) :
    FinalRight sha256 s ⟨i, f, present, .succeeded created versions rows⟩ created versions rows := by
  obtain ⟨document, own, isDocument, isVersions, new | reused⟩ := publishOrReuse_success published
  · obtain ⟨rfl, rfl, rfl, _⟩ := new
    have mine : ∀ r ∈ versions ++ f.runOnlyRows, OwnVersion sha256 s i f r := by
      intro r isRow
      rcases List.mem_append.mp isRow with isOwn | runOnly
      · exact ready.own isVersions r isOwn
      · exact ready.runOnly r runOnly
    refine ⟨?_, fun r isRow => ⟨(mine r isRow).key, (mine r isRow).name⟩, ready.refs, ?_,
      fun r isRow => (mine r isRow).reads⟩
    · intro r isRegistered
      rcases List.mem_append.mp isRegistered with isOwn | isRow
      · exact (mine r (List.mem_append_left _ isOwn)).truthful
      · exact (mine r isRow).truthful
    · intro notNew
      cases notNew
  · obtain ⟨rfl, rfl, b, isBuild, same, rfl, _⟩ := reused
    have mine := ready.runOnly
    refine ⟨?_, fun r isRow => ⟨(mine r isRow).key, (mine r isRow).name⟩, ready.refs, ?_,
      fun r isRow => (mine r isRow).reads⟩
    · intro r isRegistered
      rcases List.mem_append.mp isRegistered with isArtifact | isRow
      · exact ready.reused isDocument isVersions (registry.builds b isBuild) same r isArtifact
      · exact (mine r isRow).truthful
    · intro _ r isRow
      obtain ⟨named, isHead, rfl⟩ := List.mem_map.mp isRow
      exact of_decide_eq_true (List.mem_filter.mp isHead).2

theorem Registry.refused (registry : Registry sha256 s) {present : Option Nat} {verdict : Verdict}
    (refused : verdict.isSuccess = false) : Registry sha256 (s.recordFinal i f present verdict) := by
  have old {g : Final} (isFinal : g ∈ (s.recordFinal i f present verdict).finals)
      (success : g.verdict.isSuccess = true) : g ∈ s.finals := by
    rcases List.mem_append.mp isFinal with old | new
    · exact old
    · obtain rfl := List.mem_singleton.mp new
      rw [show verdict.isSuccess = true from success] at refused
      cases refused
  have more : s.finals ⊆ (s.recordFinal i f present verdict).finals := List.subset_append_left _ _
  exact {
    checksums := registry.checksums
    names := registry.names
    finished := fun g isFinal success => registry.finished g (old isFinal success) success
    once := fun g isFinal h isFinal' success success' =>
      registry.once g (old isFinal success) h (old isFinal' success') success success'
    finals := fun g isFinal created versions rows verdict' =>
      (registry.finals g (old isFinal (by rw [verdict']; rfl)) created versions rows verdict').mono
        (List.prefix_refl _) (fun _ isRead _ => isRead)
    rows := fun r isRow => by
      obtain ⟨g, isFinal, rest⟩ := registry.rows r isRow
      exact ⟨g, more isFinal, rest⟩
    builds := fun b isBuild => (registry.builds b isBuild).mono (List.prefix_refl _) more
    removed := fun version isRemoved =>
      (registry.removed version isRemoved).mono (List.prefix_refl _) more }

theorem Registry.published (registry : Registry sha256 s) (ready : Ready sha256 i f s)
    {present : Option Nat} {created : Bool} {versions rows : List Registered}
    {build : Option InvestigationBuild} {result : BuildStepResult}
    (isCreated : ∃ row, s.runs f.run = some row ∧ row.state = .created)
    (published : s.publishOrReuse settings f now =
      (.succeeded created versions rows, s.publish f build result rows)) :
    Registry sha256 ((s.publish f build result rows).recordFinal i f present
      (.succeeded created versions rows)) := by
  have right : FinalRight sha256 s ⟨i, f, present, .succeeded created versions rows⟩ created
      versions rows := ready.finalRight registry published
  have notBefore : ∀ g ∈ s.finals, g.verdict.isSuccess = true → g.used.run ≠ f.run := by
    intro g isFinal success same
    obtain ⟨row, isRow, state⟩ := isCreated
    exact registry.finished g isFinal success row (same ▸ isRow) state
  have more : s.finals ⊆ s.finals ++ [⟨i, f, present, .succeeded created versions rows⟩] :=
    List.subset_append_left _ _
  have here : (⟨i, f, present, .succeeded created versions rows⟩ : Final) ∈
      s.finals ++ [⟨i, f, present, .succeeded created versions rows⟩] :=
    List.mem_append_right _ (List.mem_singleton_self _)
  exact {
    checksums := registry.checksums
    names := registry.names
    finished := by
      intro g isFinal success row isRow
      have isRow : (s.publish f build result rows).runs g.used.run = some row := isRow
      obtain ⟨mine, others⟩ := publish_run isRow
      by_cases same : g.used.run = f.run
      · rw [mine same]
        decide
      · rcases List.mem_append.mp isFinal with old | new
        · exact registry.finished g old success row (others same)
        · obtain rfl := List.mem_singleton.mp new
          exact absurd rfl same
    once := by
      intro g isFinal h isFinal' success success' same
      rcases List.mem_append.mp isFinal with old | new
      · rcases List.mem_append.mp isFinal' with old' | new'
        · exact registry.once g old h old' success success' same
        · obtain rfl := List.mem_singleton.mp new'
          exact absurd same (notBefore g old success)
      · obtain rfl := List.mem_singleton.mp new
        rcases List.mem_append.mp isFinal' with old' | new'
        · exact absurd same.symm (notBefore h old' success')
        · exact (List.mem_singleton.mp new').symm
    finals := by
      intro g isFinal created' versions' rows' verdict
      rcases List.mem_append.mp isFinal with old | new
      · exact (registry.finals g old created' versions' rows' verdict).mono (List.prefix_refl _)
          (fun _ isRead _ => isRead)
      · obtain rfl := List.mem_singleton.mp new
        obtain ⟨rfl, rfl, rfl⟩ := Verdict.succeeded.inj verdict
        exact right.mono (List.prefix_refl _) (fun _ isRead _ => isRead)
    rows := by
      intro r isRow
      rcases List.mem_append.mp isRow with old | new
      · obtain ⟨g, isFinal, rest⟩ := registry.rows r old
        exact ⟨g, more isFinal, rest⟩
      · exact ⟨_, here, created, versions, rows, rfl, new⟩
    builds := by
      intro b isBuild
      rcases List.mem_append.mp isBuild with old | new
      · exact (registry.builds b old).mono (List.prefix_refl _) more
      · obtain ⟨document, own, isDocument, isVersions, fresh | reused⟩ :=
          publishOrReuse_success published
        · obtain ⟨rfl, rfl, rfl, b', rfl, rfl, same⟩ := fresh
          have isNew : build = some b' := by
            have appended : s.builds ++ build.toList = s.builds ++ [b'] := congrArg State.builds same
            have singleton := List.append_cancel_left appended
            cases build with
            | none => cases singleton
            | some c => exact congrArg some (List.cons.inj singleton).1
          subst isNew
          obtain rfl := List.mem_singleton.mp new
          refine ⟨ready.proves isDocument isVersions, _, here, _, _, rfl, ?_⟩
          intro r isArtifact
          have mine := ready.own isVersions r isArtifact
          exact ⟨mine.key, mine.name⟩
        · obtain ⟨_, _, b', _, _, _, same⟩ := reused
          have appended : s.builds ++ build.toList = s.builds ++ [] := congrArg State.builds same
          rw [List.append_cancel_left appended] at new
          cases new
    removed := fun version isRemoved =>
      (registry.removed version isRemoved).mono (List.prefix_refl _) more }

theorem Registry.dropManifest (registry : Registry sha256 s) : Registry sha256 (s.dropManifest f) := by
  have dropped := registry.setManifest f.run (m := none) (fun new none => by cases none)
  exact dropped.frame (List.prefix_refl _) dropped.checksums dropped.names
    (fun _ row isRow isCreated => ⟨row, isRow, isCreated⟩) (fun _ _ _ _ isRead _ => isRead) rfl rfl
    (fun b isBuild => ⟨b, isBuild, rfl, rfl⟩) (fun _ isRemoved => .inl isRemoved)

theorem Registry.finalize (registry : Registry sha256 s) (ready : Ready sha256 i f s) :
    Registry sha256 (s.finalize settings i f now).2 := by
  rcases finalize_cases settings s i f now with
    ⟨verdict, refused, result⟩ | ⟨created, versions, rows, build, result, passes, published, done⟩
  · rw [result]
    refine registry.refused ?_
    rcases refused with early | ⟨_, e, rfl⟩
    · exact (requireCurrent_some early).1
    · rfl
  · have isCreated := (requireCurrent_none passes).2
    have right : Registry sha256 (committed s i f (.succeeded created versions rows) build result rows) :=
      (registry.published ready isCreated published).endTransaction i true
    rw [done]
    dsimp only
    split
    · exact right
    · exact right.dropManifest

theorem grown_of_recorded {t : State} {g : Final} {j : Nat} (other : j ≠ g.process)
    (store : t.store = s.store) (reads : t.contentReads = s.contentReads)
    (finals : t.finals = s.finals ++ [g]) : Grown j s t where
  objects := by rw [store]
  uploads found := ⟨_, store ▸ found, rfl, fun _ => rfl⟩
  reads read isRead _ := reads ▸ isRead
  finals := by
    rw [finals]
    exact List.subset_append_left _ _
  own f isFinal mine := by
    rw [finals] at isFinal
    rcases List.mem_append.mp isFinal with old | new
    · exact old
    · obtain rfl := List.mem_singleton.mp new
      exact absurd mine.symm other

theorem finalize_grown {j : Nat} (other : j ≠ i) : Grown j s (s.finalize settings i f now).2 := by
  rcases finalize_cases settings s i f now with
    ⟨verdict, _, result⟩ | ⟨created, versions, rows, build, result, _, _, done⟩
  · rw [result]
    exact grown_of_recorded (g := ⟨i, f, _, verdict⟩) other rfl rfl rfl
  · rw [done]
    dsimp only
    split
    · exact grown_of_recorded (g := ⟨i, f, _, .succeeded created versions rows⟩) other rfl rfl rfl
    · exact grown_of_recorded (g := ⟨i, f, _, .succeeded created versions rows⟩) other rfl rfl rfl

end Publishing

end Kdive.Builds
