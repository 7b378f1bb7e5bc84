import Kdive.Builds.Registered

/-!
`complete_build` keeps the registry. Reassembly leaves each chunked key a version made of chunks
that matched; both wrapper stores hold every later read of a key to the version its first HEAD
found; so what reaches the finalize is ready to be registered.
-/
namespace Kdive.Builds
open ObjectStore Uploads

variable {settings : Settings} {i : Nat} {s t u : State}

section Steps

structure Untouched (i : Nat) (s : State) : Prop where
  finals : ∀ f ∈ s.finals, f.process ≠ i
  reads : ∀ read ∈ s.contentReads, read.process ≠ i

theorem Untouched.later (untouched : Untouched i s) (later : Later i s t) : Untouched i t where
  finals f isFinal mine := untouched.finals f (later.own f isFinal mine) mine
  reads read isRead mine := untouched.reads read (later.reads read isRead mine) mine

def registryDiscipline (settings : Settings) : Calls.Discipline (service settings) where
  inv := Registry settings.sha256
  assumes _ _ _ := True
  rely := Grown
  fresh := Untouched
  rely_refl := Grown.refl
  rely_trans _ _ _ _ first second := first.trans second
  fresh_rely _ _ _ untouched grown := untouched.later grown.toLater
  leave_inv i commits _ registry := registry.endTransaction i commits
  leave_rely _ j _ _ _ _ := grown_of_same j rfl rfl rfl

def Request.plain : Request → Prop
  | .store (.head _ _) => True
  | .store (.createMultipartUpload _) => True
  | .store (.completeMultipartUpload _ _ _) => True
  | .store _ => False
  | .finalize _ _ => False
  | _ => True

theorem Registry.put (registry : Registry settings.sha256 s) (o : Object Key String)
    (checksum : ∀ digest, o.checksum = some digest → settings.sha256 o.content = digest) :
    Registry settings.sha256 { s with store := s.store.put o } ∧
      ∀ j, Grown j s { s with store := s.store.put o } := by
  have same : StoreOnly s { s with store := s.store.put o } := ⟨rfl, rfl, rfl, rfl, rfl, rfl, rfl⟩
  have more : s.store.objects <+: (s.store.put o).objects := List.prefix_append _ _
  refine ⟨registry.store same more ?_, fun j => same.grown_of_uploads j more rfl⟩
  intro o' isObject
  rcases List.mem_append.mp isObject with old | new
  · exact .inl old
  · obtain rfl := List.mem_singleton.mp new
    exact .inr checksum

theorem createUpload_grown {key : Key} (j : Nat) :
    Grown j s { s with store := (s.store.createUpload i key).2 } := by
  have same : StoreOnly s { s with store := (s.store.createUpload i key).2 } :=
    ⟨rfl, rfl, rfl, rfl, rfl, rfl, rfl⟩
  refine same.grown j (List.prefix_refl _) ?_
  intro n upload found
  exact ⟨upload, prefix_getElem? (List.prefix_append _ _) found, rfl, fun _ => rfl⟩

theorem Registry.setRunState (registry : Registry settings.sha256 s) {run : Uuid} {state : RunState}
    (notCreated : state ≠ .created) :
    let row := (s.runs run).map (fun row => { row with state := state })
    Registry settings.sha256 { s with runs := Function.update s.runs run row } := by
  refine registry.frame (List.prefix_refl _) registry.checksums registry.names ?_
    (fun _ _ _ _ isRead _ => isRead) rfl rfl (fun b isBuild => ⟨b, isBuild, rfl, rfl⟩)
    (fun _ isRemoved => .inl isRemoved)
  intro r row isRow isCreated
  change Function.update s.runs run _ r = some row at isRow
  rw [Function.update_apply] at isRow
  split at isRow
  · obtain ⟨_, _, rfl⟩ := Option.map_eq_some_iff.mp isRow
    exact absurd isCreated notCreated
  · exact ⟨row, isRow, isCreated⟩

theorem Registry.retireBuild (registry : Registry settings.sha256 s) (build : Nat) :
    Registry settings.sha256
      { s with builds := s.builds.modify build (fun b => { b with active := false }) } := by
  refine registry.frame (List.prefix_refl _) registry.checksums registry.names
    (fun _ row isRow isCreated => ⟨row, isRow, isCreated⟩) (fun _ _ _ _ isRead _ => isRead) rfl rfl
    ?_ (fun _ isRemoved => .inl isRemoved)
  intro b isBuild
  obtain ⟨n, found⟩ := List.mem_iff_getElem?.mp isBuild
  change (s.builds.modify build _)[n]? = some b at found
  rw [List.getElem?_modify] at found
  obtain ⟨old, isOld, rfl⟩ := Option.map_eq_some_iff.mp found
  refine ⟨old, List.mem_of_getElem? isOld, ?_⟩
  split <;> exact ⟨rfl, rfl⟩

theorem Registry.same (registry : Registry settings.sha256 s) (store : t.store = s.store)
    (manifests : t.manifests = s.manifests) (runs : t.runs = s.runs)
    (reads : t.contentReads = s.contentReads) (finals : t.finals = s.finals) (rows : t.rows = s.rows)
    (builds : t.builds = s.builds) (removed : t.removed = s.removed) :
    Registry settings.sha256 t ∧ ∀ j, Grown j s t := by
  have same : StoreOnly s t := ⟨manifests, runs, reads, finals, rows, builds, removed⟩
  refine ⟨registry.store same ?_ ?_, fun j => grown_of_same j store reads finals⟩
  · rw [store]
  · rw [store]
    exact fun _ isObject => .inl isObject

theorem Registry.completeUpload (registry : Registry settings.sha256 s) {key : Key} {upload : Nat}
    {parts : List Nat} {version : Nat} {store : Store Key String}
    (completed : s.store.completeUpload key upload parts = some (version, store)) :
    Registry settings.sha256 { s with store := store } ∧ ∀ j, Grown j s { s with store := store } := by
  rw [Store.completeUpload] at completed
  split at completed
  · split at completed
    · obtain ⟨contents, _, same⟩ := Option.map_eq_some_iff.mp completed
      obtain ⟨_, rfl⟩ := Prod.mk.inj same
      exact registry.put _ (fun digest none => by cases none)
    · cases completed
  · cases completed

theorem Registry.stays (registry : Registry settings.sha256 s) :
    Registry settings.sha256 s ∧ ∀ j, Grown j s s :=
  ⟨registry, fun j => Grown.refl j s⟩

theorem Registry.removeVersion (registry : Registry settings.sha256 s) (version : Nat) :
    Registry settings.sha256 { s with store := s.store.remove version } ∧
      ∀ j, Grown j s { s with store := s.store.remove version } := by
  have same : StoreOnly s { s with store := s.store.remove version } :=
    ⟨rfl, rfl, rfl, rfl, rfl, rfl, rfl⟩
  exact ⟨registry.store same (List.prefix_refl _) (fun _ isObject => .inl isObject),
    fun j => same.grown_of_uploads j (List.prefix_refl _) rfl⟩

theorem Registry.createUpload (registry : Registry settings.sha256 s) (key : Key) :
    Registry settings.sha256 { s with store := (s.store.createUpload i key).2 } ∧
      ∀ j, Grown j s { s with store := (s.store.createUpload i key).2 } := by
  have same : StoreOnly s { s with store := (s.store.createUpload i key).2 } :=
    ⟨rfl, rfl, rfl, rfl, rfl, rfl, rfl⟩
  exact ⟨registry.store same (List.prefix_refl _) (fun _ isObject => .inl isObject),
    fun j => createUpload_grown j⟩

theorem Registry.mint (registry : Registry settings.sha256 s) (run : Uuid)
    (entries : List ManifestEntry) (now : Instant) (ttl : Duration) :
    Registry settings.sha256 (s.mint run entries now ttl) ∧
      ∀ j, Grown j s (s.mint run entries now ttl) := by
  rw [State.mint]
  split
  · rename_i accepted
    obtain ⟨counted, -⟩ := registry.same (t := { s with mints := s.mints + 1 }) rfl rfl rfl rfl rfl rfl
      rfl rfl
    refine ⟨counted.setManifest run ?_, fun j => grown_of_same j rfl rfl rfl⟩
    intro new isNew e isEntry
    obtain rfl := Option.some.inj isNew
    have names := (Bool.and_eq_true_iff.mp accepted).2
    exact of_decide_eq_true (List.all_eq_true.mp names e isEntry)
  · exact registry.stays

theorem Registry.reap (registry : Registry settings.sha256 s) (run : Uuid) (now : Instant) :
    Registry settings.sha256 (s.reap run now) ∧ ∀ j, Grown j s (s.reap run now) := by
  rw [State.reap]
  split
  · split
    · exact ⟨registry.setManifest run (fun new none => by cases none),
        fun j => grown_of_same j rfl rfl rfl⟩
    · exact registry.stays
  · exact registry.stays

theorem serve_plain_store {r : StoreRequest} (plain : (Request.store r).plain)
    (registry : Registry settings.sha256 s) {a : (Request.store r).Answer}
    (served : s.serve settings i (.store r) = some (a, t)) :
    Registry settings.sha256 t ∧ ∀ j, Grown j s t := by
  cases r with
  | head key version =>
    cases served
    exact registry.stays
  | createMultipartUpload key =>
    cases served
    exact registry.createUpload key
  | completeMultipartUpload key upload parts =>
    obtain ⟨⟨version, store⟩, completed, same⟩ := Option.map_eq_some_iff.mp served
    obtain ⟨rfl, rfl⟩ := Prod.mk.inj same
    exact registry.completeUpload completed
  | getRange key version start length => exact plain.elim
  | uploadPartCopy key upload part sourceKey sourceVersion => exact plain.elim
  | abortMultipartUpload key upload => exact plain.elim
  | deleteVersion key version => exact plain.elim

/-- A call of this kind keeps the registry and is no concern of any process. -/
theorem serve_plain {r : Request} (plain : r.plain) (registry : Registry settings.sha256 s)
    {a : r.Answer} (served : s.serve settings i r = some (a, t)) :
    Registry settings.sha256 t ∧ ∀ j, Grown j s t := by
  cases r with
  | store r => exact serve_plain_store plain registry served
  | getRun run =>
    cases served
    exact registry.stays
  | getManifest run =>
    cases served
    exact registry.same rfl rfl rfl rfl rfl rfl rfl rfl
  | refreshDeadline run read now =>
    rw [State.serve] at served
    split at served
    · obtain rfl := Calls.state_eq served
      exact registry.same rfl rfl rfl rfl rfl rfl rfl rfl
    · cases served
  | existingBuildResult run =>
    cases served
    exact registry.stays
  | finalize f now => exact plain.elim
  | deleteManifest f =>
    cases served
    exact ⟨registry.dropManifest, fun j => grown_of_same j rfl rfl rfl⟩
  | mint run entries now ttl =>
    rw [State.serve] at served
    split at served
    · cases served
      exact registry.mint run entries now ttl
    · cases served
  | reap run now =>
    rw [State.serve] at served
    split at served
    · cases served
      exact registry.reap run now
    · cases served
  | put key content checksummed =>
    cases served
    refine registry.put _ ?_
    intro digest isDigest
    dsimp only at isDigest
    split at isDigest
    · exact Option.some.inj isDigest
    · cases isDigest
  | putDeleteMarker key =>
    cases served
    exact registry.put _ (fun digest none => by cases none)
  | removeVersion version =>
    cases served
    exact registry.removeVersion version
  | setRunState run state =>
    rw [State.serve] at served
    split at served
    · cases served
    · rename_i notCreated
      cases served
      exact ⟨registry.setRunState notCreated, fun j => grown_of_same j rfl rfl rfl⟩
  | setAccepting investigation accepting =>
    cases served
    exact registry.same rfl rfl rfl rfl rfl rfl rfl rfl
  | retireBuild build =>
    cases served
    exact ⟨registry.retireBuild build, fun j => grown_of_same j rfl rfl rfl⟩

end Steps

section Reassembly

theorem wp_plain {r : Request} {e : BuildError} {Q : r.Answer → State → Prop} (plain : r.plain)
    (next : ∀ t a u, Registry settings.sha256 t → Grown i s t → Grown i t u →
      t.serve settings i r = some (a, u) → Q a u) :
    Calls.wp (registryDiscipline settings) i Q Calls.anything (Calls.demand e r) s := by
  refine Calls.wp_demand (fun _ _ _ => trivial) ?_
  intro t registry grown _ a u served
  obtain ⟨kept, others⟩ := serve_plain (i := i) plain registry served
  exact ⟨⟨kept, fun j _ => others j⟩, trivial, next t a u registry grown (others i) served⟩

def PartRight (sha256 : Bytes → String) (objects : Objects) (run : Uuid) (name : String)
    (chunks : List ChunkEntry) (part : Nat) (content : Bytes) : Prop :=
  ∃ o ∈ objects, o.key = chunkKey run name part ∧ o.content = content ∧
    ∃ chunk, chunks[part - 1]? = some chunk ∧ content.length = chunk.sizeBytes ∧
      sha256 content = chunk.sha256

def ChunkHeads (sha256 : Bytes → String) (objects : Objects) (run : Uuid) (name : String)
    (chunks : List ChunkEntry) (heads : List (Key × Head String)) : Prop :=
  ∀ item ∈ heads, ∃ part o, item.1 = chunkKey run name part ∧
    objects[item.2.version]? = some o ∧ o.key = chunkKey run name part ∧
    PartRight sha256 objects run name chunks part o.content

variable {sha256 : Bytes → String} {objects objects' : Objects} {run : Uuid} {name : String}
  {chunks : List ChunkEntry} {heads : List (Key × Head String)}

theorem PartRight.mono (grown : objects <+: objects') {part : Nat} {content : Bytes}
    (right : PartRight sha256 objects run name chunks part content) :
    PartRight sha256 objects' run name chunks part content := by
  obtain ⟨o, isObject, rest⟩ := right
  exact ⟨o, grown.subset isObject, rest⟩

theorem ChunkHeads.mono (grown : objects <+: objects')
    (right : ChunkHeads sha256 objects run name chunks heads) :
    ChunkHeads sha256 objects' run name chunks heads := by
  intro item isItem
  obtain ⟨part, o, key, found, isKey, matching⟩ := right item isItem
  exact ⟨part, o, key, prefix_getElem? grown found, isKey, matching.mono grown⟩

theorem drop_cons {all rest : List ChunkEntry} {chunk : ChunkEntry} {part : Nat}
    (positive : 1 ≤ part) (later : all.drop (part - 1) = chunk :: rest) :
    all[part - 1]? = some chunk ∧ all.drop (part + 1 - 1) = rest := by
  constructor
  · have head := congrArg (fun l : List ChunkEntry => l[0]?) later
    rw [List.getElem?_drop] at head
    exact head
  · have tail := congrArg List.tail later
    rw [List.tail_drop, show part - 1 + 1 = part + 1 - 1 by omega] at tail
    exact tail

theorem chunksMatch_of_parts (all : List ChunkEntry) :
    ∀ {part : Nat} {chunks : List ChunkEntry} {contents : List Bytes}, all.drop (part - 1) = chunks →
      1 ≤ part →
      List.Forall₂ (PartRight sha256 objects run name all) (List.range' part chunks.length) contents →
      ∃ parts, ChunksMatch sha256 objects run name part chunks parts ∧
        contents = parts.map Object.content := by
  intro part chunks
  induction chunks generalizing part with
  | nil =>
    intro contents _ _ related
    cases related
    exact ⟨[], trivial, rfl⟩
  | cons chunk rest ih =>
    intro contents suffix positive related
    rw [List.length_cons, List.range'_succ] at related
    obtain ⟨content, others, here, later, rfl⟩ := List.forall₂_cons_left_iff.mp related
    obtain ⟨o, isObject, key, rfl, chunk', declared, size, digest⟩ := here
    obtain ⟨first, rest'⟩ := drop_cons positive suffix
    obtain rfl : chunk = chunk' := Option.some.inj (first.symm.trans declared)
    obtain ⟨parts, matching, rfl⟩ := ih rest' (by omega) later
    exact ⟨o :: parts, ⟨isObject, key, size, digest, matching⟩, rfl⟩

theorem verifyChunks_wp (all : List ChunkEntry) :
    ∀ {part : Nat} {chunks : List ChunkEntry} {s : State}, all.drop (part - 1) = chunks → 1 ≤ part →
      Calls.wp (registryDiscipline settings) i (fun heads t => Later i s t ∧
          ChunkHeads settings.sha256 t.store.objects run name all heads) Calls.anything
        (verifyChunks run name part chunks) s := by
  intro part chunks
  induction chunks generalizing part with
  | nil =>
    intro s _ _
    refine ⟨Later.refl i s, ?_⟩
    intro item none
    cases none
  | cons chunk rest ih =>
    intro s suffix positive
    rw [verifyChunks, Calls.wp_bind]
    refine wp_plain trivial ?_
    intro t answer u registry grown grown' served
    cases served
    cases found : t.store.head (chunkKey run name part) none with
    | none => trivial
    | some head =>
      dsimp only
      split
      · trivial
      · rename_i agrees
        rw [not_or, not_not, not_not] at agrees
        obtain ⟨first, rest'⟩ := drop_cons positive suffix
        rw [Calls.wp_bind]
        refine Calls.wp_mono (ih rest' (by omega)) ?_ (fun _ _ _ => trivial)
        intro heads v right
        obtain ⟨later, right⟩ := right
        refine ⟨grown.toLater.trans later, ?_⟩
        intro item isItem
        rcases List.mem_cons.mp isItem with rfl | old
        · obtain ⟨o, isObject, key, size, checksum, _⟩ := Store.head_spec found
          have there := prefix_getElem? later.objects isObject
          have digest := registry.checksums o (List.mem_of_getElem? isObject) chunk.sha256
            (checksum.symm.trans agrees.2)
          exact ⟨part, o, rfl, there, key, o, List.mem_of_getElem? there, key, rfl, chunk, first,
            size.symm.trans agrees.1, digest⟩
        · exact right item old

def Copying (settings : Settings) (run : Uuid) (name : String) (chunks : List ChunkEntry) (i upload : Nat)
    (s : State) : Prop :=
  ∃ v, s.store.uploads[upload]? = some v ∧ v.initiator = i ∧ ∀ part content,
    v.parts.lookup part = some content →
      PartRight settings.sha256 s.store.objects run name chunks part content

theorem Copying.grown {upload : Nat} (copying : Copying settings run name chunks i upload s)
    (grown : Grown i s t) : Copying settings run name chunks i upload t := by
  obtain ⟨v, found, initiator, parts⟩ := copying
  obtain ⟨w, there, _, own⟩ := grown.uploads found
  rw [own initiator] at there
  refine ⟨v, there, initiator, ?_⟩
  intro part content isPart
  exact (parts part content isPart).mono grown.objects

theorem Registry.ownUpload (registry : Registry settings.sha256 s) {upload : Nat} {v w : Upload Key}
    (found : s.store.uploads[upload]? = some v) (mine : v.initiator = i) (still : w.initiator = i) :
    let store := { s.store with uploads := s.store.uploads.set upload w }
    Calls.Allows (registryDiscipline settings) i s { s with store := store } ∧
      Later i s { s with store := store } := by
  intro store
  have same : StoreOnly s { s with store := store } := ⟨rfl, rfl, rfl, rfl, rfl, rfl, rfl⟩
  refine ⟨⟨registry.store same (List.prefix_refl _) (fun _ isObject => .inl isObject), ?_⟩,
    ⟨List.prefix_refl _, fun _ isRead _ => isRead, fun _ isFinal _ => isFinal⟩⟩
  intro j other
  refine same.grown j (List.prefix_refl _) ?_
  intro n x isUpload
  change ∃ u', (s.store.uploads.set upload w)[n]? = some u' ∧ _
  by_cases isOwn : upload = n
  · subst isOwn
    obtain rfl := Option.some.inj (found.symm.trans isUpload)
    refine ⟨w, ?_, still.trans mine.symm, fun theirs => absurd (theirs.symm.trans mine) other⟩
    rw [List.getElem?_set_self']
    rw [isUpload]
    rfl
  · rw [List.getElem?_set_ne isOwn]
    exact ⟨x, isUpload, rfl, fun _ => rfl⟩

theorem Copying.copyPart {upload part : Nat} {head : Head String} {store : Store Key String}
    (registry : Registry settings.sha256 s)
    (right : ChunkHeads settings.sha256 s.store.objects run name chunks heads)
    (copying : Copying settings run name chunks i upload s)
    (isHead : heads.lookup (chunkKey run name part) = some head)
    (copied : s.store.copyPart (artifactKey run name) upload part (chunkKey run name part)
      head.version = some store) :
    Calls.Allows (registryDiscipline settings) i s { s with store := store } ∧
      Later i s { s with store := store } ∧
      Copying settings run name chunks i upload { s with store := store } := by
  obtain ⟨v, found, mine, matching⟩ := copying
  rw [Store.copyPart, found] at copied
  split at copied
  · rename_i v' _ o isUpload source
    obtain rfl := Option.some.inj isUpload
    split at copied
    · obtain rfl := Option.some.inj copied
      let w : Upload Key := ⟨v.key, v.initiator, (part, o.content) :: v.parts⟩
      obtain ⟨allowed, later⟩ := registry.ownUpload (w := w) found mine mine
      refine ⟨allowed, later, w, ?_, mine, ?_⟩
      · rw [List.getElem?_set_self', found]
        rfl
      · intro n content isPart
        obtain ⟨part', o', key, there, isKey, partRight⟩ := right _ (mem_of_lookup isHead)
        obtain ⟨there', _, pinned⟩ := Store.find_spec source
        rw [pinned _ rfl] at there'
        obtain rfl := Option.some.inj (there.symm.trans there')
        obtain rfl := chunkKey_injective key
        rw [List.lookup_cons] at isPart
        split at isPart
        · rename_i isThis
          obtain rfl := Option.some.inj isPart
          rw [eq_of_beq isThis]
          exact partRight
        · exact matching n content isPart
    · cases copied
  · cases copied

theorem copyParts_wp {upload : Nat} {parts : List Nat}
    (right : ChunkHeads settings.sha256 s.store.objects run name chunks heads)
    (copying : Copying settings run name chunks i upload s) :
    Calls.wp (registryDiscipline settings) i
      (fun _ t => Later i s t ∧ Copying settings run name chunks i upload t)
      (fun _ t => Copying settings run name chunks i upload t)
      (copyParts run name upload heads parts) s := by
  induction parts generalizing s with
  | nil => exact ⟨Later.refl i s, copying⟩
  | cons part rest ih =>
    rw [copyParts]
    split
    · exact copying
    · rename_i head isHead
      let copy := StoreRequest.uploadPartCopy (artifactKey run name) upload part
        (chunkKey run name part) head.version
      change Calls.wp _ i _ _ (callStore "upload_part_copy" copy >>= fun _ =>
        copyParts run name upload heads rest) s
      rw [Calls.wp_bind]
      refine Calls.wp_demand (fun t _ grown => copying.grown grown) ?_
      intro t registry grown _ a u served
      obtain ⟨store, copied, same⟩ := Option.map_eq_some_iff.mp served
      obtain ⟨_, rfl⟩ := Prod.mk.inj same
      have right' := right.mono grown.objects
      obtain ⟨allowed, later, copying'⟩ :=
        (copying.grown grown).copyPart registry right' isHead copied
      refine ⟨allowed, copying', ?_⟩
      refine Calls.wp_mono (ih (right'.mono later.objects) copying') ?_ (fun _ _ still => still)
      intro _ w done
      exact ⟨grown.toLater.trans (later.trans done.1), done.2⟩

def Reassembles (settings : Settings) (run : Uuid) (name : String) (chunks : List ChunkEntry)
    (version : Nat) (s : State) : Prop :=
  ∃ o, s.store.objects[version]? = some o ∧ o.key = artifactKey run name ∧
    Assembled settings.sha256 s.store.objects name chunks o.content

theorem Reassembles.mono {version : Nat} (right : Reassembles settings run name chunks version s)
    (grown : s.store.objects <+: t.store.objects) :
    Reassembles settings run name chunks version t := by
  obtain ⟨o, found, key, assembled⟩ := right
  exact ⟨o, prefix_getElem? grown found, key, assembled.mono grown⟩

theorem completeUpload_reassembles {upload version : Nat} {store : Store Key String}
    (copying : Copying settings run name chunks i upload s)
    (completed : s.store.completeUpload (artifactKey run name) upload
      (List.range' 1 chunks.length) = some (version, store)) :
    Reassembles settings run name chunks version { s with store := store } := by
  obtain ⟨v, found, _, matching⟩ := copying
  rw [Store.completeUpload, found] at completed
  dsimp only at completed
  split at completed
  · obtain ⟨contents, mapped, same⟩ := Option.map_eq_some_iff.mp completed
    obtain ⟨rfl, rfl⟩ := Prod.mk.inj same
    have related : List.Forall₂ (PartRight settings.sha256 s.store.objects run name chunks)
        (List.range' 1 chunks.length) contents :=
      (mapM_forall₂ mapped).imp (fun part content isPart => matching part content isPart)
    obtain ⟨parts, isWhole, rfl⟩ := chunksMatch_of_parts chunks rfl (Nat.le_refl 1) related
    refine ⟨_, List.getElem?_concat_length, rfl, run, parts, ?_, rfl⟩
    exact isWhole.mono (List.prefix_append _ _)
  · cases completed

theorem abort_wp {upload : Nat} {e : BuildError} {Q : List (Key × Head String) × Nat → State → Prop}
    (copying : Copying settings run name chunks i upload s) :
    Calls.wp (registryDiscipline settings) i Q Calls.anything (do
      let _ ← Calls.ask (Request.store (.abortMultipartUpload (artifactKey run name) upload))
      Calls.throw e) s := by
  rw [Calls.wp_bind]
  refine Calls.wp_ask (fun _ _ _ => trivial) ?_
  intro t registry grown _ a u served
  cases served
  obtain ⟨v, found, mine, _⟩ := copying.grown grown
  refine ⟨?_, trivial, trivial⟩
  have allowed := (registry.ownUpload (w := ⟨v.key, v.initiator, []⟩) found mine mine).1
  have same : t.store.uploads.modify upload (fun v => { v with parts := [] }) =
      t.store.uploads.set upload ⟨v.key, v.initiator, []⟩ := by
    rw [List.modify_eq_set_getElem?, found]
    rfl
  change Calls.Allows _ i t { t with store := { t.store with uploads := _ } }
  rw [same]
  exact allowed

theorem reassembleChunked_wp :
    Calls.wp (registryDiscipline settings) i (fun made t => Later i s t ∧
        ChunkHeads settings.sha256 t.store.objects run name chunks made.1 ∧
        Reassembles settings run name chunks made.2 t) Calls.anything
      (reassembleChunked run name chunks) s := by
  rw [reassembleChunked, Calls.wp_bind]
  refine Calls.wp_mono (verifyChunks_wp chunks rfl (Nat.le_refl 1)) ?_ (fun _ _ _ => trivial)
  intro heads t verified
  obtain ⟨later, right⟩ := verified
  rw [Calls.wp_bind]
  refine wp_plain trivial ?_
  intro t' upload u _ grown grown' served
  have since : Later i s u := later.trans (grown.toLater.trans grown'.toLater)
  have right' := (right.mono grown.objects).mono grown'.objects
  have copying : Copying settings run name chunks i upload u := by
    obtain ⟨rfl, rfl⟩ := Prod.mk.inj (Option.some.inj served)
    refine ⟨⟨artifactKey run name, i, []⟩, List.getElem?_concat_length, rfl, ?_⟩
    intro part content none
    cases none
  rw [Calls.wp_rescue, Calls.wp_bind]
  refine Calls.wp_mono (copyParts_wp right' copying) ?_ (fun e v copying => abort_wp copying)
  intro _ v copied
  obtain ⟨later', copying⟩ := copied
  rw [Calls.wp_bind]
  refine Calls.wp_demand (fun w _ grown => abort_wp (copying.grown grown)) ?_
  intro w registry grown _ version x served
  have plain : Request.plain (.store (.completeMultipartUpload (artifactKey run name) upload
    (List.range' 1 chunks.length))) := trivial
  obtain ⟨kept, others⟩ := serve_plain (i := i) plain registry served
  have copying' := copying.grown grown
  refine ⟨⟨kept, fun j _ => others j⟩, abort_wp (copying'.grown (others i)), ?_⟩
  obtain ⟨⟨version, store⟩, completed, same⟩ := Option.map_eq_some_iff.mp served
  obtain ⟨rfl, rfl⟩ := Prod.mk.inj same
  have later'' : Later i u _ := later'.trans (grown.toLater.trans (others i).toLater)
  exact ⟨since.trans later'', right'.mono later''.objects, completeUpload_reassembles copying' completed⟩

/-- What reassembly has made of the entries processed so far, as a dictionary by name. -/
structure ReassembledRight (settings : Settings) (run : Uuid) (dict : List (String × ManifestEntry))
    (made : Reassembled) (s : State) : Prop where
  heads : ∀ item ∈ made.chunkHeads, ∃ o, s.store.objects[item.2.version]? = some o ∧
    ∃ run name part, o.key = chunkKey run name part
  versions : ∀ named ∈ dict, ∀ chunks, named.2.chunks = some chunks → ∃ version,
    made.finalVersions (artifactKey run named.1) = some version ∧
      Reassembles settings run named.1 chunks version s

theorem ReassembledRight.mono {dict : List (String × ManifestEntry)} {made : Reassembled}
    (right : ReassembledRight settings run dict made s)
    (grown : s.store.objects <+: t.store.objects) :
    ReassembledRight settings run dict made t where
  heads item isItem := by
    obtain ⟨o, found, key⟩ := right.heads item isItem
    exact ⟨o, prefix_getElem? grown found, key⟩
  versions named isNamed chunks isChunked := by
    obtain ⟨version, isVersion, whole⟩ := right.versions named isNamed chunks isChunked
    exact ⟨version, isVersion, whole.mono grown⟩

theorem ReassembledRight.skip {dict : List (String × ManifestEntry)} {made : Reassembled}
    {entry : ManifestEntry} (right : ReassembledRight settings run dict made s)
    (single : entry.chunks = none) :
    ReassembledRight settings run (insertKey dict (entry.name, entry)) made s where
  heads := right.heads
  versions named isNamed chunks isChunked := by
    rcases mem_insertKey isNamed with rfl | ⟨old, _⟩
    · rw [single] at isChunked
      cases isChunked
    · exact right.versions named old chunks isChunked

theorem ReassembledRight.made {dict : List (String × ManifestEntry)} {made : Reassembled}
    {entry : ManifestEntry} {version : Nat} (right : ReassembledRight settings run dict made s)
    (chunked : entry.chunks = some chunks)
    (isHeads : ChunkHeads settings.sha256 s.store.objects run entry.name chunks heads)
    (whole : Reassembles settings run entry.name chunks version s) :
    ReassembledRight settings run (insertKey dict (entry.name, entry))
      ⟨heads.foldl insertKey made.chunkHeads,
        Function.update made.finalVersions (artifactKey run entry.name) (some version)⟩ s where
  heads item isItem := by
    rcases mem_foldl_insertKey isItem with new | old
    · obtain ⟨part, o, _, found, key, _⟩ := isHeads item new
      exact ⟨o, found, run, entry.name, part, key⟩
    · exact right.heads item old
  versions named isNamed chunks' isChunked := by
    rcases mem_insertKey isNamed with rfl | ⟨old, different⟩
    · obtain rfl := Option.some.inj (chunked.symm.trans isChunked)
      exact ⟨version, Function.update_self _ _ _, whole⟩
    · obtain ⟨version', isVersion, whole'⟩ := right.versions named old chunks' isChunked
      refine ⟨version', ?_, whole'⟩
      dsimp only
      rw [Function.update_of_ne]
      · exact isVersion
      · intro same
        exact different (artifactKey_injective same).2

theorem reassembleArtifacts_wp {entries : List ManifestEntry} {dict : List (String × ManifestEntry)}
    {made : Reassembled} (right : ReassembledRight settings run dict made s) :
    Calls.wp (registryDiscipline settings) i (fun made t => Later i s t ∧ ReassembledRight settings run
        (entries.foldl (fun dict e => insertKey dict (e.name, e)) dict) made t) Calls.anything
      (reassembleArtifacts run entries made) s := by
  induction entries generalizing dict made s with
  | nil => exact ⟨Later.refl i s, right⟩
  | cons entry rest ih =>
    rw [reassembleArtifacts, List.foldl_cons]
    split
    · exact ih (right.skip ‹_›)
    · rename_i chunks chunked
      rw [Calls.wp_bind]
      refine Calls.wp_mono reassembleChunked_wp ?_ (fun _ _ _ => trivial)
      rintro ⟨heads, version⟩ t ⟨later, isHeads, whole⟩
      refine Calls.wp_mono (ih ((right.mono later.objects).made chunked isHeads whole)) ?_
        (fun _ _ _ => trivial)
      intro made' u done
      exact ⟨later.trans done.1, done.2⟩

theorem nothingReassembled {dict : List (String × ManifestEntry)}
    (single : ∀ named ∈ dict, named.2.chunks = none) :
    ReassembledRight settings run dict ⟨[], fun _ => none⟩ s where
  heads item none := by cases none
  versions named isNamed chunks chunked := by
    rw [single named isNamed] at chunked
    cases chunked

theorem reassembleIfChunked_wp {call : CompleteBuildCall} {manifest : UploadManifest} :
    Calls.wp (registryDiscipline settings) i (fun done t => Later i s t ∧
        ReassembledRight settings call.run (byName manifest.entries) done.2 t) Calls.anything
      (reassembleIfChunked call manifest) s := by
  rw [reassembleIfChunked]
  split
  · rw [reassembleChunkedArtifacts, Calls.wp_bind]
    refine wp_plain trivial ?_
    intro t refreshed u _ grown grown' _
    have since : Later i s u := grown.toLater.trans grown'.toLater
    cases refreshed with
    | none =>
      dsimp only
      rw [Calls.wp_bind]
      refine wp_plain trivial ?_
      intro _ recorded _ _ _ _ _
      cases recorded <;> trivial
    | some deadline =>
      dsimp only
      rw [Calls.wp_bind, Calls.wp_rescue]
      have nothing : ReassembledRight settings call.run [] ⟨[], fun _ => none⟩ u :=
        nothingReassembled (fun named none => by cases none)
      refine Calls.wp_mono (reassembleArtifacts_wp nothing) ?_ ?_
      · intro made v done
        exact ⟨since.trans done.1, done.2⟩
      · intro e v _
        rw [Calls.wp_bind]
        refine wp_plain trivial ?_
        intro _ recorded _ _ _ _ _
        cases recorded <;> trivial
  · rename_i single
    refine ⟨Later.refl i s, nothingReassembled ?_⟩
    intro named isNamed
    have isEntry := (mem_byName isNamed).2
    cases chunked : named.2.chunks with
    | none => rfl
    | some chunks =>
      refine absurd ?_ single
      exact List.any_eq_true.mpr ⟨named.2, isEntry, by rw [chunked]; rfl⟩

end Reassembly

section Validation

abbrev Heard := Key → Option (Head String)

def heardReply (g : Heard) : (r : ReadRequest) → Option r.Answer → Heard → Prop
  | .head key, some (some head), g' =>
    (∀ h, g key = some h → h = head) ∧ g' = Function.update g key (some head)
  | .head _, some none, g' => g' = g
  | .head _, none, g' => g' = g
  | .getRange _ _ _ _, _, g' => g' = g

def Extends (g g' : Heard) : Prop := ∀ key h, g key = some h → g' key = some h

theorem heardReply_extends {g g' : Heard} {r : ReadRequest} {answer : Option r.Answer}
    (replied : heardReply g r answer g') : Extends g g' := by
  intro key h found
  match r, answer, replied with
  | .head key', some (some head), ⟨same, updated⟩ =>
    rw [updated]
    by_cases isKey : key = key'
    · subst isKey
      rw [Function.update_self, same h found]
    · rw [Function.update_of_ne isKey]
      exact found
  | .head _, some none, same => exact same ▸ found
  | .head _, none, same => exact same ▸ found
  | .getRange _ _ _ _, _, same => exact same ▸ found

theorem answers_extends {α : Type} {g₀ g : Heard} (p : Reads α) (since : Extends g₀ g) :
    Calls.Answers heardReply (fun _ g => Extends g₀ g) p g :=
  Calls.answers_of_invariant p
    (fun _ _ _ _ since replied key h found => heardReply_extends replied key h (since key h found))
    since

def Validated (keys : String → Option Key) (g : Heard) (named : String × ManifestEntry)
    (head : String × Head String) : Prop :=
  head.1 = named.1 ∧ checkHead named.2 head.2 = .ok () ∧
    ∃ key, keys named.1 = some key ∧ g key = some head.2

theorem Validated.extends {keys : String → Option Key} {g g' : Heard}
    {named : String × ManifestEntry} {head : String × Head String}
    (valid : Validated keys g named head) (more : Extends g g') : Validated keys g' named head := by
  obtain ⟨name, agrees, key, isKey, heard⟩ := valid
  exact ⟨name, agrees, key, isKey, more key head.2 heard⟩

variable {checks : ContentChecks} {keys : String → Option Key} {arch : String} {g : Heard}

theorem validateOneArtifact_answers {name : String} {entry : ManifestEntry} {key : Key} :
    Calls.Answers heardReply (fun head g' => Extends g g' ∧ checkHead entry head = .ok () ∧
        g' key = some head)
      (validateOneArtifact checks name entry key arch) g := by
  rw [validateOneArtifact, Calls.answers_bind]
  intro answer g' replied
  have more := heardReply_extends replied
  rcases answer with _ | _ | head
  · trivial
  · trivial
  · dsimp only [Calls.Answers]
    split
    · trivial
    · rename_i agrees
      rw [Calls.answers_bind]
      refine Calls.answers_mono (answers_extends _ (fun _ _ found => found)) ?_
      intro _ g'' more'
      refine ⟨fun k h found => more' k h (more k h found), agrees, more' key head ?_⟩
      rw [replied.2]
      exact Function.update_self _ _ _

theorem validateAll_answers {named : List (String × ManifestEntry)} :
    Calls.Answers heardReply (fun heads g' => Extends g g' ∧
        List.Forall₂ (Validated keys g') named heads)
      (validateAll checks keys arch named) g := by
  induction named generalizing g with
  | nil => exact ⟨fun _ _ found => found, .nil⟩
  | cons item rest ih =>
    obtain ⟨name, entry⟩ := item
    rw [validateAll]
    split
    · trivial
    · rename_i key isKey
      rw [Calls.answers_bind]
      refine Calls.answers_mono validateOneArtifact_answers ?_
      intro head g' one
      obtain ⟨more, agrees, heard⟩ := one
      rw [Calls.answers_bind]
      refine Calls.answers_mono ih ?_
      intro heads g'' others
      obtain ⟨more', related⟩ := others
      exact ⟨fun k h found => more' k h (more k h found),
        .cons ⟨rfl, agrees, key, isKey, more' key head heard⟩ related⟩

theorem validateExternalArtifacts_answers {manifest : List ManifestEntry} {declared : Option String} :
    Calls.Answers heardReply (fun output g' => keys "kernel" = some output.kernelRef ∧
        output.debuginfoRef = keys "vmlinux" ∧
        List.Forall₂ (Validated keys g') (byName manifest) output.heads)
      (validateExternalArtifacts checks manifest keys declared arch) g := by
  rw [validateExternalArtifacts]
  split
  · trivial
  · split
    · trivial
    · rename_i kernel isKernel
      rw [Calls.answers_bind]
      refine Calls.answers_mono validateAll_answers ?_
      intro heads g' all
      rw [Calls.answers_bind]
      refine Calls.answers_mono (answers_extends _ (fun _ _ found => found)) ?_
      intro buildId g'' more
      rw [Calls.answers_bind]
      refine Calls.answers_mono (answers_extends _ more) ?_
      intro evidence g''' more
      exact ⟨isKernel, rfl, all.2.imp (fun _ _ valid => valid.extends more)⟩

/-- Both wrapper stores know the version of every key heard of, and the process has read no other. -/
structure PinnedTo (sha256 : Bytes → String) (before : Objects) (versions : Key → Option Nat) (i : Nat)
    (g : Heard) (wrappers : (Key → Option Nat) × (Key → Option Nat)) (s : State) : Prop where
  outer : ∀ key, wrappers.1 key = (g key).map Head.version
  inner : ∀ key, wrappers.2 key = (g key).map Head.version
  fixed : ∀ key h, g key = some h → ∀ v, versions key = some v → h.version = v
  heads : ∀ key h, g key = some h → ∃ o, s.store.objects[h.version]? = some o ∧ o.key = key ∧
    h.size = o.content.length ∧ h.checksum = o.checksum ∧
    ∀ digest, o.checksum = some digest → sha256 o.content = digest
  since : before <+: s.store.objects
  reads : ∀ read ∈ s.contentReads, read.process = i →
    ∃ h, g read.key = some h ∧ h.version = read.version
  finals : ∀ f ∈ s.finals, f.process ≠ i

variable {sha256 : Bytes → String} {before : Objects} {versions : Key → Option Nat}
  {wrappers : (Key → Option Nat) × (Key → Option Nat)}

theorem PinnedTo.later (pinned : PinnedTo sha256 before versions i g wrappers s)
    (later : Later i s t) : PinnedTo sha256 before versions i g wrappers t where
  outer := pinned.outer
  inner := pinned.inner
  fixed := pinned.fixed
  heads key h heard := by
    obtain ⟨o, found, rest⟩ := pinned.heads key h heard
    exact ⟨o, prefix_getElem? later.objects found, rest⟩
  since := pinned.since.trans later.objects
  reads read isRead mine := pinned.reads read (later.reads read isRead mine) mine
  finals f isFinal mine := pinned.finals f (later.own f isFinal mine) mine

theorem PinnedTo.again (pinned : PinnedTo sha256 before versions i g wrappers s) {key : Key} {h head : Head String}
    (heard : g key = some h)
    (found : s.store.head key ((versions key).or (wrappers.2 key)) = some head) : h = head := by
  obtain ⟨o, there, _, size, checksum, atVersion⟩ := Store.head_spec found
  obtain ⟨o', there', _, size', checksum', _⟩ := pinned.heads key h heard
  have version : head.version = h.version := by
    cases isExact : versions key with
    | some v =>
      rw [isExact] at atVersion
      rw [atVersion v rfl, pinned.fixed key h heard v isExact]
    | none =>
      rw [isExact, pinned.inner, heard] at atVersion
      exact atVersion h.version rfl
  rw [version] at there
  obtain rfl := Option.some.inj (there.symm.trans there')
  cases h
  cases head
  simp only [Head.mk.injEq]
  exact ⟨version.symm, size'.trans size.symm, checksum'.trans checksum.symm⟩

theorem PinnedTo.hear (pinned : PinnedTo sha256 before versions i g wrappers s)
    (registry : Registry sha256 s) {key : Key} {head : Head String}
    (found : s.store.head key ((versions key).or (wrappers.2 key)) = some head) :
    PinnedTo sha256 before versions i (Function.update g key (some head))
      (Function.update wrappers.1 key (some head.version),
        Function.update wrappers.2 key (some head.version)) s := by
  have updated (w : Key → Option Nat) (agrees : ∀ key, w key = (g key).map Head.version) (k : Key) :
      Function.update w key (some head.version) k =
        (Function.update g key (some head) k).map Head.version := by
    by_cases isKey : k = key
    · subst isKey
      rw [Function.update_self, Function.update_self]
      rfl
    · rw [Function.update_of_ne isKey, Function.update_of_ne isKey]
      exact agrees k
  obtain ⟨o, there, isKey, size, checksum, atVersion⟩ := Store.head_spec found
  refine ⟨updated _ pinned.outer, updated _ pinned.inner, ?_, ?_, pinned.since, ?_, pinned.finals⟩
  · intro k h heard v isExact
    by_cases same : k = key
    · subst same
      rw [Function.update_self] at heard
      obtain rfl := Option.some.inj heard
      rw [isExact] at atVersion
      exact atVersion v rfl
    · rw [Function.update_of_ne same] at heard
      exact pinned.fixed k h heard v isExact
  · intro k h heard
    by_cases same : k = key
    · subst same
      rw [Function.update_self] at heard
      obtain rfl := Option.some.inj heard
      exact ⟨o, there, isKey, size, checksum, registry.checksums o (List.mem_of_getElem? there)⟩
    · rw [Function.update_of_ne same] at heard
      exact pinned.heads k h heard
  · intro read isRead mine
    obtain ⟨h, heard, version⟩ := pinned.reads read isRead mine
    by_cases same : read.key = key
    · rw [same] at heard ⊢
      exact ⟨h, by rw [Function.update_self, pinned.again heard found], version⟩
    · exact ⟨h, by rw [Function.update_of_ne same]; exact heard, version⟩

theorem Registry.read (registry : Registry settings.sha256 s) (key : Key) (version : Nat)
    (first : ∀ f ∈ s.finals, f.process ≠ i) :
    let read : ContentRead := ⟨i, key, version⟩
    Calls.Allows (registryDiscipline settings) i s
      { s with contentReads := s.contentReads ++ [read] } := by
  intro read
  constructor
  · refine registry.frame (List.prefix_refl _) registry.checksums registry.names
      (fun _ row isRow isCreated => ⟨row, isRow, isCreated⟩) ?_ rfl rfl
      (fun b isBuild => ⟨b, isBuild, rfl, rfl⟩) (fun _ isRemoved => .inl isRemoved)
    intro f isFinal _ read' isRead theirs
    rcases List.mem_append.mp isRead with old | new
    · exact old
    · obtain rfl := List.mem_singleton.mp new
      exact absurd theirs.symm (first f isFinal)
  · intro j other
    refine ⟨⟨List.prefix_refl _, ?_, fun _ isFinal _ => isFinal⟩,
      fun found => ⟨_, found, rfl, fun _ => rfl⟩, List.Subset.refl _⟩
    intro read' isRead mine
    rcases List.mem_append.mp isRead with old | new
    · exact old
    · obtain rfl := List.mem_singleton.mp new
      exact absurd mine.symm other

/-- The two wrapper stores together answer every key with the version its first HEAD found. -/
theorem wrappers_pin (before : Objects) (versions : Key → Option Nat) (i : Nat) (g : Heard)
    (wrappers : (Key → Option Nat) × (Key → Option Nat)) (r : ReadRequest) (s : State)
    (pinned : PinnedTo settings.sha256 before versions i g wrappers s) :
    Calls.wp (registryDiscipline settings) i (fun heard t => ∃ g', heardReply g r heard.1 g' ∧
        PinnedTo settings.sha256 before versions i g' heard.2 t)
      Calls.anything (observedVersionStore (versionPinnedStore versions) wrappers r) s := by
  obtain ⟨outer, inner⟩ := wrappers
  cases r with
  | head key =>
    rw [observedVersionStore, versionPinnedStore, Calls.wp_bind, Calls.wp_bind]
    refine Calls.wp_ask ?_ ?_
    · intro t _ grown
      exact ⟨g, rfl, pinned.later grown.toLater⟩
    · intro t registry grown _ a u served
      cases served
      have pinned' := pinned.later grown.toLater
      refine ⟨⟨registry, fun j _ => Grown.refl j t⟩, ⟨g, rfl, pinned'⟩, ?_⟩
      cases found : t.store.head key ((versions key).or (inner key)) with
      | none => exact ⟨g, rfl, pinned'⟩
      | some head =>
        exact ⟨_, ⟨fun h heard => pinned'.again heard found, rfl⟩, pinned'.hear registry found⟩
  | getRange key start length version =>
    rw [observedVersionStore]
    split
    · rename_i version isVersion
      rw [versionPinnedStore, Calls.wp_bind, Calls.wp_bind]
      refine Calls.wp_ask ?_ ?_
      · intro t _ grown
        exact ⟨g, rfl, pinned.later grown.toLater⟩
      · intro t registry grown _ a u served
        have pinned' := pinned.later grown.toLater
        change t.serveStore i (.getRange key (some version) start length) = some (a, u) at served
        rw [State.serveStore] at served
        split at served
        · rename_i found o isFound
          obtain ⟨rfl, rfl⟩ := Prod.mk.inj (Option.some.inj served)
          obtain ⟨_, _, atVersion⟩ := Store.find_spec isFound
          have heard : PinnedTo settings.sha256 before versions i g (outer, inner)
              { t with contentReads := t.contentReads ++ [⟨i, key, found⟩] } := by
            refine ⟨pinned'.outer, pinned'.inner, pinned'.fixed, pinned'.heads, pinned'.since, ?_,
              pinned'.finals⟩
            intro read isRead mine
            rcases List.mem_append.mp isRead with old | new
            · exact pinned'.reads read old mine
            · obtain rfl := List.mem_singleton.mp new
              have known : (g key).map Head.version = some version :=
                (pinned'.outer key).symm.trans isVersion
              obtain ⟨h, isHeard, same⟩ := Option.map_eq_some_iff.mp known
              exact ⟨h, isHeard, same.trans (atVersion version rfl).symm⟩
          exact ⟨registry.read key found pinned'.finals, ⟨g, rfl, heard⟩, g, rfl, heard⟩
        · cases served
    · trivial

end Validation

section Finalize

variable {f : Finalization} {now : Instant}

theorem headRight_of_checked {g : Heard} {before : Objects}
    {versions : Key → Option Nat} {wrappers : (Key → Option Nat) × (Key → Option Nat)} {run : Uuid}
    {name : String} {entry : ManifestEntry} {head : Head String} (isName : entry.name = name)
    (pinned : PinnedTo settings.sha256 before versions i g wrappers s)
    (heard : g (artifactKey run name) = some head)
    (agrees : checkHead entry head = .ok ())
    (chunked : ∀ chunks, entry.chunks = some chunks → ∃ version,
      versions (artifactKey run name) = some version ∧ Reassembles settings run name chunks version s) :
    HeadRight settings.sha256 s i run name entry head := by
  obtain ⟨o, found, key, size, checksum, digests⟩ := pinned.heads _ _ heard
  refine ⟨⟨o, found, key, ?_⟩, ?_⟩
  · rw [checkHead] at agrees
    rw [HasIdentity]
    cases shape : entry.chunks with
    | none =>
      rw [shape] at agrees
      dsimp only at agrees ⊢
      split at agrees
      · cases agrees
      · split at agrees
        · cases agrees
        · rename_i same
          rw [not_or, not_not, not_not] at same
          exact ⟨size.symm.trans same.1, digests _ (checksum.symm.trans same.2)⟩
    | some chunks =>
      rw [shape] at agrees
      dsimp only at agrees ⊢
      split at agrees
      · cases agrees
      · rename_i same
        obtain ⟨version, isVersion, o', found', _, assembled⟩ := chunked chunks shape
        rw [← pinned.fixed _ _ heard version isVersion] at found'
        obtain rfl := Option.some.inj (found.symm.trans found')
        rw [isName]
        exact ⟨size.symm.trans (not_not.mp same), assembled⟩
  · intro read isRead mine isKey
    obtain ⟨h, heard', version⟩ := pinned.reads read isRead mine
    rw [isKey] at heard'
    obtain rfl := Option.some.inj (heard.symm.trans heard')
    exact version.symm

theorem keyOf_eq {run : Uuid} {entries : List ManifestEntry} {name : String} {key : Key}
    (isKey : keyOf run entries name = some key) : key = artifactKey run name := by
  rw [keyOf] at isKey
  split at isKey
  · exact (Option.some.inj isKey).symm
  · cases isKey

theorem candidate_refs (kernel : f.output.kernelRef = artifactKey f.run "kernel")
    (debuginfo : ∀ key, f.output.debuginfoRef = some key → key = artifactKey f.run "vmlinux") :
    ∀ ref ∈ f.candidate.refs, ref.2 = artifactKey f.run ref.1 := by
  intro ref isRef
  rw [BuildStepResult.refs, List.mem_append, List.mem_append] at isRef
  rcases isRef with (initrd | isKernel) | vmlinux
  · obtain ⟨key, isKey, rfl⟩ := Option.map_eq_some_iff.mp (Option.mem_toList.mp initrd)
    exact keyOf_eq isKey
  · obtain rfl := List.mem_singleton.mp isKernel
    exact kernel
  · obtain ⟨key, isKey, rfl⟩ := Option.map_eq_some_iff.mp (Option.mem_toList.mp vmlinux)
    exact debuginfo key isKey

structure Deletable (f : Finalization) (created : Bool) (s : State) : Prop where
  chunks : ∀ item ∈ f.chunkHeads, Discarded s item.2.version
  losing : created = false → ∀ ref ∈ f.candidate.refs, ∀ head, f.heads.lookup ref.2 = some head →
    Discarded s head.version

theorem Deletable.grown {created : Bool} (deletable : Deletable f created s) (grown : Grown i s t) :
    Deletable f created t where
  chunks item isItem := (deletable.chunks item isItem).mono grown.objects grown.finals
  losing lost ref isRef head isHead :=
    (deletable.losing lost ref isRef head isHead).mono grown.objects grown.finals

theorem Ready.deletable (ready : Ready settings.sha256 i f s)
    {created : Bool} {versions rows : List Registered}
    (success : (s.finalize settings i f now).1 = .succeeded created versions rows) :
    Deletable f created (s.finalize settings i f now).2 := by
  rcases finalize_cases settings s i f now with
    ⟨verdict, refused, result⟩ | ⟨created', versions', rows', build, result, _, _, done⟩
  · rw [result] at success
    obtain rfl : verdict = _ := success
    rcases refused with early | ⟨_, e, none⟩
    · cases (requireCurrent_some early).1
    · cases none
  · rw [done] at success
    obtain ⟨rfl, rfl, rfl⟩ := Verdict.succeeded.inj success.symm
    have store : (s.finalize settings i f now).2.store = s.store := by
      rw [done]
      dsimp only
      split <;> rfl
    have recorded : ∃ final ∈ (s.finalize settings i f now).2.finals,
        final.verdict = .succeeded created versions rows ∧ final.used = f := by
      rw [done]
      refine ⟨⟨i, f, (s.manifestSeen i f.run).map (·.window), .succeeded created versions rows⟩, ?_,
        rfl, rfl⟩
      dsimp only
      split <;> exact List.mem_append_right _ (List.mem_singleton_self _)
    constructor
    · intro item isItem
      obtain ⟨o, found, isChunk⟩ := ready.chunks item isItem
      exact ⟨o, by rw [store]; exact found, .inl isChunk⟩
    · rintro rfl ref isRef head isHead
      obtain ⟨final, isFinal, verdict, used⟩ := recorded
      obtain ⟨entry, _, _, _, _, ⟨o, found, key, _⟩, _⟩ := ready.ref isRef isHead
      refine ⟨o, by rw [store]; exact found, .inr ⟨final, isFinal, versions, rows, verdict, ?_⟩⟩
      rw [used, key, ← ready.refs ref isRef]
      exact List.mem_map.mpr ⟨ref, isRef, rfl⟩

theorem Registry.deleteVersion (registry : Registry settings.sha256 s) {version : Nat}
    (discarded : Discarded s version) :
    Registry settings.sha256
      { s with store := s.store.remove version, removed := s.removed ++ [version] } := by
  refine registry.frame (List.prefix_refl _) registry.checksums registry.names
    (fun _ row isRow isCreated => ⟨row, isRow, isCreated⟩) (fun _ _ _ _ isRead _ => isRead) rfl rfl
    (fun b isBuild => ⟨b, isBuild, rfl, rfl⟩) ?_
  intro version' isRemoved
  rcases List.mem_append.mp isRemoved with old | new
  · exact .inl old
  · obtain rfl := List.mem_singleton.mp new
    exact .inr discarded

theorem deleteVersion_wp {K : State → Prop} {key : Key} {version : Nat}
    {Q : Option Unit → State → Prop} (discarded : Discarded s version)
    (holds : K s) (stable : ∀ {s t}, K s → Grown i s t → K t)
    (next : ∀ t a, K t → Q a t) :
    Calls.wp (registryDiscipline settings) i Q Calls.anything
      (Calls.ask (Request.store (.deleteVersion key version)) : Build _) s := by
  refine Calls.wp_ask (fun t _ grown => next t none (stable holds grown)) ?_
  intro t registry grown _ a u served
  cases served
  have now := discarded.mono grown.objects grown.finals
  have grown' (j : Nat) : Grown j t
      { t with store := t.store.remove version, removed := t.removed ++ [version] } :=
    ⟨⟨List.prefix_refl _, fun _ isRead _ => isRead, fun _ isFinal _ => isFinal⟩,
      fun found => ⟨_, found, rfl, fun _ => rfl⟩, List.Subset.refl _⟩
  have still := stable (stable holds grown) (grown' i)
  exact ⟨⟨registry.deleteVersion now, fun j _ => grown' j⟩, next _ none still, next _ (some ()) still⟩

theorem cleanupChunksAndManifest_wp {created : Bool} {heads : List (Key × Head String)}
    (deletable : Deletable f created s) (part : heads ⊆ f.chunkHeads) :
    Calls.wp (registryDiscipline settings) i (fun _ t => Deletable f created t) Calls.anything
      (cleanupChunksAndManifest f heads) s := by
  induction heads generalizing s with
  | nil =>
    rw [cleanupChunksAndManifest, Calls.wp_bind]
    refine Calls.wp_ask (fun t _ grown => deletable.grown grown) ?_
    intro t registry grown _ a u served
    obtain ⟨kept, others⟩ := serve_plain (i := i) (r := .deleteManifest f) trivial registry served
    have still := (deletable.grown grown).grown (others i)
    exact ⟨⟨kept, fun j _ => others j⟩, still, still⟩
  | cons item rest ih =>
    obtain ⟨key, head⟩ := item
    rw [cleanupChunksAndManifest, Calls.wp_bind]
    refine deleteVersion_wp (deletable.chunks _ (part List.mem_cons_self)) deletable
      (fun still grown => still.grown grown) ?_
    intro t a still
    cases a with
    | none => exact still
    | some _ => exact ih still (fun item isItem => part (List.mem_cons_of_mem _ isItem))

theorem cleanupLosingBuildVersions_wp {refs : List (String × Key)} (deletable : Deletable f false s)
    (part : refs ⊆ f.candidate.refs) :
    Calls.wp (registryDiscipline settings) i Calls.anything Calls.anything
      (cleanupLosingBuildVersions f refs) s := by
  induction refs generalizing s with
  | nil => trivial
  | cons ref rest ih =>
    obtain ⟨name, key⟩ := ref
    rw [cleanupLosingBuildVersions]
    split
    · trivial
    · rename_i head isHead
      rw [Calls.wp_bind]
      refine deleteVersion_wp (deletable.losing rfl _ (part List.mem_cons_self) head isHead) deletable
        (fun still grown => still.grown grown) ?_
      intro t a still
      exact ih still (fun ref isRef => part (List.mem_cons_of_mem _ isRef))

theorem cleanup_wp {created : Bool} (deletable : Deletable f created s) :
    Calls.wp (registryDiscipline settings) i Calls.anything Calls.anything (cleanup f created) s := by
  rw [cleanup, Calls.wp_bind]
  have first : Calls.wp (registryDiscipline settings) i (fun _ t => Deletable f created t)
      Calls.anything
      (if f.chunked then cleanupChunksAndManifest f f.chunkHeads else pure () : Build Unit) s := by
    split
    · exact cleanupChunksAndManifest_wp deletable (List.Subset.refl _)
    · exact deletable
  refine Calls.wp_mono first ?_ (fun _ _ _ => trivial)
  intro _ t deletable
  cases created with
  | true => trivial
  | false => exact cleanupLosingBuildVersions_wp deletable (List.Subset.refl _)

theorem Ready.finalize_wp (ready : Ready settings.sha256 i f s) :
    Calls.wp (registryDiscipline settings) i Calls.anything Calls.anything
      (finalizeExternalBuild f now) s := by
  rw [finalizeExternalBuild, Calls.wp_bind]
  refine Calls.wp_demand (fun _ _ _ => trivial) ?_
  intro t registry grown _ verdict u served
  have ready' := ready.stable grown.toLater
  change t.serve settings i (.finalize f now) = some (verdict, u) at served
  rw [State.serve] at served
  split at served
  · obtain ⟨answer, rfl⟩ := Prod.mk.inj (Option.some.inj served)
    refine ⟨⟨registry.finalize ready', fun j other => finalize_grown other⟩, trivial, ?_⟩
    cases verdict with
    | rejected e => trivial
    | existing => trivial
    | succeeded created versions rows =>
      dsimp only
      rw [Calls.wp_bind]
      exact Calls.wp_mono (cleanup_wp (ready'.deletable answer)) (fun _ _ _ => trivial)
        (fun _ _ _ => trivial)
  · cases served

end Finalize

section Operations

variable {call : CompleteBuildCall} {row : RunRow} {manifest : UploadManifest} {made : Reassembled}

theorem validateCompleteBuild_wp {checks : ContentChecks} (deadline : Instant) (chunked : Bool)
    (allowed : ∀ e ∈ manifest.entries, e.name ∈ runArtifactNames) (untouched : Untouched i s)
    (right : ReassembledRight settings call.run (byName manifest.entries) made s) :
    Calls.wp (registryDiscipline settings) i (fun output t => Ready settings.sha256 i
        ⟨call.run, row, manifest, output, chunked, made.chunkHeads, deadline, call.cmdline,
          call.provenance⟩ t) Calls.anything
      (validateCompleteBuild checks call row manifest made.finalVersions) s := by
  have pinned : PinnedTo settings.sha256 s.store.objects made.finalVersions i (fun _ => none)
      (fun _ => none, fun _ => none) s := by
    refine ⟨fun _ => rfl, fun _ => rfl, ?_, ?_, List.prefix_refl _, ?_, untouched.finals⟩
    · intro key h none
      cases none
    · intro key h none
      cases none
    · intro read isRead mine
      exact absurd mine (untouched.reads read isRead)
  refine Calls.wp_mono (Calls.wp_through (wrappers_pin s.store.objects made.finalVersions i)
    validateExternalArtifacts_answers pinned) ?_ (fun _ _ _ => trivial)
  rintro output t ⟨g, wrappers, ⟨kernel, debuginfo, validated⟩, pinned⟩
  have right' := right.mono pinned.since
  refine ⟨pinned.finals, candidate_refs (keyOf_eq kernel) ?_, allowed, ?_, right'.heads⟩
  · intro key isKey
    exact keyOf_eq (debuginfo.symm.trans isKey)
  · have inDict : List.Forall₂ (fun named head => named ∈ byName manifest.entries ∧
        Validated (keyOf call.run manifest.entries) g named head) (byName manifest.entries)
        output.heads :=
      (List.forall₂_and_left _ _).mpr ⟨fun _ isNamed => isNamed, validated⟩
    refine inDict.imp ?_
    rintro named head ⟨isNamed, name, agrees, key, isKey, heard⟩
    rw [keyOf_eq isKey] at heard
    exact ⟨name, headRight_of_checked (mem_byName isNamed).1 pinned heard agrees
      (right'.versions named isNamed)⟩

theorem completeOpenWindow_safe {checks : ContentChecks}
    (allowed : ∀ e ∈ manifest.entries, e.name ∈ runArtifactNames) (untouched : Untouched i s) :
    Calls.wp (registryDiscipline settings) i Calls.anything Calls.anything
      (completeOpenWindow checks call row manifest) s := by
  rw [completeOpenWindow, Calls.wp_bind]
  refine Calls.wp_mono reassembleIfChunked_wp ?_ (fun _ _ _ => trivial)
  rintro ⟨deadline, made⟩ t ⟨later, right⟩
  dsimp only
  rw [Calls.wp_bind]
  refine wp_plain trivial ?_
  intro u recorded v _ grown grown' _
  have later' : Later i t v := grown.toLater.trans grown'.toLater
  cases recorded with
  | some result => trivial
  | none =>
    dsimp only
    rw [Calls.wp_bind]
    refine Calls.wp_mono (validateCompleteBuild_wp deadline (hasChunks manifest.entries) allowed
      (untouched.later (later.trans later')) (right.mono later'.objects)) ?_ (fun _ _ _ => trivial)
    intro output w ready
    exact ready.finalize_wp

theorem completeRun_safe {checks : ContentChecks} (untouched : Untouched i s) :
    Calls.wp (registryDiscipline settings) i Calls.anything Calls.anything
      (completeRun checks call) s := by
  rw [completeRun, Calls.wp_bind]
  refine wp_plain trivial ?_
  intro t found u _ grown grown' _
  have untouched' := untouched.later (grown.toLater.trans grown'.toLater)
  cases found with
  | none => trivial
  | some row =>
    dsimp only
    split
    · trivial
    · rw [completeCreatedRun, Calls.wp_bind]
      refine wp_plain trivial ?_
      intro v manifest w registry grown grown' served
      have untouched'' := untouched'.later (grown.toLater.trans grown'.toLater)
      cases served
      cases isManifest : v.manifests call.run with
      | none => trivial
      | some manifest =>
        dsimp only
        split
        · trivial
        · rw [isManifest] at untouched''
          exact completeOpenWindow_safe (registry.names isManifest) untouched''

theorem operation_registers (checks : ContentChecks) (operation : Operation) :
    Calls.Safe (registryDiscipline settings) (operation.program checks) := by
  have others {r : Request} (plain : r.plain) : Calls.Safe (registryDiscipline settings) (other r) := by
    intro i s _ _
    rw [other, Calls.wp_bind]
    refine Calls.wp_ask (fun _ _ _ => trivial) ?_
    intro t registry _ _ a u served
    obtain ⟨kept, grown⟩ := serve_plain (i := i) plain registry served
    exact ⟨⟨kept, fun j _ => grown j⟩, trivial, trivial⟩
  cases operation with
  | completeBuild call =>
    intro i s _ untouched
    rw [Operation.program, completeBuild, Calls.wp_rescue]
    refine Calls.wp_mono (completeRun_safe untouched) (fun _ _ _ => trivial) ?_
    intro e t _
    split <;> trivial
  | mint run entries now ttl => exact others trivial
  | reap run now => exact others trivial
  | put key content checksummed => exact others trivial
  | putDeleteMarker key => exact others trivial
  | removeVersion version => exact others trivial
  | setRunState run state => exact others trivial
  | setAccepting investigation accepting => exact others trivial
  | retireBuild build => exact others trivial

end Operations

section Main

/-- A deleted version at an artifact key of a Run that succeeded was a reference of a candidate that
lost to another build. -/
theorem Registry.lost {sha256 : Bytes → String} (registry : Registry sha256 s) {version : Nat}
    {o : Object Key String} {f : Final} {name : String} (isRemoved : version ∈ s.removed)
    (found : s.store.objects[version]? = some o) (isFinal : f ∈ s.finals)
    (success : f.verdict.isSuccess = true) (isKey : o.key = artifactKey f.used.run name)
    (allowed : name ∈ runArtifactNames) : ∃ versions rows,
      f.verdict = .succeeded false versions rows ∧ o.key ∈ f.used.candidate.refs.map Prod.snd := by
  obtain ⟨o', found', discarded⟩ := registry.removed _ isRemoved
  obtain rfl := Option.some.inj (found.symm.trans found')
  rcases discarded with ⟨run, name', part, isChunk⟩ | ⟨g, isFinal', versions, rows, verdict, lost⟩
  · exact absurd (isChunk.symm.trans isKey) (chunkKey_ne_artifactKey allowed)
  · obtain ⟨ref, isRef, same⟩ := List.mem_map.mp lost
    have right := registry.finals g isFinal' false versions rows verdict
    have keys : artifactKey g.used.run ref.1 = artifactKey f.used.run name := by
      rw [← isKey, ← same]
      exact (right.refs ref isRef).symm
    have one : f = g := registry.once f isFinal g isFinal' success (by rw [verdict]; rfl)
      (artifactKey_injective keys).1.symm
    subst one
    exact ⟨versions, rows, verdict, lost⟩

theorem Registry.row_spared {sha256 : Bytes → String} (registry : Registry sha256 s) {version : Nat}
    (isRemoved : version ∈ s.removed) {r : Registered} (isRow : r ∈ s.rows) : r.version ≠ version := by
  rintro rfl
  obtain ⟨f, isFinal, created, versions, rows, verdict, isOwn⟩ := registry.rows r isRow
  have right := registry.finals f isFinal created versions rows verdict
  obtain ⟨key, allowed⟩ := right.keys r isOwn
  obtain ⟨_, _, _, ⟨o, found, isKey, _⟩, _⟩ := right.truthful r (List.mem_append_right _ isOwn)
  obtain ⟨versions', rows', verdict', lost⟩ := registry.lost isRemoved found isFinal
    (by rw [verdict]; rfl) (isKey.trans key) allowed
  obtain ⟨rfl, rfl, rfl⟩ := Verdict.succeeded.inj (verdict.symm.trans verdict')
  exact right.losing rfl r isOwn (isKey ▸ lost)

theorem Registry.build_spared {sha256 : Bytes → String} (registry : Registry sha256 s) {version : Nat}
    (isRemoved : version ∈ s.removed) {b : InvestigationBuild} (isBuild : b ∈ s.builds)
    {r : Registered} (isArtifact : r ∈ b.artifacts) : r.version ≠ version := by
  rintro rfl
  have right := registry.builds b isBuild
  obtain ⟨f, isFinal, versions, rows, verdict, keys⟩ := right.origin
  obtain ⟨key, allowed⟩ := keys r isArtifact
  obtain ⟨n, bound, isNth⟩ := List.getElem_of_mem isArtifact
  have bound' : n < b.canonicalDocument.artifacts.length := by
    rw [right.proves.length_eq]
    exact bound
  obtain ⟨_, o, found, isKey, _⟩ := right.proves.get bound' bound
  rw [List.get_eq_getElem, isNth] at found isKey
  obtain ⟨versions', rows', verdict', _⟩ := registry.lost isRemoved found isFinal
    (by rw [verdict]; rfl) (isKey.trans key) allowed
  cases verdict.symm.trans verdict'

theorem initial_registry (sha256 : Bytes → String) (runs : Uuid → Option RunRow)
    (accepting : Uuid → Bool) : Registry sha256 (State.initial runs accepting) where
  checksums o none := by cases none
  names none := by cases none
  finished f none := by cases none
  once f none := by cases none
  finals f none := by cases none
  rows r none := by cases none
  builds b none := by cases none
  removed version none := by cases none

/-- In every interleaving, if stored contents do not collide: whatever a finalize registers for its
Run, as a row or through a build generation, is a version with the content its manifest declares;
what it reads of a key that it gives a row is the version in that row; and the cleanups delete no
version that a row or a generation names. -/
theorem registered_versions_right (settings : Settings) (runs : Uuid → Option RunRow)
    (accepting : Uuid → Bool) (events : List (Calls.Event Operation))
    (free : CollisionFree settings.sha256
      (Trace.run (step settings) (start runs accepting) events).state.store.objects) :
    let final := (Trace.run (step settings) (start runs accepting) events).state
    (∀ f ∈ final.finals, ∀ created versions rows, f.verdict = .succeeded created versions rows →
      (∀ r ∈ versions ++ rows, ∃ entry ∈ f.used.manifest.entries, entry.name = r.name ∧
        ∃ o, final.store.objects[r.version]? = some o ∧ o.key = r.key ∧
          HasIdentity settings.sha256 final.store.objects entry o.content) ∧
      ∀ r ∈ rows, ∀ read ∈ final.contentReads, read.process = f.process → read.key = r.key →
        read.version = r.version) ∧
    (∀ r ∈ final.rows, ∃ f ∈ final.finals, ∃ created versions rows,
      f.verdict = .succeeded created versions rows ∧ r ∈ rows) ∧
    ∀ version ∈ final.removed, (∀ r ∈ final.rows, r.version ≠ version) ∧
      ∀ b ∈ final.builds, ∀ r ∈ b.artifacts, r.version ≠ version := by
  intro final
  have unread (i : Nat) : Untouched i (State.initial runs accepting) := by
    constructor
    · intro f none
      cases none
    · intro read none
      cases none
  have registry : Registry settings.sha256 final :=
    (Calls.consistent_of_any_run (d := registryDiscipline settings) (fun _ _ _ => trivial)
      (operation_registers settings.checks) (initial_registry settings.sha256 runs accepting) unread
      events).inv
  refine ⟨?_, registry.rows, ?_⟩
  · intro f isFinal created versions rows verdict
    have right := registry.finals f isFinal created versions rows verdict
    refine ⟨?_, right.reads⟩
    intro r isRegistered
    obtain ⟨entry, isEntry, name, ⟨o, found, key, proves⟩, o', isOther, own⟩ :=
      right.truthful r isRegistered
    rw [← name] at proves
    exact ⟨entry, isEntry, name, o, found, key,
      own.of_proves free (List.mem_of_getElem? found) isOther proves⟩
  · intro version isRemoved
    exact ⟨fun r isRow => registry.row_spared isRemoved isRow,
      fun b isBuild r isArtifact => registry.build_spared isRemoved isBuild isArtifact⟩

def readingSettings : Settings :=
  { smallSettings with
    checks := { lenientChecks with
      kernelCombinedTar := fun _ key size => do
        let _ ← readRange key 0 size
        pure () } }

def readKernel : List (Calls.Event Operation) := manifestRead ++ List.replicate 13 (answered 2)

/-- A kernel of one chunk is uploaded, reassembled, read and registered, and its chunk deleted. -/
theorem chunked_kernel_registered :
    let final := (Trace.run (step readingSettings) (start oneRun (fun _ => true)) readKernel).state
    final.rows = [⟨"kernel", artifactKey 1 "kernel", 1⟩] ∧ final.removed = [0] ∧
      (final.contentReads.map (fun read => read.version) = [1]) ∧
      ∀ r ∈ final.rows, ∃ f ∈ final.finals, ∃ entry ∈ f.used.manifest.entries, ∃ o,
        final.store.objects[r.version]? = some o ∧
          HasIdentity readingSettings.sha256 final.store.objects entry o.content := by
  have free : CollisionFree readingSettings.sha256
      (Trace.run (step readingSettings) (start oneRun (fun _ => true)) readKernel).state.store.objects := by
    rw [CollisionFree]
    decide +kernel
  obtain ⟨finals, rows, _⟩ :=
    registered_versions_right readingSettings oneRun (fun _ => true) readKernel free
  refine ⟨by decide +kernel, by decide +kernel, by decide +kernel, ?_⟩
  intro r isRow
  obtain ⟨f, isFinal, created, versions, own, verdict, isOwn⟩ := rows r isRow
  obtain ⟨entry, isEntry, _, o, found, _, identity⟩ :=
    (finals f isFinal created versions own verdict).1 r (List.mem_append_right _ isOwn)
  exact ⟨f, isFinal, entry, isEntry, o, found, identity⟩

end Main

end Kdive.Builds
