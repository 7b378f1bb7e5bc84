import Kdive.Inventory.Images

/-!
What the image pass leaves behind. An entry is settled by one pass; of an identity that no entry
declares one row goes with each pass, and the indexes on public images leave room for two.
-/
namespace Kdive.Inventory
open Json (Dict)

section Settling

variable {env : Surroundings} {entry : ImageEntry} {row : Option ImageRow} {settled : ImageRow}

theorem realize_volume : (realize env entry row).1.volume =
    match entry.source with
    | .staged volume => some volume
    | _ => none := by
  unfold realize
  cases source : entry.source with
  | stagedPath path => rfl
  | staged volume => rfl
  | build base components =>
    simp only [realizeBuild]
    split
    · rename_i r kept
      simp only [Option.filter_filter, Option.filter_eq_some_iff, Bool.and_eq_true,
        decide_eq_true_eq] at kept
      exact kept.2.1
    · rfl
  | s3 objectKey digest =>
    simp only [realizeS3]
    split
    · rename_i r kept
      simp only [Option.filter_filter, Option.filter_eq_some_iff, Bool.and_eq_true,
        decide_eq_true_eq] at kept
      exact kept.2.1
    all_goals rfl

theorem realize_provenance : (realize env entry row).1.provenance =
    some (resolveProvenance env entry row).1 := by
  unfold realize
  cases source : entry.source <;> rfl

theorem realize_attested : (realize env entry row).1.provenanceAttested =
    (resolveProvenance env entry row).2 := by
  unfold realize
  cases source : entry.source <;> rfl

theorem realize_kernelConfigKey : (realize env entry row).1.kernelConfigKey =
    resolveKernelConfigKey env entry row := by
  unfold realize
  cases source : entry.source <;> rfl

variable (realized : settled.runtime = (realize env entry row).1)
include realized

theorem volume_settled : volumeChanged entry (some settled) = false := by
  have volume : settled.runtime.volume = _ :=
    (congrArg RuntimeFields.volume realized).trans realize_volume
  simp only [volumeChanged, Option.any_some, volume]
  cases source : entry.source <;> simp

theorem provenance_settled :
    resolveProvenance env entry (some settled) = resolveProvenance env entry row := by
  have provenance : rowProvenance (some settled) = (resolveProvenance env entry row).1 := by
    have held : settled.runtime.provenance = _ :=
      (congrArg RuntimeFields.provenance realized).trans realize_provenance
    simp [rowProvenance, held]
  have attested : rowAttested (some settled) = (resolveProvenance env entry row).2 :=
    (congrArg RuntimeFields.provenanceAttested realized).trans realize_attested
  have unchanged := volume_settled realized
  conv_lhs => unfold resolveProvenance
  simp only [unchanged, provenance, attested, Bool.false_eq_true, if_false]
  cases source : entry.source with
  | s3 objectKey digest =>
    cases claimed : entry.attested with
    | none => rfl
    | some a => simp [resolveProvenance, source, claimed]
  | stagedPath path =>
    cases beside : env.readSidecar path with
    | none => simp only [beside]
    | some sidecar => simp [resolveProvenance, source, beside]
  | build base components => rfl
  | staged volume => rfl

theorem kernelConfigKey_settled :
    resolveKernelConfigKey env entry (some settled) = resolveKernelConfigKey env entry row := by
  have held : settled.runtime.kernelConfigKey = _ :=
    (congrArg RuntimeFields.kernelConfigKey realized).trans realize_kernelConfigKey
  conv_lhs => unfold resolveKernelConfigKey
  simp only [Option.bind_some, held]
  cases kept : resolveKernelConfigKey env entry row with
  | some key => rfl
  | none =>
    unfold resolveKernelConfigKey at kept
    cases earlier : row.bind (fun r => r.runtime.kernelConfigKey) with
    | some key => simp [earlier] at kept
    | none => simpa [earlier] using kept

end Settling

section Placing

variable {env : Surroundings} {entry : ImageEntry} {prior row : Option ImageRow} {r : ImageRow}
  {objectKey : String} {digest : Option String} {head : S3Head}

theorem realizeBuild_registered (held : r.runtime.state = .registered) :
    realizeBuild entry (some r) = (r.placement, none) := by
  simp [realizeBuild, Option.filter_some, held]

theorem realizeBuild_cases (entry : ImageEntry) (prior : Option ImageRow) :
    (∃ r, prior = some r ∧ r.runtime.state = .registered ∧
      (realizeBuild entry prior).1 = r.placement) ∨ (realizeBuild entry prior).1 = .unrealized := by
  unfold realizeBuild
  split
  · rename_i r kept
    simp only [Option.filter_eq_some_iff, decide_eq_true_eq] at kept
    exact .inl ⟨r, kept.1, kept.2, rfl⟩
  · exact .inr rfl

theorem realizeBuild_settled (placed : r.placement = (realizeBuild entry prior).1) :
    (realizeBuild entry (some r)).1 = r.placement := by
  rcases realizeBuild_cases entry (some r) with ⟨s, same, _, kept⟩ | unrealized
  · cases same
    exact kept
  · rcases realizeBuild_cases entry prior with ⟨s, _, registered, kept⟩ | other
    · have state : r.runtime.state = .registered :=
        (congrArg Placement.state (placed.trans kept)).trans registered
      rw [realizeBuild_registered state]
    · rw [unrealized, placed, other]

theorem realizeS3_registered (held : r.runtime.state = .registered) :
    realizeS3 entry (some r) objectKey digest head = (r.placement, none) := by
  simp [realizeS3, Option.filter_some, held]

theorem realizeS3_open (prior : Option ImageRow)
    (absent : ∀ r, prior = some r → r.runtime.state ≠ .registered) :
    (realizeS3 entry prior objectKey digest head).1 =
      if head = .noDigest ∨ head = .unreachable ∨ head = .absent then .unrealized
      else ⟨.registered, some objectKey, none, digest⟩ := by
  have none : prior.filter (fun r => r.runtime.state = .registered) = none := by
    cases prior with
    | none => rfl
    | some r => simp [Option.filter_some, absent r rfl]
  unfold realizeS3
  rw [none]
  cases head <;> rfl

end Placing

section Settled

variable {env : Surroundings} {entry : ImageEntry} {row : Option ImageRow} {settled : ImageRow}

theorem resolveS3Head_open {objectKey : String} {digest : Option String}
    (source : entry.source = .s3 objectKey digest)
    (absent : ∀ r, row = some r → r.runtime.volume = none → r.runtime.state ≠ .registered) :
    resolveS3Head env entry row =
      if digest = none then .noDigest else .ofAnswer (env.headPresent objectKey) := by
  unfold resolveS3Head
  rw [source]
  have unrealized : row.any (fun r => r.runtime.state = .registered ∧ r.runtime.volume = none)
      = false := by
    cases row with
    | none => rfl
    | some r =>
      simp only [Option.any_some, decide_eq_false_iff_not, not_and]
      intro registered volume
      exact absent r rfl volume registered
  simp only [unrealized, Bool.false_eq_true, if_false]

theorem built_settled (realized : settled.runtime = (realize env entry row).1) (p : Placement)
    (path : Option String) : built env entry (some settled) p path = built env entry row p path := by
  simp only [built, provenance_settled realized, kernelConfigKey_settled realized]

theorem prior_settled (realized : settled.runtime = (realize env entry row).1)
    (other : ∀ volume, entry.source ≠ .staged volume) :
    (some settled).filter (fun r => r.runtime.volume = none) = some settled := by
  have volume : settled.runtime.volume = _ :=
    (congrArg RuntimeFields.volume realized).trans realize_volume
  have none : settled.runtime.volume = none := by
    cases source : entry.source with
    | staged declared => exact absurd source (other declared)
    | stagedPath path => simpa only [source] using volume
    | build base components => simpa only [source] using volume
    | s3 objectKey digest => simpa only [source] using volume
  simp [Option.filter_some, none]

theorem stagedDigest_cases (env : Surroundings) (entry : ImageEntry) (row : Option ImageRow)
    (volume : String) :
    stagedDigest env entry row volume =
        (stagedPathDigest env entry (resolveProvenance env entry row).1).1 ∨
      stagedDigest env entry row volume = none := by
  unfold stagedDigest
  dsimp only
  split
  · exact .inl rfl
  · exact .inr rfl

theorem stagedDigest_settled {volume : String} (source : entry.source = .staged volume)
    (realized : settled.runtime = (realize env entry row).1) :
    stagedDigest env entry (some settled) volume = stagedDigest env entry row volume := by
  have digest : settled.runtime.digest = stagedDigest env entry row volume := by
    rw [realized]
    simp only [realize, source, built]
  have held : settled.runtime.volume = some volume := by
    rw [realized, realize_volume, source]
  have lhs : stagedDigest env entry (some settled) volume =
      if (stagedPathDigest env entry (resolveProvenance env entry row).1).1 =
          stagedDigest env entry row volume then
        (stagedPathDigest env entry (resolveProvenance env entry row).1).1
      else none := by
    conv_lhs => unfold stagedDigest
    simp only [provenance_settled realized, Option.any_some, digest, held, true_and,
      decide_eq_true_eq]
  rw [lhs]
  rcases stagedDigest_cases env entry row volume with kept | dropped
  · rw [kept, if_pos rfl]
  · rw [dropped]
    split <;> simp_all

theorem realize_settled (realized : settled.runtime = (realize env entry row).1) :
    (realize env entry (some settled)).1 = settled.runtime := by
  have again := built_settled realized
  cases source : entry.source with
  | stagedPath path =>
    rw [realized]
    simp only [realize, source, again, provenance_settled realized]
  | staged declared =>
    rw [realized]
    simp only [realize, source, again, stagedDigest_settled source realized]
  | build base components =>
    have prior := prior_settled realized (by simp [source])
    have placed : settled.placement =
        (realizeBuild entry (row.filter (fun r => r.runtime.volume = none))).1 := by
      simp only [ImageRow.placement, realized, realize, source, built]
    have held : settled.runtime = built env entry row settled.placement none := by
      rw [placed, realized]
      simp only [realize, source]
    rw [held]
    simp only [realize, source, again, prior, realizeBuild_settled placed]
  | s3 objectKey digest =>
    have prior := prior_settled realized (by simp [source])
    have placed : settled.placement = (realizeS3 entry
        (row.filter (fun r => r.runtime.volume = none)) objectKey digest
          (resolveS3Head env entry row)).1 := by
      simp only [ImageRow.placement, realized, realize, source, built]
    have held : settled.runtime = built env entry row settled.placement none := by
      rw [placed, realized]
      simp only [realize, source]
    rw [held]
    simp only [realize, source, again, prior]
    have same : (realizeS3 entry (some settled) objectKey digest
        (resolveS3Head env entry (some settled))).1 = settled.placement := by
      by_cases registered : settled.runtime.state = .registered
      · rw [realizeS3_registered registered]
      · have fresh : ∀ r, row.filter (fun r => r.runtime.volume = none) = some r →
            r.runtime.state ≠ .registered := by
          intro r kept was
          rw [kept, realizeS3_registered was] at placed
          exact registered ((congrArg Placement.state placed).trans was)
        have heads : resolveS3Head env entry (some settled) = resolveS3Head env entry row := by
          rw [resolveS3Head_open source, resolveS3Head_open source]
          · intro r held volume
            exact fresh r (by simp [held, Option.filter_some, volume])
          · intro r same _
            cases same
            exact registered
        rw [heads, realizeS3_open (some settled), placed, realizeS3_open _ fresh]
        intro r same
        cases same
        exact registered
    rw [same]

end Settled

section Tables

variable {rows : List ImageRow} {identity : ImageIdentity} {id : Uuid} {f g : ImageRow → ImageRow}

def configRows (rows : List ImageRow) (identity : ImageIdentity) : List ImageRow :=
  rows.filter (fun r => r.managedBy = .config ∧ r.identity = identity)

theorem existing_eq_getLast? : existing rows identity = (configRows rows identity).getLast? := by
  rw [existing, List.getLast?_eq_head?_reverse, configRows, ← List.filter_reverse, List.head?_filter]

theorem existing_mem {r : ImageRow} (found : existing rows identity = some r) :
    r ∈ rows ∧ r.managedBy = .config ∧ r.identity = identity := by
  rw [existing_eq_getLast?] at found
  have member := List.mem_of_getLast? found
  simpa [configRows] using member

/-- An update of an image row that leaves its identity and its ownership alone. -/
structure KeepsImage (f : ImageRow → ImageRow) : Prop where
  id : ∀ r, (f r).id = r.id
  identity : ∀ r, (f r).identity = r.identity
  managedBy : ∀ r, (f r).managedBy = r.managedBy
  owner : ∀ r, (f r).owner = r.owner

theorem KeepsImage.refl : KeepsImage (fun r => r) :=
  ⟨fun _ => rfl, fun _ => rfl, fun _ => rfl, fun _ => rfl⟩

theorem KeepsImage.comp (first : KeepsImage f) (second : KeepsImage g) :
    KeepsImage (fun r => g (f r)) where
  id r := (second.id _).trans (first.id r)
  identity r := (second.identity _).trans (first.identity r)
  managedBy r := (second.managedBy _).trans (first.managedBy r)
  owner r := (second.owner _).trans (first.owner r)

theorem KeepsImage.at (keeps : KeepsImage f) (id : Uuid) :
    KeepsImage (fun r => if r.id = id then f r else r) where
  id r := by split <;> simp [keeps.id]
  identity r := by split <;> simp [keeps.identity]
  managedBy r := by split <;> simp [keeps.managedBy]
  owner r := by split <;> simp [keeps.owner]

theorem setImage_refl : setImage rows id (fun r => r) = rows := by
  simp [setImage]

theorem setImage_setImage (keeps : KeepsImage f) :
    setImage (setImage rows id f) id g = setImage rows id (fun r => g (f r)) := by
  simp only [setImage, List.map_map, List.map_inj_left, Function.comp_apply]
  intro r _
  by_cases own : r.id = id <;> simp [own, keeps.id]

theorem configRows_setImage (keeps : KeepsImage f) :
    configRows (setImage rows id f) identity = setImage (configRows rows identity) id f := by
  simp only [configRows, setImage, List.filter_map, Function.comp_def]
  congr 2
  funext r
  simp [(keeps.at id).managedBy, (keeps.at id).identity]

theorem existing_setImage (keeps : KeepsImage f) : existing (setImage rows id f) identity =
    (existing rows identity).map (fun r => if r.id = id then f r else r) := by
  rw [existing_eq_getLast?, existing_eq_getLast?, configRows_setImage keeps, setImage,
    List.getLast?_map]

theorem setImage_valid (keeps : KeepsImage f) (valid : ImagesValid rows)
    (admissible : ∀ r ∈ setImage rows id f, r.Admissible)
    (slots : ((setImage rows id f).filterMap ImageRow.slot).Nodup) :
    ImagesValid (setImage rows id f) where
  ids := by
    have same : (setImage rows id f).map ImageRow.id = rows.map ImageRow.id := by
      simp only [setImage, List.map_map, List.map_inj_left, Function.comp_apply]
      intro r _
      exact (keeps.at id).id r
    rw [same]
    exact valid.ids
  slots := slots
  admissible := admissible
  ownerless := by
    intro r member
    obtain ⟨old, there, rfl⟩ := List.mem_map.mp member
    rw [(keeps.at id).managedBy, (keeps.at id).owner]
    exact valid.ownerless old there

theorem configRows_setImage_other (keeps : KeepsImage f) (valid : ImagesValid rows) {r : ImageRow}
    (member : r ∈ rows) (other : r.identity ≠ identity) :
    configRows (setImage rows r.id f) identity = configRows rows identity := by
  rw [configRows_setImage keeps, setImage]
  have same : ∀ s ∈ configRows rows identity, (if s.id = r.id then f s else s) = s := by
    intro s there
    simp only [configRows, List.mem_filter, decide_eq_true_eq] at there
    rw [if_neg]
    intro shared
    have equal := List.inj_on_of_nodup_map valid.ids there.1 member shared
    exact other (equal ▸ there.2.2)
  rw [List.map_congr_left same, List.map_id']

theorem configRows_append {r : ImageRow} (other : r.identity ≠ identity) :
    configRows (rows ++ [r]) identity = configRows rows identity := by
  simp [configRows, List.filter_append, other]

theorem existing_append {r : ImageRow} (managed : r.managedBy = .config) :
    existing (rows ++ [r]) r.identity = some r := by
  simp [existing, managed]

theorem append_valid (valid : ImagesValid rows) {r : ImageRow} (fresh : r.id ∉ rows.map ImageRow.id)
    (ownerless : r.owner = none) (admissible : ∀ s ∈ rows ++ [r], s.Admissible)
    (slots : ((rows ++ [r]).filterMap ImageRow.slot).Nodup) : ImagesValid (rows ++ [r]) where
  ids := by
    rw [List.map_append, List.map_singleton]
    refine List.nodup_append.mpr ⟨valid.ids, List.nodup_singleton _, ?_⟩
    intro a held b new same
    rw [List.mem_singleton] at new
    exact fresh (new ▸ same ▸ held)
  slots := slots
  admissible := admissible
  ownerless := by
    intro s member
    rcases List.mem_append.mp member with old | new
    · exact valid.ownerless s old
    · rw [List.mem_singleton.mp new]
      exact fun _ => ownerless

theorem checkedImages_ok {c c' : Catalog} (done : checkedImages c rows = .ok c') :
    c' = { c with images := rows } ∧ (∀ r ∈ rows, r.Admissible) ∧
      (rows.filterMap ImageRow.slot).Nodup := by
  unfold checkedImages at done
  split at done
  · cases done
  · rename_i admissible
    split at done
    · cases done
    · rename_i slots
      simp only [Except.ok.injEq] at done
      refine ⟨done.symm, ?_, not_not.mp slots⟩
      intro r member
      by_contra broken
      exact admissible ⟨r, member, broken⟩

end Tables

section Updating

variable {env : Surroundings} {entry : ImageEntry} {c c' : Catalog} {row : ImageRow}

structure Rewrites (c : Catalog) (row : ImageRow) (f : ImageRow → ImageRow) (c' : Catalog) :
    Prop where
  keeps : KeepsImage f
  catalog : c' = { c with images := setImage c.images row.id f }
  valid : ImagesValid c.images → ImagesValid c'.images

theorem Rewrites.refl (c : Catalog) (row : ImageRow) : Rewrites c row (fun r => r) c :=
  ⟨.refl, by rw [setImage_refl], fun valid => valid⟩

theorem Rewrites.of_checked {f : ImageRow → ImageRow} (keeps : KeepsImage f)
    (done : checkedImages c (setImage c.images row.id f) = .ok c') : Rewrites c row f c' := by
  obtain ⟨rfl, admissible, slots⟩ := checkedImages_ok done
  exact ⟨keeps, rfl, fun valid => setImage_valid keeps valid admissible slots⟩

theorem Rewrites.comp {f g : ImageRow → ImageRow} {c'' : Catalog} (first : Rewrites c row f c')
    (second : Rewrites c' row g c'') : Rewrites c row (fun r => g (f r)) c'' where
  keeps := first.keeps.comp second.keeps
  catalog := by
    rw [second.catalog, first.catalog]
    simp only [setImage_setImage first.keeps]
  valid := fun valid => second.valid (first.valid valid)

theorem updateConfig_ok {updated : Bool} (done : updateConfig entry row c = .ok (c', updated)) :
    ∃ f, Rewrites c row f c' ∧ (f row).config = entry.config ∧
      (∀ r, (f r).runtime = r.runtime ∧ (f r).publicationAttemptId = r.publicationAttemptId) := by
  unfold updateConfig at done
  split at done
  · rename_i same
    simp only [Except.ok.injEq, Prod.mk.injEq] at done
    obtain ⟨rfl, rfl⟩ := done
    exact ⟨fun r => r, .refl c row, same, fun r => ⟨rfl, rfl⟩⟩
  · cases written : persistConfigFields c row entry.config with
    | error e =>
      rw [written] at done
      cases done
    | ok next =>
      rw [written] at done
      simp only [Except.map, Except.ok.injEq, Prod.mk.injEq] at done
      obtain ⟨rfl, rfl⟩ := done
      refine ⟨fun r => { r with config := entry.config }, .of_checked ?_ written, rfl,
        fun r => ⟨rfl, rfl⟩⟩
      exact ⟨fun _ => rfl, fun _ => rfl, fun _ => rfl, fun _ => rfl⟩

def Realized (row : ImageRow) (realized : RuntimeFields) (after : ImageRow) : Prop :=
  after.config = row.config ∧
    (after.runtime = row.runtime ∧ (row.runtime.state = .pending ∨ row.runtime.provenance = none) ∨
      after.runtime = realized)

theorem updateRuntime_ok {realized : RuntimeFields} {updated deferred : Bool} {current : ImageRow}
    (done : updateRuntime row realized c = .ok (c', updated, deferred))
    (there : current ∈ c.images) (own : current.id = row.id)
    (same : current.runtime = row.runtime)
    (attempt : current.publicationAttemptId = row.publicationAttemptId) :
    ∃ f, Rewrites c row f c' ∧ Realized current realized (f current) := by
  unfold updateRuntime at done
  split at done
  · rename_i settled
    simp only [Except.ok.injEq, Prod.mk.injEq] at done
    obtain ⟨rfl, -, -⟩ := done
    exact ⟨fun r => r, .refl c row, rfl, .inr (same.trans settled)⟩
  split at done
  · rename_i pending
    simp only [Except.ok.injEq, Prod.mk.injEq] at done
    obtain ⟨rfl, -, -⟩ := done
    exact ⟨fun r => r, .refl c row, rfl, .inl ⟨rfl, .inl (same ▸ pending)⟩⟩
  unfold persistRuntimeFields at done
  split at done
  · cases written : checkedImages c
        (setImage c.images row.id (fun r => { r with runtime := realized })) with
    | error e =>
      rw [written] at done
      cases done
    | ok next =>
      rw [written] at done
      simp only [Except.map, Except.ok.injEq, Prod.mk.injEq] at done
      obtain ⟨rfl, -, -⟩ := done
      refine ⟨fun r => { r with runtime := realized }, .of_checked ?_ written, rfl, .inr rfl⟩
      exact ⟨fun _ => rfl, fun _ => rfl, fun _ => rfl, fun _ => rfl⟩
  · rename_i moved
    simp only [Except.map, Except.ok.injEq, Prod.mk.injEq] at done
    obtain ⟨rfl, -, -⟩ := done
    refine ⟨fun r => r, .refl c row, rfl, .inl ⟨rfl, .inr ?_⟩⟩
    -- only a provenance that is no object keeps the swap from matching
    by_contra object
    refine moved (List.any_eq_true.mpr ⟨current, there, ?_⟩)
    obtain ⟨provenance, held⟩ := Option.ne_none_iff_exists'.mp object
    rw [same] at held
    simp [ImageRow.unmoved, own, same, attempt, rowProvenance, held]

end Updating

section Entries

variable {env : Surroundings} {entry : ImageEntry} {loaded : List ImageRow}
  {s s' : Catalog × ReconcileDiff}

def SettledImage (env : Surroundings) (entry : ImageEntry) (rows : List ImageRow) : Prop :=
  ∃ row, existing rows entry.identity = some row ∧ row.config = entry.config ∧
    (row.runtime.state = .pending ∨ row.runtime.provenance = none ∨
      row.runtime = (realize env entry (some row)).1)

structure Upserted (env : Surroundings) (entry : ImageEntry) (c c' : Catalog) : Prop where
  rest : c' = { c with images := c'.images }
  valid : ImagesValid c'.images
  settled : SettledImage env entry c'.images
  others : ∀ identity, identity ≠ entry.identity →
    configRows c'.images identity = configRows c.images identity

theorem createEntry_ok (valid : ImagesValid s.1.images) (done : createEntry env entry s = .ok s') :
    Upserted env entry s.1 s'.1 := by
  unfold createEntry at done
  simp only [bind, Except.bind] at done
  split at done
  · cases done
  rename_i c written
  simp only [pure, Except.pure, Except.ok.injEq] at done
  subst done
  obtain ⟨rfl, admissible, slots⟩ := checkedImages_ok written
  refine ⟨rfl, append_valid valid (env.fresh _) rfl admissible slots, ?_, ?_⟩
  · refine ⟨_, existing_append rfl, rfl, .inr (.inr ?_)⟩
    exact (realize_settled rfl).symm
  · intro identity other
    exact configRows_append (Ne.symm other)

theorem updateEntry_ok {row : ImageRow} (valid : ImagesValid s.1.images)
    (found : existing s.1.images entry.identity = some row)
    (done : updateEntry env entry row s = .ok s') : Upserted env entry s.1 s'.1 := by
  obtain ⟨there, managed, identity⟩ := existing_mem found
  unfold updateEntry at done
  simp only [bind, Except.bind] at done
  split at done
  · cases done
  rename_i first declared
  obtain ⟨f, rewritten, config, runtime⟩ := updateConfig_ok declared
  split at done
  · cases done
  rename_i second realized
  simp only [pure, Except.pure, Except.ok.injEq] at done
  subst done
  have current : f row ∈ first.1.images := by
    rw [rewritten.catalog]
    exact List.mem_map.mpr ⟨row, there, by simp⟩
  obtain ⟨g, again, kept, outcome⟩ := updateRuntime_ok realized current (rewritten.keeps.id row)
    (runtime row).1 (runtime row).2
  have both := rewritten.comp again
  have images : second.1.images = setImage s.1.images row.id (fun r => g (f r)) := by
    rw [both.catalog]
  refine ⟨?_, both.valid valid, ⟨g (f row), ?_, kept.trans config, ?_⟩, ?_⟩
  · rw [both.catalog]
  · rw [images, existing_setImage both.keeps, found]
    simp
  · rcases outcome with ⟨same, pending | none⟩ | same
    · exact .inl (by rw [same, pending])
    · exact .inr (.inl (by rw [same, none]))
    · exact .inr (.inr (realize_settled same).symm)
  · intro other differs
    rw [images, configRows_setImage_other both.keeps valid there]
    rw [identity]
    exact Ne.symm differs

theorem upsertEntry_ok (valid : ImagesValid s.1.images)
    (current : existing s.1.images entry.identity = existing loaded entry.identity)
    (done : upsertEntry env loaded entry s = .ok s') : Upserted env entry s.1 s'.1 := by
  unfold upsertEntry at done
  split at done
  · exact createEntry_ok valid done
  · rename_i row found
    exact updateEntry_ok valid (current.trans found) done

theorem upserts_establish (env : Surroundings) (loaded : List ImageRow) :
    Sweep.Establishes (upsertEntry env loaded) (fun i j => i.identity ≠ j.identity)
      (fun i s => ImagesValid s.1.images ∧
        existing s.1.images i.identity = existing loaded i.identity)
      (fun i s => ImagesValid s.1.images ∧ SettledImage env i s.1.images) where
  own := by
    intro i s s' ready done
    have step := upsertEntry_ok ready.1 ready.2 done
    exact ⟨step.valid, step.settled⟩
  waiting := by
    intro i j s s' apart ready due done
    have step := upsertEntry_ok ready.1 ready.2 done
    refine ⟨step.valid, ?_⟩
    rw [existing_eq_getLast?, step.others j.identity (Ne.symm apart), ← existing_eq_getLast?]
    exact due.2
  done := by
    intro i j s s' apart settled due done
    have step := upsertEntry_ok due.1 due.2 done
    refine ⟨step.valid, ?_⟩
    obtain ⟨row, found, rest⟩ := settled.2
    refine ⟨row, ?_, rest⟩
    rw [existing_eq_getLast?, step.others i.identity apart, ← existing_eq_getLast?]
    exact found

end Entries

section Pruning

variable {env : Surroundings} {loaded : List ImageRow} {s s' : Catalog × ReconcileDiff}
  {identity : ImageIdentity}

def Stuck (env : Surroundings) (rows : List ImageRow) (identity : ImageIdentity) : Prop :=
  ∀ r, existing rows identity = some r → r.runtime.state = .pending ∨ env.imageReferenced r

structure Pruned (env : Surroundings) (identity : ImageIdentity) (c c' : Catalog) : Prop where
  rest : c' = { c with images := c'.images }
  valid : ImagesValid c'.images
  own : c' = c ∧ Stuck env c.images identity ∨
    ∃ r, r.runtime.state ≠ .pending ∧ env.imageReferenced r = false ∧
      configRows c.images identity = configRows c'.images identity ++ [r]
  others : ∀ other, other ≠ identity → configRows c'.images other = configRows c.images other

theorem find_loaded {rows : List ImageRow} {row : ImageRow} (valid : ImagesValid rows)
    (there : row ∈ rows) (managed : row.managedBy = .config) :
    rows.find? (fun r => r.id = row.id ∧ r.managedBy = .config) = some row := by
  cases found : rows.find? (fun r => r.id = row.id ∧ r.managedBy = .config) with
  | none =>
    have absent := List.find?_eq_none.mp found row there
    simp [managed] at absent
  | some r =>
    have member := List.mem_of_find?_eq_some found
    have same := List.find?_some found
    simp only [decide_eq_true_eq] at same
    rw [List.inj_on_of_nodup_map valid.ids member there same.1]

theorem filter_valid {rows : List ImageRow} (valid : ImagesValid rows) (p : ImageRow → Bool) :
    ImagesValid (rows.filter p) where
  ids := valid.ids.sublist (List.filter_sublist.map ImageRow.id)
  slots := valid.slots.sublist (List.filter_sublist.filterMap ImageRow.slot)
  admissible r member := valid.admissible r (List.mem_of_mem_filter member)
  ownerless r member := valid.ownerless r (List.mem_of_mem_filter member)

theorem configRows_filter {rows : List ImageRow} (p : ImageRow → Bool) :
    configRows (rows.filter p) identity = (configRows rows identity).filter p := by
  simp only [configRows, List.filter_filter]
  congr 1
  funext r
  exact Bool.and_comm _ _

theorem configRows_delete {rows : List ImageRow} {row : ImageRow} (valid : ImagesValid rows)
    (found : existing rows identity = some row) : configRows rows identity =
      configRows (rows.filter (fun r => r.id ≠ row.id)) identity ++ [row] := by
  rw [existing_eq_getLast?] at found
  obtain ⟨earlier, split⟩ := List.getLast?_eq_some_iff.mp found
  have ids : ((earlier ++ [row]).map ImageRow.id).Nodup := by
    rw [← split]
    exact valid.ids.sublist (List.filter_sublist.map ImageRow.id)
  rw [List.map_append, List.map_singleton, List.nodup_append] at ids
  rw [configRows_filter, split, List.filter_append]
  have kept : earlier.filter (fun r => r.id ≠ row.id) = earlier := by
    rw [List.filter_eq_self]
    intro r member
    simp only [decide_eq_true_eq]
    exact ids.2.2 r.id (List.mem_map_of_mem member) row.id (List.mem_singleton_self _)
  rw [kept]
  simp

theorem configRows_delete_other {rows : List ImageRow} {row : ImageRow} {other : ImageIdentity}
    (valid : ImagesValid rows) (there : row ∈ rows) (differs : row.identity ≠ other) :
    configRows (rows.filter (fun r => r.id ≠ row.id)) other = configRows rows other := by
  rw [configRows_filter, List.filter_eq_self]
  intro r member
  simp only [configRows, List.mem_filter, decide_eq_true_eq] at member ⊢
  intro shared
  have equal := List.inj_on_of_nodup_map valid.ids member.1 there shared
  exact differs (equal ▸ member.2.2)

theorem pruneImage_ok (valid : ImagesValid s.1.images)
    (current : existing s.1.images identity = existing loaded identity)
    (done : pruneImage env loaded identity s = .ok s') : Pruned env identity s.1 s'.1 := by
  have unchanged (stuck : Stuck env s.1.images identity) (same : s'.1 = s.1) :
      Pruned env identity s.1 s'.1 := by
    rw [same]
    exact ⟨rfl, valid, .inl ⟨rfl, stuck⟩, fun _ _ => rfl⟩
  unfold pruneImage at done
  split at done
  · rename_i none
    simp only [Except.ok.injEq] at done
    refine unchanged ?_ (by rw [done])
    intro r found
    rw [current, none] at found
    cases found
  rename_i row found
  rw [found] at current
  obtain ⟨there, managed, own⟩ := existing_mem current
  simp only [find_loaded valid there managed] at done
  split at done
  · rename_i pending
    simp only [Except.ok.injEq] at done
    refine unchanged ?_ (by rw [done])
    intro r again
    rw [current, Option.some.injEq] at again
    exact .inl (again ▸ pending)
  rename_i settled
  split at done
  · rename_i used
    simp only [Except.ok.injEq] at done
    refine unchanged ?_ (by rw [← done])
    intro r again
    rw [current, Option.some.injEq] at again
    exact .inr (again ▸ used)
  simp only [Except.ok.injEq] at done
  subst done
  rename_i unused
  refine ⟨rfl, filter_valid valid _, .inr ⟨row, settled, by simpa using unused,
    configRows_delete valid current⟩, ?_⟩
  intro other differs
  exact configRows_delete_other valid there (own ▸ Ne.symm differs)

def Thinned (env : Surroundings) (identity : ImageIdentity) (rows rows' : List ImageRow) : Prop :=
  configRows rows' identity = configRows rows identity ∧ Stuck env rows identity ∨
    ∃ r, r.runtime.state ≠ .pending ∧ env.imageReferenced r = false ∧
      configRows rows identity = configRows rows' identity ++ [r]

theorem existing_congr {rows rows' : List ImageRow}
    (same : configRows rows' identity = configRows rows identity) :
    existing rows' identity = existing rows identity := by
  rw [existing_eq_getLast?, same, ← existing_eq_getLast?]

theorem Stuck.congr {rows rows' : List ImageRow} (stuck : Stuck env rows identity)
    (same : configRows rows' identity = configRows rows identity) : Stuck env rows' identity := by
  intro r found
  exact stuck r (existing_congr same ▸ found)

theorem prunes_establish (env : Surroundings) (loaded : List ImageRow) :
    Sweep.Establishes (pruneImage env loaded) (· ≠ ·)
      (fun i s => ImagesValid s.1.images ∧ configRows s.1.images i = configRows loaded i)
      (fun i s => ImagesValid s.1.images ∧ Thinned env i loaded s.1.images) where
  own := by
    intro i s s' ready done
    have step := pruneImage_ok ready.1 (existing_congr ready.2) done
    refine ⟨step.valid, ?_⟩
    rcases step.own with ⟨same, stuck⟩ | ⟨r, ripe, unused, split⟩
    · refine .inl ⟨by rw [same, ready.2], stuck.congr ready.2.symm⟩
    · exact .inr ⟨r, ripe, unused, ready.2 ▸ split⟩
  waiting := by
    intro i j s s' apart ready due done
    have step := pruneImage_ok ready.1 (existing_congr ready.2) done
    exact ⟨step.valid, (step.others j (Ne.symm apart)).trans due.2⟩
  done := by
    intro i j s s' apart thinned due done
    have step := pruneImage_ok due.1 (existing_congr due.2) done
    refine ⟨step.valid, ?_⟩
    unfold Thinned
    rw [step.others i apart]
    exact thinned.2

end Pruning

section Pass

variable {env : Surroundings} {doc : InventoryDoc} {s s' : Catalog × ReconcileDiff}

structure ImagesPassed (env : Surroundings) (doc : InventoryDoc) (c c' : Catalog) : Prop where
  rest : c' = { c with images := c'.images }
  valid : ImagesValid c'.images
  settled : ∀ entry ∈ doc.image, SettledImage env entry c'.images
  departed : ∀ identity ∉ doc.image.map ImageEntry.identity,
    Thinned env identity c.images c'.images

structure Untouched (c : Catalog) (which : ImageIdentity → Prop) (c' : Catalog) : Prop where
  valid : ImagesValid c'.images
  rest : c' = { c with images := c'.images }
  same : ∀ identity, which identity → configRows c'.images identity = configRows c.images identity

theorem Untouched.step {c c' c'' : Catalog} {which : ImageIdentity → Prop}
    (kept : Untouched c which c') (valid : ImagesValid c''.images)
    (rest : c'' = { c' with images := c''.images })
    (same : ∀ identity, which identity →
      configRows c''.images identity = configRows c'.images identity) : Untouched c which c'' where
  valid := valid
  rest := by rw [rest, kept.rest]
  same identity held := (same identity held).trans (kept.same identity held)

theorem mem_departedImages {loaded : List ImageRow} {identity : ImageIdentity} :
    identity ∈ departedImages doc loaded ↔
      configRows loaded identity ≠ [] ∧ identity ∉ doc.image.map ImageEntry.identity := by
  simp only [departedImages, List.mem_filter, List.mem_dedup, List.mem_map, decide_eq_true_eq,
    configRows, ne_eq, List.filter_eq_nil_iff, not_forall]
  constructor
  · rintro ⟨⟨r, ⟨member, managed⟩, rfl⟩, absent⟩
    exact ⟨⟨r, member, by simp [managed]⟩, absent⟩
  · rintro ⟨⟨r, member, held⟩, absent⟩
    simp only [not_not] at held
    exact ⟨⟨r, ⟨member, held.1⟩, held.2⟩, absent⟩

theorem upserts_untouched (checked : doc.Checked) (valid : ImagesValid s.1.images)
    (upserted : Sweep.run (upsertEntry env s.1.images) doc.image s = .ok s') :
    Untouched s.1 (fun i => i ∉ doc.image.map ImageEntry.identity) s'.1 := by
  refine Sweep.run_keeps_ready (upserts_establish env s.1.images)
    (List.pairwise_map.mp checked.images) (fun _ _ => ⟨valid, rfl⟩) upserted
    (fun t => Untouched s.1 _ t.1) ?_ ⟨valid, rfl, fun _ _ => rfl⟩
  intro entry member t t' ready moved kept
  have step := upsertEntry_ok ready.1 ready.2 moved
  refine kept.step step.valid step.rest (fun identity absent => step.others identity ?_)
  rintro rfl
  exact absent (List.mem_map_of_mem member)

theorem reconcileImages_ok (checked : doc.Checked) (valid : ImagesValid s.1.images)
    (done : reconcileImages env doc s = .ok s') : ImagesPassed env doc s.1 s'.1 := by
  unfold reconcileImages at done
  simp only [bind, Except.bind] at done
  split at done
  · cases done
  rename_i mid upserted
  have settled := Sweep.run_establishes (upserts_establish env s.1.images)
    (List.pairwise_map.mp checked.images) (fun _ _ => ⟨valid, rfl⟩) upserted
  obtain ⟨valid', rest, same⟩ := upserts_untouched checked valid upserted
  have prunes := prunes_establish env s.1.images
  have distinct : (departedImages doc s.1.images).Pairwise (· ≠ ·) :=
    (List.nodup_dedup _).filter _
  have ready : ∀ i ∈ departedImages doc s.1.images, ImagesValid mid.1.images ∧
      configRows mid.1.images i = configRows s.1.images i := fun i member =>
    ⟨valid', same i (mem_departedImages.mp member).2⟩
  have thinned := Sweep.run_establishes prunes distinct ready done
  have finish : Untouched mid.1 (fun i => i ∉ departedImages doc s.1.images) s'.1 := by
    refine Sweep.run_keeps_ready prunes distinct ready done (fun t => Untouched mid.1 _ t.1) ?_
      ⟨valid', rfl, fun _ _ => rfl⟩
    intro gone member t t' ready moved kept
    have step := pruneImage_ok ready.1 (existing_congr ready.2) moved
    refine kept.step step.valid step.rest (fun identity absent => step.others identity ?_)
    rintro rfl
    exact absent member
  obtain ⟨valid'', rest', untouched⟩ := finish
  refine ⟨by rw [rest', rest], valid'', ?_, ?_⟩
  · intro entry member
    obtain ⟨row, found, fields⟩ := (settled entry member).2
    refine ⟨row, ?_, fields⟩
    rw [existing_congr (untouched entry.identity ?_)]
    · exact found
    · intro gone
      exact (mem_departedImages.mp gone).2 (List.mem_map_of_mem member)
  · intro identity absent
    by_cases gone : identity ∈ departedImages doc s.1.images
    · exact (thinned identity gone).2
    · have none : configRows s.1.images identity = [] := by
        by_contra some
        exact gone (mem_departedImages.mpr ⟨some, absent⟩)
      refine .inl ⟨(untouched identity gone).trans (same identity absent), ?_⟩
      intro r found
      rw [existing_eq_getLast?, none] at found
      cases found

theorem pending_of_three {rows : List ImageRow} {identity : ImageIdentity} {earlier : List ImageRow}
    {x y : ImageRow} (valid : ImagesValid rows)
    (split : configRows rows identity = earlier ++ [x, y]) (ripe : x.runtime.state ≠ .pending)
    (ripe' : y.runtime.state ≠ .pending) : ∀ r ∈ earlier, r.runtime.state = .pending := by
  have slot : ∀ r ∈ configRows rows identity, r.runtime.state ≠ .pending →
      r.slot = some (r.runtime.state, identity) := by
    intro r member open'
    simp only [configRows, List.mem_filter, decide_eq_true_eq] at member
    have owner := valid.ownerless r member.1 member.2.1
    have shown := (valid.admissible r member.1).1
    have visible : r.config.visibility = .publicImage := by
      cases held : r.config.visibility with
      | publicImage => rfl
      | privateImage => simp [held, owner] at shown
    simp [ImageRow.slot, visible, open', member.2.2]
  have distinct : ((earlier ++ [x, y]).filterMap ImageRow.slot).Nodup := by
    rw [← split]
    exact valid.slots.sublist (List.filter_sublist.filterMap ImageRow.slot)
  rw [split] at slot
  intro r member
  by_contra open'
  have first := slot r (by simp [member]) open'
  have second := slot x (by simp) ripe
  have third := slot y (by simp) ripe'
  rw [List.filterMap_append, List.nodup_append] at distinct
  have apart := distinct.2.2 _ (List.mem_filterMap.mpr ⟨r, member, first⟩)
  have pair := distinct.2.1
  simp only [List.filterMap_cons, second, third, List.filterMap_nil] at apart pair
  simp only [List.nodup_cons, List.mem_singleton, Prod.mk.injEq, and_true] at pair
  have left := apart _ (List.mem_cons_self ..)
  have right := apart (y.runtime.state, identity) (by simp)
  simp only [ne_eq, Prod.mk.injEq, and_true] at left right
  revert left right pair ripe ripe' open'
  cases r.runtime.state <;> cases x.runtime.state <;> cases y.runtime.state <;> simp

theorem Stuck.of_pending {rows : List ImageRow} {identity : ImageIdentity}
    (pending : ∀ r ∈ configRows rows identity, r.runtime.state = .pending) :
    Stuck env rows identity := by
  intro r found
  rw [existing_eq_getLast?] at found
  exact .inl (pending r (List.mem_of_getLast? found))

theorem stuck_of_two {rows rows' rows'' : List ImageRow} {identity : ImageIdentity}
    (valid : ImagesValid rows) (first : Thinned env identity rows rows')
    (second : Thinned env identity rows' rows'') : Stuck env rows'' identity := by
  rcases second with ⟨same, stuck⟩ | ⟨y, ripe, unused, split⟩
  · exact stuck.congr same
  · rcases first with ⟨same, stuck⟩ | ⟨x, ripe', -, split'⟩
    · have last : existing rows identity = some y := by
        rw [existing_eq_getLast?, ← same, split, List.getLast?_append]
        simp
      rcases stuck y last with pending | used
      · exact absurd pending ripe
      · simp [unused] at used
    · rw [split, List.append_assoc] at split'
      exact .of_pending (pending_of_three valid split' ripe ripe')

theorem upsertEntry_quiet {entry : ImageEntry} {loaded : List ImageRow}
    (valid : ImagesValid s.1.images)
    (same : existing loaded entry.identity = existing s.1.images entry.identity)
    (settled : SettledImage env entry s.1.images) :
    ∃ t, upsertEntry env loaded entry s = .ok t ∧ Quiet s t := by
  obtain ⟨row, found, config, runtime⟩ := settled
  have warned (diff : ReconcileDiff) (warning : Option String) :
      Quiet (s.1, diff) (s.1, diff.warn entry warning) := by
    cases warning <;> exact ⟨rfl, rfl, rfl, rfl⟩
  have deferred : ∃ flag, updateRuntime row (realize env entry (some row)).1 s.1 =
      .ok (s.1, false, flag) := by
    unfold updateRuntime
    split
    · exact ⟨false, rfl⟩
    rename_i differs
    split
    · exact ⟨true, rfl⟩
    rename_i live
    rcases runtime with pending | none | realized
    · exact absurd pending live
    · refine ⟨true, ?_⟩
      have unmatched : s.1.images.any row.unmoved = false := by
        rw [List.any_eq_false]
        intro r member matches'
        simp only [ImageRow.unmoved, decide_eq_true_eq] at matches'
        have equal := List.inj_on_of_nodup_map valid.ids member (existing_mem found).1 matches'.1
        rw [equal, none] at matches'
        exact absurd matches'.2.2.2.2.2 nofun
      simp [persistRuntimeFields, unmatched, Except.map]
    · exact absurd realized differs
  obtain ⟨flag, ran⟩ := deferred
  refine ⟨_, ?_, warned s.2
    (if flag then some (deferredWarning entry) else (realize env entry (some row)).2)⟩
  simp only [upsertEntry, same, found, updateEntry, updateConfig, config, if_true, bind,
    Except.bind, ran, pure, Except.pure, Bool.or_self, Bool.false_eq_true, if_false]

theorem pruneImage_quiet {identity : ImageIdentity} (valid : ImagesValid s.1.images)
    (stuck : Stuck env s.1.images identity) :
    ∃ t, pruneImage env s.1.images identity s = .ok t ∧ Quiet s t := by
  unfold pruneImage
  split
  · exact ⟨s, rfl, .refl s⟩
  rename_i row found
  obtain ⟨there, managed, -⟩ := existing_mem found
  simp only [find_loaded valid there managed]
  split
  · exact ⟨s, rfl, .refl s⟩
  rename_i live
  split
  · exact ⟨_, rfl, rfl, rfl, rfl, rfl⟩
  · rename_i unused
    rcases stuck row found with pending | used
    · exact absurd pending live
    · exact absurd used unused

theorem reconcileImages_quiet (valid : ImagesValid s.1.images)
    (settled : ∀ entry ∈ doc.image, SettledImage env entry s.1.images)
    (stuck : ∀ identity ∉ doc.image.map ImageEntry.identity, Stuck env s.1.images identity) :
    ∃ t, reconcileImages env doc s = .ok t ∧ Quiet s t := by
  obtain ⟨mid, upserted, first⟩ : ∃ mid, Sweep.run (upsertEntry env s.1.images) doc.image s =
      .ok mid ∧ Quiet s mid := by
    refine Sweep.run_quiet Quiet.refl Quiet.trans
      (fun entry t => t.1 = s.1 ∧ SettledImage env entry t.1.images) ?_ ?_
      (fun entry member => ⟨rfl, settled entry member⟩)
    · rintro entry t u quiet ⟨same, held⟩
      exact ⟨quiet.catalog.trans same, by rw [quiet.catalog]; exact held⟩
    · rintro entry t ⟨same, held⟩
      exact upsertEntry_quiet (by rw [same]; exact valid) (by rw [same]) held
  obtain ⟨final, pruned, second⟩ : ∃ final, Sweep.run (pruneImage env s.1.images)
      (departedImages doc s.1.images) mid = .ok final ∧ Quiet mid final := by
    refine Sweep.run_quiet Quiet.refl Quiet.trans
      (fun identity t => t.1 = s.1 ∧ Stuck env s.1.images identity) ?_ ?_
      (fun identity member => ⟨first.catalog, stuck identity (mem_departedImages.mp member).2⟩)
    · rintro identity t u quiet ⟨same, held⟩
      exact ⟨quiet.catalog.trans same, held⟩
    · rintro identity t ⟨same, held⟩
      rw [← same] at valid held ⊢
      exact pruneImage_quiet valid held
  refine ⟨final, ?_, first.trans second⟩
  simp only [reconcileImages, bind, Except.bind, upserted, pruned]

end Pass

end Kdive.Inventory
