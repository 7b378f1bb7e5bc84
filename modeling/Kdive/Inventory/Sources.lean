import Kdive.Inventory.Convergence

/-!
A change of an image's declared source. A registered row holds exactly one of an object key, a
volume and a path. A row that leaves a volume is realized anew, a row that leaves a path is not:
it stays registered with the path gone, and the constraint on the table refuses it.
-/
namespace Kdive.Inventory

section Rule

variable {env : Surroundings} {entry : ImageEntry} {row : Option ImageRow} {r : ImageRow}

def RuntimeFields.ObjectPresent (f : RuntimeFields) : Prop :=
  [f.objectKey, f.volume, f.path].countP Option.isSome = if f.state = .defined then 0 else 1

instance (f : RuntimeFields) : Decidable f.ObjectPresent := inferInstanceAs (Decidable (_ = _))

def ImageSource.Remote : ImageSource → Prop
  | .s3 _ _ => True
  | .build _ _ => True
  | _ => False

/-- The runtime columns of an entry's row after the pass. A pending row is deferred, and so is one
whose provenance is no object, which the swap never matches. -/
def writtenRuntime (env : Surroundings) (entry : ImageEntry) : Option ImageRow → RuntimeFields
  | none => (realize env entry none).1
  | some r => if r.runtime.state = .pending ∨ r.runtime.provenance = none then r.runtime
    else (realize env entry (some r)).1

/-- A registered row with a path whose entry now declares a build or an object. -/
structure LeavesPath (entry : ImageEntry) (r : ImageRow) : Prop where
  registered : r.runtime.state = .registered
  path : r.runtime.path.isSome
  object : r.runtime.provenance ≠ none
  remote : entry.source.Remote

theorem built_unrealized : (built env entry row .unrealized none).ObjectPresent := by
  simp [RuntimeFields.ObjectPresent, built, Placement.unrealized]

theorem built_placement (held : r.runtime.state = .registered) (present : r.runtime.ObjectPresent) :
    (built env entry row r.placement none).ObjectPresent ↔ r.runtime.path = none := by
  have rule : [r.runtime.objectKey, r.runtime.volume, r.runtime.path].countP Option.isSome = 1 := by
    simpa [RuntimeFields.ObjectPresent, held] using present
  have shape : (built env entry row r.placement none).ObjectPresent ↔
      [r.runtime.objectKey, r.runtime.volume, none].countP Option.isSome = 1 := by
    simp [RuntimeFields.ObjectPresent, built, ImageRow.placement, held]
  rw [shape]
  cases key : r.runtime.objectKey <;> cases volume : r.runtime.volume <;>
    cases path : r.runtime.path <;> simp [key, volume, path] at rule ⊢

theorem registered_cases (prior : Option ImageRow) :
    (∃ r, prior = some r ∧ r.runtime.state = .registered) ∨
      ∀ r, prior = some r → r.runtime.state ≠ .registered := by
  by_cases held : ∃ r, prior = some r ∧ r.runtime.state = .registered
  · exact .inl held
  · exact .inr fun r is now => held ⟨r, is, now⟩

/-- What a build is realized to obeys the rule unless it keeps a row that had a path. -/
theorem built_realizeBuild {prior : Option ImageRow}
    (present : ∀ r, prior = some r → r.runtime.ObjectPresent) :
    (built env entry row (realizeBuild entry prior).1 none).ObjectPresent ↔
      ∀ r, prior = some r → r.runtime.state = .registered → r.runtime.path = none := by
  rcases registered_cases prior with ⟨r, rfl, held⟩ | absent
  · rw [realizeBuild_registered held, built_placement held (present r rfl)]
    simp [held]
  · rcases realizeBuild_cases entry prior with ⟨r, is, held, _⟩ | unrealized
    · exact absurd held (absent r is)
    · rw [unrealized]
      exact iff_of_true built_unrealized fun r is held => absurd held (absent r is)

theorem built_realizeS3 {prior : Option ImageRow} {objectKey : String} {digest : Option String}
    {head : S3Head} (present : ∀ r, prior = some r → r.runtime.ObjectPresent) :
    (built env entry row (realizeS3 entry prior objectKey digest head).1 none).ObjectPresent ↔
      ∀ r, prior = some r → r.runtime.state = .registered → r.runtime.path = none := by
  rcases registered_cases prior with ⟨r, rfl, held⟩ | absent
  · rw [realizeS3_registered held, built_placement held (present r rfl)]
    simp [held]
  · rw [realizeS3_open prior absent]
    refine iff_of_true ?_ fun r is held => absurd held (absent r is)
    split
    · exact built_unrealized
    · simp [RuntimeFields.ObjectPresent, built]

/-- What an entry's row is realized to obeys the rule unless it leaves a path. -/
theorem objectPresent_realize (present : ∀ r, row = some r → r.runtime.ObjectPresent) :
    (realize env entry row).1.ObjectPresent ↔ ¬ (entry.source.Remote ∧
      ∃ r, row = some r ∧ r.runtime.state = .registered ∧ r.runtime.path.isSome) := by
  -- a row with a path has no volume, so it is the prior row of a build or an object
  have prior : (∀ r, row.filter (fun r => r.runtime.volume = none) = some r →
      r.runtime.state = .registered → r.runtime.path = none) ↔
      ¬ ∃ r, row = some r ∧ r.runtime.state = .registered ∧ r.runtime.path.isSome := by
    cases row with
    | none => simp
    | some r =>
      have rule := present r rfl
      simp only [RuntimeFields.ObjectPresent] at rule
      by_cases held : r.runtime.state = .registered
      · rw [held] at rule
        cases key : r.runtime.objectKey <;> cases volume : r.runtime.volume <;>
          cases path : r.runtime.path <;>
          simp [key, volume, path, Option.filter_some, held] at rule ⊢
      · simp [Option.filter_some, held]
  have kept : ∀ r, row.filter (fun r => r.runtime.volume = none) = some r →
      r.runtime.ObjectPresent := fun r is => present r (Option.filter_eq_some_iff.1 is).1
  unfold realize
  cases source : entry.source with
  | stagedPath path => simp [RuntimeFields.ObjectPresent, built, ImageSource.Remote]
  | staged volume => simp [RuntimeFields.ObjectPresent, built, ImageSource.Remote]
  | build base components =>
    rw [show ImageSource.Remote (.build base components) = True from rfl, true_and, ← prior]
    exact built_realizeBuild kept
  | s3 objectKey digest =>
    rw [show ImageSource.Remote (.s3 objectKey digest) = True from rfl, true_and, ← prior]
    exact built_realizeS3 kept

theorem objectPresent_written (present : ∀ r, row = some r → r.runtime.ObjectPresent) :
    (writtenRuntime env entry row).ObjectPresent ↔ ∀ r, row = some r → ¬ LeavesPath entry r := by
  cases row with
  | none =>
    rw [writtenRuntime, objectPresent_realize present]
    simp
  | some r =>
    rw [writtenRuntime]
    split
    · rename_i deferred
      refine iff_of_true (present r rfl) ?_
      rintro _ ⟨rfl⟩ leaves
      rcases deferred with pending | none
      · exact absurd (pending.symm.trans leaves.registered) nofun
      · exact leaves.object none
    · rename_i live
      rw [objectPresent_realize present]
      constructor
      · rintro fine _ ⟨rfl⟩ leaves
        exact fine ⟨leaves.remote, r, rfl, leaves.registered, leaves.path⟩
      · rintro fine ⟨remote, _, ⟨rfl⟩, registered, path⟩
        exact fine r rfl ⟨registered, path, fun none => live (.inr none), remote⟩

end Rule

section Upserting

variable {env : Surroundings} {entry : ImageEntry} {row : ImageRow} {c c' : Catalog}
  {loaded : List ImageRow} {s s' : Catalog × ReconcileDiff}

theorem mem_setImage {rows : List ImageRow} {id : Uuid} {f : ImageRow → ImageRow} {r : ImageRow}
    (member : r ∈ setImage rows id f) : r ∈ rows ∨ ∃ q ∈ rows, q.id = id ∧ r = f q := by
  obtain ⟨q, inside, same⟩ := List.mem_map.1 member
  split at same
  · rename_i own
    exact .inr ⟨q, inside, own, same.symm⟩
  · exact .inl (same ▸ inside)

theorem checkedImages_violation {rows : List ImageRow}
    (admissible : ∀ r ∈ rows, r.Admissible) : checkedImages c rows ≠ .error .checkViolation := by
  unfold checkedImages
  rw [if_neg (by rintro ⟨r, member, violates⟩; exact violates (admissible r member))]
  split <;> exact nofun

theorem updateConfig_violation (valid : ImagesValid c.images)
    (there : row ∈ c.images) (managed : row.managedBy = .config)
    (visible : entry.visibility = .publicImage) :
    updateConfig entry row c ≠ .error .checkViolation := by
  unfold updateConfig
  split
  · exact nofun
  · have fine : persistConfigFields c row entry.config ≠ .error .checkViolation := by
      refine checkedImages_violation fun r member => ?_
      rcases mem_setImage member with old | ⟨q, inside, own, rfl⟩
      · exact valid.admissible r old
      · obtain rfl := List.inj_on_of_nodup_map valid.ids inside there own
        have owner := valid.ownerless q there managed
        refine ⟨?_, (valid.admissible q there).2⟩
        simp [ImageEntry.config, visible, owner]
    cases written : persistConfigFields c row entry.config with
    | error e =>
      intro same
      simp only [Except.map, Except.error.injEq] at same
      exact fine (by rw [written, same])
    | ok next => exact nofun

/-- The row as the statements before left it: its declared columns may have been written. -/
structure Current (c : Catalog) (row current : ImageRow) : Prop where
  there : current ∈ c.images
  id : current.id = row.id
  runtime : current.runtime = row.runtime
  attempt : current.publicationAttemptId = row.publicationAttemptId

theorem unmoved_iff {current : ImageRow} (valid : ImagesValid c.images)
    (now : Current c row current) :
    c.images.any row.unmoved = true ↔ row.runtime.provenance ≠ none := by
  rw [List.any_eq_true]
  constructor
  · rintro ⟨r, inside, unmoved⟩ none
    simp only [ImageRow.unmoved, decide_eq_true_eq] at unmoved
    obtain ⟨id, -, -, -, -, provenance⟩ := unmoved
    obtain rfl := List.inj_on_of_nodup_map valid.ids inside now.there (id.trans now.id.symm)
    rw [now.runtime, none] at provenance
    cases provenance
  · intro object
    refine ⟨current, now.there, ?_⟩
    obtain ⟨provenance, held⟩ := Option.ne_none_iff_exists'.mp object
    simp [ImageRow.unmoved, now.id, now.runtime, now.attempt, rowProvenance, held]

theorem updateRuntime_runtime {updated deferred : Bool} {current : ImageRow}
    (valid : ImagesValid c.images) (now : Current c row current)
    (done : updateRuntime row (realize env entry (some row)).1 c = .ok (c', updated, deferred)) :
    ∃ f, Rewrites c row f c' ∧ (f current).runtime = writtenRuntime env entry (some row) := by
  unfold updateRuntime at done
  split at done
  · rename_i settled
    simp only [Except.ok.injEq, Prod.mk.injEq] at done
    obtain ⟨rfl, -, -⟩ := done
    refine ⟨fun r => r, .refl c row, ?_⟩
    rw [now.runtime, writtenRuntime]
    split
    · rfl
    · exact settled
  split at done
  · rename_i pending
    simp only [Except.ok.injEq, Prod.mk.injEq] at done
    obtain ⟨rfl, -, -⟩ := done
    exact ⟨fun r => r, .refl c row, by rw [writtenRuntime, if_pos (.inl pending), now.runtime]⟩
  rename_i live
  unfold persistRuntimeFields at done
  split at done
  · rename_i matched
    have object := (unmoved_iff valid now).1 matched
    cases written : checkedImages c (setImage c.images row.id
        (fun r => { r with runtime := (realize env entry (some row)).1 })) with
    | error e =>
      rw [written] at done
      cases done
    | ok next =>
      rw [written] at done
      simp only [Except.map, Except.ok.injEq, Prod.mk.injEq] at done
      obtain ⟨rfl, -, -⟩ := done
      refine ⟨fun r => { r with runtime := (realize env entry (some row)).1 },
        .of_checked ?_ written, ?_⟩
      · exact ⟨fun _ => rfl, fun _ => rfl, fun _ => rfl, fun _ => rfl⟩
      · rw [writtenRuntime, if_neg (by rintro (pending | none) <;> contradiction)]
  · rename_i moved
    simp only [Except.map, Except.ok.injEq, Prod.mk.injEq] at done
    obtain ⟨rfl, -, -⟩ := done
    have none : row.runtime.provenance = none := by
      by_contra object
      exact moved ((unmoved_iff valid now).2 object)
    exact ⟨fun r => r, .refl c row, by rw [writtenRuntime, if_pos (.inr none), now.runtime]⟩

theorem updateRuntime_refused {current : ImageRow} (valid : ImagesValid c.images)
    (now : Current c row current) (leaves : LeavesPath entry row) :
    updateRuntime row (realize env entry (some row)).1 c = .error .checkViolation := by
  have present : row.runtime.ObjectPresent := by
    rw [← now.runtime]
    exact (valid.admissible current now.there).2
  have violates : ¬ (realize env entry (some row)).1.ObjectPresent := by
    rw [objectPresent_realize (by rintro _ ⟨rfl⟩; exact present), not_not]
    exact ⟨leaves.remote, row, rfl, leaves.registered, leaves.path⟩
  have differs : row.runtime ≠ (realize env entry (some row)).1 := fun same =>
    violates (same ▸ present)
  have settled : row.runtime.state ≠ .pending := by
    rw [leaves.registered]
    exact nofun
  have refused : checkedImages c (setImage c.images row.id
      (fun r => { r with runtime := (realize env entry (some row)).1 })) =
        .error .checkViolation := by
    refine if_pos ⟨{ current with runtime := (realize env entry (some row)).1 }, ?_, ?_⟩
    · exact List.mem_map.2 ⟨current, now.there, by rw [if_pos now.id]⟩
    · exact fun admissible => violates admissible.2
  unfold updateRuntime persistRuntimeFields
  rw [if_neg differs, if_neg settled, if_pos ((unmoved_iff valid now).2 leaves.object), refused]
  rfl

theorem updateRuntime_violation {current : ImageRow} (valid : ImagesValid c.images)
    (now : Current c row current) (keeps : ¬ LeavesPath entry row) :
    updateRuntime row (realize env entry (some row)).1 c ≠ .error .checkViolation := by
  have present : ∀ r, some row = some r → r.runtime.ObjectPresent := by
    rintro _ ⟨rfl⟩
    rw [← now.runtime]
    exact (valid.admissible current now.there).2
  unfold updateRuntime persistRuntimeFields
  split
  · exact nofun
  split
  · exact nofun
  rename_i live
  split
  · rename_i matched
    have object := (unmoved_iff valid now).1 matched
    have fine : (realize env entry (some row)).1.ObjectPresent := by
      have written := (@objectPresent_written env entry (some row) present).2 (by
        rintro _ ⟨rfl⟩
        exact keeps)
      rwa [writtenRuntime, if_neg (by rintro (pending | none) <;> contradiction)] at written
    have checked := @checkedImages_violation c (setImage c.images row.id
        (fun r => { r with runtime := (realize env entry (some row)).1 })) (by
      intro r member
      rcases mem_setImage member with old | ⟨q, inside, own, rfl⟩
      · exact valid.admissible r old
      · exact ⟨(valid.admissible q inside).1, fine⟩)
    intro same
    cases written : checkedImages c (setImage c.images row.id
        (fun r => { r with runtime := (realize env entry (some row)).1 })) with
    | error e =>
      rw [written] at same checked
      simp only [Except.map, Except.error.injEq] at same
      exact checked (by rw [same])
    | ok next =>
      rw [written] at same
      cases same
  · exact nofun

theorem Current.of_updateConfig {updated : Bool} (there : row ∈ c.images)
    (done : updateConfig entry row c = .ok (c', updated)) :
    ∃ f, Rewrites c row f c' ∧ Current c' row (f row) := by
  obtain ⟨f, rewritten, -, runtime⟩ := updateConfig_ok done
  refine ⟨f, rewritten, ?_, rewritten.keeps.id row, (runtime row).1, (runtime row).2⟩
  rw [rewritten.catalog]
  exact List.mem_map.2 ⟨row, there, by simp⟩

theorem updateEntry_runtime (valid : ImagesValid s.1.images)
    (found : existing s.1.images entry.identity = some row)
    (done : updateEntry env entry row s = .ok s') :
    ∃ after, existing s'.1.images entry.identity = some after ∧
      after.runtime = writtenRuntime env entry (some row) := by
  obtain ⟨there, -, -⟩ := existing_mem found
  unfold updateEntry at done
  simp only [bind, Except.bind] at done
  split at done
  · cases done
  rename_i first declared
  obtain ⟨f, rewritten, now⟩ := Current.of_updateConfig there declared
  split at done
  · cases done
  rename_i second realized
  simp only [pure, Except.pure, Except.ok.injEq] at done
  subst done
  obtain ⟨g, again, runtime⟩ := updateRuntime_runtime (rewritten.valid valid) now realized
  have both := rewritten.comp again
  refine ⟨g (f row), ?_, runtime⟩
  rw [both.catalog, existing_setImage both.keeps, found]
  simp

theorem updateEntry_refused (valid : ImagesValid s.1.images)
    (found : existing s.1.images entry.identity = some row) (leaves : LeavesPath entry row) :
    ∃ e, updateEntry env entry row s = .error e := by
  obtain ⟨there, -, -⟩ := existing_mem found
  unfold updateEntry
  cases declared : updateConfig entry row s.1 with
  | error e => exact ⟨e, rfl⟩
  | ok first =>
    obtain ⟨f, rewritten, now⟩ := Current.of_updateConfig there declared
    refine ⟨.checkViolation, ?_⟩
    simp only [bind, Except.bind, updateRuntime_refused (rewritten.valid valid) now leaves]

theorem updateEntry_violation (valid : ImagesValid s.1.images)
    (found : existing s.1.images entry.identity = some row)
    (visible : entry.visibility = .publicImage) (keeps : ¬ LeavesPath entry row) :
    updateEntry env entry row s ≠ .error .checkViolation := by
  obtain ⟨there, managed, -⟩ := existing_mem found
  have config := updateConfig_violation valid there managed visible
  unfold updateEntry
  cases declared : updateConfig entry row s.1 with
  | error e =>
    rw [declared] at config
    intro same
    simp only [bind, Except.bind, Except.error.injEq] at same
    exact config (by rw [same])
  | ok first =>
    obtain ⟨f, rewritten, now⟩ := Current.of_updateConfig there declared
    have runtime := @updateRuntime_violation env entry row first.1 (f row)
      (rewritten.valid valid) now keeps
    cases realized : updateRuntime row (realize env entry (some row)).1 first.1 with
    | error e =>
      rw [realized] at runtime
      intro same
      simp only [bind, Except.bind, realized, Except.error.injEq] at same
      exact runtime (by rw [same])
    | ok second =>
      intro same
      simp only [bind, Except.bind, realized] at same
      cases same

theorem createEntry_violation (valid : ImagesValid s.1.images)
    (visible : entry.visibility = .publicImage) :
    createEntry env entry s ≠ .error .checkViolation := by
  have fine := @checkedImages_violation s.1 (s.1.images ++ [⟨env.freshId (s.1.images.map ImageRow.id),
    entry.identity, entry.config, (realize env entry none).1, .config, none, none⟩]) (by
      intro r member
      rcases List.mem_append.1 member with old | new
      · exact valid.admissible r old
      · obtain rfl := List.mem_singleton.1 new
        refine ⟨by simp [ImageEntry.config, visible], ?_⟩
        exact (@objectPresent_realize env entry none (by simp)).2 (by simp))
  unfold createEntry
  intro same
  simp only [bind, Except.bind] at same
  split at same
  · rename_i e failed
    simp only [Except.error.injEq] at same
    exact fine (by rw [failed, same])
  · cases same

end Upserting

section Passing

variable {env : Surroundings} {doc : InventoryDoc} {entry : ImageEntry} {loaded : List ImageRow}
  {s s' : Catalog × ReconcileDiff}

theorem upsertEntry_runtime (valid : ImagesValid s.1.images)
    (current : existing s.1.images entry.identity = existing loaded entry.identity)
    (done : upsertEntry env loaded entry s = .ok s') :
    ∃ after, existing s'.1.images entry.identity = some after ∧
      after.runtime = writtenRuntime env entry (existing loaded entry.identity) := by
  unfold upsertEntry at done
  split at done
  · rename_i absent
    unfold createEntry at done
    simp only [bind, Except.bind] at done
    split at done
    · cases done
    rename_i c written
    simp only [pure, Except.pure, Except.ok.injEq] at done
    subst done
    obtain ⟨rfl, -, -⟩ := checkedImages_ok written
    exact ⟨_, existing_append rfl, by rw [absent]; rfl⟩
  · rename_i row found
    rw [found]
    exact updateEntry_runtime valid (current.trans found) done

theorem upsertEntry_refused {row : ImageRow} (valid : ImagesValid s.1.images)
    (current : existing s.1.images entry.identity = existing loaded entry.identity)
    (found : existing loaded entry.identity = some row) (leaves : LeavesPath entry row) :
    ∃ e, upsertEntry env loaded entry s = .error e := by
  unfold upsertEntry
  rw [found]
  exact updateEntry_refused valid (current.trans found) leaves

theorem upsertEntry_violation (valid : ImagesValid s.1.images)
    (current : existing s.1.images entry.identity = existing loaded entry.identity)
    (visible : entry.visibility = .publicImage)
    (keeps : ∀ row, existing loaded entry.identity = some row → ¬ LeavesPath entry row) :
    upsertEntry env loaded entry s ≠ .error .checkViolation := by
  unfold upsertEntry
  split
  · exact createEntry_violation valid visible
  · rename_i row found
    exact updateEntry_violation valid (current.trans found) visible (keeps row found)

theorem pruneImage_fine (env : Surroundings) (loaded : List ImageRow) (identity : ImageIdentity)
    (s : Catalog × ReconcileDiff) : ∃ s', pruneImage env loaded identity s = .ok s' := by
  unfold pruneImage
  split
  · exact ⟨_, rfl⟩
  dsimp only
  split
  · exact ⟨_, rfl⟩
  split
  · exact ⟨_, rfl⟩
  split <;> exact ⟨_, rfl⟩

theorem prunes_fine (env : Surroundings) (loaded : List ImageRow) (items : List ImageIdentity) :
    ∀ s, ∃ s', Sweep.run (pruneImage env loaded) items s = .ok s' := by
  induction items with
  | nil => exact fun s => ⟨s, rfl⟩
  | cons i rest ih =>
    intro s
    obtain ⟨s₁, one⟩ := pruneImage_fine env loaded i s
    obtain ⟨s', rest⟩ := ih s₁
    refine ⟨s', ?_⟩
    rw [Sweep.run, one]
    exact rest

theorem prunes_existing {entry : ImageEntry} (declared : entry ∈ doc.image)
    (ready : ∀ i ∈ departedImages doc loaded, ImagesValid s.1.images ∧
      configRows s.1.images i = configRows loaded i)
    (done : Sweep.run (pruneImage env loaded) (departedImages doc loaded) s = .ok s') :
    existing s'.1.images entry.identity = existing s.1.images entry.identity := by
  have distinct : (departedImages doc loaded).Pairwise (· ≠ ·) := (List.nodup_dedup _).filter _
  refine Sweep.run_keeps_ready (prunes_establish env loaded) distinct ready done
    (fun t => existing t.1.images entry.identity = existing s.1.images entry.identity) ?_ rfl
  intro gone member t t' due moved kept
  have step := pruneImage_ok due.1 (existing_congr due.2) moved
  rw [existing_congr (step.others entry.identity ?_)]
  · exact kept
  · rintro rfl
    exact (mem_departedImages.mp member).2 (List.mem_map_of_mem declared)

theorem written_of_pass (checked : doc.Checked) (valid : ImagesValid s.1.images)
    (done : reconcileImages env doc s = .ok s') {entry : ImageEntry} (declared : entry ∈ doc.image) :
    ∃ after, existing s'.1.images entry.identity = some after ∧
      after.runtime = writtenRuntime env entry (existing s.1.images entry.identity) := by
  unfold reconcileImages at done
  simp only [bind, Except.bind] at done
  split at done
  · cases done
  rename_i mid upserted
  have upserts := upserts_establish env s.1.images
  -- the same sweep, with what an entry leaves in its row
  have writes : Sweep.Establishes (upsertEntry env s.1.images)
      (fun i j => i.identity ≠ j.identity)
      (fun i t => ImagesValid t.1.images ∧
        existing t.1.images i.identity = existing s.1.images i.identity)
      (fun i t => ∃ after, existing t.1.images i.identity = some after ∧
        after.runtime = writtenRuntime env i (existing s.1.images i.identity)) := by
    refine ⟨fun i t t' ready moved => upsertEntry_runtime ready.1 ready.2 moved, upserts.waiting, ?_⟩
    rintro i j t t' apart ⟨after, found, runtime⟩ ready moved
    have step := upsertEntry_ok ready.1 ready.2 moved
    exact ⟨after, (existing_congr (step.others i.identity apart)).trans found, runtime⟩
  have middle := upserts_untouched checked valid upserted
  obtain ⟨after, found, runtime⟩ := Sweep.run_establishes writes
    (List.pairwise_map.mp checked.images) (fun _ _ => ⟨valid, rfl⟩) upserted entry declared
  refine ⟨after, ?_, runtime⟩
  rw [prunes_existing declared ?_ done]
  · exact found
  · exact fun i member => ⟨middle.valid, middle.same i (mem_departedImages.mp member).2⟩

theorem pass_refused (checked : doc.Checked) (valid : ImagesValid s.1.images)
    {entry : ImageEntry} (declared : entry ∈ doc.image) {row : ImageRow}
    (found : existing s.1.images entry.identity = some row) (leaves : LeavesPath entry row) :
    ∃ e, reconcileImages env doc s = .error e := by
  cases upserted : Sweep.run (upsertEntry env s.1.images) doc.image s with
  | error e =>
    refine ⟨e, ?_⟩
    simp only [reconcileImages, bind, Except.bind, upserted]
  | ok mid =>
    obtain ⟨t, t', ready, moved⟩ := Sweep.run_took_ready (upserts_establish env s.1.images)
      (List.pairwise_map.mp checked.images) (fun i _ => ⟨valid, rfl⟩) upserted declared
    obtain ⟨e, refused⟩ := @upsertEntry_refused env entry s.1.images t row ready.1 ready.2 found leaves
    rw [refused] at moved
    cases moved

theorem pass_violation (checked : doc.Checked) (valid : ImagesValid s.1.images)
    (visible : ∀ entry ∈ doc.image, entry.visibility = .publicImage)
    (keeps : ∀ entry ∈ doc.image, ∀ row, existing s.1.images entry.identity = some row →
      ¬ LeavesPath entry row) : reconcileImages env doc s ≠ .error .checkViolation := by
  intro failed
  unfold reconcileImages at failed
  simp only [bind, Except.bind] at failed
  split at failed
  · rename_i e upserted
    obtain ⟨entry, declared, t, ready, moved⟩ := Sweep.run_error_ready
      (upserts_establish env s.1.images) (List.pairwise_map.mp checked.images)
      (fun i _ => ⟨valid, rfl⟩) upserted
    refine @upsertEntry_violation env entry s.1.images t ready.1 ready.2 (visible entry declared)
      (keeps entry declared) ?_
    rw [moved, Except.error.inj failed]
  · rename_i mid upserted
    obtain ⟨s', pruned⟩ := prunes_fine env s.1.images (departedImages doc s.1.images) mid
    rw [pruned] at failed
    cases failed

/-- The row an entry is written to obeys the rule unless it leaves a path for a build or an object.
A pass that ends leaves every entry's row so; a pass with such an entry does not end, and a pass of
public entries without one breaks no constraint on rows. -/
theorem source_change_iff (env : Surroundings) :
    (∀ entry row, (∀ r, row = some r → r.runtime.ObjectPresent) →
      ((writtenRuntime env entry row).ObjectPresent ↔ ∀ r, row = some r → ¬ LeavesPath entry r)) ∧
    ∀ (doc : InventoryDoc) (s : Catalog × ReconcileDiff), doc.Checked →
      ImagesValid s.1.images →
      (∀ s', reconcileImages env doc s = .ok s' → ∀ entry ∈ doc.image, ∃ after,
        existing s'.1.images entry.identity = some after ∧
        after.runtime = writtenRuntime env entry (existing s.1.images entry.identity)) ∧
      ((∃ entry ∈ doc.image, ∃ r, existing s.1.images entry.identity = some r ∧
        LeavesPath entry r) → ∃ e, reconcileImages env doc s = .error e) ∧
      ((∀ entry ∈ doc.image, entry.visibility = .publicImage ∧
        ∀ r, existing s.1.images entry.identity = some r → ¬ LeavesPath entry r) →
        reconcileImages env doc s ≠ .error .checkViolation) := by
  constructor
  · intro entry row present
    exact objectPresent_written present
  · intro doc s checked valid
    refine ⟨fun s' done entry declared => written_of_pass checked valid done declared, ?_, ?_⟩
    · rintro ⟨entry, declared, row, found, leaves⟩
      exact pass_refused checked valid declared found leaves
    · intro fine
      exact pass_violation checked valid (fun entry declared => (fine entry declared).1)
        (fun entry declared => (fine entry declared).2)

def builtEntry : ImageEntry :=
  ⟨"local-libvirt", "base", "x86_64", "qcow2", "/dev/vda", .publicImage, [], .build "fedora" [], "",
    none⟩

def builtDoc : InventoryDoc := { image := [builtEntry] }

def baseRow (objectKey path : Option String) : ImageRow :=
  ⟨1, builtEntry.identity, builtEntry.config,
    ⟨.registered, objectKey, none, path, none, some ∅, false, none⟩, .config, none, none⟩

def baseCatalog (objectKey path : Option String) : Catalog :=
  { clearedCatalog with images := [baseRow objectKey path] }

theorem builtDoc_checked : builtDoc.Checked := by
  constructor <;> decide

theorem base_valid : ImagesValid (baseCatalog (some "built") none).images := by
  constructor <;> decide

theorem built_base_kept :
    (writtenRuntime bareSurroundings builtEntry
      (some (baseRow (some "built") none))).ObjectPresent ∧
      reconcileImages bareSurroundings builtDoc (baseCatalog (some "built") none, {}) ≠
        .error .checkViolation := by
  have keeps : ∀ r, some (baseRow (some "built") none) = some r → ¬ LeavesPath builtEntry r := by
    intro r found leaves
    obtain rfl := Option.some.inj found
    exact absurd leaves.path nofun
  constructor
  · refine ((source_change_iff bareSurroundings).1 builtEntry _ ?_).2 keeps
    intro r found
    obtain rfl := Option.some.inj found
    decide
  · refine ((source_change_iff bareSurroundings).2 builtDoc
      (baseCatalog (some "built") none, {}) builtDoc_checked base_valid).2.2 ?_
    intro entry declared
    obtain rfl := List.mem_singleton.1 declared
    exact ⟨rfl, keeps⟩

/-- A staged file that is to be built from now on. -/
theorem staged_path_to_build_aborts :
    (baseRow none (some "/srv/base.qcow2")).runtime.ObjectPresent ∧
    ¬ (writtenRuntime bareSurroundings builtEntry
      (some (baseRow none (some "/srv/base.qcow2")))).ObjectPresent ∧
    reconcileImages bareSurroundings builtDoc
        (baseCatalog none (some "/srv/base.qcow2"), {}) = .error .checkViolation := by
  decide

end Passing


end Kdive.Inventory
