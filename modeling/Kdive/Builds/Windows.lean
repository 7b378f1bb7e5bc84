import Kdive.Builds.CompleteBuild

/-!
The window a finalize commits under. A single-PUT finalize compares deadlines at its commit, so it
succeeds only under the window it read as long as no two windows share a deadline. A chunked one
adopts whatever row its locked refresh finds: nothing compares that row with the one it read.
-/
namespace Kdive.Builds
open ObjectStore Uploads

def Verdict.isSuccess : Verdict → Bool
  | .succeeded _ _ _ => true
  | _ => false

def windowGone : Verdict := .rejected (.configuration "no_upload_manifest")

def windowReplaced : Verdict := .rejected (.configuration "upload_window_replaced")

def Verdict.refusesRun : Verdict → Bool
  | .existing => true
  | .rejected (.configuration reason) => decide (reason ∈
      ["investigation_not_accepting_upload", "", "running", "failed", "canceled"])
  | _ => false

def Final.keepsWindow (f : Final) : Prop :=
  (f.verdict.isSuccess = true → f.present = some f.used.manifest.window) ∧
    (f.present ≠ some f.used.manifest.window →
      f.verdict.refusesRun = true ∨ f.verdict = windowGone ∨ f.verdict = windowReplaced)

def Drop.keepsWindow (d : Drop) : Prop := ∀ window, d.present = some window → window = d.used

section Condition

/-- The locked refresh of a chunked finalize finds the row it read, or none; and neither a mint nor
a refresh gives a window a deadline with which another window of the Run was read. -/
def Undisturbed (settings : Settings) (s : State) : Request → Prop
  | .refreshDeadline run read now => ∀ m ∈ s.manifests run, m.window = read.window ∧
      ∀ reading ∈ s.readings, reading.run = run →
        reading.deadline = refreshedDeadline settings m now → reading.window = m.window
  | .mint run _ now ttl => ∀ reading ∈ s.readings, reading.run = run → reading.deadline ≠ now + ttl
  | _ => True

end Condition

section Invariant

def Carries (s : State) (run : Uuid) (deadline : Instant) : Prop :=
  (∃ m, s.manifests run = some m ∧ m.deadline = deadline) ∨
    ∃ i, s.locks run = some (i, some deadline)

structure WindowsKept (s : State) : Prop where
  apart : ∀ {run deadline m}, Carries s run deadline → s.manifests run = some m →
    ∀ reading ∈ s.readings, reading.run = run → reading.deadline = deadline →
      reading.window = m.window
  finals : ∀ f ∈ s.finals, f.keepsWindow
  finished : ∀ f ∈ s.finals, f.verdict.isSuccess = true →
    (∀ row, s.runs f.used.run = some row → row.state ≠ .created) ∧
      ∀ m, s.manifests f.used.run = some m → m.window = f.used.manifest.window
  drops : ∀ d ∈ s.drops, d.keepsWindow

/-- What a process relies on: histories grow, and its locks protect its rows, which can only go. -/
structure WindowRely (i : Nat) (s t : State) : Prop where
  readings : s.readings ⊆ t.readings
  finals : s.finals ⊆ t.finals
  locked : ∀ run deadline, s.locks run = some (i, deadline) → t.locks run = some (i, deadline) ∧
    (t.manifests run = s.manifests run ∨ t.manifests run = none)

theorem WindowRely.refl (i : Nat) (s : State) : WindowRely i s s :=
  ⟨List.Subset.refl _, List.Subset.refl _, fun _ _ held => ⟨held, .inl rfl⟩⟩

theorem WindowRely.trans {i : Nat} {s t u : State} (first : WindowRely i s t)
    (second : WindowRely i t u) : WindowRely i s u := by
  refine ⟨List.Subset.trans first.readings second.readings,
    List.Subset.trans first.finals second.finals, ?_⟩
  intro run deadline held
  obtain ⟨held', row⟩ := first.locked run deadline held
  obtain ⟨held'', row'⟩ := second.locked run deadline held'
  refine ⟨held'', ?_⟩
  rcases row' with same | gone
  · rw [same]
    exact row
  · exact .inr gone

/-- The two states agree on everything but the store and what was read of it. -/
structure SameTables (s t : State) : Prop where
  runs : t.runs = s.runs
  manifests : t.manifests = s.manifests
  locks : t.locks = s.locks
  readings : t.readings = s.readings
  finals : t.finals = s.finals
  drops : t.drops = s.drops

theorem WindowsKept.frame {s t : State} (kept : WindowsKept s) (same : SameTables s t) :
    WindowsKept t := by
  obtain ⟨apart, finals, finished, drops⟩ := kept
  obtain ⟨runs, manifests, locks, readings, isFinals, isDrops⟩ := same
  constructor
  · simp only [Carries, manifests, locks, readings]
    exact apart
  · rw [isFinals]
    exact finals
  · rw [isFinals, runs, manifests]
    exact finished
  · rw [isDrops]
    exact drops

theorem SameTables.rely {s t : State} (same : SameTables s t) (i : Nat) : WindowRely i s t := by
  refine ⟨?_, ?_, ?_⟩
  · rw [same.readings]
    exact List.Subset.refl _
  · rw [same.finals]
    exact List.Subset.refl _
  · intro run deadline held
    rw [same.locks, same.manifests]
    exact ⟨held, .inl rfl⟩

end Invariant

section Seen

variable {s : State} {i : Nat} {run : Uuid} {m : UploadManifest}

theorem seen_spec (seen : s.manifestSeen i run = some m) :
    ∃ m', s.manifests run = some m' ∧ m'.window = m.window ∧
      m'.windowStartedAt = m.windowStartedAt ∧ m'.entries = m.entries ∧ Carries s run m.deadline := by
  rw [State.manifestSeen] at seen
  split at seen
  · rename_i holder deadline lock
    split at seen
    · rw [Option.map_eq_some_iff] at seen
      obtain ⟨m', row, rfl⟩ := seen
      exact ⟨m', row, rfl, rfl, rfl, .inr ⟨holder, lock⟩⟩
    · exact ⟨m, seen, rfl, rfl, rfl, .inl ⟨m, seen, rfl⟩⟩
  · exact ⟨m, seen, rfl, rfl, rfl, .inl ⟨m, seen, rfl⟩⟩

theorem seen_of_unheld (unheld : ∀ deadline, s.locks run ≠ some (i, deadline)) :
    s.manifestSeen i run = s.manifests run := by
  rw [State.manifestSeen]
  split
  · rename_i holder deadline lock
    rw [if_neg]
    rintro rfl
    exact unheld _ lock
  · rfl

end Seen

section Steps

variable {s : State} {i : Nat}

theorem end_manifests {commits : Bool} {run : Uuid} {m : UploadManifest}
    (row : (s.endTransaction i commits).manifests run = some m) :
    ∃ m', s.manifests run = some m' ∧ m'.window = m.window ∧ Carries s run m.deadline := by
  change (if commits then s.manifestSeen i run else s.manifests run) = some m at row
  split at row
  · obtain ⟨m', row', window, _, _, carries⟩ := seen_spec row
    exact ⟨m', row', window, carries⟩
  · exact ⟨m, row, rfl, .inl ⟨m, row, rfl⟩⟩

theorem end_locks {commits : Bool} {run : Uuid} {lock : Nat × Option Instant}
    (held : (s.endTransaction i commits).locks run = some lock) : s.locks run = some lock :=
  (Option.filter_eq_some_iff.mp held).1

theorem WindowsKept.endTransaction (kept : WindowsKept s) (commits : Bool) :
    WindowsKept (s.endTransaction i commits) := by
  constructor
  · intro run deadline m carries row reading isReading isRun isDeadline
    obtain ⟨m', row', window, old⟩ := end_manifests row
    rw [← window]
    refine kept.apart ?_ row' reading isReading isRun isDeadline
    rcases carries with ⟨same, row', rfl⟩ | ⟨j, lock⟩
    · obtain rfl := Option.some.inj (row.symm.trans row')
      exact old
    · exact .inr ⟨j, end_locks lock⟩
  · exact kept.finals
  · intro f isFinal success
    obtain ⟨notCreated, windows⟩ := kept.finished f isFinal success
    refine ⟨notCreated, ?_⟩
    intro m row
    obtain ⟨m', row', window, _⟩ := end_manifests row
    rw [← window]
    exact windows m' row'
  · exact kept.drops

theorem end_rely {j : Nat} (commits : Bool) (other : j ≠ i) :
    WindowRely j s (s.endTransaction i commits) := by
  refine ⟨List.Subset.refl _, List.Subset.refl _, ?_⟩
  intro run deadline held
  constructor
  · change (s.locks run).filter (fun lock => lock.1 != i) = some (j, deadline)
    rw [held, Option.filter_some, if_pos]
    simpa using other
  · left
    change (if commits then s.manifestSeen i run else s.manifests run) = s.manifests run
    split
    · apply seen_of_unheld
      intro deadline' mine
      rw [held] at mine
      exact other (Prod.mk.inj (Option.some.inj mine)).1
    · rfl

theorem WindowsKept.drop (kept : WindowsKept s) (run : Uuid) :
    WindowsKept (s.setManifest run none) := by
  have old {r : Uuid} {m : UploadManifest} (row : (s.setManifest run none).manifests r = some m) :
      s.manifests r = some m := by
    change Function.update s.manifests run none r = some m at row
    rw [Function.update_apply] at row
    split at row
    · cases row
    · exact row
  constructor
  · intro r deadline m carries row reading isReading isRun isDeadline
    refine kept.apart ?_ (old row) reading isReading isRun isDeadline
    rcases carries with ⟨m', row', isDeadline'⟩ | lock
    · exact .inl ⟨m', old row', isDeadline'⟩
    · exact .inr lock
  · exact kept.finals
  · intro f isFinal success
    obtain ⟨notCreated, windows⟩ := kept.finished f isFinal success
    exact ⟨notCreated, fun m row => windows m (old row)⟩
  · exact kept.drops

theorem drop_rely (j : Nat) (run : Uuid) : WindowRely j s (s.setManifest run none) := by
  refine ⟨List.Subset.refl _, List.Subset.refl _, ?_⟩
  intro r deadline held
  refine ⟨held, ?_⟩
  change Function.update s.manifests run none r = _ ∨ Function.update s.manifests run none r = none
  rw [Function.update_apply]
  split
  · exact .inr rfl
  · exact .inl rfl

theorem WindowsKept.mint {run : Uuid} {entries : List ManifestEntry} {now : Instant} {ttl : Duration}
    (kept : WindowsKept s) (free : s.locks run = none)
    (apart : ∀ reading ∈ s.readings, reading.run = run → reading.deadline ≠ now + ttl) :
    WindowsKept (s.mint run entries now ttl) := by
  rw [State.mint]
  split
  · rename_i accepted
    have accepts : s.acceptsUpload run = true := by
      simp only [Bool.and_eq_true] at accepted
      exact accepted.1.1
    have rows {r : Uuid} {m : UploadManifest} (row : Function.update s.manifests run
          (some ⟨entries, now + ttl, now, s.mints⟩) r = some m) :
        (r = run ∧ m = ⟨entries, now + ttl, now, s.mints⟩) ∨ (r ≠ run ∧ s.manifests r = some m) := by
      rw [Function.update_apply] at row
      split at row
      · exact .inl ⟨‹_›, (Option.some.inj row).symm⟩
      · exact .inr ⟨‹_›, row⟩
    constructor
    · intro r deadline m carries row reading isReading isRun isDeadline
      rcases rows row with ⟨rfl, rfl⟩ | ⟨other, old⟩
      · rcases carries with ⟨m', row', rfl⟩ | ⟨j, lock⟩
        · rcases rows row' with ⟨_, rfl⟩ | ⟨absurdity, _⟩
          · exact absurd isDeadline (apart reading isReading isRun)
          · exact absurd rfl absurdity
        · have held : s.locks r = some (j, some deadline) := lock
          rw [free] at held
          cases held
      · refine kept.apart ?_ old reading isReading isRun isDeadline
        rcases carries with ⟨m', row', isDeadline'⟩ | lock
        · rcases rows row' with ⟨same, _⟩ | ⟨_, older⟩
          · exact absurd same other
          · exact .inl ⟨m', older, isDeadline'⟩
        · exact .inr lock
    · exact kept.finals
    · intro f isFinal success
      obtain ⟨notCreated, windows⟩ := kept.finished f isFinal success
      refine ⟨notCreated, ?_⟩
      intro m row
      rcases rows row with ⟨same, _⟩ | ⟨_, old⟩
      · -- A Run with a success is not `created` any more, so nothing was minted for it.
        rw [← same, State.acceptsUpload, Option.any_eq_true] at accepts
        obtain ⟨run', isRow, created⟩ := accepts
        have isCreated := (Bool.and_eq_true_iff.mp created).1
        exact absurd (eq_of_beq isCreated) (notCreated run' isRow)
      · exact windows m old
    · exact kept.drops
  · exact kept

theorem mint_rely {run : Uuid} {entries : List ManifestEntry} {now : Instant} {ttl : Duration}
    (j : Nat) (free : s.locks run = none) : WindowRely j s (s.mint run entries now ttl) := by
  rw [State.mint]
  split
  · refine ⟨List.Subset.refl _, List.Subset.refl _, ?_⟩
    intro r deadline held
    refine ⟨held, .inl ?_⟩
    have other : r ≠ run := by
      rintro rfl
      rw [free] at held
      cases held
    exact Function.update_of_ne other _ _
  · exact WindowRely.refl j s

theorem WindowsKept.read (kept : WindowsKept s) {run : Uuid} {m : UploadManifest}
    (row : s.manifests run = some m) :
    WindowsKept { s with readings := s.readings ++ [⟨run, m.window, m.deadline⟩] } := by
  refine ⟨?_, kept.finals, kept.finished, kept.drops⟩
  intro r deadline m' carries row' reading isReading isRun isDeadline
  rcases List.mem_append.mp isReading with old | new
  · exact kept.apart carries row' reading old isRun isDeadline
  · obtain rfl := List.mem_singleton.mp new
    obtain rfl : run = r := isRun
    obtain rfl := Option.some.inj (row.symm.trans row')
    rfl

theorem WindowsKept.refresh {settings : Settings} {run : Uuid} {read : UploadManifest} {now : Instant}
    (kept : WindowsKept s) (undisturbed : Undisturbed settings s (.refreshDeadline run read now)) :
    WindowsKept (s.refreshDeadline settings i run now).2 := by
  refine ⟨?_, kept.finals, kept.finished, kept.drops⟩
  intro r deadline m carries row reading isReading isRun isDeadline
  rcases carries with direct | ⟨j, lock⟩
  · exact kept.apart (.inl direct) row reading isReading isRun isDeadline
  · change Function.update s.locks run (some (i, _)) r = some (j, some deadline) at lock
    rw [Function.update_apply] at lock
    split at lock
    · rename_i same
      subst same
      obtain ⟨_, refreshed⟩ := Prod.mk.inj (Option.some.inj lock)
      obtain ⟨m', opened, rfl⟩ := Option.map_eq_some_iff.mp refreshed
      have row' := (Option.filter_eq_some_iff.mp opened).1
      obtain rfl := Option.some.inj (row'.symm.trans row)
      exact (undisturbed m' row').2 reading isReading isRun isDeadline
    · exact kept.apart (.inr ⟨j, lock⟩) row reading isReading isRun isDeadline

theorem refresh_rely {settings : Settings} {run : Uuid} {now : Instant} (j : Nat)
    (free : s.locks run = none) : WindowRely j s (s.refreshDeadline settings i run now).2 := by
  refine ⟨List.Subset.refl _, List.Subset.refl _, ?_⟩
  intro r deadline held
  refine ⟨?_, .inl rfl⟩
  have other : r ≠ run := by
    rintro rfl
    rw [free] at held
    cases held
  exact (Function.update_of_ne other _ _).trans held

end Steps

section Finalize

variable {s : State} {i : Nat} {f : Finalization} {now : Instant} {settings : Settings}

theorem publishOrReuse_cases (settings : Settings) (s : State) (f : Finalization) (now : Instant) :
    (∃ created versions rows build result, s.publishOrReuse settings f now =
      (.succeeded created versions rows, s.publish f build result rows)) ∨
      ∃ e, s.publishOrReuse settings f now = (.rejected e, s) := by
  rw [State.publishOrReuse]
  split
  · split
    · split
      · exact .inr ⟨_, rfl⟩
      · exact .inl ⟨_, _, _, _, _, rfl⟩
    · exact .inl ⟨_, _, _, _, _, rfl⟩
  · exact .inr ⟨_, rfl⟩

def committed (s : State) (i : Nat) (f : Finalization) (verdict : Verdict)
    (build : Option InvestigationBuild) (result : BuildStepResult) (rows : List Registered) : State :=
  ((s.publish f build result rows).recordFinal i f ((s.manifestSeen i f.run).map (·.window))
    verdict).endTransaction i true

theorem finalize_cases (settings : Settings) (s : State) (i : Nat) (f : Finalization) (now : Instant) :
    (∃ verdict, (s.requireCurrent i f = some verdict ∨
        s.requireCurrent i f = none ∧ ∃ e, verdict = .rejected e) ∧
      s.finalize settings i f now =
        (verdict, s.recordFinal i f ((s.manifestSeen i f.run).map (·.window)) verdict)) ∨
      ∃ created versions rows build result, s.requireCurrent i f = none ∧
        s.publishOrReuse settings f now =
          (.succeeded created versions rows, s.publish f build result rows) ∧
        s.finalize settings i f now = (.succeeded created versions rows,
          let done := committed s i f (.succeeded created versions rows) build result rows
          if f.chunked then done else done.dropManifest f) := by
  cases current : s.requireCurrent i f with
  | some verdict => exact .inl ⟨verdict, .inl rfl, by rw [State.finalize, current]⟩
  | none =>
    rcases publishOrReuse_cases settings s f now with
      ⟨created, versions, rows, build, result, published⟩ | ⟨e, refused⟩
    · refine .inr ⟨created, versions, rows, build, result, rfl, published, ?_⟩
      rw [State.finalize, current]
      simp only [published]
      rfl
    · refine .inl ⟨.rejected e, .inr ⟨rfl, e, rfl⟩, ?_⟩
      rw [State.finalize, current]
      simp only [refused]

/-- A finalize that goes on has found a row with the deadline it expects, of a `created` Run. -/
theorem requireCurrent_none (passes : s.requireCurrent i f = none) :
    (∃ m, s.manifestSeen i f.run = some m ∧ m.deadline = f.windowDeadline) ∧
      ∃ row, s.runs f.run = some row ∧ row.state = .created := by
  rw [State.requireCurrent] at passes
  split at passes
  · cases passes
  · split at passes
    · cases passes
    · cases passes
    · rename_i created
      obtain ⟨row, isRow, isCreated⟩ := Option.map_eq_some_iff.mp created
      split at passes
      · cases passes
      · rename_i m seen
        split at passes
        · cases passes
        · rename_i same
          exact ⟨⟨m, seen, not_not.mp same⟩, row, isRow, isCreated⟩
    · cases passes

theorem requireCurrent_some {verdict : Verdict} (refused : s.requireCurrent i f = some verdict) :
    verdict.isSuccess = false ∧
      (verdict.refusesRun = true ∨ verdict = windowGone ∨ verdict = windowReplaced) := by
  rw [State.requireCurrent] at refused
  split at refused
  · obtain rfl := Option.some.inj refused
    exact ⟨rfl, .inl (by decide)⟩
  · split at refused
    · obtain rfl := Option.some.inj refused
      exact ⟨rfl, .inl (by decide)⟩
    · obtain rfl := Option.some.inj refused
      exact ⟨rfl, .inl (by decide)⟩
    · split at refused
      · obtain rfl := Option.some.inj refused
        exact ⟨rfl, .inr (.inl rfl)⟩
      · split at refused
        · obtain rfl := Option.some.inj refused
          exact ⟨rfl, .inr (.inr rfl)⟩
        · cases refused
    · rename_i state notSucceeded notCreated _
      obtain rfl := Option.some.inj refused
      refine ⟨rfl, .inl ?_⟩
      cases state with
      | created => exact absurd rfl notCreated
      | succeeded => exact absurd rfl notSucceeded
      | running => decide
      | failed => decide
      | canceled => decide

def Certain (s : State) (i : Nat) (f : Finalization) : Prop :=
  ∀ m, s.manifestSeen i f.run = some m → m.deadline = f.windowDeadline →
    m.window = f.manifest.window

theorem WindowsKept.recordFinal {present : Option Nat} {verdict : Verdict} (kept : WindowsKept s)
    (keeps : Final.keepsWindow ⟨i, f, present, verdict⟩)
    (finished : verdict.isSuccess = true →
      (∀ row, s.runs f.run = some row → row.state ≠ .created) ∧
        ∀ m, s.manifests f.run = some m → m.window = f.manifest.window) :
    WindowsKept (s.recordFinal i f present verdict) := by
  refine ⟨kept.apart, ?_, ?_, kept.drops⟩
  · intro g isFinal
    rcases List.mem_append.mp isFinal with old | new
    · exact kept.finals g old
    · obtain rfl := List.mem_singleton.mp new
      exact keeps
  · intro g isFinal success
    rcases List.mem_append.mp isFinal with old | new
    · exact kept.finished g old success
    · obtain rfl := List.mem_singleton.mp new
      exact finished success

theorem publish_run {build : Option InvestigationBuild} {result : BuildStepResult}
    {rows : List Registered} {run : Uuid} {row : RunRow}
    (isRow : (s.publish f build result rows).runs run = some row) :
    (run = f.run → row.state = .succeeded) ∧ (run ≠ f.run → s.runs run = some row) := by
  change Function.update s.runs f.run
    ((s.runs f.run).map (fun run => { run with state := .succeeded })) run = some row at isRow
  rw [Function.update_apply] at isRow
  split at isRow
  · rename_i same
    obtain ⟨old, _, rfl⟩ := Option.map_eq_some_iff.mp isRow
    exact ⟨fun _ => rfl, fun other => absurd same other⟩
  · rename_i other
    exact ⟨fun same => absurd same other, fun _ => isRow⟩

theorem WindowsKept.publish {build : Option InvestigationBuild} {result : BuildStepResult}
    {rows : List Registered} (kept : WindowsKept s) :
    WindowsKept (s.publish f build result rows) := by
  refine ⟨kept.apart, kept.finals, ?_, kept.drops⟩
  intro g isFinal success
  obtain ⟨notCreated, windows⟩ := kept.finished g isFinal success
  refine ⟨?_, windows⟩
  intro row isRow
  obtain ⟨here, elsewhere⟩ := publish_run isRow
  by_cases same : g.used.run = f.run
  · rw [here same]
    decide
  · exact notCreated row (elsewhere same)

theorem recordFinal_rely (j : Nat) {present : Option Nat} {verdict : Verdict} :
    WindowRely j s (s.recordFinal i f present verdict) :=
  ⟨List.Subset.refl _, List.subset_append_left _ _, fun _ _ held => ⟨held, .inl rfl⟩⟩

theorem WindowsKept.dropManifest (kept : WindowsKept s)
    (same : ∀ m, s.manifests f.run = some m → m.window = f.manifest.window) :
    WindowsKept (s.dropManifest f) := by
  have recorded : WindowsKept { s with drops := s.drops ++
      [(⟨f.run, f.manifest.window, (s.manifests f.run).map (·.window)⟩ : Drop)] } := by
    refine ⟨kept.apart, kept.finals, kept.finished, ?_⟩
    intro d isDrop
    rcases List.mem_append.mp isDrop with old | new
    · exact kept.drops d old
    · obtain rfl := List.mem_singleton.mp new
      intro window present
      obtain ⟨m, row, rfl⟩ := Option.map_eq_some_iff.mp present
      exact same m row
  exact recorded.drop f.run

theorem dropManifest_rely (j : Nat) : WindowRely j s (s.dropManifest f) := by
  obtain ⟨readings, finals, locked⟩ := drop_rely (s := s) j f.run
  exact ⟨readings, finals, locked⟩

theorem WindowsKept.finalize (kept : WindowsKept s) (certain : Certain s i f) :
    WindowsKept (s.finalize settings i f now).2 := by
  rcases finalize_cases settings s i f now with
    ⟨verdict, refused, result⟩ | ⟨created, versions, rows, build, result, passes, _, done⟩
  · rw [result]
    refine kept.recordFinal ?_ ?_
    · rcases refused with early | ⟨passes, e, rfl⟩
      · obtain ⟨notSuccess, reasons⟩ := requireCurrent_some early
        refine ⟨?_, fun _ => reasons⟩
        intro success
        rw [show verdict.isSuccess = false from notSuccess] at success
        cases success
      · obtain ⟨⟨m, seen, deadline⟩, _⟩ := requireCurrent_none passes
        refine ⟨fun success => (by cases success), ?_⟩
        intro different
        exact absurd (by rw [seen, Option.map_some, certain m seen deadline]) different
    · intro success
      rcases refused with early | ⟨_, e, rfl⟩
      · rw [(requireCurrent_some early).1] at success
        cases success
      · cases success
  · obtain ⟨⟨m, seen, deadline⟩, _⟩ := requireCurrent_none passes
    have window := certain m seen deadline
    obtain ⟨m', row, sameWindow, _⟩ := seen_spec seen
    have present : (s.manifestSeen i f.run).map (·.window) = some f.manifest.window := by
      rw [seen, Option.map_some, window]
    have stored : ∀ m, s.manifests f.run = some m → m.window = f.manifest.window := by
      intro other isRow
      obtain rfl := Option.some.inj (row.symm.trans isRow)
      rw [sameWindow, window]
    have recorded : WindowsKept (committed s i f (.succeeded created versions rows) build result
        rows) := by
      refine (kept.publish.recordFinal ⟨fun _ => present, fun different => absurd present different⟩
        ?_).endTransaction true
      intro _
      refine ⟨?_, stored⟩
      intro run isRow
      rw [(publish_run isRow).1 rfl]
      decide
    rw [done]
    dsimp only
    split
    · exact recorded
    · refine recorded.dropManifest ?_
      intro m isRow
      obtain ⟨m', isOld, sameWindow, _⟩ := end_manifests isRow
      rw [← sameWindow]
      exact stored m' isOld

theorem finalize_rely {j : Nat} (other : j ≠ i) :
    WindowRely j s (s.finalize settings i f now).2 := by
  rcases finalize_cases settings s i f now with
    ⟨verdict, _, result⟩ | ⟨created, versions, rows, build, result, _, _, done⟩
  · rw [result]
    exact recordFinal_rely j
  · have recorded : WindowRely j s (committed s i f (.succeeded created versions rows) build result
        rows) := by
      have published : WindowRely j s (s.publish f build result rows) :=
        ⟨List.Subset.refl _, List.Subset.refl _, fun _ _ held => ⟨held, .inl rfl⟩⟩
      exact (published.trans (recordFinal_rely j)).trans (end_rely true other)
    rw [done]
    dsimp only
    split
    · exact recorded
    · exact recorded.trans (dropManifest_rely j)

end Finalize

section Discipline

variable {settings : Settings} {s t : State} {i : Nat}

def windowDiscipline (settings : Settings) : Calls.Discipline (service settings) where
  inv := WindowsKept
  assumes _ s r := Undisturbed settings s r
  rely := WindowRely
  fresh _ _ := True
  rely_refl := WindowRely.refl
  rely_trans _ _ _ _ first second := first.trans second
  fresh_rely _ _ _ _ _ := trivial
  leave_inv _ commits _ kept := kept.endTransaction commits
  leave_rely _ _ commits _ _ other := end_rely commits other

def Request.neutral : Request → Prop
  | .store _ => True
  | .getRun _ => True
  | .existingBuildResult _ => True
  | .put _ _ _ => True
  | .putDeleteMarker _ => True
  | .removeVersion _ => True
  | .setAccepting _ _ => True
  | .retireBuild _ => True
  | _ => False

theorem serveStore_same {r : StoreRequest} {a : r.Answer} (served : s.serveStore i r = some (a, t)) :
    SameTables s t := by
  cases r with
  | head key version =>
    cases served
    exact ⟨rfl, rfl, rfl, rfl, rfl, rfl⟩
  | getRange key version start length =>
    rw [State.serveStore] at served
    split at served
    · cases served
      exact ⟨rfl, rfl, rfl, rfl, rfl, rfl⟩
    · cases served
  | createMultipartUpload key =>
    cases served
    exact ⟨rfl, rfl, rfl, rfl, rfl, rfl⟩
  | uploadPartCopy key upload part sourceKey sourceVersion =>
    obtain ⟨store, _, same⟩ := Option.map_eq_some_iff.mp served
    cases same
    exact ⟨rfl, rfl, rfl, rfl, rfl, rfl⟩
  | completeMultipartUpload key upload parts =>
    obtain ⟨completed, _, same⟩ := Option.map_eq_some_iff.mp served
    cases same
    exact ⟨rfl, rfl, rfl, rfl, rfl, rfl⟩
  | abortMultipartUpload key upload =>
    cases served
    exact ⟨rfl, rfl, rfl, rfl, rfl, rfl⟩
  | deleteVersion key version =>
    cases served
    exact ⟨rfl, rfl, rfl, rfl, rfl, rfl⟩

theorem serve_same {r : Request} {a : r.Answer} (neutral : r.neutral)
    (served : s.serve settings i r = some (a, t)) : SameTables s t := by
  cases r with
  | store r => exact serveStore_same served
  | getRun run =>
    cases served
    exact ⟨rfl, rfl, rfl, rfl, rfl, rfl⟩
  | existingBuildResult run =>
    cases served
    exact ⟨rfl, rfl, rfl, rfl, rfl, rfl⟩
  | put key content checksummed =>
    cases served
    exact ⟨rfl, rfl, rfl, rfl, rfl, rfl⟩
  | putDeleteMarker key =>
    cases served
    exact ⟨rfl, rfl, rfl, rfl, rfl, rfl⟩
  | removeVersion version =>
    cases served
    exact ⟨rfl, rfl, rfl, rfl, rfl, rfl⟩
  | setAccepting investigation accepting =>
    cases served
    exact ⟨rfl, rfl, rfl, rfl, rfl, rfl⟩
  | retireBuild build =>
    cases served
    exact ⟨rfl, rfl, rfl, rfl, rfl, rfl⟩
  | getManifest run => exact neutral.elim
  | refreshDeadline run read now => exact neutral.elim
  | finalize f now => exact neutral.elim
  | deleteManifest f => exact neutral.elim
  | mint run entries now ttl => exact neutral.elim
  | reap run now => exact neutral.elim
  | setRunState run state => exact neutral.elim

theorem SameTables.allows (same : SameTables s t) (kept : WindowsKept s) :
    Calls.Allows (windowDiscipline settings) i s t :=
  ⟨kept.frame same, fun j _ => same.rely j⟩

/-- What the tables decide and the others leave alone survives calls that leave them alone. -/
theorem wp_neutral {α : Type} {K : State → Prop} {p : Build α}
    (neutral : Calls.Only Request.neutral p)
    (tables : ∀ s t, K s → SameTables s t → K t) (stable : ∀ s t, K s → WindowRely i s t → K t)
    (holds : K s) : Calls.wp (windowDiscipline settings) i (fun _ t => K t) Calls.anything p s := by
  refine Calls.wp_only neutral ?_ stable (fun _ _ _ => trivial) holds
  intro r t isNeutral kept known _ a u served
  have same := serve_same isNeutral served
  exact ⟨same.allows kept, tables t u known same⟩

theorem wp_callDatabase {r : Request} {Q : r.Answer → State → Prop}
    (served : ∀ t, WindowsKept t → WindowRely i s t → Undisturbed settings t r → ∀ a u,
      t.serve settings i r = some (a, u) →
        Calls.Allows (windowDiscipline settings) i t u ∧ Q a u) :
    Calls.wp (windowDiscipline settings) i Q Calls.anything (callDatabase r) s := by
  refine Calls.wp_demand (fun _ _ _ => trivial) ?_
  intro t kept rely assumed a u answer
  obtain ⟨allowed, post⟩ := served t kept rely assumed a u answer
  exact ⟨allowed, trivial, post⟩

end Discipline

section Neutral

variable (run : Uuid) (name : String)

theorem callStore_neutral (operation : String) (r : StoreRequest) :
    Calls.Only Request.neutral (callStore operation r) := Calls.only_demand trivial

theorem verifyChunks_neutral (chunks : List ChunkEntry) (part : Nat) :
    Calls.Only Request.neutral (verifyChunks run name part chunks) := by
  induction chunks generalizing part with
  | nil => exact Calls.only_pure _
  | cons chunk rest ih =>
    refine Calls.only_bind (callStore_neutral _ _) ?_
    intro head
    cases head with
    | none => exact Calls.only_throw _
    | some head =>
      dsimp only
      split
      · exact Calls.only_throw _
      · exact Calls.only_bind (ih (part + 1)) (fun _ => Calls.only_pure _)

theorem copyParts_neutral (upload : Nat) (heads : List (Key × Head String)) (parts : List Nat) :
    Calls.Only Request.neutral (copyParts run name upload heads parts) := by
  induction parts with
  | nil => exact Calls.only_pure _
  | cons part rest ih =>
    rw [copyParts]
    split
    · exact Calls.only_throw _
    · exact Calls.only_bind (callStore_neutral _ _) (fun _ => ih)

theorem reassembleChunked_neutral (chunks : List ChunkEntry) :
    Calls.Only Request.neutral (reassembleChunked run name chunks) := by
  refine Calls.only_bind (verifyChunks_neutral run name chunks 1) ?_
  intro heads
  refine Calls.only_bind (callStore_neutral _ _) ?_
  intro upload
  refine Calls.only_rescue ?_ ?_
  · refine Calls.only_bind (copyParts_neutral run name upload heads _) ?_
    intro _
    exact Calls.only_bind (callStore_neutral _ _) (fun _ => Calls.only_pure _)
  · intro e
    exact Calls.only_bind (Calls.only_ask trivial) (fun _ => Calls.only_throw _)

theorem reassembleArtifacts_neutral (entries : List ManifestEntry) (done : Reassembled) :
    Calls.Only Request.neutral (reassembleArtifacts run entries done) := by
  induction entries generalizing done with
  | nil => exact Calls.only_pure _
  | cons entry rest ih =>
    rw [reassembleArtifacts]
    split
    · exact ih done
    · exact Calls.only_bind (reassembleChunked_neutral run entry.name _) (fun _ => ih _)

theorem versionPinnedStore_neutral (versions observed : Key → Option Nat) (r : ReadRequest) :
    Calls.Only Request.neutral (versionPinnedStore versions observed r) := by
  cases r with
  | head key =>
    refine Calls.only_bind (Calls.only_ask trivial) ?_
    intro answer
    match answer with
    | none => exact Calls.only_pure _
    | some none => exact Calls.only_pure _
    | some (some head) => exact Calls.only_pure _
  | getRange key start length version =>
    exact Calls.only_bind (Calls.only_ask trivial) (fun _ => Calls.only_pure _)

theorem observedVersionStore_neutral {σ : Type} {inner : StoreWrapper Request Request.Answer σ}
    (neutral : ∀ w r, Calls.Only Request.neutral (inner w r)) (w : (Key → Option Nat) × σ)
    (r : ReadRequest) : Calls.Only Request.neutral (observedVersionStore inner w r) := by
  obtain ⟨versions, w⟩ := w
  cases r with
  | head key =>
    refine Calls.only_bind (neutral w _) ?_
    intro heard
    dsimp only
    split <;> exact Calls.only_pure _
  | getRange key start length version =>
    rw [observedVersionStore]
    split
    · exact Calls.only_bind (neutral w _) (fun _ => Calls.only_pure _)
    · exact Calls.only_throw _

end Neutral

section Operations

variable {settings : Settings} {i : Nat} {s t : State}

/-- Why a finalize may trust equal deadlines: it read the window with this deadline, or it holds the
lock and the row is of the window it read. -/
def Knows (i : Nat) (run : Uuid) (window : Nat) (deadline : Instant) (s : State) : Prop :=
  (⟨run, window, deadline⟩ : Reading) ∈ s.readings ∨
    ∃ pending, s.locks run = some (i, pending) ∧ ∀ m, s.manifests run = some m → m.window = window

theorem Knows.stable {run : Uuid} {window : Nat} {deadline : Instant}
    (knows : Knows i run window deadline s) (rely : WindowRely i s t) :
    Knows i run window deadline t := by
  rcases knows with read | ⟨pending, held, same⟩
  · exact .inl (rely.readings read)
  · obtain ⟨still, row⟩ := rely.locked run pending held
    refine .inr ⟨pending, still, ?_⟩
    intro m isRow
    rcases row with unchanged | gone
    · exact same m (unchanged ▸ isRow)
    · rw [gone] at isRow
      cases isRow

theorem Knows.tables {run : Uuid} {window : Nat} {deadline : Instant}
    (knows : Knows i run window deadline s) (same : SameTables s t) :
    Knows i run window deadline t := by
  rw [Knows, same.readings, same.locks, same.manifests]
  exact knows

theorem Knows.certain {f : Finalization} (kept : WindowsKept s)
    (knows : Knows i f.run f.manifest.window f.windowDeadline s) : Certain s i f := by
  intro m seen deadline
  obtain ⟨m', row, window, _, _, carries⟩ := seen_spec seen
  rw [← window]
  rcases knows with read | ⟨_, _, same⟩
  · rw [deadline] at carries
    exact (kept.apart carries row _ read rfl rfl).symm
  · exact same m' row

def Succeeded (f : Finalization) (s : State) : Prop :=
  ∃ g ∈ s.finals, g.verdict.isSuccess = true ∧ g.used = f

theorem finalize_records {f : Finalization} {now : Instant}
    (success : (s.finalize settings i f now).1.isSuccess = true) :
    Succeeded f (s.finalize settings i f now).2 := by
  rcases finalize_cases settings s i f now with
    ⟨verdict, _, result⟩ | ⟨created, versions, rows, build, result, _, _, done⟩
  · rw [result] at success ⊢
    exact ⟨_, List.mem_append_right _ (List.mem_singleton_self _), success, rfl⟩
  · rw [done] at success ⊢
    dsimp only
    split
    · exact ⟨_, List.mem_append_right _ (List.mem_singleton_self _), success, rfl⟩
    · exact ⟨_, List.mem_append_right _ (List.mem_singleton_self _), success, rfl⟩

def cleansUp (f : Finalization) (r : Request) : Prop := r.neutral ∨ r = .deleteManifest f

theorem cleanupChunks_only (f : Finalization) (heads : List (Key × Head String)) :
    Calls.Only (cleansUp f) (cleanupChunksAndManifest f heads) := by
  induction heads with
  | nil => exact Calls.only_bind (Calls.only_ask (.inr rfl)) (fun _ => Calls.only_pure _)
  | cons head rest ih =>
    refine Calls.only_bind (Calls.only_ask (.inl trivial)) ?_
    intro answer
    cases answer with
    | none => exact Calls.only_pure _
    | some _ => exact ih

theorem cleanupLosing_only (f : Finalization) (refs : List (String × Key)) :
    Calls.Only (cleansUp f) (cleanupLosingBuildVersions f refs) := by
  induction refs with
  | nil => exact Calls.only_pure _
  | cons ref rest ih =>
    rw [cleanupLosingBuildVersions]
    split
    · exact Calls.only_throw _
    · exact Calls.only_bind (Calls.only_ask (.inl trivial)) (fun _ => ih)

theorem cleanup_only (f : Finalization) (created : Bool) :
    Calls.Only (cleansUp f) (cleanup f created) := by
  refine Calls.only_bind ?_ (fun _ => ?_)
  · split
    · exact cleanupChunks_only f _
    · exact Calls.only_pure _
  · split
    · exact Calls.only_pure _
    · exact cleanupLosing_only f _

theorem wp_cleanup {α : Type} {f : Finalization} {p : Build α} (only : Calls.Only (cleansUp f) p)
    (succeeded : Succeeded f s) :
    Calls.wp (windowDiscipline settings) i Calls.anything Calls.anything p s := by
  have kept : Calls.wp (windowDiscipline settings) i (fun _ t => Succeeded f t) Calls.anything p s := by
    refine Calls.wp_only only ?_ ?_ (fun _ _ _ => trivial) succeeded
    · intro r t cleans kept known _ a u served
      rcases cleans with neutral | rfl
      · have same := serve_same neutral served
        refine ⟨same.allows kept, ?_⟩
        rw [Succeeded, same.finals]
        exact known
      · cases served
        obtain ⟨g, isFinal, success, rfl⟩ := known
        have windows := (kept.finished g isFinal success).2
        exact ⟨⟨kept.dropManifest windows, fun j _ => dropManifest_rely j⟩, g, isFinal, success, rfl⟩
    · intro u v known rely
      obtain ⟨g, isFinal, rest⟩ := known
      exact ⟨g, rely.finals isFinal, rest⟩
  exact Calls.wp_mono kept (fun _ _ _ => trivial) (fun _ _ _ => trivial)

theorem finalizeExternalBuild_wp {f : Finalization} {now : Instant}
    (knows : Knows i f.run f.manifest.window f.windowDeadline s) :
    Calls.wp (windowDiscipline settings) i Calls.anything Calls.anything
      (finalizeExternalBuild f now) s := by
  rw [finalizeExternalBuild, Calls.wp_bind]
  apply wp_callDatabase
  intro t kept rely _ verdict u served
  have certain := (knows.stable rely).certain kept
  rw [State.serve] at served
  split at served
  · obtain ⟨answer, state⟩ := Prod.mk.inj (Option.some.inj served)
    subst state
    refine ⟨⟨kept.finalize certain, fun j other => finalize_rely other⟩, ?_⟩
    cases verdict with
    | rejected e => trivial
    | existing => trivial
    | succeeded created versions rows =>
      have success : (t.finalize settings i f now).1.isSuccess = true := by
        change (t.finalize settings i f now).1 = _ at answer
        rw [answer]
        rfl
      exact wp_cleanup (Calls.only_bind (cleanup_only f created) (fun _ => Calls.only_pure _))
        (finalize_records success)
  · cases served

/-- After the refresh the finalize holds the lock, and the row is of the window it read. -/
theorem reassembleChunkedArtifacts_wp {run : Uuid} {manifest : UploadManifest} {now : Instant} :
    Calls.wp (windowDiscipline settings) i
      (fun result t => Knows i run manifest.window result.1 t) Calls.anything
      (reassembleChunkedArtifacts run manifest now) s := by
  rw [reassembleChunkedArtifacts, Calls.wp_bind]
  apply wp_callDatabase
  intro t kept rely undisturbed refreshed u served
  rw [State.serve] at served
  split at served
  · rename_i free
    obtain ⟨answer, state⟩ := Prod.mk.inj (Option.some.inj served)
    subst state
    have unlocked : t.locks run = none := Option.isNone_iff_eq_none.mp free
    refine ⟨⟨kept.refresh undisturbed, fun j _ => refresh_rely j unlocked⟩, ?_⟩
    cases refreshed with
    | none =>
      dsimp only
      rw [Calls.wp_bind]
      refine Calls.wp_mono (wp_neutral (Calls.only_demand trivial) (K := fun _ => True)
        (fun _ _ _ _ => trivial) (fun _ _ _ _ => trivial) trivial) ?_ (fun _ _ _ => trivial)
      intro recorded v _
      cases recorded <;> trivial
    | some deadline =>
      have knows : Knows i run manifest.window deadline (t.refreshDeadline settings i run now).2 := by
        refine .inr ⟨_, Function.update_self _ _ _, ?_⟩
        intro m row
        exact (undisturbed m row).1
      dsimp only
      rw [Calls.wp_bind]
      refine Calls.wp_mono (wp_neutral ?_ (K := Knows i run manifest.window deadline)
        (fun _ _ knows same => knows.tables same) (fun _ _ knows rely => knows.stable rely) knows)
        (fun _ _ knows => knows) (fun _ _ _ => trivial)
      refine Calls.only_rescue (reassembleArtifacts_neutral run _ _) ?_
      intro e
      refine Calls.only_bind (Calls.only_demand trivial) ?_
      intro recorded
      cases recorded <;> exact Calls.only_throw _
  · cases served

theorem completeOpenWindow_wp {checks : ContentChecks} {call : CompleteBuildCall} {row : RunRow}
    {manifest : UploadManifest}
    (read : (⟨call.run, manifest.window, manifest.deadline⟩ : Reading) ∈ s.readings) :
    Calls.wp (windowDiscipline settings) i Calls.anything Calls.anything
      (completeOpenWindow checks call row manifest) s := by
  rw [completeOpenWindow, Calls.wp_bind]
  have prepared : Calls.wp (windowDiscipline settings) i
      (fun result t => Knows i call.run manifest.window result.1 t) Calls.anything
      (reassembleIfChunked call manifest) s := by
    rw [reassembleIfChunked]
    split
    · exact reassembleChunkedArtifacts_wp
    · exact .inl read
  refine Calls.wp_mono prepared ?_ (fun _ _ _ => trivial)
  rintro ⟨deadline, reassembled⟩ t knows
  have stays {α : Type} {p : Build α} {u : State} (neutral : Calls.Only Request.neutral p)
      (knows : Knows i call.run manifest.window deadline u) :
      Calls.wp (windowDiscipline settings) i (fun _ v => Knows i call.run manifest.window deadline v)
        Calls.anything p u :=
    wp_neutral neutral (fun _ _ knows same => knows.tables same)
      (fun _ _ knows rely => knows.stable rely) knows
  dsimp only
  rw [Calls.wp_bind]
  refine Calls.wp_mono (stays (Calls.only_demand trivial) knows) ?_ (fun _ _ _ => trivial)
  intro recorded u knows
  cases recorded with
  | some result => trivial
  | none =>
    dsimp only
    rw [Calls.wp_bind]
    refine Calls.wp_mono (stays (Calls.only_through (observedVersionStore_neutral
      (versionPinnedStore_neutral _)) _ _) knows) ?_ (fun _ _ _ => trivial)
    intro output v knows
    exact finalizeExternalBuild_wp knows

theorem completeCreatedRun_wp (checks : ContentChecks) (call : CompleteBuildCall) (row : RunRow) :
    Calls.wp (windowDiscipline settings) i Calls.anything Calls.anything
      (completeCreatedRun checks call row) s := by
  rw [completeCreatedRun, Calls.wp_bind]
  apply wp_callDatabase
  intro t kept rely _ manifest u served
  cases served
  cases isRow : t.manifests call.run with
  | none =>
    exact ⟨SameTables.allows ⟨rfl, rfl, rfl, List.append_nil _, rfl, rfl⟩ kept, trivial⟩
  | some m =>
    refine ⟨⟨kept.read isRow, ?_⟩, ?_⟩
    · intro j _
      exact ⟨List.subset_append_left _ _, List.Subset.refl _, fun _ _ held => ⟨held, .inl rfl⟩⟩
    · dsimp only
      split
      · trivial
      · exact completeOpenWindow_wp (List.mem_append_right _ (by simp))

theorem completeBuild_safe (checks : ContentChecks) (call : CompleteBuildCall) :
    Calls.Safe (windowDiscipline settings) (completeBuild checks call) := by
  intro i s _ _
  rw [completeBuild, Calls.wp_rescue]
  have body : Calls.wp (windowDiscipline settings) i Calls.anything Calls.anything
      (completeRun checks call) s := by
    rw [completeRun, Calls.wp_bind]
    refine Calls.wp_mono (wp_neutral (Calls.only_demand trivial) (K := fun _ => True)
      (fun _ _ _ _ => trivial) (fun _ _ _ _ => trivial) trivial) ?_ (fun _ _ _ => trivial)
    intro found t _
    cases found with
    | none => trivial
    | some row =>
      dsimp only
      split
      · trivial
      · exact completeCreatedRun_wp checks call row
  refine Calls.wp_mono body (fun _ _ _ => trivial) ?_
  intro e t _
  split <;> trivial

theorem other_safe (r : Request)
    (allowed : ∀ i s, WindowsKept s → Undisturbed settings s r → ∀ a u,
      s.serve settings i r = some (a, u) → Calls.Allows (windowDiscipline settings) i s u) :
    Calls.Safe (windowDiscipline settings) (other r) := by
  intro i s _ _
  rw [other, Calls.wp_bind]
  refine Calls.wp_ask (fun _ _ _ => trivial) ?_
  intro t kept _ assumed a u served
  exact ⟨allowed i t kept assumed a u served, trivial, trivial⟩

theorem neutral_safe {r : Request} (neutral : r.neutral) :
    Calls.Safe (windowDiscipline settings) (other r) :=
  other_safe r (fun _ _ kept _ _ _ served => (serve_same neutral served).allows kept)

theorem setRunState_safe (run : Uuid) (state : RunState) :
    Calls.Safe (windowDiscipline settings) (other (.setRunState run state)) := by
  refine other_safe _ ?_
  intro i s kept _ a u served
  rw [State.serve] at served
  split at served
  · cases served
  · rename_i notCreated
    cases served
    refine ⟨⟨kept.apart, kept.finals, ?_, kept.drops⟩, ?_⟩
    · intro f isFinal success
      obtain ⟨before, windows⟩ := kept.finished f isFinal success
      refine ⟨?_, windows⟩
      intro row isRow
      change Function.update s.runs run _ f.used.run = some row at isRow
      rw [Function.update_apply] at isRow
      split at isRow
      · obtain ⟨_, _, rfl⟩ := Option.map_eq_some_iff.mp isRow
        exact notCreated
      · exact before row isRow
    · intro j _
      exact ⟨List.Subset.refl _, List.Subset.refl _, fun _ _ held => ⟨held, .inl rfl⟩⟩

theorem mint_safe (run : Uuid) (entries : List ManifestEntry) (now : Instant) (ttl : Duration) :
    Calls.Safe (windowDiscipline settings) (other (.mint run entries now ttl)) := by
  refine other_safe _ ?_
  intro i s kept apart a u served
  rw [State.serve] at served
  split at served
  · rename_i free
    cases served
    have unlocked := Option.isNone_iff_eq_none.mp free
    exact ⟨kept.mint unlocked apart, fun j _ => mint_rely j unlocked⟩
  · cases served

theorem reap_safe (run : Uuid) (now : Instant) :
    Calls.Safe (windowDiscipline settings) (other (.reap run now)) := by
  refine other_safe _ ?_
  intro i s kept _ a u served
  rw [State.serve] at served
  split at served
  · cases served
    rw [State.reap]
    split
    · split
      · exact ⟨kept.drop run, fun j _ => drop_rely j run⟩
      · exact ⟨kept, fun j _ => WindowRely.refl j s⟩
    · exact ⟨kept, fun j _ => WindowRely.refl j s⟩
  · cases served

theorem operation_safe (checks : ContentChecks) (operation : Operation) :
    Calls.Safe (windowDiscipline settings) (operation.program checks) := by
  cases operation with
  | completeBuild call => exact completeBuild_safe checks call
  | mint run entries now ttl => exact mint_safe run entries now ttl
  | reap run now => exact reap_safe run now
  | put key content checksummed => exact neutral_safe trivial
  | putDeleteMarker key => exact neutral_safe trivial
  | removeVersion version => exact neutral_safe trivial
  | setRunState run state => exact setRunState_safe run state
  | setAccepting investigation accepting => exact neutral_safe trivial
  | retireBuild build => exact neutral_safe trivial

end Operations

section Main

abbrev Configuration := Calls.Config State Request Request.Answer BuildError Verdict

def step (settings : Settings) : Configuration → Calls.Event Operation → Configuration :=
  Calls.step (service settings) (Operation.program settings.checks)

def start (runs : Uuid → Option RunRow) (accepting : Uuid → Bool) : Configuration :=
  ⟨State.initial runs accepting, []⟩

def StepUndisturbed (settings : Settings) (c : Configuration) : Calls.Event Operation → Prop
  | .call i _ => ∀ r, c.request i = some r → Undisturbed settings c.state r
  | _ => True

theorem initial_kept (runs : Uuid → Option RunRow) (accepting : Uuid → Bool) :
    WindowsKept (State.initial runs accepting) := by
  refine ⟨?_, ?_, ?_, ?_⟩
  · intro run deadline m _ row
    cases row
  · intro f none
    cases none
  · intro f none
    cases none
  · intro d none
    cases none

/-- In every interleaving in which no re-mint comes between the manifest read of a chunked finalize
and its locked refresh and no two windows share a deadline that was read: a finalize succeeds only
under the window whose entries it used, is refused as replaced or gone under any other, and drops
no other window's manifest. -/
theorem finalizations_keep_their_window (settings : Settings) (runs : Uuid → Option RunRow)
    (accepting : Uuid → Bool) (events : List (Calls.Event Operation))
    (undisturbed : Trace.Along (step settings) (StepUndisturbed settings) (start runs accepting)
      events) :
    let final := (Trace.run (step settings) (start runs accepting) events).state
    (∀ f ∈ final.finals, f.keepsWindow) ∧ ∀ d ∈ final.drops, d.keepsWindow := by
  have same : StepUndisturbed settings = Calls.Meets (windowDiscipline settings) := by
    funext c e
    cases e <;> rfl
  rw [same] at undisturbed
  have kept := (Calls.consistent_of_run (operation_safe settings.checks)
    (initial_kept runs accepting) (fun _ => trivial) undisturbed).inv
  exact ⟨kept.finals, kept.drops⟩

section Adopted

instance (settings : Settings) (s : State) : (r : Request) → Decidable (Undisturbed settings s r)
  | .refreshDeadline run read now => inferInstanceAs (Decidable (∀ m ∈ s.manifests run,
      m.window = read.window ∧ ∀ reading ∈ s.readings, reading.run = run →
        reading.deadline = refreshedDeadline settings m now → reading.window = m.window))
  | .mint run _ now ttl => inferInstanceAs (Decidable (∀ reading ∈ s.readings, reading.run = run →
      reading.deadline ≠ now + ttl))
  | .store _ | .getRun _ | .getManifest _ | .existingBuildResult _ | .finalize _ _
  | .deleteManifest _ | .reap _ _ | .put _ _ _ | .putDeleteMarker _ | .removeVersion _
  | .setRunState _ _ | .setAccepting _ _ | .retireBuild _ => isTrue trivial

instance (settings : Settings) (c : Configuration) :
    (e : Calls.Event Operation) → Decidable (StepUndisturbed settings c e)
  | .start _ => isTrue trivial
  | .leave _ _ => isTrue trivial
  | .call i _ => inferInstanceAs (Decidable (∀ r ∈ c.request i, Undisturbed settings c.state r))

def lenientChecks : ContentChecks where
  kernelCombinedTar _ _ _ := pure ()
  buildId _ _ := pure ""
  externalBootEvidence _ _ _ _ := pure ""

def sha256OfK (content : Bytes) : String :=
  if content = [75] then "hr6aVXYtMWowJsKDbQRPX8duNNoQ4bRf7uXxi+ftsXc=" else ""

def smallSettings : Settings where
  sha256 := sha256OfK
  documentDigest _ := "digest"
  ttl := 100
  maxWindow := 300
  retention := 1000
  checks := lenientChecks

def oneRun (run : Uuid) : Option RunRow :=
  if run = 1 then some ⟨5, "vm", "profile", none, .created⟩ else none

def chunkedKernel : List ManifestEntry :=
  [⟨"kernel", "", 1, some [⟨"hr6aVXYtMWowJsKDbQRPX8duNNoQ4bRf7uXxi+ftsXc=", 1⟩]⟩]

def singleKernel : List ManifestEntry := [⟨"kernel", "another", 3, none⟩]

def answered (i : Nat) : Calls.Event Operation := .call i .answered

def manifestRead : List (Calls.Event Operation) :=
  [.start (.mint 1 chunkedKernel 10 100), answered 0,
    .start (.put (chunkKey 1 "kernel" 1) [75] true), answered 1,
    .start (.completeBuild ⟨1, 20, 30, none, none, none⟩), answered 2, answered 2]

def reminted : List (Calls.Event Operation) :=
  manifestRead ++ [.start (.mint 1 singleKernel 25 100), answered 3] ++ List.replicate 12 (answered 2)

def notReminted : List (Calls.Event Operation) := manifestRead ++ List.replicate 12 (answered 2)

theorem reminted_window_adopted :
    let final := (Trace.run (step smallSettings) (start oneRun (fun _ => true)) reminted).state
    (final.finals.map (fun f => (f.used.manifest.window, f.present, f.verdict.isSuccess)) =
      [(0, some 1, true)]) ∧ final.drops = [⟨1, 0, some 1⟩] ∧ final.manifests 1 = none := by
  decide +kernel

theorem window_kept_without_remint :
    let final := (Trace.run (step smallSettings) (start oneRun (fun _ => true)) notReminted).state
    (final.finals.map (fun f => f.verdict.isSuccess) = [true]) ∧
      (∀ f ∈ final.finals, f.keepsWindow) ∧ ∀ d ∈ final.drops, d.keepsWindow := by
  have undisturbed : Trace.Along (step smallSettings) (StepUndisturbed smallSettings)
      (start oneRun (fun _ => true)) notReminted := by decide +kernel
  exact ⟨by decide +kernel, finalizations_keep_their_window smallSettings oneRun (fun _ => true)
    notReminted undisturbed⟩

end Adopted

end Main

end Kdive.Builds
