import Kdive.ExternalBoot.Replay

/-!
Recovery after interrupted activations, with nothing going wrong in the recovery itself. From
`pre-stop-intent`, `module-restored` and `target-defined` it restores the source. A publication that
activation left unfinished it replays with the trees exchanged, so that it only gets through where
the two trees are the same.
-/
namespace Kdive.ExternalBoot
open Calls Interrupts

variable {Tree File : Type} [DecidableEq Tree] {plan : Plan Tree File} {empty : Tree}
  {h : Host Tree File}

section Modules

structure Restored (plan : Plan Tree File) (t : Host Tree File) : Prop where
  modules : t.modules = ⟨plan.source, none, none⟩
  phase : t.metadata.phase = .moduleRestored
  inactive : t.active = false

def Restores (plan : Plan Tree File) (empty : Tree) (program : Nat → Program Tree File Unit)
    (h : Host Tree File) : Prop :=
  ∃ enough, ∀ fuel ≥ enough, ∃ t, Restored plan t ∧
    run (device plan empty) (program fuel) h = (.ok (), t)

theorem Restores.of_run {program : Nat → Program Tree File Unit}
    (later : Nat → Program Tree File Unit) (t : Host Tree File)
    (ran : ∀ fuel, run (device plan empty) (program fuel) h =
      run (device plan empty) (later fuel) t) (restores : Restores plan empty later t) :
    Restores plan empty program h := by
  obtain ⟨enough, restores⟩ := restores
  refine ⟨enough, ?_⟩
  intro fuel many
  rw [ran]
  exact restores fuel many

theorem reaches_finishSource (absent : plan.source = none → Vanishes plan empty plan.target h)
    (present : ∀ source, plan.source = some source → Finishes plan empty plan.target source h) :
    Reaches plan empty (finishSource plan) ⟨plan.source, none, none⟩ h := by
  cases source : plan.source with
  | none =>
    obtain ⟨enough, reaches⟩ := absent source
    refine ⟨enough, ?_⟩
    intro fuel many
    obtain ⟨m, ran⟩ := reaches fuel many
    refine ⟨m, ?_⟩
    simp only [finishSource, source]
    exact ran
  | some tree =>
    obtain ⟨enough, reaches⟩ := present tree source
    refine ⟨enough, ?_⟩
    intro fuel many
    obtain ⟨m, ran⟩ := reaches fuel many
    refine ⟨m, ?_⟩
    simp only [finishSource, source]
    exact ran

theorem restores_publishSource (inactive : h.active = false)
    (absent : plan.source = none → Vanishes plan empty plan.target h)
    (present : ∀ source, plan.source = some source → Finishes plan empty plan.target source h) :
    Restores plan empty (fun fuel => publishSource plan fuel h.metadata) h := by
  obtain ⟨enough, reaches⟩ := reaches_finishSource absent present
  refine ⟨enough, ?_⟩
  intro fuel many
  obtain ⟨m, ran⟩ := reaches fuel many
  let u : Host Tree File := { h with modules := ⟨plan.source, none, none⟩, metadata := m }
  refine ⟨{ u with metadata := ⟨.moduleRestored, some plan.source⟩ }, ⟨rfl, rfl, inactive⟩, ?_⟩
  have ran : run (device plan empty) (finishSource plan fuel h.metadata) h = (.ok m, u) := ran
  have recorded : run (device plan empty) (recordModulesRestored m u.modules.live) u =
      (.ok ⟨.moduleRestored, some plan.source⟩,
        { u with metadata := ⟨.moduleRestored, some plan.source⟩ }) :=
    run_recordModulesRestored (h := u) rfl plan.source
  simp only [publishSource, run_bind, ran, andThen_ok, run_observeModules, recorded, run_pure]

theorem run_stopForRecovery (stoppable : h.active → h.definition = .target)
    (defined : h.metadata.phase = .targetDefined → h.definition = .target) :
    run (device plan empty) (stopForRecovery h.metadata) h = (.ok (), { h with active := false }) := by
  rw [stopForRecovery, run_bind, run_hostState, andThen_ok]
  have expected : ¬ (h.metadata.phase = .targetDefined ∧ (h.definition, h.active).1 = .source) := by
    rintro ⟨phase, source⟩
    exact absurd ((defined phase).symm.trans source) nofun
  have unexpected : ¬ ((h.definition, h.active).2 ∧ (h.definition, h.active).1 = .source) := by
    rintro ⟨active, source⟩
    exact absurd ((stoppable active).symm.trans source) nofun
  rw [if_neg expected, if_neg unexpected]
  split
  · rename_i inactive
    have inactive : h.active = false := inactive
    rw [run_requireInactive inactive, ← inactive]
  · have stopped (mode : StopMode) : run (device plan empty) (stopAndRequireInactive mode) h =
        (.ok (some ()), { h with active := false }) := rfl
    simp [run_bind, stopped]

theorem run_discardStaging :
    run (device plan empty) discardStaging h =
      (.ok (), { h with modules := h.modules.set .staging none }) := by
  have found : run (device plan empty) stagingExists h = (.ok h.modules.staging.isSome, h) := rfl
  rw [discardStaging, run_bind, found, andThen_ok]
  split
  · rfl
  · rename_i absent
    have none : h.modules.staging = none := by simpa using absent
    have same : h.modules.set .staging Option.none = h.modules := by rw [← none]; rfl
    rw [same]
    rfl

variable [DecidableEq File]

theorem restores_settleUnpublishedModules (left : Left plan h)
    (begun : h.metadata.phase = .preStopIntent) :
    Restores plan empty (fun _ => settleUnpublishedModules plan h.metadata) h := by
  have published := left.published
  have defined := left.defined
  rw [begun] at published defined
  obtain ⟨l, back⟩ := run_withDebuginfo empty left.debuginfo
  have cleared : h.modules.set .staging none = ⟨plan.source, none, none⟩ := by
    rw [← published.1, ← published.2]
    rfl
  let u : Host Tree File := { h with debuginfo := l, modules := ⟨plan.source, none, none⟩ }
  have discarded : run (device plan empty) discardStaging { h with debuginfo := l } = (.ok (), u) := by
    rw [run_discardStaging, cleared]
  have recorded : run (device plan empty) (recordModulesRestored h.metadata plan.source) u =
      (.ok ⟨.moduleRestored, some plan.source⟩,
        { u with metadata := ⟨.moduleRestored, some plan.source⟩ }) :=
    run_recordModulesRestored (h := u) rfl plan.source
  refine ⟨0, ?_⟩
  intro fuel _
  refine ⟨{ u with metadata := ⟨.moduleRestored, some plan.source⟩ }, ⟨rfl, rfl, defined.2⟩, ?_⟩
  have idle : ¬ (h.definition, h.active) ≠ (Definition.source, false) := by
    rw [not_not, defined.1, defined.2]
  simp only [settleUnpublishedModules, run_bind, run_hostState, andThen_ok, if_neg idle, back,
    discarded, run_observeLayout]
  simp [u, run_bind, recorded]

omit [DecidableEq File] in
theorem run_stageSource (live : h.modules = ⟨some plan.target, none, none⟩) :
    run (device plan empty) (stageSource plan h.metadata h.modules) h =
      (.ok ⟨.publication .moveReady, h.metadata.inactiveModules⟩,
        { h with
          modules := ⟨some plan.target, plan.source, none⟩
          metadata := ⟨.publication .moveReady, h.metadata.inactiveModules⟩ }) := by
  cases source : plan.source with
  | none =>
    simp only [stageSource, source]
    rw [if_neg (by rw [not_not, live]), run_syncPhase rfl, live]
  | some tree =>
    let u : Host Tree File := { h with modules := ⟨some plan.target, some tree, none⟩ }
    have staged : run (device plan empty) restoreArchive h = (.ok tree, u) := by
      refine run_perform ?_
      rw [serve, source, live]
      rfl
    simp only [stageSource, source]
    rw [if_pos live, run_bind, staged, andThen_ok, if_neg (by simp), stageSource.publish, run_bind,
      run_observeLayout, andThen_ok, if_neg (by simp [u])]
    exact run_syncPhase (h := u) rfl .moveReady

theorem restores_recoverModules_of_live (left : Left plan h)
    (phase : h.metadata.phase = .moduleRestored ∨ h.metadata.phase = .targetDefined) :
    Restores plan empty (fun fuel => recoverModules plan fuel h.metadata) h := by
  have live : h.modules = ⟨some plan.target, none, none⟩ := by
    have published := left.published
    rcases phase with phase | phase <;> rwa [phase] at published
  have stopped : run (device plan empty) (stopForRecovery h.metadata) h =
      (.ok (), { h with active := false }) := by
    have defined := left.defined
    refine run_stopForRecovery ?_ ?_
    · intro active
      rcases phase with phase | phase <;> rw [phase] at defined
      · exact defined active
      · exact defined
    · intro here
      rwa [here] at defined
  obtain ⟨l, back⟩ := run_withDebuginfo (h := { h with active := false }) empty left.debuginfo
  let u : Host Tree File := { h with active := false, debuginfo := l }
  have unbegun : h.metadata.phase ≠ .preStopIntent := by
    rcases phase with phase | phase <;> rw [phase] <;> nofun
  by_cases settled : h.metadata.phase = .moduleRestored ∧ u.modules = ⟨plan.source, none, none⟩
  · refine ⟨0, ?_⟩
    intro fuel _
    refine ⟨u, ⟨settled.2, settled.1, rfl⟩, ?_⟩
    simp only [recoverModules, if_neg unbegun, run_bind, stopped, andThen_ok, back, if_pos phase.symm,
      run_observeLayout]
    rw [if_pos settled]
    rfl
  · let v : Host Tree File := { u with
      modules := ⟨some plan.target, plan.source, none⟩
      metadata := ⟨.publication .moveReady, u.metadata.inactiveModules⟩ }
    have staged : run (device plan empty) (stageSource plan u.metadata u.modules) u =
        (.ok v.metadata, v) := run_stageSource (h := u) live
    refine Restores.of_run (fun fuel => publishSource plan fuel v.metadata) v ?_ ?_
    · intro fuel
      simp only [recoverModules, if_neg unbegun, run_bind, stopped, andThen_ok, back,
        if_pos phase.symm, run_observeLayout]
      rw [if_neg settled, run_bind, staged]
      rfl
    · refine restores_publishSource rfl ?_ ?_
      · intro absent
        refine vanishes_moveReady rfl rfl (.inl ?_)
        change (⟨some plan.target, plan.source, none⟩ : Layout Tree) = _
        rw [absent]
      · intro source present
        refine finishes_moveReady rfl rfl (.inl ?_)
        change (⟨some plan.target, plan.source, none⟩ : Layout Tree) = _
        rw [present]

/-- A publication left unfinished is replayed by `publishSource` on the layout as it is. -/
theorem run_recoverModules_publication {phase : PublicationPhase} (empty : Tree)
    (inactive : h.active = false) (recoverable : ∀ prior target,
      plan.debuginfo = some (prior, target) → Recoverable prior target h.debuginfo)
    (here : h.metadata.phase = .publication phase) :
    ∃ l : Layout File, ∀ fuel, run (device plan empty) (recoverModules plan fuel h.metadata) h =
      run (device plan empty) (publishSource plan fuel h.metadata) { h with debuginfo := l } := by
  have stopped : run (device plan empty) (stopForRecovery h.metadata) h = (.ok (), h) := by
    rw [run_stopForRecovery, ← inactive]
    · intro active
      exact absurd (inactive.symm.trans active) nofun
    · intro other
      exact absurd (here.symm.trans other) nofun
  obtain ⟨l, back⟩ := run_withDebuginfo empty recoverable
  refine ⟨l, ?_⟩
  intro fuel
  simp [recoverModules, here, run_bind, stopped, back]

/-- Where source and target are the same tree, the exchange changes nothing, and only a half-removed
old tree stands in the way. -/
theorem restores_recoverModules_of_same {phase : PublicationPhase} (left : Left plan h)
    (here : h.metadata.phase = .publication phase) (same : plan.source = some plan.target)
    (whole : h.modules.old = none ∨ h.modules.old = some plan.target) :
    Restores plan empty (fun fuel => recoverModules plan fuel h.metadata) h := by
  have published := left.published
  have defined := left.defined
  rw [here] at published defined
  obtain ⟨l, ran⟩ := run_recoverModules_publication empty defined.2 left.debuginfo here
  refine Restores.of_run (fun fuel => publishSource plan fuel h.metadata) _ ran ?_
  refine restores_publishSource (h := { h with debuginfo := l }) defined.2 ?_ ?_
  · intro absent
    exact absurd (absent.symm.trans same) nofun
  · intro source present
    obtain rfl : plan.target = source := Option.some.inj (same.symm.trans present)
    cases phase with
    | moveReady =>
      simp only [Published, same] at published
      exact finishes_moveReady defined.2 here published
    | oldAside =>
      simp only [Published, same] at published
      exact finishes_oldAside defined.2 here published
    | rollbackReady =>
      simp only [Published, same] at published
      exact finishes_rollbackReady defined.2 here published
    | rollbackComplete =>
      simp only [Published, same] at published
      exact finishes_rollbackComplete defined.2 here published
    | newLive =>
      refine finishes_newLive defined.2 here ?_
      rcases whole with gone | whole
      · exact .inl (Layout.ext published.1 published.2 gone)
      · exact .inr (Layout.ext published.1 published.2 whole)
    | publicationComplete => exact finishes_publicationComplete here published
    | absenceLive | absenceComplete | absenceCleaned => exact absurd published id

omit [DecidableEq File] in
theorem run_publishSource_stuck {t : Host Tree File} (stuck : Stuck plan empty (finishSource plan) t)
    (fuel : Nat) : ∃ e, run (device plan empty) (publishSource plan fuel t.metadata) t =
      (.error e, t) := by
  obtain ⟨e, failed⟩ := stuck fuel
  refine ⟨e, ?_⟩
  rw [publishSource, run_bind, failed, andThen_error]

theorem run_recoverModules_stuck {phase : PublicationPhase} (empty : Tree) (left : Left plan h)
    (here : h.metadata.phase = .publication phase)
    (other : plan.source = some plan.target →
      h.modules.old ≠ none ∧ h.modules.old ≠ some plan.target) (fuel : Nat) :
    ∃ e t, run (device plan empty) (recoverModules plan fuel h.metadata) h = (.error e, t) := by
  have published := left.published
  have defined := left.defined
  rw [here] at published defined
  obtain ⟨l, ran⟩ := run_recoverModules_publication empty defined.2 left.debuginfo here
  let u : Host Tree File := { h with debuginfo := l }
  have stuck : Stuck plan empty (finishSource plan) u := by
    intro fuel
    cases source : plan.source with
    | none =>
      simp only [finishSource, source]
      exact stuck_finishAbsencePublication (h := u) here published defined.2 source fuel
    | some tree =>
      simp only [finishSource, source]
      refine stuck_finishPresentPublication (h := u) here published defined.2 source ?_ fuel
      rintro rfl
      exact other source
  obtain ⟨e, failed⟩ := run_publishSource_stuck stuck fuel
  exact ⟨e, u, (ran fuel).trans failed⟩

end Modules

section Domain

@[simp] theorem run_defineXml (definition : Definition) :
    run (device plan empty) (defineXml definition) h = (.ok (), { h with definition := definition }) :=
  run_perform rfl

@[simp] theorem run_start :
    run (device plan empty) start h = (.ok (), { h with active := true }) := run_perform rfl

@[simp] theorem run_requireReadiness :
    run (device plan empty) requireReadiness h = (.ok (), h) := run_perform rfl

theorem run_defineSourceLoop (source : h.definition = .source) (inactive : h.active = false)
    (fuel : Nat) :
    run (device plan empty) (defineSourceLoop h.metadata (fuel + 1)) h =
      (.ok (), { h with metadata := ⟨.sourceRestored, h.metadata.inactiveModules⟩ }) := by
  have state : (h.definition, h.active) = (.source, false) := by rw [source, inactive]
  rw [defineSourceLoop, run_bind, run_hostState, andThen_ok, state]
  dsimp only
  rw [run_bind, run_recordPhase rfl]
  rfl

theorem run_defineSource {fuel : Nat} (many : 2 ≤ fuel) (restored : Restored plan h) :
    run (device plan empty) (defineSource fuel h.metadata) h =
      (.ok (), { h with
        definition := .source
        metadata := ⟨.sourceRestored, h.metadata.inactiveModules⟩ }) := by
  obtain ⟨fuel, rfl⟩ : ∃ n, fuel = n + 2 := ⟨fuel - 2, by omega⟩
  rw [defineSource, if_pos restored.phase]
  cases definition : h.definition with
  | source => rw [run_defineSourceLoop definition restored.inactive, ← definition]
  | target =>
    have state : (h.definition, h.active) = (.target, false) := by
      rw [definition, restored.inactive]
    rw [defineSourceLoop, run_bind, run_hostState, andThen_ok, state]
    dsimp only
    rw [run_bind, run_defineXml, andThen_ok]
    exact run_defineSourceLoop (h := { h with definition := .source }) rfl restored.inactive fuel

theorem run_restorePower {fuel : Nat} (many : 2 ≤ fuel) (source : h.definition = .source)
    (inactive : h.active = false) (phase : h.metadata.phase = .sourceRestored) :
    run (device plan empty) (restorePower plan fuel h.metadata) h =
      (.ok (), { h with
        active := plan.priorPower = .running
        metadata := ⟨.recovered, h.metadata.inactiveModules⟩ }) := by
  obtain ⟨fuel, rfl⟩ : ∃ n, fuel = n + 2 := ⟨fuel - 2, by omega⟩
  have state : (h.definition, h.active) = (.source, false) := by rw [source, inactive]
  rw [restorePower, if_pos phase, restorePowerLoop, run_bind, run_hostState, andThen_ok, state]
  cases power : plan.priorPower with
  | inactive =>
    dsimp only
    rw [run_bind, run_recordPhase rfl, andThen_ok, run_pure]
    simp [inactive]
  | running =>
    dsimp only
    rw [run_bind, run_start, andThen_ok, restorePowerLoop, run_bind, run_hostState, andThen_ok]
    simp [source, power, run_bind, run_recordPhase]

structure Recovers (plan : Plan Tree File) (outcome : Except Fault Unit × Host Tree File) : Prop where
  returns : outcome.1 = .ok ()
  modules : outcome.2.modules = ⟨plan.source, none, none⟩
  definition : outcome.2.definition = .source
  phase : outcome.2.metadata.phase = .recovered

theorem recovers_recoverDomain {fuel : Nat} (many : 2 ≤ fuel) (restoresPower : Bool)
    (restored : Restored plan h) :
    Recovers plan (run (device plan empty) (recoverDomain plan fuel restoresPower) h) := by
  let u : Host Tree File := { h with
    definition := .source
    metadata := ⟨.sourceRestored, h.metadata.inactiveModules⟩ }
  have defined : run (device plan empty) (defineSource fuel h.metadata) h = (.ok (), u) :=
    run_defineSource many restored
  rw [recoverDomain, run_bind, run_reopen, andThen_ok, run_bind, defined, andThen_ok, recoverPower,
    run_bind, run_reopen, andThen_ok, if_pos rfl]
  cases restoresPower with
  | false =>
    rw [if_neg nofun, run_bind, run_recordPhase rfl]
    exact ⟨rfl, restored.modules, rfl, rfl⟩
  | true =>
    rw [if_pos rfl, run_restorePower (h := u) many rfl restored.inactive rfl]
    exact ⟨rfl, restored.modules, rfl, rfl⟩

end Domain

section Recovery

variable [DecidableEq File]

def Unrestored (phase : RecoveryPhase) : Prop :=
  phase ≠ .sourceRestored ∧ phase ≠ .recovered ∧ phase ≠ .cleaned

omit [DecidableEq Tree] [DecidableEq File] in
theorem Left.unrestored (left : Left plan h) : Unrestored h.metadata.phase := by
  have published := left.published
  refine ⟨?_, ?_, ?_⟩ <;> intro phase <;> rw [phase] at published <;> exact published

theorem run_recover {fuel : Nat} (restoresPower : Bool) (unrestored : Unrestored h.metadata.phase) :
    run (device plan empty) (recover plan fuel restoresPower) h =
      andThen (run (device plan empty) (recoverModules plan fuel h.metadata) h)
        (fun _ t => run (device plan empty) (recoverDomain plan fuel restoresPower) t) := by
  have unfinished : ¬ (h.metadata.phase = .recovered ∨ h.metadata.phase = .cleaned) :=
    not_or.mpr unrestored.2
  rw [recover, run_bind, run_reopen, andThen_ok, if_neg unfinished, if_pos unrestored.1, run_bind]

theorem recovers_of_restores (restoresPower : Bool) (unrestored : Unrestored h.metadata.phase)
    (restores : Restores plan empty (fun fuel => recoverModules plan fuel h.metadata) h) :
    ∃ enough, ∀ fuel ≥ enough,
      Recovers plan (run (device plan empty) (recover plan fuel restoresPower) h) := by
  obtain ⟨enough, restores⟩ := restores
  refine ⟨max enough 2, ?_⟩
  intro fuel many
  obtain ⟨t, restored, ran⟩ := restores fuel (by omega)
  have ran : run (device plan empty) (recoverModules plan fuel h.metadata) h = (.ok (), t) := ran
  rw [run_recover restoresPower unrestored, ran, andThen_ok]
  exact recovers_recoverDomain (by omega) restoresPower restored

theorem not_recovers_of_stuck {phase : PublicationPhase} (restoresPower : Bool) (left : Left plan h)
    (here : h.metadata.phase = .publication phase)
    (other : plan.source = some plan.target →
      h.modules.old ≠ none ∧ h.modules.old ≠ some plan.target) (fuel : Nat) :
    ¬ Recovers plan (run (device plan empty) (recover plan fuel restoresPower) h) := by
  intro recovers
  obtain ⟨e, t, failed⟩ := run_recoverModules_stuck empty left here other fuel
  have returns := recovers.returns
  rw [run_recover restoresPower left.unrestored, failed, andThen_error] at returns
  cases returns

/-- Activation is not in the middle of a publication; or it replaces the source tree by the same
tree, and the old one is whole or gone. -/
def Resumable (plan : Plan Tree File) (h : Host Tree File) : Prop :=
  h.metadata.phase = .preStopIntent ∨ h.metadata.phase = .moduleRestored ∨
    h.metadata.phase = .targetDefined ∨
    plan.source = some plan.target ∧ (h.modules.old = none ∨ h.modules.old = some plan.target)

theorem recovers_iff (restoresPower : Bool) (left : Left plan h) :
    (∃ enough, ∀ fuel ≥ enough,
      Recovers plan (run (device plan empty) (recover plan fuel restoresPower) h)) ↔
      Resumable plan h := by
  have published := left.published
  constructor
  · rintro ⟨enough, recovers⟩
    by_contra stuck
    simp only [Resumable, not_or, not_and] at stuck
    obtain ⟨unbegun, unrestored, undefined, other⟩ := stuck
    cases here : h.metadata.phase with
    | publication phase =>
      exact not_recovers_of_stuck restoresPower left here other enough (recovers enough (Nat.le_refl enough))
    | preStopIntent => exact unbegun here
    | moduleRestored => exact unrestored here
    | targetDefined => exact undefined here
    | sourceRestored | recovered | cleaned =>
      rw [here] at published
      exact published
  · intro resumable
    refine recovers_of_restores restoresPower left.unrestored ?_
    cases here : h.metadata.phase with
    | preStopIntent =>
      refine Restores.of_run (fun _ => settleUnpublishedModules plan h.metadata) h ?_
        (restores_settleUnpublishedModules left here)
      intro fuel
      rw [recoverModules, if_pos here]
    | moduleRestored => exact restores_recoverModules_of_live left (.inl here)
    | targetDefined => exact restores_recoverModules_of_live left (.inr here)
    | publication phase =>
      simp only [Resumable, here, reduceCtorEq, false_or] at resumable
      exact restores_recoverModules_of_same left here resumable.1 resumable.2
    | sourceRestored | recovered | cleaned =>
      rw [here] at published
      exact absurd published id

/-- After any number of activations, each interrupted anywhere, recovery restores the source state
exactly if no publication was left in the middle, or it was one of the source tree itself. -/
theorem recover_restores_source_iff (plan : Plan Tree File) (empty : Tree)
    (attempts : List (Attempt Tree File)) (restoresPower : Bool) :
    (∃ enough, ∀ fuel ≥ enough, Recovers plan
      (run (device plan empty) (recover plan fuel restoresPower)
        (interrupted plan empty attempts))) ↔
      Resumable plan (interrupted plan empty attempts) :=
  recovers_iff restoresPower (left_interrupted plan empty attempts)

end Recovery

def replacement : Plan Nat Nat := ⟨some 1, 2, none, .running⟩

/-- The activation dies right after `move-ready` is on record, with the target tree staged and
nothing moved. -/
def stoppedAtMoveReady : Host Nat Nat := interrupted replacement 0 [(0, List.replicate 8 none)]

theorem move_ready_never_recovers :
    stoppedAtMoveReady.modules = ⟨some 1, some 2, none⟩ ∧
      stoppedAtMoveReady.metadata.phase = .publication .moveReady ∧
      ¬ ∃ enough, ∀ fuel ≥ enough, Recovers replacement
        (run (device replacement 0) (recover replacement fuel true) stoppedAtMoveReady) := by
  have ready : stoppedAtMoveReady.metadata.phase = .publication .moveReady := by decide +kernel
  refine ⟨by decide +kernel, ready, ?_⟩
  rintro ⟨enough, recovers⟩
  have other : replacement.source ≠ some replacement.target := by decide
  refine not_recovers_of_stuck true (left_interrupted replacement 0 _) ready ?_ enough
    (recovers enough (Nat.le_refl enough))
  intro same
  exact absurd same other

end Kdive.ExternalBoot
