import Kdive.ExternalBoot.Interrupted

/-!
The steps and the two publications with nothing going wrong: from which phase and layout a
publication gets through to its end, and where it meets no row and never will.
-/
namespace Kdive.ExternalBoot
open Calls Interrupts

variable {Tree File : Type} [DecidableEq Tree] {plan : Plan Tree File} {empty : Tree}
  {h : Host Tree File}

theorem run_perform {step : Step Tree} {a : Answer Tree File step} {t : Host Tree File}
    (served : serve plan empty h step = (some a, t)) :
    run (device plan empty) (perform step) h = (.ok a, t) :=
  run_demand served

@[simp] theorem run_hostState :
    run (device plan empty) hostState h = (.ok (h.definition, h.active), h) := run_perform rfl

@[simp] theorem run_observeLayout :
    run (device plan empty) observeLayout h = (.ok h.modules, h) := run_perform rfl

@[simp] theorem run_observeModules :
    run (device plan empty) observeModules h = (.ok h.modules.live, h) := run_perform rfl

@[simp] theorem run_observeDebuginfo :
    run (device plan empty) observeDebuginfo h = (.ok h.debuginfo, h) := run_perform rfl

@[simp] theorem run_guestSync :
    run (device plan empty) guestSync h = (.ok (), h) := run_perform rfl

@[simp] theorem run_reopen :
    run (device plan empty) reopen h = (.ok h.metadata, h) := run_perform rfl

theorem run_requireInactive (inactive : h.active = false) :
    run (device plan empty) requireInactive h = (.ok (), h) := by
  refine run_perform ?_
  simp [serve, inactive]

theorem run_recordPhase {m : Metadata Tree} (current : h.metadata = m) (phase : RecoveryPhase) :
    run (device plan empty) (recordPhase m phase) h =
      (.ok ⟨phase, m.inactiveModules⟩, { h with metadata := ⟨phase, m.inactiveModules⟩ }) := by
  refine run_perform ?_
  rw [serve_recordPhase, if_pos current]
  rfl

theorem run_recordModulesRestored {m : Metadata Tree} (current : h.metadata = m)
    (observed : Option Tree) :
    run (device plan empty) (recordModulesRestored m observed) h =
      (.ok ⟨.moduleRestored, some observed⟩,
        { h with metadata := ⟨.moduleRestored, some observed⟩ }) := by
  refine run_perform ?_
  rw [serve_recordPhase, if_pos current]
  rfl

theorem run_syncPhase {m : Metadata Tree} (current : h.metadata = m) (phase : PublicationPhase) :
    run (device plan empty) (syncPhase m phase) h =
      (.ok ⟨.publication phase, m.inactiveModules⟩,
        { h with metadata := ⟨.publication phase, m.inactiveModules⟩ }) := by
  rw [syncPhase, run_bind, run_guestSync]
  exact run_recordPhase current (.publication phase)

theorem run_move {source target : Name} (found : (h.modules.get source).isSome)
    (free : h.modules.get target = none) :
    run (device plan empty) (move source target) h =
      (.ok .returned, { h with modules := h.modules.rename source target }) := by
  refine run_perform ?_
  rw [serve_move, if_pos ⟨found, free⟩]

theorem run_moveDebuginfo {source target : Name} (found : (h.debuginfo.get source).isSome) :
    run (device plan empty) (moveDebuginfo source target) h =
      (.ok (), { h with debuginfo := h.debuginfo.rename source target }) := by
  refine run_perform ?_
  rw [serve_moveDebuginfo, if_pos found]
  rfl

@[simp] theorem run_removeDebuginfo (name : Name) :
    run (device plan empty) (removeDebuginfo name) h =
      (.ok (), { h with debuginfo := h.debuginfo.set name none }) := run_perform rfl

section Debuginfo

variable {prior : Option File} {target : File}

theorem run_dropDebuginfoStaging {l : Layout File} (here : h.debuginfo = l) :
    run (device plan empty) (dropDebuginfoStaging l) h =
      (.ok (), { h with debuginfo := l.set .staging none }) := by
  subst here
  rw [dropDebuginfoStaging]
  split
  · exact run_removeDebuginfo .staging
  · rename_i absent
    rw [ne_eq, not_not] at absent
    have same : h.debuginfo.set .staging none = h.debuginfo := by rw [← absent]; rfl
    rw [same]
    rfl

variable [DecidableEq File]

theorem run_putDebuginfoBack (plan : Plan Tree File) (empty : Tree)
    (recoverable : Recoverable prior target h.debuginfo) :
    ∃ l : Layout File, l.live = prior ∧ l.old = none ∧
      run (device plan empty) (putDebuginfoBack prior target h.debuginfo) h =
        (.ok l, { h with debuginfo := l }) := by
  rw [putDebuginfoBack]
  split
  · rename_i published
    have old : h.debuginfo.old = prior := by rcases published with same | same <;> rw [same]
    refine ⟨⟨prior, h.debuginfo.staging, none⟩, rfl, rfl, ?_⟩
    split
    · rename_i found
      have isSome : (h.debuginfo.get .old).isSome := by
        rw [Layout.get, old]
        exact Option.isSome_iff_ne_none.mpr found
      have renamed : h.debuginfo.rename .old .live = ⟨prior, h.debuginfo.staging, none⟩ := by
        rw [← old]
        rfl
      rw [run_bind, run_moveDebuginfo isSome, renamed]
      rfl
    · rename_i absent
      rw [ne_eq, not_not] at absent
      rw [absent] at old ⊢
      split
      · rw [run_bind, run_removeDebuginfo]
        have removed : h.debuginfo.set .live none = ⟨none, h.debuginfo.staging, none⟩ := by
          rw [← old]
          rfl
        rw [removed]
        rfl
      · rename_i none
        rw [ne_eq, not_not] at none
        have same : h.debuginfo = ⟨Option.none, h.debuginfo.staging, Option.none⟩ :=
          Layout.ext none rfl old
        rw [run_pure, ← same]
  · rename_i unpublished
    rcases recoverable with settled | aside | live
    · exact ⟨h.debuginfo, settled.1, settled.2, rfl⟩
    · exact absurd (.inr aside) unpublished
    · exact absurd (.inl live) unpublished

theorem run_restoreDebuginfo (recoverable : Recoverable prior target h.debuginfo) :
    ∃ l : Layout File, run (device plan empty) (restoreDebuginfo prior target) h =
      (.ok (), { h with debuginfo := l }) := by
  rw [restoreDebuginfo, run_bind, run_observeDebuginfo, andThen_ok]
  split
  · exact ⟨h.debuginfo, rfl⟩
  · obtain ⟨l, live, old, back⟩ := run_putDebuginfoBack plan empty recoverable
    have restored : l.set .staging none = ⟨prior, none, none⟩ := by
      rw [← live, ← old]
      rfl
    refine ⟨⟨prior, none, none⟩, ?_⟩
    rw [run_bind, back, andThen_ok, if_neg (by simp [live, old])]
    have dropped : run (device plan empty) (dropDebuginfoStaging l) { h with debuginfo := l } =
        (.ok (), { h with debuginfo := l.set .staging none }) := run_dropDebuginfoStaging rfl
    simp [run_bind, dropped, restored]

theorem run_withDebuginfo (empty : Tree)
    (recoverable : ∀ prior target, plan.debuginfo = some (prior, target) →
      Recoverable prior target h.debuginfo) :
    ∃ l : Layout File, run (device plan empty) (withDebuginfo plan restoreDebuginfo) h =
      (.ok (), { h with debuginfo := l }) := by
  rw [withDebuginfo]
  split
  · exact ⟨h.debuginfo, rfl⟩
  · rename_i prior target member
    exact run_restoreDebuginfo (recoverable prior target member)

end Debuginfo

section Publishing

variable {prior desired : Tree}

theorem run_moveWithReclassification {source target : Name} {before after : Layout Tree}
    {afterPhase : PublicationPhase} (found : (h.modules.get source).isSome)
    (free : h.modules.get target = none) :
    run (device plan empty)
      (moveWithReclassification h.metadata source target before after afterPhase) h =
      (.ok h.metadata, { h with modules := h.modules.rename source target }) := by
  rw [moveWithReclassification, run_bind, run_move found free]
  rfl

theorem run_removeWithReclassification {before after : Layout Tree}
    {afterPhase : PublicationPhase} :
    run (device plan empty) (removeWithReclassification h.metadata before after afterPhase) h =
      (.ok h.metadata, { h with modules := h.modules.set .old none }) := rfl

def Reaches (plan : Plan Tree File) (empty : Tree)
    (loop : Nat → Metadata Tree → Program Tree File (Metadata Tree)) (final : Layout Tree)
    (h : Host Tree File) : Prop :=
  ∃ enough, ∀ fuel ≥ enough, ∃ m,
    run (device plan empty) (loop fuel h.metadata) h =
      (.ok m, { h with modules := final, metadata := m })

theorem Reaches.step {loop : Nat → Metadata Tree → Program Tree File (Metadata Tree)}
    {final l : Layout Tree} {m : Metadata Tree}
    (advances : ∀ fuel, run (device plan empty) (loop (fuel + 1) h.metadata) h =
      run (device plan empty) (loop fuel m) { h with modules := l, metadata := m })
    (later : Reaches plan empty loop final { h with modules := l, metadata := m }) :
    Reaches plan empty loop final h := by
  obtain ⟨enough, reaches⟩ := later
  refine ⟨enough + 1, ?_⟩
  intro fuel many
  obtain ⟨fuel, rfl⟩ : ∃ n, fuel = n + 1 := ⟨fuel - 1, by omega⟩
  obtain ⟨m', ran⟩ := reaches fuel (by omega)
  exact ⟨m', (advances fuel).trans ran⟩

theorem Reaches.done {loop : Nat → Metadata Tree → Program Tree File (Metadata Tree)}
    {final : Layout Tree} (here : h.modules = final)
    (ends : ∀ fuel, run (device plan empty) (loop (fuel + 1) h.metadata) h = (.ok h.metadata, h)) :
    Reaches plan empty loop final h := by
  refine ⟨1, ?_⟩
  intro fuel many
  obtain ⟨fuel, rfl⟩ : ∃ n, fuel = n + 1 := ⟨fuel - 1, by omega⟩
  refine ⟨h.metadata, ?_⟩
  rw [ends, ← here]

abbrev Finishes (plan : Plan Tree File) (empty prior desired : Tree) (h : Host Tree File) : Prop :=
  Reaches plan empty (finishPresentPublication (some prior) desired) ⟨some desired, none, none⟩ h

theorem run_finishPresentPublication {phase : PublicationPhase} (fuel : Nat)
    (inactive : h.active = false) (here : h.metadata.phase = .publication phase)
    (unfinished : phase ≠ .publicationComplete) :
    run (device plan empty)
      (finishPresentPublication (some prior) desired (fuel + 1) h.metadata) h =
      andThen (run (device plan empty)
        (presentRow h.metadata phase h.modules (some prior) desired) h)
        (fun m t => run (device plan empty)
          (finishPresentPublication (some prior) desired fuel m) t) := by
  rw [finishPresentPublication, here]
  split
  · rename_i complete
    exact absurd (RecoveryPhase.publication.inj complete) unfinished
  · rename_i same
    obtain rfl := RecoveryPhase.publication.inj same
    rw [run_bind, run_observeLayout, andThen_ok, run_bind, advanceModulePublication, run_bind,
      run_requireInactive inactive, andThen_ok]
  · rename_i other
    exact absurd rfl (other phase)

theorem Finishes.step {phase : PublicationPhase} (l : Layout Tree) (m : Metadata Tree)
    (inactive : h.active = false) (here : h.metadata.phase = .publication phase)
    (unfinished : phase ≠ .publicationComplete)
    (row : run (device plan empty) (presentRow h.metadata phase h.modules (some prior) desired) h =
      (.ok m, { h with modules := l, metadata := m }))
    (later : Finishes plan empty prior desired { h with modules := l, metadata := m }) :
    Finishes plan empty prior desired h := by
  refine Reaches.step ?_ later
  intro fuel
  rw [run_finishPresentPublication fuel inactive here unfinished, row, andThen_ok]

theorem finishes_publicationComplete
    (here : h.metadata.phase = .publication .publicationComplete)
    (live : h.modules = ⟨some desired, none, none⟩) : Finishes plan empty prior desired h := by
  refine Reaches.done live ?_
  intro fuel
  rw [finishPresentPublication, here]
  rw [run_bind, run_observeLayout, andThen_ok, if_pos live, run_pure]

theorem finishes_newLive_of_removed (inactive : h.active = false)
    (here : h.metadata.phase = .publication .newLive)
    (live : h.modules = ⟨some desired, none, none⟩) : Finishes plan empty prior desired h := by
  refine Finishes.step h.modules ⟨.publication .publicationComplete, h.metadata.inactiveModules⟩ inactive here
    nofun ?_ (finishes_publicationComplete rfl live)
  rw [presentRow, if_pos live]
  exact run_syncPhase rfl .publicationComplete

theorem finishes_newLive (inactive : h.active = false)
    (here : h.metadata.phase = .publication .newLive)
    (live : h.modules = ⟨some desired, none, none⟩ ∨ h.modules = ⟨some desired, none, some prior⟩) :
    Finishes plan empty prior desired h := by
  rcases live with live | live
  · exact finishes_newLive_of_removed inactive here live
  · refine Finishes.step (h.modules.set .old none) h.metadata inactive here nofun ?_ (finishes_newLive_of_removed inactive here ?_)
    · rw [presentRow, if_neg (by simp [live]), if_pos live]
      exact run_removeWithReclassification
    · rw [live]
      rfl

theorem finishes_oldAside (inactive : h.active = false)
    (here : h.metadata.phase = .publication .oldAside)
    (layout : h.modules = ⟨none, some desired, some prior⟩ ∨
      h.modules = ⟨some desired, none, some prior⟩) : Finishes plan empty prior desired h := by
  have moved {h : Host Tree File} (inactive : h.active = false)
      (here : h.metadata.phase = .publication .oldAside)
      (live : h.modules = ⟨some desired, none, some prior⟩) : Finishes plan empty prior desired h := by
    refine Finishes.step h.modules ⟨.publication .newLive, h.metadata.inactiveModules⟩ inactive here
      nofun ?_ (finishes_newLive inactive rfl (.inr live))
    rw [presentRow, if_neg (by simp [live]), if_pos live]
    exact run_syncPhase rfl .newLive
  rcases layout with aside | live
  · refine Finishes.step (h.modules.rename .staging .live) h.metadata inactive here nofun ?_ (moved inactive here ?_)
    · rw [presentRow, if_pos aside, moveStagingToLive, run_bind, run_move]
      · rfl
      · rw [aside]
        rfl
      · rw [aside]
        rfl
    · rw [aside]
      rfl
  · exact moved inactive here live

theorem finishes_moveReady (inactive : h.active = false)
    (here : h.metadata.phase = .publication .moveReady)
    (layout : h.modules = ⟨some prior, some desired, none⟩ ∨
      h.modules = ⟨none, some desired, some prior⟩) : Finishes plan empty prior desired h := by
  have moved {h : Host Tree File} (inactive : h.active = false)
      (here : h.metadata.phase = .publication .moveReady)
      (aside : h.modules = ⟨none, some desired, some prior⟩) :
      Finishes plan empty prior desired h := by
    refine Finishes.step h.modules ⟨.publication .oldAside, h.metadata.inactiveModules⟩ inactive here
      nofun ?_ (finishes_oldAside inactive rfl (.inl aside))
    rw [presentRow, if_pos aside]
    exact run_syncPhase rfl .oldAside
  rcases layout with ready | aside
  · refine Finishes.step (h.modules.rename .live .old) h.metadata inactive here nofun ?_ (moved inactive here ?_)
    · rw [presentRow, if_neg (by simp [ready]), if_pos ready]
      refine run_moveWithReclassification ?_ ?_
      · rw [ready]
        rfl
      · rw [ready]
        rfl
    · rw [ready]
      rfl
  · exact moved inactive here aside

theorem finishes_rollbackComplete (inactive : h.active = false)
    (here : h.metadata.phase = .publication .rollbackComplete)
    (back : h.modules = ⟨some prior, some desired, none⟩) : Finishes plan empty prior desired h := by
  refine Finishes.step h.modules ⟨.publication .moveReady, h.metadata.inactiveModules⟩ inactive here
    nofun ?_ (finishes_moveReady inactive rfl (.inl back))
  rw [presentRow, if_pos back]
  exact run_recordPhase rfl (.publication .moveReady)

theorem finishes_rollbackReady (inactive : h.active = false)
    (here : h.metadata.phase = .publication .rollbackReady)
    (layout : h.modules = ⟨some prior, some desired, none⟩ ∨
      h.modules = ⟨none, some desired, some prior⟩) : Finishes plan empty prior desired h := by
  have moved {h : Host Tree File} (inactive : h.active = false)
      (here : h.metadata.phase = .publication .rollbackReady)
      (back : h.modules = ⟨some prior, some desired, none⟩) :
      Finishes plan empty prior desired h := by
    refine Finishes.step h.modules ⟨.publication .rollbackComplete, h.metadata.inactiveModules⟩ inactive here
      nofun ?_ (finishes_rollbackComplete inactive rfl back)
    rw [presentRow, if_pos back]
    exact run_syncPhase rfl .rollbackComplete
  rcases layout with back | aside
  · exact moved inactive here back
  · refine Finishes.step (h.modules.rename .old .live) h.metadata inactive here nofun ?_ (moved inactive here ?_)
    · rw [presentRow, if_neg (by simp [aside]), if_pos aside]
      refine run_moveWithReclassification ?_ ?_
      · rw [aside]
        rfl
      · rw [aside]
        rfl
    · rw [aside]
      rfl

abbrev Vanishes (plan : Plan Tree File) (empty prior : Tree) (h : Host Tree File) : Prop :=
  Reaches plan empty (finishAbsencePublication prior) ⟨none, none, none⟩ h

theorem run_finishAbsencePublication {phase : PublicationPhase} (fuel : Nat)
    (inactive : h.active = false) (here : h.metadata.phase = .publication phase)
    (unfinished : phase ≠ .absenceCleaned) :
    run (device plan empty) (finishAbsencePublication prior (fuel + 1) h.metadata) h =
      andThen (run (device plan empty) (absenceRow h.metadata phase h.modules prior) h)
        (fun m t => run (device plan empty) (finishAbsencePublication prior fuel m) t) := by
  rw [finishAbsencePublication, here]
  split
  · rename_i complete
    exact absurd (RecoveryPhase.publication.inj complete) unfinished
  · rename_i same
    obtain rfl := RecoveryPhase.publication.inj same
    rw [run_bind, run_observeLayout, andThen_ok, run_bind, advanceAbsencePublication, run_bind,
      run_requireInactive inactive, andThen_ok]
  · rename_i other
    exact absurd rfl (other phase)

theorem Vanishes.step {phase : PublicationPhase} (l : Layout Tree) (m : Metadata Tree)
    (inactive : h.active = false) (here : h.metadata.phase = .publication phase)
    (unfinished : phase ≠ .absenceCleaned)
    (row : run (device plan empty) (absenceRow h.metadata phase h.modules prior) h =
      (.ok m, { h with modules := l, metadata := m }))
    (later : Vanishes plan empty prior { h with modules := l, metadata := m }) :
    Vanishes plan empty prior h := by
  refine Reaches.step ?_ later
  intro fuel
  rw [run_finishAbsencePublication fuel inactive here unfinished, row, andThen_ok]

theorem vanishes_absenceCleaned (here : h.metadata.phase = .publication .absenceCleaned)
    (gone : h.modules = ⟨none, none, none⟩) : Vanishes plan empty prior h := by
  refine Reaches.done gone ?_
  intro fuel
  rw [finishAbsencePublication, here]
  rw [run_bind, run_observeLayout, andThen_ok, if_pos gone, run_pure]

theorem vanishes_absenceComplete (inactive : h.active = false)
    (here : h.metadata.phase = .publication .absenceComplete)
    (layout : h.modules = ⟨none, none, none⟩ ∨ h.modules = ⟨none, none, some prior⟩) :
    Vanishes plan empty prior h := by
  have cleaned {h : Host Tree File} (inactive : h.active = false)
      (here : h.metadata.phase = .publication .absenceComplete)
      (gone : h.modules = ⟨none, none, none⟩) : Vanishes plan empty prior h := by
    refine Vanishes.step h.modules ⟨.publication .absenceCleaned, h.metadata.inactiveModules⟩
      inactive here nofun ?_ (vanishes_absenceCleaned rfl gone)
    rw [absenceRow, if_neg (by simp [gone]), if_pos gone]
    exact run_syncPhase rfl .absenceCleaned
  rcases layout with gone | aside
  · exact cleaned inactive here gone
  · refine Vanishes.step (h.modules.set .old none) h.metadata inactive here nofun ?_
      (cleaned inactive here ?_)
    · rw [absenceRow, if_pos aside]
      exact run_removeWithReclassification
    · rw [aside]
      rfl

theorem vanishes_absenceLive (inactive : h.active = false)
    (here : h.metadata.phase = .publication .absenceLive)
    (aside : h.modules = ⟨none, none, some prior⟩) : Vanishes plan empty prior h := by
  refine Vanishes.step h.modules ⟨.publication .absenceComplete, h.metadata.inactiveModules⟩
    inactive here nofun ?_ (vanishes_absenceComplete inactive rfl (.inr aside))
  rw [absenceRow, if_pos aside]
  exact run_recordPhase rfl (.publication .absenceComplete)

theorem vanishes_moveReady (inactive : h.active = false)
    (here : h.metadata.phase = .publication .moveReady)
    (layout : h.modules = ⟨some prior, none, none⟩ ∨ h.modules = ⟨none, none, some prior⟩) :
    Vanishes plan empty prior h := by
  have moved {h : Host Tree File} (inactive : h.active = false)
      (here : h.metadata.phase = .publication .moveReady)
      (aside : h.modules = ⟨none, none, some prior⟩) : Vanishes plan empty prior h := by
    refine Vanishes.step h.modules ⟨.publication .absenceLive, h.metadata.inactiveModules⟩
      inactive here nofun ?_ (vanishes_absenceLive inactive rfl aside)
    rw [absenceRow, if_neg (by simp [aside]), if_pos aside]
    exact run_syncPhase rfl .absenceLive
  rcases layout with live | aside
  · refine Vanishes.step (h.modules.rename .live .old) h.metadata inactive here nofun ?_
      (moved inactive here ?_)
    · rw [absenceRow, if_pos live]
      refine run_moveWithReclassification ?_ ?_
      · rw [live]
        rfl
      · rw [live]
        rfl
    · rw [live]
      rfl
  · exact moved inactive here aside

end Publishing

section Stuck

def Stuck (plan : Plan Tree File) (empty : Tree)
    (loop : Nat → Metadata Tree → Program Tree File (Metadata Tree)) (h : Host Tree File) : Prop :=
  ∀ fuel, ∃ e, run (device plan empty) (loop fuel h.metadata) h = (.error e, h)

def Conflicts (row : Program Tree File (Metadata Tree)) : Prop :=
  ∃ message, row = valueError message

theorem stuck_of_absence_conflict {phase : PublicationPhase} {prior : Tree}
    (inactive : h.active = false) (here : h.metadata.phase = .publication phase)
    (unfinished : phase ≠ .absenceCleaned)
    (conflict : Conflicts (absenceRow h.metadata phase h.modules prior : Program Tree File _)) :
    Stuck plan empty (finishAbsencePublication prior) h := by
  obtain ⟨message, row⟩ := conflict
  intro fuel
  cases fuel with
  | zero => exact ⟨_, rfl⟩
  | succ fuel =>
    refine ⟨.valueError message, ?_⟩
    rw [run_finishAbsencePublication fuel inactive here unfinished, row]
    rfl

theorem stuck_of_present_conflict {phase : PublicationPhase} {prior desired : Tree}
    (inactive : h.active = false) (here : h.metadata.phase = .publication phase)
    (unfinished : phase ≠ .publicationComplete)
    (conflict : Conflicts
      (presentRow h.metadata phase h.modules (some prior) desired : Program Tree File _)) :
    Stuck plan empty (finishPresentPublication (some prior) desired) h := by
  obtain ⟨message, row⟩ := conflict
  intro fuel
  cases fuel with
  | zero => exact ⟨_, rfl⟩
  | succ fuel =>
    refine ⟨.valueError message, ?_⟩
    rw [run_finishPresentPublication fuel inactive here unfinished, row]
    rfl

theorem stuck_finishAbsencePublication {phase : PublicationPhase}
    (here : h.metadata.phase = .publication phase)
    (published : Published plan h.modules (.publication phase)) (inactive : h.active = false)
    (absent : plan.source = none) :
    Stuck plan empty (finishAbsencePublication plan.target) h := by
  have conflict : Conflicts
      (absenceRow h.metadata phase h.modules plan.target : Program Tree File _) := by
    cases phase with
    | moveReady =>
      refine ⟨"external-boot module absence conflict", ?_⟩
      rcases published with same | same <;> rw [absenceRow, same] <;> simp [absent]
    | oldAside | rollbackReady | rollbackComplete | newLive | publicationComplete => exact ⟨_, rfl⟩
    | absenceLive | absenceComplete | absenceCleaned => exact absurd published id
  refine stuck_of_absence_conflict inactive here ?_ conflict
  rintro rfl
  exact published

theorem conflicts_presentRow {phase : PublicationPhase} {source : Tree}
    (published : Published plan h.modules (.publication phase))
    (present : plan.source = some source) (unfinished : phase ≠ .publicationComplete)
    (other : source = plan.target → h.modules.old ≠ none ∧ h.modules.old ≠ some plan.target) :
    Conflicts (presentRow h.metadata phase h.modules (some plan.target) source :
      Program Tree File _) := by
  refine ⟨"external-boot module publication conflict", ?_⟩
  cases phase with
  | moveReady | oldAside | rollbackReady =>
    simp only [Published, present] at published
    rcases published with same | same <;>
      · rw [same] at other ⊢
        have differs : source ≠ plan.target := by
          rintro rfl
          simp at other
        simp [presentRow, differs, differs.symm]
  | rollbackComplete =>
    simp only [Published, present] at published
    rw [published] at other ⊢
    have differs : source ≠ plan.target := by
      rintro rfl
      simp at other
    simp [presentRow, differs.symm]
  | newLive =>
    obtain ⟨live, staging⟩ := published
    have elsewhere (held : Option Tree) (rest : held = none ∨ held = some plan.target) :
        h.modules ≠ ⟨some source, none, held⟩ := by
      intro here
      rw [here] at live other
      obtain rfl := Option.some.inj live
      rcases rest with rfl | rfl <;> simp at other
    rw [presentRow, if_neg (elsewhere none (.inl rfl)), if_neg (elsewhere _ (.inr rfl))]
  | publicationComplete => exact absurd rfl unfinished
  | absenceLive | absenceComplete | absenceCleaned => rfl

theorem stuck_finishPresentPublication {phase : PublicationPhase} {source : Tree}
    (here : h.metadata.phase = .publication phase)
    (published : Published plan h.modules (.publication phase)) (inactive : h.active = false)
    (present : plan.source = some source)
    (other : source = plan.target → h.modules.old ≠ none ∧ h.modules.old ≠ some plan.target) :
    Stuck plan empty (finishPresentPublication (some plan.target) source) h := by
  by_cases complete : phase = .publicationComplete
  · subst complete
    have published : h.modules = ⟨some plan.target, none, none⟩ := published
    have elsewhere : h.modules ≠ ⟨some source, none, none⟩ := by
      intro same
      have live := congrArg Layout.live (published.symm.trans same)
      have old := (other (Option.some.inj live).symm).1
      rw [published] at old
      exact old rfl
    intro fuel
    cases fuel with
    | zero => exact ⟨_, rfl⟩
    | succ fuel =>
      refine ⟨.valueError "external-boot completed module publication layout conflicts", ?_⟩
      rw [finishPresentPublication, here]
      rw [run_bind, run_observeLayout, andThen_ok, if_neg elsewhere]
      rfl
  · exact stuck_of_present_conflict inactive here complete
      (conflicts_presentRow published present complete other)

end Stuck

end Kdive.ExternalBoot
