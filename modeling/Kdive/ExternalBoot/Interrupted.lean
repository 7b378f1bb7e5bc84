import Kdive.ExternalBoot.Steps

/-!
What interrupted activations leave: for each phase on record, the layouts the module names may have,
the domain, and a debuginfo layout that can be taken back.
-/
namespace Kdive.ExternalBoot
open Calls Interrupts

variable {Tree File : Type}

def Published (plan : Plan Tree File) (l : Layout Tree) : RecoveryPhase → Prop
  | .preStopIntent => l.live = plan.source ∧ l.old = none
  | .publication phase =>
    match phase with
    | .moveReady | .rollbackReady =>
      l = ⟨plan.source, some plan.target, none⟩ ∨ l = ⟨none, some plan.target, plan.source⟩
    | .oldAside =>
      l = ⟨none, some plan.target, plan.source⟩ ∨ l = ⟨some plan.target, none, plan.source⟩
    | .rollbackComplete => l = ⟨plan.source, some plan.target, none⟩
    -- the old tree is being removed
    | .newLive => l.live = some plan.target ∧ l.staging = none
    | .publicationComplete => l = ⟨some plan.target, none, none⟩
    | .absenceLive | .absenceComplete | .absenceCleaned => False
  | .moduleRestored | .targetDefined => l = ⟨some plan.target, none, none⟩
  | .sourceRestored | .recovered | .cleaned => False

def Defined (definition : Definition) (active : Bool) : RecoveryPhase → Prop
  | .preStopIntent | .publication _ => definition = .source ∧ active = false
  | .moduleRestored => active → definition = .target
  | .targetDefined => definition = .target
  | .sourceRestored | .recovered | .cleaned => False

structure Left (plan : Plan Tree File) (h : Host Tree File) : Prop where
  published : Published plan h.modules h.metadata.phase
  defined : Defined h.definition h.active h.metadata.phase
  debuginfo : ∀ prior target, plan.debuginfo = some (prior, target) →
    Recoverable prior target h.debuginfo

theorem left_prepared (plan : Plan Tree File) : Left plan (prepared plan) where
  published := ⟨rfl, rfl⟩
  defined := ⟨rfl, rfl⟩
  debuginfo := by
    intro prior target member
    simp [Recoverable, prepared, member]

section Keeping

variable [DecidableEq Tree] {plan : Plan Tree File} {empty : Tree} {h : Host Tree File} {α : Type}

abbrev Safely (plan : Plan Tree File) (empty : Tree) (Q : α → Host Tree File → Prop)
    (p : Program Tree File α) (h : Host Tree File) : Prop :=
  Keeps (device plan empty) (Left plan) Q p h

variable {metadata : Metadata Tree}

omit [DecidableEq Tree] in
theorem published_iff {l : Layout Tree} {phase : PublicationPhase} :
    Published plan l (.publication phase) ↔ PresentLayout plan.source plan.target l phase := by
  cases phase <;> rfl

omit [DecidableEq Tree] in
theorem left_admits (plan : Plan Tree File) :
    Admits (Left plan) (PresentLayout plan.source plan.target) where
  layout := by
    intro h phase left here
    have published := left.published
    rw [here] at published
    exact published_iff.mp published
  admits := by
    intro h before after l m left here there allowed
    have defined := left.defined
    rw [here] at defined
    refine ⟨?_, ?_, left.debuginfo⟩
    · rw [there]
      exact published_iff.mpr allowed
    · rw [there]
      exact defined

omit [DecidableEq Tree] in
theorem left_permits {prior : Option File} {target : File}
    (member : plan.debuginfo = some (prior, target)) : Permits (Left plan) prior target := by
  intro h l left recoverable
  refine ⟨left.published, left.defined, ?_⟩
  intro prior' target' member'
  obtain ⟨rfl, rfl⟩ := Prod.mk.inj (Option.some.inj (member.symm.trans member'))
  exact recoverable

omit [DecidableEq Tree] in
theorem Left.withModules {l : Layout Tree} (left : Left plan h)
    (published : Published plan l h.metadata.phase) : Left plan { h with modules := l } :=
  ⟨published, left.defined, left.debuginfo⟩

section Debuginfo

variable {prior : Option File} {target : File} [DecidableEq File]

theorem safely_stageDebuginfo (left : Left plan h)
    (member : plan.debuginfo = some (prior, target)) :
    Safely plan empty (OnlyDebuginfo h) (stageDebuginfo prior target) h := by
  refine (keeps_observeDebuginfo left).bind ?_
  rintro _ _ _ ⟨rfl, rfl⟩
  split
  · exact keeps_throw left
  · rename_i settled
    split
    · exact keeps_pure left ⟨_, rfl⟩
    · -- every layout from here on has the prior file live and nothing under the old name
      let reach (l : Layout File) : Prop := l.live = prior ∧ l.old = none
      have settled : reach h.debuginfo := by
        simp only [not_or, not_not] at settled
        exact settled
      have recoverable (l : Layout File) (reached : reach l) : Recoverable prior target l :=
        .inl reached
      refine (keeps_dropDebuginfoStaging left (left_permits member) settled).bind ?_
      rintro _ _ left₁ rfl
      have reached₁ : reach (h.debuginfo.set .staging none) := settled
      have uploaded : Safely plan empty
          (fun _ t => ∃ l, reach l ∧ t = { h with debuginfo := l })
          uploadDebuginfo { h with debuginfo := h.debuginfo.set .staging none } := by
        refine keeps_debuginfo .uploadDebuginfo left₁ (left_permits member) ?_ recoverable rfl
        intro progress
        cases progress with
        | whole =>
          refine ⟨h.debuginfo.set .staging (some target), reached₁, ?_⟩
          rw [remains, serve, member]
          rfl
        | partFile file => exact ⟨h.debuginfo.set .staging (some file), reached₁, rfl⟩
        | nothing | partTree => exact ⟨h.debuginfo.set .staging none, reached₁, rfl⟩
      refine uploaded.bind ?_
      rintro _ _ left₂ ⟨l₂, _, rfl⟩
      refine (keeps_observeDebuginfo left₂).bind ?_
      rintro _ _ _ ⟨rfl, rfl⟩
      split
      · exact keeps_throw left₂
      · refine (keeps_guestSync left₂).imp ?_
        rintro _ _ rfl
        exact ⟨_, rfl⟩

theorem safely_setDebuginfoAside (left : Left plan h)
    (member : plan.debuginfo = some (prior, target)) :
    Safely plan empty (fun layout t => t = { h with debuginfo := layout })
      (setDebuginfoAside prior target h.debuginfo) h := by
  rw [setDebuginfoAside]
  split
  · rename_i staged
    have renamed : h.debuginfo.rename .live .old = ⟨none, some target, prior⟩ := by
      rw [staged.2]
      rfl
    refine (keeps_moveDebuginfo left (left_permits member) ?_).bind ?_
    · rw [renamed]
      exact .inr (.inl rfl)
    · rintro _ _ left' rfl
      rw [renamed] at left' ⊢
      exact keeps_pure left' rfl
  · exact keeps_pure left rfl

theorem safely_publishDebuginfo (left : Left plan h)
    (member : plan.debuginfo = some (prior, target)) :
    Safely plan empty (OnlyDebuginfo h) (publishDebuginfo prior target) h := by
  have checked (l : Layout File) (left' : Left plan { h with debuginfo := l }) :
      Safely plan empty (OnlyDebuginfo h) (publishDebuginfo.checkPublished prior target)
        { h with debuginfo := l } := by
    refine (keeps_observeDebuginfo left').bind ?_
    rintro _ _ _ ⟨rfl, rfl⟩
    split
    · exact keeps_throw left'
    · exact keeps_pure left' ⟨_, rfl⟩
  refine (keeps_observeDebuginfo left).bind ?_
  rintro _ _ _ ⟨rfl, rfl⟩
  refine (safely_setDebuginfoAside left member).bind ?_
  rintro layout _ left' rfl
  split
  · rename_i aside
    refine (keeps_moveDebuginfo left' (left_permits member) ?_).bind ?_
    · rw [aside]
      exact .inr (.inr rfl)
    · rintro _ _ left'' rfl
      refine (keeps_guestSync left'').bind ?_
      rintro _ _ _ rfl
      exact checked _ left''
  · split
    · exact keeps_throw left'
    · exact checked layout left'

end Debuginfo

section Activation

theorem safely_staging (step : Step Tree) (left : Left plan h)
    (begun : h.metadata.phase = .preStopIntent)
    (outcome : ∀ progress, ∃ held, remains plan empty h step progress =
      { h with modules := h.modules.set .staging held })
    (silent : (raises step true : Option (Answer Tree File step)) = none) :
    Safely plan empty (fun _ t => ∃ held, t = { h with modules := h.modules.set .staging held })
      (perform step) h := by
  have published := left.published
  rw [begun] at published
  refine keeps_perform step left ?_ (fun _ _ => outcome .whole)
    (fun _ _ raised => absurd (silent.symm.trans raised) nofun)
  intro progress
  obtain ⟨held, same⟩ := outcome progress
  rw [same]
  exact left.withModules (by rw [begun]; exact published)

theorem safely_createStaging (left : Left plan h) (begun : h.metadata.phase = .preStopIntent) :
    Safely plan empty (fun _ t => ∃ held, t = { h with modules := h.modules.set .staging held })
      createStaging h := by
  refine safely_staging .createStaging left begun ?_ rfl
  intro progress
  cases progress with
  | whole =>
    rw [remains, serve]
    split
    · exact ⟨some empty, rfl⟩
    · exact ⟨h.modules.staging, rfl⟩
  | nothing | partTree | partFile => exact ⟨h.modules.staging, rfl⟩

theorem safely_install (left : Left plan h) (begun : h.metadata.phase = .preStopIntent) :
    Safely plan empty (fun _ t => ∃ held, t = { h with modules := h.modules.set .staging held })
      install h := by
  refine safely_staging .install left begun ?_ rfl
  intro progress
  cases progress with
  | whole => exact ⟨some plan.target, rfl⟩
  | partTree tree => exact ⟨some tree, rfl⟩
  | nothing | partFile => exact ⟨h.modules.staging, rfl⟩

theorem safely_stageTarget (left : Left plan h) (begun : h.metadata.phase = .preStopIntent) :
    Safely plan empty
      (fun _ t => t = { h with modules := ⟨plan.source, some plan.target, none⟩ })
      (stageTarget plan) h := by
  refine (keeps_observeLayout left).bind ?_
  rintro _ _ _ ⟨rfl, rfl⟩
  split
  · refine (safely_createStaging left begun).bind ?_
    rintro _ _ left₁ ⟨held₁, rfl⟩
    refine (safely_install left₁ begun).bind ?_
    rintro _ _ left₂ ⟨held₂, rfl⟩
    refine (keeps_observeLayout left₂).bind ?_
    rintro layout _ _ ⟨rfl, observed⟩
    split
    · exact keeps_throw left₂
    · rename_i staged
      refine keeps_pure left₂ ?_
      rw [← not_not.mp staged, observed]
  · split
    · exact keeps_throw left
    · rename_i staged
      refine keeps_pure left ?_
      rw [← not_not.mp staged]

theorem safely_recordTargetDefined (left : Left plan h)
    (restored : h.metadata.phase = .moduleRestored) (defined : h.definition = .target) :
    Safely plan empty (fun _ _ => True) (recordPhase metadata .targetDefined >>= fun _ => pure ()) h := by
  have recorded (m : Metadata Tree) (same : m.phase = .targetDefined) :
      Left plan { h with metadata := m } := by
    have published := left.published
    rw [restored] at published
    exact ⟨by rw [same]; exact published, by rw [same]; exact defined, left.debuginfo⟩
  refine (keeps_recordPhase left recorded).bind ?_
  rintro m _ left' ⟨_, rfl⟩
  exact keeps_pure left' trivial

theorem safely_defineTargetLoop (fuel : Nat) (left : Left plan h)
    (restored : h.metadata.phase = .moduleRestored) :
    Safely plan empty (fun _ _ => True) (defineTargetLoop plan metadata fuel) h := by
  induction fuel generalizing h with
  | zero => exact keeps_throw left
  | succ fuel ih =>
    rw [defineTargetLoop]
    refine (keeps_hostState left).bind ?_
    rintro state _ _ ⟨rfl, rfl⟩
    split
    · rename_i idle
      obtain ⟨source, inactive⟩ := Prod.mk.inj idle
      have changed : Left plan { h with definition := .target } := by
        refine ⟨left.published, ?_, left.debuginfo⟩
        rw [restored]
        exact fun _ => rfl
      refine (keeps_defineXml left changed).bind ?_
      rintro _ _ left' rfl
      exact ih left' restored
    · rename_i idle _
      exact safely_recordTargetDefined left restored (Prod.mk.inj idle).1
    · rename_i idle _
      obtain ⟨target, inactive⟩ := Prod.mk.inj idle
      have changed : Left plan { h with active := true } := by
        refine ⟨left.published, ?_, left.debuginfo⟩
        rw [restored]
        exact fun _ => target
      refine (keeps_start left changed).bind ?_
      rintro _ _ left' rfl
      exact ih left' restored
    · rename_i running _
      refine (keeps_requireReadiness left).bind ?_
      rintro _ _ _ rfl
      refine (keeps_hostState left).bind ?_
      rintro _ _ _ ⟨rfl, _⟩
      split
      · exact keeps_throw left
      · exact safely_recordTargetDefined left restored (Prod.mk.inj running).1
    · exact keeps_throw left

theorem safely_defineTarget (fuel : Nat) (left : Left plan h) (current : h.metadata = metadata) :
    Safely plan empty (fun _ _ => True) (defineTarget plan fuel metadata) h := by
  rw [defineTarget]
  split
  · rename_i restored
    exact safely_defineTargetLoop fuel left (by rw [current, restored])
  · exact keeps_pure left trivial

variable [DecidableEq File]

theorem safely_beginPublication (left : Left plan h)
    (resumes : metadata.phase = .preStopIntent ∨ ∃ phase, metadata.phase = .publication phase)
    (current : h.metadata = metadata) :
    Safely plan empty Publishing (beginPublication plan metadata) h := by
  rw [beginPublication]
  split
  · rename_i begun
    have begun' : h.metadata.phase = .preStopIntent := by rw [current, begun]
    have idle : h.definition = .source ∧ h.active = false := by
      have defined := left.defined
      rwa [begun'] at defined
    refine (safely_stageTarget left begun').bind ?_
    rintro _ _ left₁ rfl
    refine (keeps_withDebuginfo left₁ (fun _ _ => safely_stageDebuginfo left₁)).bind ?_
    rintro _ _ left₂ ⟨l, rfl⟩
    refine (keeps_guestSync left₂).bind ?_
    rintro _ _ _ rfl
    refine keeps_publishPhase left₂ ?_
    intro m same
    refine ⟨?_, by rw [same]; exact idle, left₂.debuginfo⟩
    rw [same]
    split
    · exact .inl rfl
    · rename_i absent
      simp only [ne_eq, not_not] at absent
      exact .inl (by rw [absent])
  · rename_i begun
    exact keeps_pure left ⟨current, resumes.resolve_left begun⟩

theorem safely_activateModules (fuel : Nat) (left : Left plan h) (current : h.metadata = metadata)
    (resumes : metadata.phase = .preStopIntent ∨ ∃ phase, metadata.phase = .publication phase) :
    Safely plan empty (fun _ t => t.metadata.phase = .moduleRestored)
      (activateModules plan fuel metadata) h := by
  refine (keeps_hostState left).bind ?_
  rintro state _ _ ⟨rfl, _⟩
  split
  · exact keeps_throw left
  · refine (safely_beginPublication left resumes current).bind ?_
    intro begun t₁ left₁ publishing
    refine (keeps_finishPresentPublication (left_admits plan) fuel left₁ publishing).bind ?_
    rintro completed t₂ left₂ ⟨same, complete⟩
    refine (keeps_withDebuginfo left₂ (fun _ _ => safely_publishDebuginfo left₂)).bind ?_
    rintro _ _ left₃ ⟨l, rfl⟩
    refine (keeps_observeModules left₃).bind ?_
    rintro observed _ _ rfl
    have recorded (m : Metadata Tree) (restored : m.phase = .moduleRestored) :
        Left plan { t₂ with debuginfo := l, metadata := m } := by
      have published := left₂.published
      have defined := left₂.defined
      rw [same, complete] at published defined
      refine ⟨?_, ?_, left₃.debuginfo⟩
      · rw [restored]
        exact published
      · rw [restored]
        intro active
        exact absurd (defined.2.symm.trans active) nofun
    refine (keeps_recordPhase left₃ recorded).bind ?_
    rintro m _ left₄ ⟨restored, rfl⟩
    exact keeps_pure left₄ restored

theorem safely_activate (fuel : Nat) (left : Left plan h) :
    Safely plan empty (fun _ _ => True) (activate plan fuel) h := by
  refine (keeps_reopen left).bind ?_
  rintro metadata _ _ ⟨rfl, rfl⟩
  split
  · exact keeps_throw left
  · rename_i resumable
    split
    · exact keeps_pure left trivial
    · rename_i unfinished
      split
      · rename_i unrestored
        have resumes : h.metadata.phase = .preStopIntent ∨
            ∃ phase, h.metadata.phase = .publication phase := by
          cases here : h.metadata.phase with
          | preStopIntent => exact .inl rfl
          | publication phase => exact .inr ⟨phase, rfl⟩
          | targetDefined => exact absurd here unfinished
          | moduleRestored => exact absurd here unrestored
          | sourceRestored | recovered | cleaned =>
            rw [here] at resumable
            exact absurd rfl resumable
        refine (safely_activateModules fuel left rfl resumes).bind ?_
        intro _ t left' _
        refine (keeps_reopen left').bind ?_
        rintro _ _ _ ⟨rfl, rfl⟩
        exact safely_defineTarget fuel left' rfl
      · exact safely_defineTarget fuel left rfl

/-- An `activate` call with the fuel its loops have and the fates of its steps, of which the last
may be where it dies. -/
abbrev Attempt (Tree File : Type) := Nat × List (Option (Fate Tree File))

def interrupt (plan : Plan Tree File) (empty : Tree) (h : Host Tree File)
    (attempt : Attempt Tree File) : Host Tree File :=
  crash (device plan empty) attempt.2 (activate plan attempt.1) h

def interrupted (plan : Plan Tree File) (empty : Tree) (attempts : List (Attempt Tree File)) :
    Host Tree File :=
  Trace.run (interrupt plan empty) (prepared plan) attempts

theorem left_interrupted (plan : Plan Tree File) (empty : Tree)
    (attempts : List (Attempt Tree File)) : Left plan (interrupted plan empty attempts) := by
  refine Trace.invariant_along (Q := fun _ _ => True) ?_ (left_prepared plan)
    (Trace.along_of_forall (fun _ _ => trivial) _ _)
  intro h attempt left _
  exact (safely_activate attempt.1 left).crash attempt.2

end Activation

end Keeping

end Kdive.ExternalBoot
