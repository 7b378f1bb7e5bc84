import Kdive.ExternalBoot.Recovered

/-!
Recovery from `target-defined`, interrupted any number of times and then let through. A tree that is
written or removed only in part is a layout that no row of the publication has: the staging name
before `move-ready` and the old name while it is removed are where a retry can get stuck.
-/
namespace Kdive.ExternalBoot
open Calls Interrupts

variable {Tree File : Type}

def Withdrawn (plan : Plan Tree File) (l : Layout Tree) : RecoveryPhase → Prop
  -- the captured tree is being written to the staging name
  | .targetDefined => l.live = some plan.target ∧ l.old = none ∧
      (plan.source = none → l.staging = none)
  | .publication phase =>
    match plan.source with
    | none => AbsenceLayout plan.target l phase
    | some source => PresentLayout (some plan.target) source l phase
  | .moduleRestored | .sourceRestored | .recovered => l = ⟨plan.source, none, none⟩
  | .preStopIntent | .cleaned => False

def Retracted (plan : Plan Tree File) (definition : Definition) (active : Bool) :
    RecoveryPhase → Prop
  | .targetDefined => definition = .target
  | .publication _ | .moduleRestored => active = false
  | .sourceRestored => definition = .source ∧ (active → plan.priorPower = .running)
  | .recovered => definition = .source
  | .preStopIntent | .cleaned => False

structure Recovering (plan : Plan Tree File) (h : Host Tree File) : Prop where
  modules : Withdrawn plan h.modules h.metadata.phase
  domain : Retracted plan h.definition h.active h.metadata.phase
  debuginfo : ∀ prior target, plan.debuginfo = some (prior, target) →
    Recoverable prior target h.debuginfo

section Keeping

variable [DecidableEq Tree] {plan : Plan Tree File} {empty : Tree} {h : Host Tree File} {α : Type}
  {metadata : Metadata Tree}

abbrev Patiently (plan : Plan Tree File) (empty : Tree) (Q : α → Host Tree File → Prop)
    (p : Program Tree File α) (h : Host Tree File) : Prop :=
  Keeps (device plan empty) (Recovering plan) Q p h

omit [DecidableEq Tree] in
theorem recovering_of_left (left : Left plan h) (defined : h.metadata.phase = .targetDefined) :
    Recovering plan h := by
  have published := left.published
  have domain := left.defined
  rw [defined] at published domain
  refine ⟨?_, ?_, left.debuginfo⟩
  · rw [defined, published]
    exact ⟨rfl, rfl, fun _ => rfl⟩
  · rw [defined]
    exact domain

omit [DecidableEq Tree] in
theorem recovering_admits {layouts : Layout Tree → PublicationPhase → Prop}
    (same : ∀ l phase, Withdrawn plan l (.publication phase) ↔ layouts l phase) :
    Admits (Recovering plan) layouts where
  layout := by
    intro h phase recovering here
    have modules := recovering.modules
    rw [here] at modules
    exact (same _ _).mp modules
  admits := by
    intro h before after l m recovering here there allowed
    have domain := recovering.domain
    rw [here] at domain
    refine ⟨?_, ?_, recovering.debuginfo⟩
    · rw [there]
      exact (same _ _).mpr allowed
    · rw [there]
      exact domain

omit [DecidableEq Tree] in
theorem admits_absence (absent : plan.source = none) :
    Admits (Recovering plan) (AbsenceLayout plan.target) := by
  refine recovering_admits ?_
  intro l phase
  rw [Withdrawn, absent]

omit [DecidableEq Tree] in
theorem admits_present {source : Tree} (present : plan.source = some source) :
    Admits (Recovering plan) (PresentLayout (some plan.target) source) := by
  refine recovering_admits ?_
  intro l phase
  rw [Withdrawn, present]

omit [DecidableEq Tree] in
theorem recovering_permits {prior : Option File} {target : File}
    (member : plan.debuginfo = some (prior, target)) : Permits (Recovering plan) prior target := by
  intro h l recovering recoverable
  refine ⟨recovering.modules, recovering.domain, ?_⟩
  intro prior' target' member'
  obtain ⟨rfl, rfl⟩ := Prod.mk.inj (Option.some.inj (member.symm.trans member'))
  exact recoverable

section Debuginfo

variable {prior : Option File} {target : File} [DecidableEq File] {Inv : Host Tree File → Prop}

theorem keeps_putDebuginfoBack (holds : Inv h) (permits : Permits Inv prior target) :
    Keeps (device plan empty) Inv (fun layout t => t = { h with debuginfo := layout })
      (putDebuginfoBack prior target h.debuginfo) h := by
  rw [putDebuginfoBack]
  split
  · rename_i published
    have old : h.debuginfo.old = prior := by rcases published with same | same <;> rw [same]
    split
    · have renamed : h.debuginfo.rename .old .live = ⟨prior, h.debuginfo.staging, none⟩ := by
        rw [← old]
        rfl
      refine (keeps_moveDebuginfo holds permits ?_).bind ?_
      · rw [renamed]
        exact .inl ⟨rfl, rfl⟩
      · rintro _ _ holds' rfl
        rw [renamed] at holds' ⊢
        exact keeps_pure holds' rfl
    · rename_i absent
      rw [ne_eq, not_not] at absent
      split
      · have removed : h.debuginfo.set .live none = ⟨prior, h.debuginfo.staging, none⟩ := by
          rw [absent] at old ⊢
          exact Layout.ext rfl rfl old
        refine (keeps_removeDebuginfo holds permits ?_).bind ?_
        · rw [removed]
          exact .inl ⟨rfl, rfl⟩
        · rintro _ _ holds' rfl
          rw [removed] at holds' ⊢
          exact keeps_pure holds' rfl
      · rename_i dead
        rw [ne_eq, not_not] at dead
        have same : h.debuginfo = ⟨prior, h.debuginfo.staging, none⟩ := by
          rw [absent] at old ⊢
          exact Layout.ext dead rfl old
        refine keeps_pure holds ?_
        rw [← same]
  · exact keeps_pure holds rfl

theorem keeps_restoreDebuginfo (holds : Inv h) (permits : Permits Inv prior target) :
    Keeps (device plan empty) Inv (OnlyDebuginfo h) (restoreDebuginfo prior target) h := by
  refine (keeps_observeDebuginfo holds).bind ?_
  rintro _ _ _ ⟨rfl, rfl⟩
  split
  · exact keeps_pure holds ⟨_, rfl⟩
  · refine (keeps_putDebuginfoBack holds permits).bind ?_
    rintro layout _ holds₁ rfl
    split
    · exact keeps_throw holds₁
    · rename_i settled
      simp only [not_or, not_not] at settled
      refine (@keeps_dropDebuginfoStaging _ _ _ _ _ { h with debuginfo := layout } _ _ _ holds₁
        permits settled).bind ?_
      rintro _ _ holds₂ rfl
      refine (keeps_guestSync holds₂).bind ?_
      rintro _ _ _ rfl
      refine (keeps_observeDebuginfo holds₂).bind ?_
      rintro _ _ _ ⟨rfl, rfl⟩
      split
      · exact keeps_throw holds₂
      · exact keeps_pure holds₂ ⟨_, rfl⟩

end Debuginfo

section Domain

theorem patiently_stop (mode : StopMode) (recovering : Recovering plan h)
    (defined : h.metadata.phase = .targetDefined) :
    Patiently plan empty (fun _ t => t = h ∨ t = { h with active := false })
      (stopAndRequireInactive mode) h := by
  have stopped : Recovering plan { h with active := false } := by
    have domain := recovering.domain
    refine ⟨recovering.modules, ?_, recovering.debuginfo⟩
    rw [defined] at domain ⊢
    exact domain
  have outcome : ∀ fate, (respond (device plan empty) h (.stop mode) fate).2 = h ∨
      (respond (device plan empty) h (.stop mode) fate).2 = { h with active := false } := by
    intro fate
    cases fate with
    | none => exact .inr rfl
    | some fate =>
      obtain ⟨osError, progress⟩ := fate
      cases progress with
      | whole => exact .inr rfl
      | nothing | partTree | partFile => exact .inl rfl
  refine @keeps_ask _ _ _ _ _ (device plan empty) h _ (.stop mode) _ recovering ?_ outcome
  intro fate
  rcases outcome fate with same | same
  · rw [same]
    exact recovering
  · rw [same]
    exact stopped

theorem patiently_inspected (recovering : Recovering plan h) :
    Patiently plan empty
      (fun state t => h = t ∧ ∀ seen, state = some seen → seen = (h.definition, h.active))
      inspected h := by
  have same : ∀ fate, (respond (device plan empty) h .inspect fate).2 = h := by
    intro fate
    cases fate with
    | none => rfl
    | some fate =>
      obtain ⟨osError, progress⟩ := fate
      cases progress <;> rfl
  refine @keeps_ask _ _ _ _ _ (device plan empty) h _ .inspect _ recovering ?_ ?_
  · intro fate
    rw [same]
    exact recovering
  · intro fate
    refine ⟨(same fate).symm, ?_⟩
    intro seen answered
    cases fate with
    | none => exact (Option.some.inj answered).symm
    | some fate => cases answered

theorem patiently_stopForRecovery (recovering : Recovering plan h)
    (unrestored : h.metadata.phase ≠ .sourceRestored) (unfinished : h.metadata.phase ≠ .recovered) :
    Patiently plan empty (fun _ t => t = { h with active := false }) (stopForRecovery h.metadata) h := by
  refine (keeps_hostState recovering).bind ?_
  rintro _ _ _ ⟨rfl, rfl⟩
  have settled {t : Host Tree File} (same : t = h ∨ t = { h with active := false })
      (inactive : t.active = false) : t = { h with active := false } := by
    rcases same with rfl | rfl
    · rw [← inactive]
    · rfl
  split
  · exact keeps_throw recovering
  · split
    · exact keeps_throw recovering
    · split
      · refine Keeps.imp (keeps_requireInactive recovering) ?_
        rintro _ _ ⟨rfl, inactive⟩
        exact settled (.inl rfl) inactive
      · rename_i active
        -- only at target-defined is the domain still up
        have defined : h.metadata.phase = .targetDefined := by
          have modules := recovering.modules
          have domain := recovering.domain
          cases here : h.metadata.phase with
          | targetDefined => rfl
          | publication phase =>
            rw [here] at domain
            exact absurd domain active
          | moduleRestored =>
            rw [here] at domain
            exact absurd domain active
          | sourceRestored => exact absurd here unrestored
          | recovered => exact absurd here unfinished
          | preStopIntent | cleaned =>
            rw [here] at modules
            exact absurd modules id
        refine (patiently_stop _ recovering defined).bind ?_
        intro answer t recovering' outcome
        split
        · refine (patiently_inspected recovering').bind ?_
          rintro after _ _ ⟨rfl, seen⟩
          cases after with
          | none => exact keeps_throw recovering'
          | some after =>
            rw [reclassifyStop]
            split
            · refine Keeps.imp (keeps_requireInactive recovering') ?_
              rintro _ _ ⟨rfl, inactive⟩
              exact settled outcome inactive
            · exact keeps_throw recovering'
        · refine (keeps_hostState recovering').bind ?_
          rintro _ _ _ ⟨rfl, rfl⟩
          split
          · exact keeps_throw recovering'
          · rename_i stopped
            rw [ne_eq, not_not, Prod.mk.injEq] at stopped
            exact keeps_pure recovering' (settled outcome stopped.2)

end Domain

section Modules

omit [DecidableEq Tree] in
theorem Recovering.moveReady (recovering : Recovering plan h) (inactive : h.active = false)
    (staged : Withdrawn plan h.modules (.publication .moveReady)) :
    ∀ m : Metadata Tree, m.phase = .publication .moveReady →
      Recovering plan { h with metadata := m } := by
  intro m same
  refine ⟨?_, ?_, recovering.debuginfo⟩
  · rw [same]
    exact staged
  · rw [same]
    exact inactive

theorem patiently_restoreArchive (recovering : Recovering plan h)
    (defined : h.metadata.phase = .targetDefined) {source : Tree}
    (present : plan.source = some source) :
    Patiently plan empty (fun _ t => ∃ held, t = { h with modules := h.modules.set .staging held })
      restoreArchive h := by
  have modules := recovering.modules
  rw [defined] at modules
  have outcome : ∀ progress, ∃ held, remains plan empty h .restore progress =
      { h with modules := h.modules.set .staging held } := by
    intro progress
    cases progress with
    | whole =>
      refine ⟨some source, ?_⟩
      rw [remains, serve, present]
    | partTree tree => exact ⟨some tree, rfl⟩
    | nothing | partFile => exact ⟨h.modules.staging, rfl⟩
  refine keeps_perform .restore recovering ?_ (fun _ _ => outcome .whole)
    (fun _ _ raised => by cases raised)
  intro progress
  obtain ⟨held, same⟩ := outcome progress
  rw [same]
  refine ⟨?_, recovering.domain, recovering.debuginfo⟩
  rw [defined]
  exact ⟨modules.1, modules.2.1, fun absent => by cases absent.symm.trans present⟩

theorem patiently_stageSource (recovering : Recovering plan h) (inactive : h.active = false)
    (defined : h.metadata.phase = .targetDefined) :
    Patiently plan empty Publishing (stageSource plan metadata h.modules) h := by
  rw [stageSource]
  split
  · rename_i absent
    split
    · exact keeps_throw recovering
    · rename_i live
      rw [ne_eq, not_not] at live
      refine keeps_syncPhase recovering (recovering.moveReady inactive ?_)
      rw [Withdrawn, absent]
      exact .inl live
  · rename_i source present
    have published {t : Host Tree File} (recovering : Recovering plan t)
        (inactive : t.active = false) : Patiently plan empty Publishing
          (stageSource.publish plan metadata source) t := by
      refine (keeps_observeLayout recovering).bind ?_
      rintro _ _ _ ⟨rfl, rfl⟩
      split
      · exact keeps_throw recovering
      · rename_i staged
        rw [ne_eq, not_not] at staged
        refine keeps_syncPhase recovering (recovering.moveReady inactive ?_)
        rw [Withdrawn, present]
        exact .inl staged
    split
    · refine (patiently_restoreArchive recovering defined present).bind ?_
      rintro manifest _ recovering' ⟨held, rfl⟩
      split
      · exact keeps_throw recovering'
      · exact published recovering' inactive
    · split
      · exact keeps_throw recovering
      · exact published recovering inactive

theorem patiently_finishSource (fuel : Nat) (recovering : Recovering plan h)
    (current : Publishing metadata h) :
    Patiently plan empty (fun m t => t.metadata = m ∧ t.modules = ⟨plan.source, none, none⟩ ∧
      t.active = false) (finishSource plan fuel metadata) h := by
  have ended {t : Host Tree File} {phase : PublicationPhase} (recovering : Recovering plan t)
      (here : t.metadata.phase = .publication phase)
      (last : ∀ l, Withdrawn plan l (.publication phase) → l = ⟨plan.source, none, none⟩) :
      t.modules = ⟨plan.source, none, none⟩ ∧ t.active = false := by
    have modules := recovering.modules
    have domain := recovering.domain
    rw [here] at modules domain
    exact ⟨last _ modules, domain⟩
  rw [finishSource]
  split
  · rename_i absent
    refine Keeps.imp_inv (keeps_finishAbsencePublication (admits_absence absent) fuel recovering
      current) ?_
    rintro m t recovering' ⟨rfl, complete⟩
    refine ⟨rfl, ended recovering' complete ?_⟩
    intro l layout
    rw [Withdrawn, absent] at layout
    rw [absent]
    exact layout
  · rename_i source present
    refine Keeps.imp_inv (keeps_finishPresentPublication (admits_present present) fuel recovering
      current) ?_
    rintro m t recovering' ⟨rfl, complete⟩
    refine ⟨rfl, ended recovering' complete ?_⟩
    intro l layout
    rw [Withdrawn, present] at layout
    rw [present]
    exact layout

theorem patiently_publishSource (fuel : Nat) (recovering : Recovering plan h)
    (current : Publishing metadata h) :
    Patiently plan empty (fun _ t => t.metadata.phase = .moduleRestored)
      (publishSource plan fuel metadata) h := by
  refine (patiently_finishSource fuel recovering current).bind ?_
  rintro completed t recovering₁ ⟨rfl, modules, inactive⟩
  refine (keeps_observeModules recovering₁).bind ?_
  rintro observed _ _ rfl
  have recorded (m : Metadata Tree) (restored : m.phase = .moduleRestored) :
      Recovering plan { t with metadata := m } := by
    refine ⟨?_, ?_, recovering₁.debuginfo⟩
    · rw [restored]
      exact modules
    · rw [restored]
      exact inactive
  refine (keeps_recordPhase recovering₁ recorded).bind ?_
  rintro m _ recovering₂ ⟨restored, rfl⟩
  exact keeps_pure recovering₂ restored

variable [DecidableEq File]

theorem patiently_recoverModules (fuel : Nat) (recovering : Recovering plan h)
    (unrestored : h.metadata.phase ≠ .sourceRestored) (unfinished : h.metadata.phase ≠ .recovered) :
    Patiently plan empty (fun _ t => t.metadata.phase = .moduleRestored)
      (recoverModules plan fuel h.metadata) h := by
  have modules := recovering.modules
  have begun : h.metadata.phase ≠ .preStopIntent := by
    intro here
    rw [here] at modules
    exact modules
  rw [recoverModules, if_neg begun]
  refine (patiently_stopForRecovery recovering unrestored unfinished).bind ?_
  rintro _ _ recovering₁ rfl
  refine (keeps_withDebuginfo recovering₁
    (fun _ _ member => keeps_restoreDebuginfo recovering₁ (recovering_permits member))).bind ?_
  rintro _ _ recovering₂ ⟨l, rfl⟩
  split
  · rename_i phase
    refine (keeps_observeLayout recovering₂).bind ?_
    rintro _ _ _ ⟨rfl, rfl⟩
    split
    · rename_i restored
      exact keeps_pure recovering₂ restored.1
    · rename_i unsettled
      rcases phase with defined | restored
      · refine (patiently_stageSource recovering₂ rfl defined).bind ?_
        intro staged t recovering₃ publishing
        exact patiently_publishSource fuel recovering₃ publishing
      · rw [restored] at modules
        exact absurd ⟨restored, modules⟩ unsettled
  · rename_i other
    have publishing : ∃ phase, h.metadata.phase = .publication phase := by
      cases here : h.metadata.phase with
      | publication phase => exact ⟨phase, rfl⟩
      | targetDefined => exact absurd (.inl here) other
      | moduleRestored => exact absurd (.inr here) other
      | sourceRestored => exact absurd here unrestored
      | recovered => exact absurd here unfinished
      | preStopIntent | cleaned =>
        rw [here] at modules
        exact absurd modules id
    exact patiently_publishSource fuel recovering₂ ⟨rfl, publishing⟩

end Modules

section Power

omit [DecidableEq Tree] in
theorem Recovering.recorded {phase : RecoveryPhase} (recovering : Recovering plan h)
    (modules : h.modules = ⟨plan.source, none, none⟩)
    (allowed : Withdrawn plan ⟨plan.source, none, none⟩ phase)
    (domain : Retracted plan h.definition h.active phase) :
    ∀ m : Metadata Tree, m.phase = phase → Recovering plan { h with metadata := m } := by
  intro m same
  refine ⟨?_, ?_, recovering.debuginfo⟩
  · rw [same, modules]
    exact allowed
  · rw [same]
    exact domain

theorem patiently_recordThen {phase : RecoveryPhase} (recovering : Recovering plan h)
    (recorded : ∀ m : Metadata Tree, m.phase = phase → Recovering plan { h with metadata := m }) :
    Patiently plan empty (fun _ t => t.metadata.phase = phase)
      (recordPhase metadata phase >>= fun _ => pure ()) h := by
  refine (keeps_recordPhase recovering recorded).bind ?_
  rintro m _ recovering' ⟨same, rfl⟩
  exact keeps_pure recovering' same

theorem patiently_defineSourceLoop (fuel : Nat) (recovering : Recovering plan h)
    (restored : h.metadata.phase = .moduleRestored) :
    Patiently plan empty (fun _ t => t.metadata.phase = .sourceRestored)
      (defineSourceLoop metadata fuel) h := by
  induction fuel generalizing h with
  | zero => exact keeps_throw recovering
  | succ fuel ih =>
    have modules := recovering.modules
    have domain := recovering.domain
    rw [restored] at modules domain
    rw [defineSourceLoop]
    refine (keeps_hostState recovering).bind ?_
    rintro state _ _ ⟨rfl, rfl⟩
    split
    · have changed : Recovering plan { h with definition := .source } := by
        refine ⟨recovering.modules, ?_, recovering.debuginfo⟩
        rw [restored]
        exact domain
      refine (keeps_defineXml recovering changed).bind ?_
      rintro _ _ recovering' rfl
      exact ih recovering' restored
    · rename_i idle
      refine patiently_recordThen recovering (recovering.recorded modules rfl ?_)
      refine ⟨(Prod.mk.inj idle).1, ?_⟩
      intro active
      cases (domain.symm.trans active)
    · exact keeps_throw recovering

theorem patiently_restorePowerLoop (fuel : Nat) (recovering : Recovering plan h)
    (restored : h.metadata.phase = .sourceRestored) :
    Patiently plan empty (fun _ _ => True) (restorePowerLoop plan metadata fuel) h := by
  induction fuel generalizing h with
  | zero => exact keeps_throw recovering
  | succ fuel ih =>
    have modules := recovering.modules
    have domain := recovering.domain
    rw [restored] at modules domain
    have ends : Patiently plan empty (fun _ _ => True)
        (recordPhase metadata .recovered >>= fun _ => pure ()) h :=
      Keeps.imp (patiently_recordThen recovering (recovering.recorded modules rfl domain.1))
        (fun _ _ _ => trivial)
    rw [restorePowerLoop]
    refine (keeps_hostState recovering).bind ?_
    rintro state _ _ ⟨rfl, rfl⟩
    split
    · exact ends
    · rename_i running
      have changed : Recovering plan { h with active := true } := by
        refine ⟨recovering.modules, ?_, recovering.debuginfo⟩
        rw [restored]
        exact ⟨domain.1, fun _ => running⟩
      refine (keeps_start recovering changed).bind ?_
      rintro _ _ recovering' rfl
      exact ih recovering' restored
    · refine (keeps_requireReadiness recovering).bind ?_
      rintro _ _ _ rfl
      refine (keeps_hostState recovering).bind ?_
      rintro _ _ _ ⟨rfl, _⟩
      split
      · exact keeps_throw recovering
      · exact ends
    · exact keeps_throw recovering

theorem patiently_recoverPower (fuel : Nat) (restoresPower : Bool)
    (recovering : Recovering plan h) :
    Patiently plan empty (fun _ _ => True) (recoverPower plan fuel restoresPower) h := by
  refine (keeps_reopen recovering).bind ?_
  rintro _ _ _ ⟨rfl, rfl⟩
  split
  · rename_i restored
    have modules := recovering.modules
    have domain := recovering.domain
    rw [restored] at modules domain
    split
    · rw [restorePower, if_pos restored]
      exact patiently_restorePowerLoop fuel recovering restored
    · exact Keeps.imp (patiently_recordThen recovering (recovering.recorded modules rfl domain.1))
        (fun _ _ _ => trivial)
  · exact keeps_pure recovering trivial

variable [DecidableEq File]

theorem patiently_recover (fuel : Nat) (restoresPower : Bool) (recovering : Recovering plan h) :
    Patiently plan empty (fun _ _ => True) (recover plan fuel restoresPower) h := by
  refine (keeps_reopen recovering).bind ?_
  rintro _ _ _ ⟨rfl, rfl⟩
  split
  · exact keeps_pure recovering trivial
  · rename_i unfinished
    rw [not_or] at unfinished
    split
    · rename_i unrestored
      refine (patiently_recoverModules fuel recovering unrestored unfinished.1).bind ?_
      intro _ t recovering₁ restored
      refine (keeps_reopen recovering₁).bind ?_
      rintro _ _ _ ⟨rfl, rfl⟩
      rw [defineSource, if_pos restored]
      refine (patiently_defineSourceLoop fuel recovering₁ restored).bind ?_
      intro _ u recovering₂ _
      exact patiently_recoverPower fuel restoresPower recovering₂
    · exact patiently_recoverPower fuel restoresPower recovering

/-- A `recover` call with its flag, the fuel its loops have and the fates of its steps, of which the
last may be where it dies. -/
abbrev Retry (Tree File : Type) := Nat × Bool × List (Option (Fate Tree File))

def interruptRecovery (plan : Plan Tree File) (empty : Tree) (h : Host Tree File)
    (retry : Retry Tree File) : Host Tree File :=
  crash (device plan empty) retry.2.2 (recover plan retry.1 retry.2.1) h

def retried (plan : Plan Tree File) (empty : Tree) (h : Host Tree File)
    (retries : List (Retry Tree File)) : Host Tree File :=
  Trace.run (interruptRecovery plan empty) h retries

theorem recovering_retried (empty : Tree) (retries : List (Retry Tree File))
    (recovering : Recovering plan h) : Recovering plan (retried plan empty h retries) := by
  refine Trace.invariant_along (Q := fun _ _ => True) ?_ recovering
    (Trace.along_of_forall (fun _ _ => trivial) _ _)
  intro h retry recovering _
  exact (patiently_recover retry.1 retry.2.1 recovering).crash retry.2.2

end Power

end Keeping

section Retrying

variable [DecidableEq Tree] [DecidableEq File] {plan : Plan Tree File} {empty : Tree}
  {h : Host Tree File}

/-- No tree is there in part where a retry compares it whole: the staging name at `target-defined`,
the old name while it is removed. -/
def Unbroken (plan : Plan Tree File) (h : Host Tree File) : Prop :=
  match h.metadata.phase with
  | .targetDefined => h.modules.staging = none ∨ h.modules.staging = plan.source
  | .publication .newLive | .publication .absenceComplete =>
    h.modules.old = none ∨ h.modules.old = some plan.target
  | _ => True

structure Completes (plan : Plan Tree File) (outcome : Except Fault Unit × Host Tree File) :
    Prop where
  returns : outcome.1 = .ok ()
  modules : outcome.2.modules = ⟨plan.source, none, none⟩

omit [DecidableEq Tree] [DecidableEq File] in
theorem Recovers.completes {outcome : Except Fault Unit × Host Tree File}
    (recovers : Recovers plan outcome) : Completes plan outcome :=
  ⟨recovers.returns, recovers.modules⟩

omit [DecidableEq Tree] [DecidableEq File] in
theorem Recovering.unrestored (recovering : Recovering plan h)
    (open' : h.metadata.phase ≠ .sourceRestored) (unfinished : h.metadata.phase ≠ .recovered) :
    Unrestored h.metadata.phase := by
  refine ⟨open', unfinished, ?_⟩
  intro here
  have modules := recovering.modules
  rw [here] at modules
  exact modules

theorem run_recoverModules_targetDefined (empty : Tree) (recovering : Recovering plan h)
    (here : h.metadata.phase = .targetDefined) :
    ∃ l : Layout File, ∀ fuel, run (device plan empty) (recoverModules plan fuel h.metadata) h =
      run (device plan empty) (do
        let staged ← stageSource plan h.metadata h.modules
        publishSource plan fuel staged) { h with active := false, debuginfo := l } := by
  have domain := recovering.domain
  rw [here] at domain
  have stopped : run (device plan empty) (stopForRecovery h.metadata) h =
      (.ok (), { h with active := false }) :=
    run_stopForRecovery (fun _ => domain) (fun _ => domain)
  obtain ⟨l, back⟩ := run_withDebuginfo (h := { h with active := false }) empty recovering.debuginfo
  refine ⟨l, ?_⟩
  intro fuel
  simp [recoverModules, here, run_bind, stopped, back]

omit [DecidableEq File] in
theorem run_stageSource_staged {source : Tree} (present : plan.source = some source)
    (staged : h.modules = ⟨some plan.target, some source, none⟩) :
    run (device plan empty) (stageSource plan h.metadata h.modules) h =
      (.ok ⟨.publication .moveReady, h.metadata.inactiveModules⟩,
        { h with metadata := ⟨.publication .moveReady, h.metadata.inactiveModules⟩ }) := by
  have other : h.modules ≠ ⟨some plan.target, none, none⟩ := by
    rw [staged]
    exact nofun
  simp only [stageSource, present]
  rw [if_neg other, if_neg (by rw [not_not, staged]), stageSource.publish, run_bind,
    run_observeLayout, andThen_ok, if_neg (by rw [not_not, staged])]
  exact run_syncPhase rfl .moveReady

omit [DecidableEq File] in
theorem run_stageSource_stuck {source : Tree} (present : plan.source = some source)
    (unstaged : h.modules.staging ≠ none) (broken : h.modules.staging ≠ some source) :
    run (device plan empty) (stageSource plan h.metadata h.modules) h =
      (.error (.valueError "external-boot module recovery staging conflicts with metadata"), h) := by
  have clear : h.modules ≠ ⟨some plan.target, none, none⟩ := by
    intro same
    exact unstaged (by rw [same])
  have whole : h.modules ≠ ⟨some plan.target, some source, none⟩ := by
    intro same
    exact broken (by rw [same])
  simp only [stageSource, present]
  rw [if_neg clear, if_pos whole]
  rfl

theorem restores_of_targetDefined (recovering : Recovering plan h)
    (here : h.metadata.phase = .targetDefined)
    (unbroken : h.modules.staging = none ∨ h.modules.staging = plan.source) :
    Restores plan empty (fun fuel => recoverModules plan fuel h.metadata) h := by
  have modules := recovering.modules
  have domain := recovering.domain
  rw [here] at modules domain
  by_cases bare : h.modules.staging = none
  · have left : Left plan h := by
      refine ⟨?_, ?_, recovering.debuginfo⟩
      · rw [here]
        exact Layout.ext modules.1 bare modules.2.1
      · rw [here]
        exact domain
    exact restores_recoverModules_of_live left (.inr here)
  · have held : h.modules.staging = plan.source := unbroken.resolve_left bare
    cases present : plan.source with
    | none => exact absurd (held.trans present) bare
    | some source =>
      have staged : h.modules = ⟨some plan.target, some source, none⟩ :=
        Layout.ext modules.1 (held.trans present) modules.2.1
      obtain ⟨l, ran⟩ := run_recoverModules_targetDefined empty recovering here
      let u : Host Tree File := { h with active := false, debuginfo := l }
      let v : Host Tree File := { u with
        metadata := ⟨.publication .moveReady, u.metadata.inactiveModules⟩ }
      have begun : run (device plan empty) (stageSource plan u.metadata u.modules) u =
          (.ok v.metadata, v) := run_stageSource_staged (h := u) present staged
      refine Restores.of_run (fun fuel => publishSource plan fuel v.metadata) v ?_ ?_
      · intro fuel
        rw [ran, run_bind, begun]
        rfl
      · refine restores_publishSource rfl ?_ ?_
        · intro absent
          exact absurd (present.symm.trans absent) nofun
        · intro tree same
          obtain rfl := Option.some.inj (present.symm.trans same)
          exact finishes_moveReady rfl rfl (.inl staged)

theorem restores_of_publication {phase : PublicationPhase} (recovering : Recovering plan h)
    (here : h.metadata.phase = .publication phase)
    (unbroken : phase = .newLive ∨ phase = .absenceComplete →
      h.modules.old = none ∨ h.modules.old = some plan.target) :
    Restores plan empty (fun fuel => recoverModules plan fuel h.metadata) h := by
  have modules := recovering.modules
  have inactive := recovering.domain
  rw [here] at modules inactive
  have inactive : h.active = false := inactive
  obtain ⟨l, ran⟩ := run_recoverModules_publication empty inactive recovering.debuginfo here
  refine Restores.of_run (fun fuel => publishSource plan fuel h.metadata) _ ran ?_
  refine restores_publishSource (h := { h with debuginfo := l }) inactive ?_ ?_
  · intro absent
    rw [Withdrawn, absent] at modules
    cases phase with
    | moveReady => exact vanishes_moveReady inactive here modules
    | absenceLive => exact vanishes_absenceLive inactive here modules
    | absenceComplete =>
      refine vanishes_absenceComplete inactive here ?_
      rcases unbroken (.inr rfl) with gone | whole
      · exact .inl (Layout.ext modules.1 modules.2 gone)
      · exact .inr (Layout.ext modules.1 modules.2 whole)
    | absenceCleaned => exact vanishes_absenceCleaned here modules
    | oldAside | rollbackReady | rollbackComplete | newLive | publicationComplete =>
      exact absurd modules id
  · intro source present
    rw [Withdrawn, present] at modules
    cases phase with
    | moveReady => exact finishes_moveReady inactive here modules
    | oldAside => exact finishes_oldAside inactive here modules
    | rollbackReady => exact finishes_rollbackReady inactive here modules
    | rollbackComplete => exact finishes_rollbackComplete inactive here modules
    | newLive =>
      refine finishes_newLive inactive here ?_
      rcases unbroken (.inl rfl) with gone | whole
      · exact .inl (Layout.ext modules.1 modules.2 gone)
      · exact .inr (Layout.ext modules.1 modules.2 whole)
    | publicationComplete => exact finishes_publicationComplete here modules
    | absenceLive | absenceComplete | absenceCleaned => exact absurd modules id

theorem restores_of_moduleRestored (recovering : Recovering plan h)
    (here : h.metadata.phase = .moduleRestored) :
    Restores plan empty (fun fuel => recoverModules plan fuel h.metadata) h := by
  have modules := recovering.modules
  have inactive := recovering.domain
  rw [here] at modules inactive
  have inactive : h.active = false := inactive
  have stopped : run (device plan empty) (stopForRecovery h.metadata) h = (.ok (), h) := by
    rw [run_stopForRecovery, ← inactive]
    · intro active
      exact absurd (inactive.symm.trans active) nofun
    · intro other
      exact absurd (here.symm.trans other) nofun
  obtain ⟨l, back⟩ := run_withDebuginfo empty recovering.debuginfo
  have settled : h.modules = ⟨plan.source, none, none⟩ := modules
  refine ⟨0, ?_⟩
  intro fuel _
  refine ⟨{ h with debuginfo := l }, ⟨settled, here, inactive⟩, ?_⟩
  simp [recoverModules, here, run_bind, stopped, back, settled]

omit [DecidableEq File] in
theorem completes_recoverPower {fuel : Nat} (many : 2 ≤ fuel) (restoresPower : Bool)
    (recovering : Recovering plan h) (here : h.metadata.phase = .sourceRestored) :
    Completes plan (run (device plan empty) (recoverPower plan fuel restoresPower) h) := by
  have modules := recovering.modules
  have domain := recovering.domain
  rw [here] at modules domain
  rw [recoverPower, run_bind, run_reopen, andThen_ok, if_pos here]
  cases restoresPower with
  | false =>
    rw [if_neg Bool.false_ne_true, run_bind, run_recordPhase rfl]
    exact ⟨rfl, modules⟩
  | true =>
    rw [if_pos rfl]
    cases active : h.active with
    | false =>
      rw [run_restorePower many domain.1 active here]
      exact ⟨rfl, modules⟩
    | true =>
      -- an earlier call started the domain and died before it said so
      obtain ⟨fuel, rfl⟩ : ∃ n, fuel = n + 1 := ⟨fuel - 1, by omega⟩
      have state : (h.definition, h.active) = (.source, true) := by rw [domain.1, active]
      rw [restorePower, if_pos here, restorePowerLoop, run_bind, run_hostState, andThen_ok, state,
        domain.2 active]
      dsimp only
      rw [run_bind, run_requireReadiness, andThen_ok, run_bind, run_hostState, andThen_ok, state,
        if_neg (by simp), run_bind, run_recordPhase rfl]
      exact ⟨rfl, modules⟩

theorem run_recover_sourceRestored {fuel : Nat} (restoresPower : Bool)
    (here : h.metadata.phase = .sourceRestored) :
    run (device plan empty) (recover plan fuel restoresPower) h =
      run (device plan empty) (recoverPower plan fuel restoresPower) h := by
  rw [recover, run_bind, run_reopen, andThen_ok, if_neg (by rw [here]; simp), if_neg (by simp [here])]

theorem run_recover_recovered {fuel : Nat} (restoresPower : Bool)
    (here : h.metadata.phase = .recovered) :
    run (device plan empty) (recover plan fuel restoresPower) h = (.ok (), h) := by
  rw [recover, run_bind, run_reopen, andThen_ok, if_pos (.inl here), run_pure]

theorem completes_of_unbroken (restoresPower : Bool) (recovering : Recovering plan h)
    (unbroken : Unbroken plan h) : ∃ enough, ∀ fuel ≥ enough,
      Completes plan (run (device plan empty) (recover plan fuel restoresPower) h) := by
  have modules := recovering.modules
  rw [Unbroken] at unbroken
  -- what is left to do is to restore the modules, unless they are
  have later (open' : h.metadata.phase ≠ .sourceRestored)
      (unfinished : h.metadata.phase ≠ .recovered)
      (restores : Restores plan empty (fun fuel => recoverModules plan fuel h.metadata) h) :
      ∃ enough, ∀ fuel ≥ enough,
        Completes plan (run (device plan empty) (recover plan fuel restoresPower) h) := by
    obtain ⟨enough, recovers⟩ := recovers_of_restores restoresPower
      (recovering.unrestored open' unfinished) restores
    exact ⟨enough, fun fuel many => (recovers fuel many).completes⟩
  cases here : h.metadata.phase with
  | targetDefined =>
    rw [here] at unbroken
    exact later (by rw [here]; nofun) (by rw [here]; nofun)
      (restores_of_targetDefined recovering here unbroken)
  | publication phase =>
    refine later (by rw [here]; nofun) (by rw [here]; nofun)
      (restores_of_publication recovering here ?_)
    rw [here] at unbroken
    rintro (rfl | rfl) <;> exact unbroken
  | moduleRestored =>
    exact later (by rw [here]; nofun) (by rw [here]; nofun)
      (restores_of_moduleRestored recovering here)
  | sourceRestored =>
    refine ⟨2, ?_⟩
    intro fuel many
    rw [run_recover_sourceRestored restoresPower here]
    exact completes_recoverPower many restoresPower recovering here
  | recovered =>
    refine ⟨0, ?_⟩
    intro fuel _
    rw [here] at modules
    rw [run_recover_recovered restoresPower here]
    exact ⟨rfl, modules⟩
  | preStopIntent | cleaned =>
    rw [here] at modules
    exact absurd modules id

theorem run_recoverModules_broken (empty : Tree) (recovering : Recovering plan h)
    (broken : ¬ Unbroken plan h) (fuel : Nat) :
    ∃ e t, run (device plan empty) (recoverModules plan fuel h.metadata) h = (.error e, t) := by
  have modules := recovering.modules
  have domain := recovering.domain
  rw [Unbroken] at broken
  -- the publication meets no row in its phase
  have stuck {phase : PublicationPhase} (here : h.metadata.phase = .publication phase)
      (inactive : h.active = false)
      (stuck : ∀ l, Stuck plan empty (finishSource plan) { h with debuginfo := l }) :
      ∃ e t, run (device plan empty) (recoverModules plan fuel h.metadata) h = (.error e, t) := by
    obtain ⟨l, ran⟩ := run_recoverModules_publication empty inactive recovering.debuginfo here
    obtain ⟨e, failed⟩ := run_publishSource_stuck (stuck l) fuel
    exact ⟨e, _, (ran fuel).trans failed⟩
  cases here : h.metadata.phase with
  | targetDefined =>
    rw [here] at broken modules
    rw [not_or] at broken
    cases present : plan.source with
    | none => exact absurd (modules.2.2 present) broken.1
    | some source =>
      rw [present] at broken
      obtain ⟨l, ran⟩ := run_recoverModules_targetDefined empty recovering here
      let u : Host Tree File := { h with active := false, debuginfo := l }
      have failed : run (device plan empty) (stageSource plan u.metadata u.modules) u =
          (.error (.valueError "external-boot module recovery staging conflicts with metadata"), u) :=
        run_stageSource_stuck (h := u) present broken.1 broken.2
      refine ⟨.valueError "external-boot module recovery staging conflicts with metadata", u, ?_⟩
      rw [ran, run_bind, failed]
      rfl
  | publication phase =>
    rw [here] at broken modules domain
    cases phase with
    | newLive =>
      rw [not_or] at broken
      refine stuck here domain ?_
      intro l
      cases present : plan.source with
      | none =>
        rw [Withdrawn, present] at modules
        exact absurd modules id
      | some source =>
        have conflict : Conflicts (presentRow h.metadata .newLive h.modules (some plan.target) source :
            Program Tree File _) := by
          refine ⟨"external-boot module publication conflict", ?_⟩
          rw [presentRow, if_neg, if_neg]
          · intro same
            exact broken.2 (by rw [same])
          · intro same
            exact broken.1 (by rw [same])
        intro fuel
        simp only [finishSource, present]
        exact stuck_of_present_conflict (h := { h with debuginfo := l }) domain here
          (fun complete => by cases complete) conflict fuel
    | absenceComplete =>
      rw [not_or] at broken
      refine stuck here domain ?_
      intro l
      cases present : plan.source with
      | some source =>
        rw [Withdrawn, present] at modules
        exact absurd modules id
      | none =>
        have conflict : Conflicts (absenceRow h.metadata .absenceComplete h.modules plan.target :
            Program Tree File _) := by
          refine ⟨"external-boot module absence conflict", ?_⟩
          rw [absenceRow, if_neg, if_neg]
          · intro same
            exact broken.1 (by rw [same])
          · intro same
            exact broken.2 (by rw [same])
        intro fuel
        simp only [finishSource, present]
        exact stuck_of_absence_conflict (h := { h with debuginfo := l }) domain here
          (fun complete => by cases complete) conflict fuel
    | moveReady | oldAside | rollbackReady | rollbackComplete | publicationComplete | absenceLive
    | absenceCleaned => exact absurd trivial broken
  | preStopIntent | moduleRestored | sourceRestored | recovered | cleaned =>
    rw [here] at broken
    exact absurd trivial broken

theorem not_completes_of_broken (restoresPower : Bool) (recovering : Recovering plan h)
    (broken : ¬ Unbroken plan h) (fuel : Nat) :
    ¬ Completes plan (run (device plan empty) (recover plan fuel restoresPower) h) := by
  intro completes
  obtain ⟨e, t, failed⟩ := run_recoverModules_broken empty recovering broken fuel
  have unrestored : Unrestored h.metadata.phase := by
    refine recovering.unrestored ?_ ?_
    · intro here
      rw [Unbroken, here] at broken
      exact broken trivial
    · intro here
      rw [Unbroken, here] at broken
      exact broken trivial
  have returns := completes.returns
  rw [run_recover restoresPower unrestored, failed, andThen_error] at returns
  cases returns

/-- After an activation that reached `target-defined` and any number of recoveries, each interrupted
anywhere, one more recovery restores the source state exactly if no tree was left in part where it is
compared whole. -/
theorem retried_recovery_completes_iff (plan : Plan Tree File) (empty : Tree)
    (attempts : List (Attempt Tree File)) (retries : List (Retry Tree File)) (restoresPower : Bool)
    (defined : (interrupted plan empty attempts).metadata.phase = .targetDefined) :
    (∃ enough, ∀ fuel ≥ enough, Completes plan
      (run (device plan empty) (recover plan fuel restoresPower)
        (retried plan empty (interrupted plan empty attempts) retries))) ↔
      Unbroken plan (retried plan empty (interrupted plan empty attempts) retries) := by
  have recovering : Recovering plan (retried plan empty (interrupted plan empty attempts) retries) :=
    recovering_retried empty retries (recovering_of_left (left_interrupted plan empty attempts) defined)
  constructor
  · rintro ⟨enough, completes⟩
    by_contra broken
    exact not_completes_of_broken restoresPower recovering broken enough
      (completes enough (Nat.le_refl enough))
  · exact completes_of_unbroken restoresPower recovering

def activated : List (Attempt Nat Nat) := [(20, List.replicate 80 none)]

/-- Two recoveries that die, one once the captured tree is staged, one after the old tree is set
aside. -/
theorem recovery_completes_after_two_deaths :
    ∃ enough, ∀ fuel ≥ enough, Completes replacement
      (run (device replacement 0) (recover replacement fuel true)
        (retried replacement 0 (interrupted replacement 0 activated)
          [(20, true, List.replicate 6 none), (20, false, List.replicate 12 none)])) := by
  refine (retried_recovery_completes_iff replacement 0 activated
    [(20, true, List.replicate 6 none), (20, false, List.replicate 12 none)] true ?_).mpr ?_
  · decide +kernel
  · have aside : (retried replacement 0 (interrupted replacement 0 activated)
        [(20, true, List.replicate 6 none), (20, false, List.replicate 12 none)]).metadata.phase =
        .publication .moveReady := by decide +kernel
    rw [Unbroken, aside]
    trivial

def removal : Plan Nat Nat := ⟨none, 2, none, .running⟩

def diesAfter (steps : Nat) : List (Retry Nat Nat) :=
  [(20, true, List.replicate steps none ++ [some ⟨false, .partTree 7⟩])]

/-- The recovery dies part-way through writing the captured tree to the staging name, or part-way
through the removal of the old tree at `absence-complete`. -/
theorem broken_tree_never_recovers :
    let staged := retried replacement 0 (interrupted replacement 0 activated) (diesAfter 5)
    let removed := retried removal 0 (interrupted removal 0 activated) (diesAfter 19)
    (interrupted replacement 0 activated).metadata.phase = .targetDefined ∧
      staged.modules = ⟨some 2, some 7, none⟩ ∧ staged.metadata.phase = .targetDefined ∧
      (¬ ∃ enough, ∀ fuel ≥ enough, Completes replacement
        (run (device replacement 0) (recover replacement fuel true) staged)) ∧
    (interrupted removal 0 activated).metadata.phase = .targetDefined ∧
      removed.modules = ⟨none, none, some 7⟩ ∧
      removed.metadata.phase = .publication .absenceComplete ∧
      ¬ ∃ enough, ∀ fuel ≥ enough, Completes removal
        (run (device removal 0) (recover removal fuel true) removed) := by
  have never {plan : Plan Nat Nat} {retries : List (Retry Nat Nat)}
      (defined : (interrupted plan 0 activated).metadata.phase = .targetDefined)
      (broken : ¬ Unbroken plan (retried plan 0 (interrupted plan 0 activated) retries)) :
      ¬ ∃ enough, ∀ fuel ≥ enough, Completes plan (run (device plan 0) (recover plan fuel true)
        (retried plan 0 (interrupted plan 0 activated) retries)) := by
    rintro ⟨enough, completes⟩
    have recovering := recovering_retried 0 retries
      (recovering_of_left (left_interrupted plan 0 activated) defined)
    exact not_completes_of_broken true recovering broken enough
      (completes enough (Nat.le_refl enough))
  have defined : (interrupted replacement 0 activated).metadata.phase = .targetDefined := by
    decide +kernel
  have defined' : (interrupted removal 0 activated).metadata.phase = .targetDefined := by
    decide +kernel
  have staging : (retried replacement 0 (interrupted replacement 0 activated)
      (diesAfter 5)).metadata.phase = .targetDefined := by decide +kernel
  have removing : (retried removal 0 (interrupted removal 0 activated)
      (diesAfter 19)).metadata.phase = .publication .absenceComplete := by decide +kernel
  refine ⟨defined, by decide +kernel, staging, never defined ?_, defined', by decide +kernel,
    removing, never defined' ?_⟩
  · rw [Unbroken, staging]
    decide +kernel
  · rw [Unbroken, removing]
    decide +kernel

end Retrying

end Kdive.ExternalBoot
