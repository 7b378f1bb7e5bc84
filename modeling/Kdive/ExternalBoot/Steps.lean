import Kdive.ExternalBoot.Lifecycle

/-!
What the steps and the two publications leave when they are interrupted anywhere, for whatever is
kept: the rules that activation and recovery share. A publication keeps what allows its layouts in
each of its phases.
-/
namespace Kdive.ExternalBoot
open Calls Interrupts

variable {Tree File : Type}

section Steps

variable [DecidableEq Tree] {plan : Plan Tree File} {empty : Tree} {h : Host Tree File} {α : Type}
  {Inv : Host Tree File → Prop}

omit [DecidableEq Tree] in
theorem raises_false (step : Step Tree) :
    (raises step false : Option (Answer Tree File step)) = none := by
  cases step <;> rfl

theorem keeps_perform (step : Step Tree) {Q : Answer Tree File step → Host Tree File → Prop}
    (holds : Inv h) (stays : ∀ progress, Inv (remains plan empty h step progress))
    (result : ∀ a, (serve plan empty h step).1 = some a → Q a (serve plan empty h step).2)
    (caught : ∀ a progress, raises step true = some a → Q a (remains plan empty h step progress)) :
    Keeps (device plan empty) Inv Q (perform step) h := by
  refine keeps_demand holds ?_ ?_
  · intro fate
    cases fate with
    | none => exact stays .whole
    | some fate => exact stays fate.progress
  · intro fate a answered
    cases fate with
    | none => exact result a answered
    | some fate =>
      obtain ⟨osError, progress⟩ := fate
      cases osError with
      | false => exact absurd ((raises_false step).symm.trans answered) nofun
      | true => exact caught a progress answered

theorem keeps_read (step : Step Tree) {Q : Answer Tree File step → Host Tree File → Prop}
    (holds : Inv h) (reads : ∀ progress, remains plan empty h step progress = h)
    (silent : (raises step true : Option (Answer Tree File step)) = none)
    (result : ∀ a, (serve plan empty h step).1 = some a → Q a h) :
    Keeps (device plan empty) Inv Q (perform step) h := by
  refine keeps_perform step holds ?_ ?_ ?_
  · intro progress
    rw [reads]
    exact holds
  · intro a answered
    have same : (serve plan empty h step).2 = h := reads .whole
    rw [same]
    exact result a answered
  · intro a progress raised
    exact absurd (silent.symm.trans raised) nofun

theorem keeps_hostState (holds : Inv h) :
    Keeps (device plan empty) Inv (fun state t => h = t ∧ state = (h.definition, h.active))
      hostState h := by
  refine keeps_read .inspect holds (fun progress => by cases progress <;> rfl) rfl ?_
  intro state answered
  exact ⟨rfl, (Option.some.inj answered).symm⟩

theorem keeps_requireInactive (holds : Inv h) :
    Keeps (device plan empty) Inv (fun _ t => h = t ∧ h.active = false) requireInactive h := by
  refine keeps_read .requireInactive holds (fun progress => by cases progress <;> rfl) rfl ?_
  intro _ answered
  refine ⟨rfl, ?_⟩
  rw [serve] at answered
  split at answered
  · cases answered
  · rename_i inactive
    exact Bool.eq_false_iff.mpr inactive

theorem keeps_observeLayout (holds : Inv h) :
    Keeps (device plan empty) Inv (fun layout t => h = t ∧ layout = h.modules) observeLayout h := by
  refine keeps_read .observeLayout holds (fun progress => by cases progress <;> rfl) rfl ?_
  intro layout answered
  exact ⟨rfl, (Option.some.inj answered).symm⟩

theorem keeps_observeModules (holds : Inv h) :
    Keeps (device plan empty) Inv (fun _ t => h = t) observeModules h :=
  keeps_read .observeModules holds (fun progress => by cases progress <;> rfl) rfl (fun _ _ => rfl)

theorem keeps_observeDebuginfo (holds : Inv h) :
    Keeps (device plan empty) Inv (fun layout t => h = t ∧ layout = h.debuginfo)
      observeDebuginfo h := by
  refine keeps_read .observeDebuginfo holds (fun progress => by cases progress <;> rfl) rfl ?_
  intro layout answered
  exact ⟨rfl, (Option.some.inj answered).symm⟩

theorem keeps_guestSync (holds : Inv h) :
    Keeps (device plan empty) Inv (fun _ t => h = t) guestSync h :=
  keeps_read .sync holds (fun progress => by cases progress <;> rfl) rfl (fun _ _ => rfl)

theorem keeps_requireReadiness (holds : Inv h) :
    Keeps (device plan empty) Inv (fun _ t => h = t) requireReadiness h :=
  keeps_read .readiness holds (fun progress => by cases progress <;> rfl) rfl (fun _ _ => rfl)

theorem keeps_reopen (holds : Inv h) :
    Keeps (device plan empty) Inv (fun metadata t => h = t ∧ metadata = h.metadata) reopen h := by
  refine keeps_read .reopen holds (fun progress => by cases progress <;> rfl) rfl ?_
  intro metadata answered
  exact ⟨rfl, (Option.some.inj answered).symm⟩

theorem keeps_recordPhase {metadata : Metadata Tree} {phase : RecoveryPhase}
    {inactiveModules : Option (Option Tree)} (holds : Inv h)
    (recorded : ∀ m : Metadata Tree, m.phase = phase → Inv { h with metadata := m }) :
    Keeps (device plan empty) Inv (fun m t => m.phase = phase ∧ t = { h with metadata := m })
      (perform (.recordPhase metadata phase inactiveModules)) h := by
  have served : ∀ a, (serve plan empty h (.recordPhase metadata phase inactiveModules)).1 = some a →
      a.phase = phase ∧ (serve plan empty h (.recordPhase metadata phase inactiveModules)).2 =
        { h with metadata := a } := by
    intro a answered
    rw [serve_recordPhase] at answered ⊢
    split at answered
    · rename_i same
      obtain rfl := Option.some.inj answered
      rw [if_pos same]
      exact ⟨rfl, rfl⟩
    · cases answered
  refine keeps_perform (.recordPhase metadata phase inactiveModules) holds ?_ served
    (fun _ _ raised => absurd raised nofun)
  intro progress
  cases progress with
  | whole =>
    rw [remains, serve_recordPhase]
    split
    · exact recorded _ rfl
    · exact holds
  | nothing | partTree | partFile => exact holds

theorem keeps_move {source target : Name} (holds : Inv h)
    (moved : Inv { h with modules := h.modules.rename source target }) :
    Keeps (device plan empty) Inv
      (fun _ t => t = h ∨ t = { h with modules := h.modules.rename source target })
      (move source target) h := by
  have outcome : ∀ progress, remains plan empty h (.move source target) progress = h ∨
      remains plan empty h (.move source target) progress =
        { h with modules := h.modules.rename source target } := by
    intro progress
    cases progress with
    | whole =>
      rw [remains, serve_move]
      split
      · exact .inr rfl
      · exact .inl rfl
    | nothing | partTree | partFile => exact .inl rfl
  refine keeps_perform (.move source target) holds ?_ ?_ ?_
  · intro progress
    rcases outcome progress with same | same
    · rw [same]
      exact holds
    · rw [same]
      exact moved
  · intro _ _
    exact outcome .whole
  · intro _ progress _
    exact outcome progress

theorem keeps_again {reply : Reply} (holds : Inv h) :
    Keeps (device plan empty) Inv (fun _ t => h = t) (again reply) h := by
  cases reply with
  | returned => exact keeps_pure holds rfl
  | osError => exact keeps_throw holds

theorem keeps_removeOld (holds : Inv h)
    (removed : ∀ held, Inv { h with modules := h.modules.set .old held }) :
    Keeps (device plan empty) Inv
      (fun _ t => ∃ held, t = { h with modules := h.modules.set .old held }) removeOld h := by
  have outcome : ∀ progress, ∃ held, remains plan empty h .removeOld progress =
      { h with modules := h.modules.set .old held } := by
    intro progress
    cases progress with
    | whole => exact ⟨none, rfl⟩
    | partTree tree => exact ⟨some tree, rfl⟩
    | nothing | partFile => exact ⟨h.modules.old, rfl⟩
  refine keeps_perform .removeOld holds ?_ (fun _ _ => outcome .whole)
    (fun _ progress _ => outcome progress)
  intro progress
  obtain ⟨held, same⟩ := outcome progress
  rw [same]
  exact removed held

theorem keeps_changeDomain (step : Step Tree) {definition : Definition} {active : Bool}
    (holds : Inv h)
    (outcome : ∀ progress, remains plan empty h step progress = h ∨
      remains plan empty h step progress = { h with definition := definition, active := active })
    (served : (serve plan empty h step).2 = { h with definition := definition, active := active })
    (changed : Inv { h with definition := definition, active := active })
    (silent : (raises step true : Option (Answer Tree File step)) = none) :
    Keeps (device plan empty) Inv
      (fun _ t => t = { h with definition := definition, active := active }) (perform step) h := by
  refine keeps_perform step holds ?_ (fun _ _ => served)
    (fun _ _ raised => absurd (silent.symm.trans raised) nofun)
  intro progress
  rcases outcome progress with same | same
  · rw [same]
    exact holds
  · rw [same]
    exact changed

theorem keeps_defineXml {definition : Definition} (holds : Inv h)
    (changed : Inv { h with definition := definition }) :
    Keeps (device plan empty) Inv (fun _ t => t = { h with definition := definition })
      (defineXml definition) h := by
  refine @keeps_changeDomain _ _ _ _ _ h _ (.define definition) definition h.active holds ?_ rfl
    changed rfl
  intro progress
  cases progress with
  | whole => exact .inr rfl
  | nothing | partTree | partFile => exact .inl rfl

theorem keeps_start (holds : Inv h) (changed : Inv { h with active := true }) :
    Keeps (device plan empty) Inv (fun _ t => t = { h with active := true }) start h := by
  refine @keeps_changeDomain _ _ _ _ _ h _ .start h.definition true holds ?_ rfl changed rfl
  intro progress
  cases progress with
  | whole => exact .inr rfl
  | nothing | partTree | partFile => exact .inl rfl

end Steps

section Publications

variable [DecidableEq Tree] {plan : Plan Tree File} {empty : Tree} {h : Host Tree File}
  {Inv : Host Tree File → Prop} {metadata : Metadata Tree} {phase : PublicationPhase}

def Publishing (metadata : Metadata Tree) (t : Host Tree File) : Prop :=
  t.metadata = metadata ∧ ∃ phase, metadata.phase = .publication phase

theorem keeps_publishPhase (holds : Inv h)
    (recorded : ∀ m : Metadata Tree, m.phase = .publication phase → Inv { h with metadata := m }) :
    Keeps (device plan empty) Inv Publishing (publishPhase metadata phase) h := by
  refine Keeps.imp (keeps_recordPhase holds recorded) ?_
  rintro m t ⟨same, rfl⟩
  exact ⟨rfl, phase, same⟩

theorem keeps_syncPhase (holds : Inv h)
    (recorded : ∀ m : Metadata Tree, m.phase = .publication phase → Inv { h with metadata := m }) :
    Keeps (device plan empty) Inv Publishing (syncPhase metadata phase) h := by
  refine (keeps_guestSync holds).bind ?_
  rintro _ t holds rfl
  exact keeps_publishPhase holds recorded

/-- What is kept allows exactly these layouts in the phases of a publication. -/
structure Admits (Inv : Host Tree File → Prop) (layouts : Layout Tree → PublicationPhase → Prop) :
    Prop where
  layout : ∀ {h : Host Tree File} {phase : PublicationPhase}, Inv h →
    h.metadata.phase = .publication phase → layouts h.modules phase
  admits : ∀ {h : Host Tree File} {before after : PublicationPhase} (l : Layout Tree)
    (m : Metadata Tree), Inv h → h.metadata.phase = .publication before →
    m.phase = .publication after → layouts l after → Inv { h with modules := l, metadata := m }

variable {layouts : Layout Tree → PublicationPhase → Prop} {before after : Layout Tree}
  {afterPhase : PublicationPhase}

omit [DecidableEq Tree] in
theorem Admits.moved (admits : Admits Inv layouts) (holds : Inv h)
    (here : h.metadata.phase = .publication phase) {l : Layout Tree} (allowed : layouts l phase) :
    Inv { h with modules := l } :=
  admits.admits l h.metadata holds here here allowed

omit [DecidableEq Tree] in
theorem Admits.recorded (admits : Admits Inv layouts) (holds : Inv h)
    (here : h.metadata.phase = .publication phase) (allowed : layouts h.modules afterPhase) :
    ∀ m : Metadata Tree, m.phase = .publication afterPhase → Inv { h with metadata := m } :=
  fun m same => admits.admits h.modules m holds here same allowed

theorem keeps_moveWithReclassification {source target : Name} (admits : Admits Inv layouts)
    (holds : Inv h) (current : Publishing metadata h) (here : h.modules = before)
    (there : before.rename source target = after)
    (moved : ∀ phase, h.metadata.phase = .publication phase → layouts after phase)
    (recorded : layouts after afterPhase) :
    Keeps (device plan empty) Inv Publishing
      (moveWithReclassification metadata source target before after afterPhase) h := by
  obtain ⟨phase, publishing⟩ := current.2
  have phased : h.metadata.phase = .publication phase := by rw [current.1, publishing]
  have arrives {t : Host Tree File} (holds : Inv t) (same : t.metadata = h.metadata)
      (unmoved : t.modules = before) :
      Inv { t with modules := t.modules.rename source target } := by
    rw [unmoved, there]
    exact admits.moved holds (same ▸ phased) (moved phase phased)
  refine (keeps_move holds (arrives holds rfl here)).bind ?_
  intro reply t holds' outcome
  have same : t.metadata = h.metadata := by rcases outcome with rfl | rfl <;> rfl
  have current' : Publishing metadata t := ⟨same.trans current.1, current.2⟩
  cases reply with
  | returned => exact keeps_pure holds' current'
  | osError =>
    refine (keeps_requireInactive holds').bind ?_
    rintro _ _ _ ⟨rfl, -⟩
    refine (keeps_observeLayout holds').bind ?_
    rintro _ _ _ ⟨rfl, rfl⟩
    split
    · -- the move did nothing, and is tried again
      rename_i unmoved
      refine (keeps_move holds' (arrives holds' same unmoved)).bind ?_
      intro reply u holds'' again
      have current'' : Publishing metadata u := by
        rcases again with rfl | rfl <;> exact current'
      refine (keeps_again holds'').bind ?_
      rintro _ _ _ rfl
      exact keeps_pure holds'' current''
    · split
      · rename_i arrived
        exact keeps_syncPhase holds'
          (admits.recorded holds' (same ▸ phased) (by rw [arrived]; exact recorded))
      · exact keeps_throw holds'

theorem keeps_removeWithReclassification (admits : Admits Inv layouts) (holds : Inv h)
    (current : Publishing metadata h)
    (removed : ∀ phase, h.metadata.phase = .publication phase → ∀ l : Layout Tree,
      l.live = h.modules.live → l.staging = h.modules.staging → layouts l phase)
    (recorded : layouts after afterPhase) :
    Keeps (device plan empty) Inv Publishing
      (removeWithReclassification metadata before after afterPhase) h := by
  obtain ⟨phase, publishing⟩ := current.2
  have phased : h.metadata.phase = .publication phase := by rw [current.1, publishing]
  refine (keeps_removeOld holds
    (fun held => admits.moved holds phased (removed phase phased _ rfl rfl))).bind ?_
  rintro reply _ holds' ⟨held, rfl⟩
  cases reply with
  | returned => exact keeps_pure holds' current
  | osError =>
    refine (keeps_requireInactive holds').bind ?_
    rintro _ _ _ ⟨rfl, -⟩
    refine (keeps_observeLayout holds').bind ?_
    rintro _ _ _ ⟨rfl, rfl⟩
    split
    · refine (keeps_removeOld holds'
        (fun held => admits.moved holds' phased (removed phase phased _ rfl rfl))).bind ?_
      rintro reply _ holds'' ⟨held, rfl⟩
      refine (keeps_again holds'').bind ?_
      rintro _ _ _ rfl
      exact keeps_pure holds'' current
    · split
      · rename_i gone
        exact keeps_syncPhase holds'
          (admits.recorded holds' phased (by rw [gone]; exact recorded))
      · exact keeps_throw holds'

def PresentLayout (prior : Option Tree) (desired : Tree) (l : Layout Tree) :
    PublicationPhase → Prop
  | .moveReady | .rollbackReady =>
    l = ⟨prior, some desired, none⟩ ∨ l = ⟨none, some desired, prior⟩
  | .oldAside => l = ⟨none, some desired, prior⟩ ∨ l = ⟨some desired, none, prior⟩
  | .rollbackComplete => l = ⟨prior, some desired, none⟩
  -- the old tree is being removed
  | .newLive => l.live = some desired ∧ l.staging = none
  | .publicationComplete => l = ⟨some desired, none, none⟩
  | .absenceLive | .absenceComplete | .absenceCleaned => False

section Present

variable {prior : Option Tree} {desired : Tree}

theorem keeps_moveStagingToLive (admits : Admits Inv (PresentLayout prior desired)) (holds : Inv h)
    (current : Publishing metadata h) (aside : metadata.phase = .publication .oldAside)
    (here : h.modules = ⟨none, some desired, prior⟩) :
    Keeps (device plan empty) Inv Publishing (moveStagingToLive metadata prior desired) h := by
  have phased : h.metadata.phase = .publication .oldAside := by rw [current.1, aside]
  have arrives {t : Host Tree File} (holds : Inv t) (same : t.metadata = h.metadata)
      (unmoved : t.modules = ⟨none, some desired, prior⟩) :
      Inv { t with modules := t.modules.rename .staging .live } := by
    have allowed : PresentLayout prior desired ⟨some desired, none, prior⟩ .oldAside := .inr rfl
    rw [unmoved]
    exact admits.moved holds (same ▸ phased) allowed
  refine (keeps_move holds (arrives holds rfl here)).bind ?_
  intro reply t holds' outcome
  have same : t.metadata = h.metadata := by rcases outcome with rfl | rfl <;> rfl
  have current' : Publishing metadata t := ⟨same.trans current.1, current.2⟩
  cases reply with
  | returned => exact keeps_pure holds' current'
  | osError =>
    refine (keeps_requireInactive holds').bind ?_
    rintro _ _ _ ⟨rfl, -⟩
    refine (keeps_observeLayout holds').bind ?_
    rintro _ _ _ ⟨rfl, rfl⟩
    split
    · rename_i unmoved
      split
      · refine (keeps_move holds' (arrives holds' same unmoved)).bind ?_
        intro reply u holds'' again
        have current'' : Publishing metadata u := by
          rcases again with rfl | rfl <;> exact current'
        refine (keeps_again holds'').bind ?_
        rintro _ _ _ rfl
        exact keeps_pure holds'' current''
      · exact keeps_publishPhase holds' (admits.recorded holds' (same ▸ phased) (.inr unmoved))
    · split
      · rename_i arrived
        refine keeps_syncPhase holds' (admits.recorded holds' (same ▸ phased) ?_)
        rw [arrived]
        exact ⟨rfl, rfl⟩
      · exact keeps_throw holds'

theorem keeps_presentRow (admits : Admits Inv (PresentLayout prior desired)) (holds : Inv h)
    (current : Publishing metadata h) (here : metadata.phase = .publication phase) :
    Keeps (device plan empty) Inv Publishing
      (presentRow metadata phase h.modules prior desired) h := by
  have recorded : h.metadata.phase = .publication phase := by rw [current.1, here]
  have layout := admits.layout holds recorded
  have only (other : PublicationPhase) (same : h.metadata.phase = .publication other) :
      phase = other := RecoveryPhase.publication.inj (recorded.symm.trans same)
  cases phase with
  | moveReady =>
    rw [presentRow]
    split
    · rename_i aside
      exact keeps_syncPhase holds (admits.recorded holds recorded (.inl aside))
    · split
      · rename_i ready
        refine keeps_moveWithReclassification admits holds current ready rfl ?_ (.inl rfl)
        intro other same
        obtain rfl := only other same
        exact .inr rfl
      · exact keeps_throw holds
  | oldAside =>
    rw [presentRow]
    split
    · rename_i aside
      exact keeps_moveStagingToLive admits holds current here aside
    · split
      · rename_i live
        refine keeps_syncPhase holds (admits.recorded holds recorded ?_)
        rw [live]
        exact ⟨rfl, rfl⟩
      · exact keeps_throw holds
  | rollbackReady =>
    rw [presentRow]
    split
    · rename_i back
      exact keeps_syncPhase holds (admits.recorded holds recorded back)
    · split
      · rename_i aside
        refine keeps_moveWithReclassification admits holds current aside rfl ?_ rfl
        intro other same
        obtain rfl := only other same
        exact .inl rfl
      · exact keeps_throw holds
  | rollbackComplete =>
    rw [presentRow]
    split
    · rename_i back
      exact keeps_publishPhase holds (admits.recorded holds recorded (.inl back))
    · exact keeps_throw holds
  | newLive =>
    rw [presentRow]
    split
    · rename_i removed
      exact keeps_syncPhase holds (admits.recorded holds recorded removed)
    · split
      · refine keeps_removeWithReclassification admits holds current ?_ rfl
        intro other same l live staging
        obtain rfl := only other same
        exact ⟨live.trans layout.1, staging.trans layout.2⟩
      · exact keeps_throw holds
  | publicationComplete =>
    rw [presentRow]
    split
    · exact keeps_pure holds current
    · exact keeps_throw holds
  | absenceLive | absenceComplete | absenceCleaned => exact absurd layout id

/-- The publication loop ends in `publication-complete`, or wherever it is interrupted. -/
theorem keeps_finishPresentPublication (admits : Admits Inv (PresentLayout prior desired))
    (fuel : Nat) (holds : Inv h) (current : Publishing metadata h) :
    Keeps (device plan empty) Inv
      (fun m t => t.metadata = m ∧ m.phase = .publication .publicationComplete)
      (finishPresentPublication prior desired fuel metadata) h := by
  induction fuel generalizing h metadata with
  | zero => exact keeps_throw holds
  | succ fuel ih =>
    obtain ⟨phase, here⟩ := current.2
    rw [finishPresentPublication, here]
    split
    · rename_i complete
      refine (keeps_observeLayout holds).bind ?_
      rintro _ _ _ ⟨rfl, rfl⟩
      split
      · exact keeps_pure holds ⟨current.1, here.trans complete⟩
      · exact keeps_throw holds
    · rename_i same
      obtain rfl := RecoveryPhase.publication.inj same
      refine (keeps_observeLayout holds).bind ?_
      rintro _ _ _ ⟨rfl, rfl⟩
      refine Keeps.bind ((keeps_requireInactive holds).bind ?_) (fun m t holds' => ih holds')
      rintro _ _ _ ⟨rfl, -⟩
      exact keeps_presentRow admits holds current here
    · rename_i other
      exact absurd rfl (other phase)

end Present

def AbsenceLayout (prior : Tree) (l : Layout Tree) : PublicationPhase → Prop
  | .moveReady => l = ⟨some prior, none, none⟩ ∨ l = ⟨none, none, some prior⟩
  | .absenceLive => l = ⟨none, none, some prior⟩
  -- the old tree is being removed
  | .absenceComplete => l.live = none ∧ l.staging = none
  | .absenceCleaned => l = ⟨none, none, none⟩
  | .oldAside | .rollbackReady | .rollbackComplete | .newLive | .publicationComplete => False

section Absence

variable {prior : Tree}

theorem keeps_absenceRow (admits : Admits Inv (AbsenceLayout prior)) (holds : Inv h)
    (current : Publishing metadata h) (here : metadata.phase = .publication phase) :
    Keeps (device plan empty) Inv Publishing (absenceRow metadata phase h.modules prior) h := by
  have recorded : h.metadata.phase = .publication phase := by rw [current.1, here]
  have layout := admits.layout holds recorded
  have only (other : PublicationPhase) (same : h.metadata.phase = .publication other) :
      phase = other := RecoveryPhase.publication.inj (recorded.symm.trans same)
  cases phase with
  | moveReady =>
    rw [absenceRow]
    split
    · rename_i live
      refine keeps_moveWithReclassification admits holds current live rfl ?_ rfl
      intro other same
      obtain rfl := only other same
      exact .inr rfl
    · split
      · rename_i aside
        exact keeps_syncPhase holds (admits.recorded holds recorded aside)
      · split
        · rename_i gone
          refine keeps_publishPhase holds (admits.recorded holds recorded ?_)
          rw [gone]
          exact ⟨rfl, rfl⟩
        · exact keeps_throw holds
  | absenceLive =>
    rw [absenceRow]
    split
    · rename_i aside
      refine keeps_publishPhase holds (admits.recorded holds recorded ?_)
      rw [aside]
      exact ⟨rfl, rfl⟩
    · exact keeps_throw holds
  | absenceComplete =>
    rw [absenceRow]
    split
    · refine keeps_removeWithReclassification admits holds current ?_ rfl
      intro other same l live staging
      obtain rfl := only other same
      exact ⟨live.trans layout.1, staging.trans layout.2⟩
    · split
      · rename_i gone
        exact keeps_syncPhase holds (admits.recorded holds recorded gone)
      · exact keeps_throw holds
  | absenceCleaned =>
    rw [absenceRow]
    split
    · exact keeps_pure holds current
    · exact keeps_throw holds
  | oldAside | rollbackReady | rollbackComplete | newLive | publicationComplete =>
    exact absurd layout id

theorem keeps_finishAbsencePublication (admits : Admits Inv (AbsenceLayout prior))
    (fuel : Nat) (holds : Inv h) (current : Publishing metadata h) :
    Keeps (device plan empty) Inv
      (fun m t => t.metadata = m ∧ m.phase = .publication .absenceCleaned)
      (finishAbsencePublication prior fuel metadata) h := by
  induction fuel generalizing h metadata with
  | zero => exact keeps_throw holds
  | succ fuel ih =>
    obtain ⟨phase, here⟩ := current.2
    rw [finishAbsencePublication, here]
    split
    · rename_i complete
      refine (keeps_observeLayout holds).bind ?_
      rintro _ _ _ ⟨rfl, rfl⟩
      split
      · exact keeps_pure holds ⟨current.1, here.trans complete⟩
      · exact keeps_throw holds
    · rename_i same
      obtain rfl := RecoveryPhase.publication.inj same
      refine (keeps_observeLayout holds).bind ?_
      rintro _ _ _ ⟨rfl, rfl⟩
      refine Keeps.bind ((keeps_requireInactive holds).bind ?_) (fun m t holds' => ih holds')
      rintro _ _ _ ⟨rfl, -⟩
      exact keeps_absenceRow admits holds current here
    · rename_i other
      exact absurd rfl (other phase)

end Absence

end Publications

section Debuginfo

variable [DecidableEq Tree] {plan : Plan Tree File} {empty : Tree} {h : Host Tree File}
  {Inv : Host Tree File → Prop} {prior : Option File} {target : File}

def Recoverable (prior : Option File) (target : File) (l : Layout File) : Prop :=
  (l.live = prior ∧ l.old = none) ∨ l = ⟨none, some target, prior⟩ ∨ l = ⟨some target, none, prior⟩

def Permits (Inv : Host Tree File → Prop) (prior : Option File) (target : File) : Prop :=
  ∀ {h : Host Tree File} (l : Layout File), Inv h → Recoverable prior target l →
    Inv { h with debuginfo := l }

/-- A step on the debuginfo names leaves a layout of `reach`, and says nothing else. -/
theorem keeps_debuginfo (step : Step Tree) {reach : Layout File → Prop} (holds : Inv h)
    (permits : Permits Inv prior target)
    (outcome : ∀ progress, ∃ l, reach l ∧
      remains plan empty h step progress = { h with debuginfo := l })
    (recoverable : ∀ l, reach l → Recoverable prior target l)
    (silent : (raises step true : Option (Answer Tree File step)) = none) :
    Keeps (device plan empty) Inv (fun _ t => ∃ l, reach l ∧ t = { h with debuginfo := l })
      (perform step) h := by
  refine keeps_perform step holds ?_ (fun _ _ => outcome .whole) ?_
  · intro progress
    obtain ⟨l, reached, same⟩ := outcome progress
    rw [same]
    exact permits l holds (recoverable l reached)
  · intro _ _ raised
    exact absurd (silent.symm.trans raised) nofun

theorem keeps_moveDebuginfo {source destination : Name} (holds : Inv h)
    (permits : Permits Inv prior target)
    (recoverable : Recoverable prior target (h.debuginfo.rename source destination)) :
    Keeps (device plan empty) Inv
      (fun _ t => t = { h with debuginfo := h.debuginfo.rename source destination })
      (moveDebuginfo source destination) h := by
  refine keeps_perform (.moveDebuginfo source destination) holds ?_ ?_
    (fun _ _ raised => absurd raised nofun)
  · intro progress
    cases progress with
    | whole =>
      rw [remains, serve_moveDebuginfo]
      split
      · exact permits _ holds recoverable
      · exact holds
    | nothing | partTree | partFile => exact holds
  · intro _ answered
    rw [serve_moveDebuginfo] at answered ⊢
    split at answered
    · rename_i found
      rw [if_pos found]
    · cases answered

theorem keeps_removeDebuginfo {name : Name} (holds : Inv h) (permits : Permits Inv prior target)
    (recoverable : Recoverable prior target (h.debuginfo.set name none)) :
    Keeps (device plan empty) Inv (fun _ t => t = { h with debuginfo := h.debuginfo.set name none })
      (removeDebuginfo name) h := by
  refine keeps_perform (.removeDebuginfo name) holds ?_ (fun _ _ => rfl)
    (fun _ _ raised => absurd raised nofun)
  intro progress
  cases progress with
  | whole => exact permits _ holds recoverable
  | nothing | partTree | partFile => exact holds

theorem keeps_dropDebuginfoStaging (holds : Inv h) (permits : Permits Inv prior target)
    (settled : h.debuginfo.live = prior ∧ h.debuginfo.old = none) :
    Keeps (device plan empty) Inv
      (fun _ t => t = { h with debuginfo := h.debuginfo.set .staging none })
      (dropDebuginfoStaging h.debuginfo) h := by
  rw [dropDebuginfoStaging]
  split
  · exact keeps_removeDebuginfo holds permits (.inl settled)
  · rename_i absent
    rw [ne_eq, not_not] at absent
    refine keeps_pure holds ?_
    have same : h.debuginfo.set .staging none = h.debuginfo := by rw [← absent]; rfl
    rw [same]

def OnlyDebuginfo (h : Host Tree File) (_ : Unit) (t : Host Tree File) : Prop :=
  ∃ l, t = { h with debuginfo := l }

theorem keeps_withDebuginfo {step : Option File → File → Program Tree File Unit} (holds : Inv h)
    (keeps : ∀ prior target, plan.debuginfo = some (prior, target) →
      Keeps (device plan empty) Inv (OnlyDebuginfo h) (step prior target) h) :
    Keeps (device plan empty) Inv (OnlyDebuginfo h) (withDebuginfo plan step) h := by
  rw [withDebuginfo]
  split
  · exact keeps_pure holds ⟨_, rfl⟩
  · rename_i prior target member
    exact keeps prior target member

end Debuginfo

end Kdive.ExternalBoot
