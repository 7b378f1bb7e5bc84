import Kdive.Lib.Interrupts

/-!
The host of one local external boot: the three names of the module tree and of the debuginfo file in
the guest, the domain, and the recovery metadata. A tree stands for its manifest and a file for its
identity, which is all the code compares.

`prepare` has stopped the domain, captured the live module tree and recorded `pre-stop-intent`.
-/
namespace Kdive.ExternalBoot

inductive PublicationPhase where
  | moveReady | oldAside | rollbackReady | rollbackComplete | newLive | publicationComplete
  | absenceLive | absenceComplete | absenceCleaned
  deriving DecidableEq

inductive RecoveryPhase where
  | preStopIntent
  | publication (phase : PublicationPhase)
  | targetDefined | moduleRestored | sourceRestored | recovered | cleaned
  deriving DecidableEq

inductive Power where
  | running | inactive
  deriving DecidableEq

inductive Definition where
  | source | target
  deriving DecidableEq

inductive StopMode where
  | cleanOnKvm | destroy
  deriving DecidableEq

inductive Name where
  | live | staging | old
  deriving DecidableEq

@[ext] structure Layout (α : Type) where
  live : Option α
  staging : Option α
  old : Option α
  deriving DecidableEq

namespace Layout

variable {α : Type}

def get (l : Layout α) : Name → Option α
  | .live => l.live
  | .staging => l.staging
  | .old => l.old

def set (l : Layout α) (name : Name) (held : Option α) : Layout α :=
  match name with
  | .live => { l with live := held }
  | .staging => { l with staging := held }
  | .old => { l with old := held }

def rename (l : Layout α) (source target : Name) : Layout α :=
  (l.set target (l.get source)).set source none

end Layout

/-- The part of the recovery metadata that changes. `inactiveModules` is the module tree observed
when it was last restored. -/
structure Metadata (Tree : Type) where
  phase : RecoveryPhase
  inactiveModules : Option (Option Tree)
  deriving DecidableEq

/-- The part of the recovery metadata that `prepare` fixed. The capture is an archive of the source
tree, or says that there was none. -/
structure Plan (Tree File : Type) where
  source : Option Tree
  target : Tree
  debuginfo : Option (Option File × File)
  priorPower : Power

structure Host (Tree File : Type) where
  modules : Layout Tree
  debuginfo : Layout File
  definition : Definition
  active : Bool
  metadata : Metadata Tree

/-- The steps on the guest, the domain and the metadata. A step that can only fail and leaves
nothing behind (opening the guest or a payload, the free-space check) is no different from dying
before the next one. -/
inductive Step (Tree : Type) where
  | inspect
  | requireInactive
  | observeLayout
  | observeModules
  | createStaging
  | install
  | restore
  | move (source target : Name)
  | removeOld
  | stagingExists
  | removeStaging
  | sync
  | observeDebuginfo
  | uploadDebuginfo
  | moveDebuginfo (source target : Name)
  | removeDebuginfo (name : Name)
  | define (definition : Definition)
  | start
  | stop (mode : StopMode)
  | readiness
  | reopen
  | recordPhase (expected : Metadata Tree) (phase : RecoveryPhase)
      (inactiveModules : Option (Option Tree))

/-- A move or a removal of the module publication may raise `OSError`, which its caller catches. -/
inductive Reply where
  | returned | osError
  deriving DecidableEq

def Answer (Tree File : Type) : Step Tree → Type
  | .inspect => Definition × Bool
  | .observeLayout => Layout Tree
  | .observeModules => Option Tree
  | .restore => Tree
  | .move _ _ => Reply
  | .removeOld => Reply
  | .stagingExists => Bool
  | .observeDebuginfo => Layout File
  | .reopen => Metadata Tree
  | .recordPhase _ _ _ => Metadata Tree
  | .requireInactive | .createStaging | .install | .removeStaging | .sync | .uploadDebuginfo
  | .moveDebuginfo _ _ | .removeDebuginfo _ | .define _ | .start | .stop _ | .readiness => Unit

inductive Fault where
  | valueError (message : String)
  | refusal (message : String)
  /-- The error of a step. -/
  | raised
  | outOfFuel

abbrev Program (Tree File α : Type) := Calls.Program (Step Tree) (Answer Tree File) Fault α

inductive Progress (Tree File : Type) where
  | nothing | whole
  | partTree (tree : Tree)
  | partFile (file : File)

structure Fate (Tree File : Type) where
  osError : Bool
  progress : Progress Tree File

section Steps

variable {Tree File : Type} [DecidableEq Tree]

/-- `empty` is the manifest of an empty directory. -/
def serve (plan : Plan Tree File) (empty : Tree) (h : Host Tree File) :
    (step : Step Tree) → Option (Answer Tree File step) × Host Tree File
  | .inspect => (some (h.definition, h.active), h)
  | .requireInactive => (if h.active then none else some (), h)
  | .observeLayout => (some h.modules, h)
  | .observeModules => (some h.modules.live, h)
  | .createStaging =>
    if h.modules.staging = none then
      (some (), { h with modules := h.modules.set .staging (some empty) })
    else (none, h)
  | .install => (some (), { h with modules := h.modules.set .staging (some plan.target) })
  | .restore =>
    match plan.source with
    | some source => (some source, { h with modules := h.modules.set .staging (some source) })
    | none => (none, h)
  | .move source target =>
    if (h.modules.get source).isSome ∧ h.modules.get target = none then
      (some .returned, { h with modules := h.modules.rename source target })
    else (none, h)
  | .removeOld => (some .returned, { h with modules := h.modules.set .old none })
  | .stagingExists => (some h.modules.staging.isSome, h)
  | .removeStaging => (some (), { h with modules := h.modules.set .staging none })
  | .sync => (some (), h)
  | .observeDebuginfo => (some h.debuginfo, h)
  | .uploadDebuginfo =>
    match plan.debuginfo with
    | some (_, file) => (some (), { h with debuginfo := h.debuginfo.set .staging (some file) })
    | none => (none, h)
  | .moveDebuginfo source target =>
    -- a file is renamed over the file that is there
    if (h.debuginfo.get source).isSome then
      (some (), { h with debuginfo := h.debuginfo.rename source target })
    else (none, h)
  | .removeDebuginfo name => (some (), { h with debuginfo := h.debuginfo.set name none })
  | .define definition => (some (), { h with definition := definition })
  | .start => (some (), { h with active := true })
  | .stop _ => (some (), { h with active := false })
  | .readiness => (some (), h)
  | .reopen => (some h.metadata, h)
  | .recordPhase expected phase inactiveModules =>
    if h.metadata = expected then
      let updated : Metadata Tree := ⟨phase, inactiveModules <|> expected.inactiveModules⟩
      (some updated, { h with metadata := updated })
    else (none, h)

theorem serve_move (plan : Plan Tree File) (empty : Tree) (h : Host Tree File)
    (source target : Name) : serve plan empty h (.move source target) =
      if (h.modules.get source).isSome ∧ h.modules.get target = none then
        (some .returned, { h with modules := h.modules.rename source target })
      else (none, h) := rfl

theorem serve_moveDebuginfo (plan : Plan Tree File) (empty : Tree) (h : Host Tree File)
    (source target : Name) : serve plan empty h (.moveDebuginfo source target) =
      if (h.debuginfo.get source).isSome then
        (some (), { h with debuginfo := h.debuginfo.rename source target })
      else (none, h) := rfl

theorem serve_recordPhase (plan : Plan Tree File) (empty : Tree) (h : Host Tree File)
    (expected : Metadata Tree) (phase : RecoveryPhase) (observed : Option (Option Tree)) :
    serve plan empty h (.recordPhase expected phase observed) =
      if h.metadata = expected then
        (some ⟨phase, observed <|> expected.inactiveModules⟩,
          { h with metadata := ⟨phase, observed <|> expected.inactiveModules⟩ })
      else (none, h) := rfl

/-- Renames, definitions and metadata replacements happen or do not; writing and removing a tree or
a file may stop halfway. -/
def remains (plan : Plan Tree File) (empty : Tree) (h : Host Tree File) (step : Step Tree) :
    Progress Tree File → Host Tree File
  | .nothing => h
  | .whole => (serve plan empty h step).2
  | .partTree tree =>
    match step with
    | .install | .restore | .removeStaging =>
      { h with modules := h.modules.set .staging (some tree) }
    | .removeOld => { h with modules := h.modules.set .old (some tree) }
    | _ => h
  | .partFile file =>
    match step with
    | .uploadDebuginfo => { h with debuginfo := h.debuginfo.set .staging (some file) }
    | _ => h

def raises : (step : Step Tree) → Bool → Option (Answer Tree File step)
  | .move _ _, true => some .osError
  | .removeOld, true => some .osError
  | _, _ => none

def device (plan : Plan Tree File) (empty : Tree) :
    Interrupts.Device (Host Tree File) (Step Tree) (Answer Tree File) (Fate Tree File) where
  serve := serve plan empty
  fail := fun fate h step => (raises step fate.osError, remains plan empty h step fate.progress)

def prepared (plan : Plan Tree File) : Host Tree File where
  modules := ⟨plan.source, none, none⟩
  debuginfo := ⟨plan.debuginfo.bind (·.1), none, none⟩
  definition := .source
  active := false
  metadata := ⟨.preStopIntent, none⟩

end Steps

end Kdive.ExternalBoot
