import Kdive.ExternalBoot.Host

/-!
The two publications of a module tree over its live, staging and old names, one step of each at a
time and to their ends, and the debuginfo file beside it.

The rows of a publication are a dictionary keyed by phase and layout. Where the prior tree is absent
two of its keys coincide, and the later row stands.
-/
namespace Kdive.ExternalBoot
open Calls

variable {Tree File : Type} [DecidableEq Tree] [DecidableEq File]

def perform (step : Step Tree) : Program Tree File (Answer Tree File step) := demand .raised step

def hostState : Program Tree File (Definition × Bool) := perform .inspect

def requireInactive : Program Tree File Unit := perform .requireInactive

def observeLayout : Program Tree File (Layout Tree) := perform .observeLayout

def observeModules : Program Tree File (Option Tree) := perform .observeModules

def observeDebuginfo : Program Tree File (Layout File) := perform .observeDebuginfo

def move (source target : Name) : Program Tree File Reply := perform (.move source target)

def removeOld : Program Tree File Reply := perform .removeOld

def guestSync : Program Tree File Unit := perform .sync

def removeDebuginfo (name : Name) : Program Tree File Unit := perform (.removeDebuginfo name)

def uploadDebuginfo : Program Tree File Unit := perform .uploadDebuginfo

def moveDebuginfo (source target : Name) : Program Tree File Unit :=
  perform (.moveDebuginfo source target)

def valueError {α : Type} (message : String) : Program Tree File α := throw (.valueError message)

def refuse {α : Type} (message : String) : Program Tree File α := throw (.refusal message)

def recordPhase (metadata : Metadata Tree) (phase : RecoveryPhase) :
    Program Tree File (Metadata Tree) := perform (.recordPhase metadata phase none)

def publishPhase (metadata : Metadata Tree) (phase : PublicationPhase) :
    Program Tree File (Metadata Tree) := recordPhase metadata (.publication phase)

def syncPhase (metadata : Metadata Tree) (phase : PublicationPhase) :
    Program Tree File (Metadata Tree) := do
  guestSync
  publishPhase metadata phase

def again : Reply → Program Tree File Unit
  | .returned => pure ()
  | .osError => throw .raised

def moveWithReclassification (metadata : Metadata Tree) (source target : Name)
    (before after : Layout Tree) (afterPhase : PublicationPhase) :
    Program Tree File (Metadata Tree) := do
  match ← move source target with
  | .returned => pure metadata
  | .osError =>
    requireInactive
    let observed ← observeLayout
    if observed = before then
      again (← move source target)
      pure metadata
    else if observed = after then
      syncPhase metadata afterPhase
    else
      valueError "external-boot module publication conflict"

def removeWithReclassification (metadata : Metadata Tree) (before after : Layout Tree)
    (afterPhase : PublicationPhase) : Program Tree File (Metadata Tree) := do
  match ← removeOld with
  | .returned => pure metadata
  | .osError =>
    requireInactive
    let observed ← observeLayout
    if observed = before then
      again (← removeOld)
      pure metadata
    else if observed = after then
      syncPhase metadata afterPhase
    else
      valueError "external-boot module removal conflict"

/-- The staging tree goes live; only here is a move that did nothing rolled back. -/
def moveStagingToLive (metadata : Metadata Tree) (prior : Option Tree) (desired : Tree) :
    Program Tree File (Metadata Tree) := do
  match ← move .staging .live with
  | .returned => pure metadata
  | .osError =>
    requireInactive
    let observed ← observeLayout
    if observed = ⟨none, some desired, prior⟩ then
      if prior = none then
        again (← move .staging .live)
        pure metadata
      else
        publishPhase metadata .rollbackReady
    else if observed = ⟨some desired, none, prior⟩ then
      syncPhase metadata .newLive
    else
      valueError "external-boot module publication conflict"

def presentRow (metadata : Metadata Tree) (phase : PublicationPhase) (layout : Layout Tree)
    (prior : Option Tree) (desired : Tree) : Program Tree File (Metadata Tree) :=
  match phase with
  | .moveReady =>
    if layout = ⟨none, some desired, prior⟩ then
      syncPhase metadata .oldAside
    else if layout = ⟨prior, some desired, none⟩ then
      moveWithReclassification metadata .live .old ⟨prior, some desired, none⟩
        ⟨none, some desired, prior⟩ .oldAside
    else valueError "external-boot module publication conflict"
  | .oldAside =>
    if layout = ⟨none, some desired, prior⟩ then
      moveStagingToLive metadata prior desired
    else if layout = ⟨some desired, none, prior⟩ then
      syncPhase metadata .newLive
    else valueError "external-boot module publication conflict"
  | .rollbackReady =>
    if layout = ⟨prior, some desired, none⟩ then
      syncPhase metadata .rollbackComplete
    else if layout = ⟨none, some desired, prior⟩ then
      moveWithReclassification metadata .old .live ⟨none, some desired, prior⟩
        ⟨prior, some desired, none⟩ .rollbackComplete
    else valueError "external-boot module publication conflict"
  | .rollbackComplete =>
    if layout = ⟨prior, some desired, none⟩ then
      publishPhase metadata .moveReady
    else valueError "external-boot module publication conflict"
  | .newLive =>
    if layout = ⟨some desired, none, none⟩ then
      syncPhase metadata .publicationComplete
    else if layout = ⟨some desired, none, prior⟩ then
      removeWithReclassification metadata ⟨some desired, none, prior⟩ ⟨some desired, none, none⟩
        .publicationComplete
    else valueError "external-boot module publication conflict"
  | .publicationComplete =>
    if layout = ⟨some desired, none, none⟩ then pure metadata
    else valueError "external-boot module publication conflict"
  | .absenceLive | .absenceComplete | .absenceCleaned =>
    valueError "external-boot module publication conflict"

def advanceModulePublication (metadata : Metadata Tree) (phase : PublicationPhase)
    (layout : Layout Tree) (prior : Option Tree) (desired : Tree) :
    Program Tree File (Metadata Tree) := do
  requireInactive
  presentRow metadata phase layout prior desired

def absenceRow (metadata : Metadata Tree) (phase : PublicationPhase) (layout : Layout Tree)
    (prior : Tree) : Program Tree File (Metadata Tree) :=
  match phase with
  | .moveReady =>
    if layout = ⟨some prior, none, none⟩ then
      moveWithReclassification metadata .live .old ⟨some prior, none, none⟩
        ⟨none, none, some prior⟩ .absenceLive
    else if layout = ⟨none, none, some prior⟩ then syncPhase metadata .absenceLive
    else if layout = ⟨none, none, none⟩ then publishPhase metadata .absenceComplete
    else valueError "external-boot module absence conflict"
  | .absenceLive =>
    if layout = ⟨none, none, some prior⟩ then publishPhase metadata .absenceComplete
    else valueError "external-boot module absence conflict"
  | .absenceComplete =>
    if layout = ⟨none, none, some prior⟩ then
      removeWithReclassification metadata ⟨none, none, some prior⟩ ⟨none, none, none⟩
        .absenceCleaned
    else if layout = ⟨none, none, none⟩ then syncPhase metadata .absenceCleaned
    else valueError "external-boot module absence conflict"
  | .absenceCleaned =>
    if layout = ⟨none, none, none⟩ then pure metadata
    else valueError "external-boot module absence conflict"
  | .oldAside | .rollbackReady | .rollbackComplete | .newLive | .publicationComplete =>
    valueError "external-boot module absence conflict"

def advanceAbsencePublication (metadata : Metadata Tree) (phase : PublicationPhase)
    (layout : Layout Tree) (prior : Tree) : Program Tree File (Metadata Tree) := do
  requireInactive
  absenceRow metadata phase layout prior

def finishPresentPublication (prior : Option Tree) (desired : Tree) :
    Nat → Metadata Tree → Program Tree File (Metadata Tree)
  | 0, _ => throw .outOfFuel
  | fuel + 1, metadata =>
    match metadata.phase with
    | .publication .publicationComplete => do
      if (← observeLayout) = ⟨some desired, none, none⟩ then pure metadata
      else valueError "external-boot completed module publication layout conflicts"
    | .publication phase => do
      let layout ← observeLayout
      let metadata ← advanceModulePublication metadata phase layout prior desired
      finishPresentPublication prior desired fuel metadata
    | _ => valueError "not a valid PublicationPhase"

def finishAbsencePublication (prior : Tree) :
    Nat → Metadata Tree → Program Tree File (Metadata Tree)
  | 0, _ => throw .outOfFuel
  | fuel + 1, metadata =>
    match metadata.phase with
    | .publication .absenceCleaned => do
      if (← observeLayout) = ⟨none, none, none⟩ then pure metadata
      else valueError "external-boot completed module absence layout conflicts"
    | .publication phase => do
      let layout ← observeLayout
      let metadata ← advanceAbsencePublication metadata phase layout prior
      finishAbsencePublication prior fuel metadata
    | _ => valueError "not a valid PublicationPhase"

def dropDebuginfoStaging (layout : Layout File) : Program Tree File Unit :=
  if layout.staging ≠ none then removeDebuginfo .staging else pure ()

/-- `GuestDebuginfoFile.stage`. -/
def stageDebuginfo (prior : Option File) (target : File) : Program Tree File Unit := do
  let layout ← observeDebuginfo
  if layout.live ≠ prior ∨ layout.old ≠ none then
    valueError "external-boot debuginfo staging conflict"
  else if layout.staging = some target then
    pure ()
  else do
    dropDebuginfoStaging layout
    uploadDebuginfo
    let staged ← observeDebuginfo
    if staged.staging ≠ some target then
      valueError "staged debuginfo does not match the materialized vmlinux"
    else
      guestSync

def setDebuginfoAside (prior : Option File) (target : File) (layout : Layout File) :
    Program Tree File (Layout File) :=
  if prior ≠ none ∧ layout = ⟨prior, some target, none⟩ then do
    moveDebuginfo .live .old
    pure ⟨none, some target, prior⟩
  else pure layout

/-- `GuestDebuginfoFile.publish`. -/
def publishDebuginfo (prior : Option File) (target : File) : Program Tree File Unit := do
  let observed ← observeDebuginfo
  let layout ← setDebuginfoAside prior target observed
  if layout = ⟨none, some target, prior⟩ then do
    moveDebuginfo .staging .live
    guestSync
    checkPublished
  else if layout ≠ ⟨some target, none, prior⟩ then
    valueError "external-boot debuginfo publication conflict"
  else checkPublished
where
  checkPublished : Program Tree File Unit := do
    let layout ← observeDebuginfo
    if layout ≠ ⟨some target, none, prior⟩ then
      valueError "external-boot debuginfo publication did not complete"
    else pure ()

def putDebuginfoBack (prior : Option File) (target : File) (layout : Layout File) :
    Program Tree File (Layout File) :=
  if layout = ⟨some target, none, prior⟩ ∨ layout = ⟨none, some target, prior⟩ then do
    if prior ≠ none then
      moveDebuginfo .old .live
      pure ⟨prior, layout.staging, none⟩
    else if layout.live ≠ none then
      removeDebuginfo .live
      pure ⟨prior, layout.staging, none⟩
    else
      pure ⟨prior, layout.staging, none⟩
  else pure layout

/-- `GuestDebuginfoFile.restore`. -/
def restoreDebuginfo (prior : Option File) (target : File) : Program Tree File Unit := do
  let observed ← observeDebuginfo
  if observed = ⟨prior, none, none⟩ then
    pure ()
  else do
    let layout ← putDebuginfoBack prior target observed
    if layout.live ≠ prior ∨ layout.old ≠ none then
      valueError "external-boot debuginfo recovery conflict"
    else do
      dropDebuginfoStaging layout
      guestSync
      let restored ← observeDebuginfo
      if restored ≠ ⟨prior, none, none⟩ then
        valueError "external-boot debuginfo recovery did not complete"
      else pure ()

end Kdive.ExternalBoot
