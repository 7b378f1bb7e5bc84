import Kdive.ExternalBoot.Publication

/-!
`activate` and `recover` of the local external boot, with everything they do to the guest, the
domain and the metadata. Both publish through the same names and record the same phases: activation
puts the target tree in the place of the source tree, recovery the source tree in the place of the
target tree.
-/
namespace Kdive.ExternalBoot
open Calls

variable {Tree File : Type} [DecidableEq Tree] [DecidableEq File]

def recordModulesRestored (metadata : Metadata Tree) (observed : Option Tree) :
    Program Tree File (Metadata Tree) := perform (.recordPhase metadata .moduleRestored (some observed))

def reopen : Program Tree File (Metadata Tree) := perform .reopen

def createStaging : Program Tree File Unit := perform .createStaging

def install : Program Tree File Unit := perform .install

def restoreArchive : Program Tree File Tree := perform .restore

def stagingExists : Program Tree File Bool := perform .stagingExists

def removeStaging : Program Tree File Unit := perform .removeStaging

def defineXml (definition : Definition) : Program Tree File Unit := perform (.define definition)

def start : Program Tree File Unit := perform .start

def requireReadiness : Program Tree File Unit := perform .readiness

def withDebuginfo (plan : Plan Tree File)
    (step : Option File → File → Program Tree File Unit) : Program Tree File Unit :=
  match plan.debuginfo with
  | none => pure ()
  | some (prior, target) => step prior target

def stageTarget (plan : Plan Tree File) : Program Tree File Unit := do
  let layout ← observeLayout
  if layout = ⟨plan.source, none, none⟩ then do
    createStaging
    install
    let staged ← observeLayout
    if staged ≠ ⟨plan.source, some plan.target, none⟩ then
      valueError "external-boot staged target modules do not match metadata"
    else pure ()
  else if layout ≠ ⟨plan.source, some plan.target, none⟩ then
    valueError "external-boot target staging layout conflicts with metadata"
  else pure ()

def beginPublication (plan : Plan Tree File) (metadata : Metadata Tree) :
    Program Tree File (Metadata Tree) :=
  if metadata.phase = .preStopIntent then do
    stageTarget plan
    withDebuginfo plan stageDebuginfo
    guestSync
    publishPhase metadata (if plan.source ≠ none then .moveReady else .oldAside)
  else pure metadata

def activateModules (plan : Plan Tree File) (fuel : Nat) (metadata : Metadata Tree) :
    Program Tree File Unit := do
  let state ← hostState
  if state ≠ (.source, false) then
    valueError "external-boot module activation requires inactive source XML/power"
  else do
    let begun ← beginPublication plan metadata
    let completed ← finishPresentPublication plan.source plan.target fuel begun
    withDebuginfo plan publishDebuginfo
    let observed ← observeModules
    let _ ← recordModulesRestored completed observed

def defineTargetLoop (plan : Plan Tree File) (metadata : Metadata Tree) :
    Nat → Program Tree File Unit
  | 0 => throw .outOfFuel
  | fuel + 1 => do
    let state ← hostState
    match state, plan.priorPower with
    | (.source, false), _ => do
      defineXml .target
      defineTargetLoop plan metadata fuel
    | (.target, false), .inactive =>
      let _ ← recordPhase metadata .targetDefined
    | (.target, false), .running =>
      start
      defineTargetLoop plan metadata fuel
    | (.target, true), .running =>
      requireReadiness
      let after ← hostState
      if after ≠ (.target, true) then
        valueError "external-boot target changed during readiness"
      else do
        let _ ← recordPhase metadata .targetDefined
    | _, _ => valueError "external-boot target XML/power state conflicts with recovery metadata"

def defineTarget (plan : Plan Tree File) (fuel : Nat) (metadata : Metadata Tree) :
    Program Tree File Unit :=
  if metadata.phase = .moduleRestored then defineTargetLoop plan metadata fuel else pure ()

def activates : RecoveryPhase → Bool
  | .preStopIntent | .moduleRestored | .targetDefined => true
  | .publication phase =>
    match phase with
    | .moveReady | .oldAside | .rollbackReady | .rollbackComplete | .newLive
    | .publicationComplete => true
    | .absenceLive | .absenceComplete | .absenceCleaned => false
  | .sourceRestored | .recovered | .cleaned => false

def activate (plan : Plan Tree File) (fuel : Nat) : Program Tree File Unit := do
  let metadata ← reopen
  if activates metadata.phase = false then
    valueError "external-boot activation phase is not resumable"
  else if metadata.phase = .targetDefined then
    pure ()
  else if metadata.phase ≠ .moduleRestored then do
    activateModules plan fuel metadata
    let metadata ← reopen
    defineTarget plan fuel metadata
  else defineTarget plan fuel metadata

def inspected : Program Tree File (Option (Definition × Bool)) := ask Step.inspect

def stopAndRequireInactive (mode : StopMode) : Program Tree File (Option Unit) :=
  ask (Step.stop mode)

def reclassifyStop (xml : Definition) : Option (Definition × Bool) → Program Tree File Unit
  | some after => if after = (xml, false) then requireInactive else throw .raised
  | none => throw .raised

def stopForRecovery (metadata : Metadata Tree) : Program Tree File Unit := do
  let state ← hostState
  if metadata.phase = .targetDefined ∧ state.1 = .source then
    valueError "external-boot recovery expected the target domain XML"
  else if state.2 ∧ state.1 = .source then
    valueError "external-boot refuses to stop an unexpected running domain"
  else if state.2 = false then
    requireInactive
  else do
    let mode := if metadata.phase = .targetDefined ∧ state.1 = .target then .cleanOnKvm else .destroy
    match ← stopAndRequireInactive mode with
    | none =>
      let after ← inspected
      reclassifyStop state.1 after
    | some () =>
      let after ← hostState
      if after ≠ (state.1, false) then
        valueError "external-boot stop did not preserve exact XML and inactivity"
      else pure ()

def discardStaging : Program Tree File Unit := do
  let found ← stagingExists
  if found then
    removeStaging
    guestSync
  else pure ()

def settleUnpublishedModules (plan : Plan Tree File) (metadata : Metadata Tree) :
    Program Tree File Unit := do
  let state ← hostState
  if state ≠ (.source, false) then
    refuse "external-boot pre-stop recovery requires inactive source XML/power"
  else do
    withDebuginfo plan restoreDebuginfo
    discardStaging
    let layout ← observeLayout
    if layout ≠ ⟨plan.source, none, none⟩ then
      refuse "external-boot pre-stop module layout conflicts with metadata"
    else do
      let observed ← observeModules
      let _ ← recordModulesRestored metadata observed

def stageSource (plan : Plan Tree File) (metadata : Metadata Tree) (layout : Layout Tree) :
    Program Tree File (Metadata Tree) :=
  match plan.source with
  | none =>
    if layout ≠ ⟨some plan.target, none, none⟩ then
      valueError "external-boot absence recovery layout conflicts with metadata"
    else syncPhase metadata .moveReady
  | some source =>
    if layout = ⟨some plan.target, none, none⟩ then do
      let manifest ← restoreArchive
      if manifest ≠ source then
        valueError "external-boot staged recovery modules do not match metadata"
      else publish source
    else if layout ≠ ⟨some plan.target, some source, none⟩ then
      valueError "external-boot module recovery staging conflicts with metadata"
    else publish source
where
  publish (source : Tree) : Program Tree File (Metadata Tree) := do
    let staged ← observeLayout
    if staged ≠ ⟨some plan.target, some source, none⟩ then
      valueError "external-boot staged recovery modules changed before publication"
    else syncPhase metadata .moveReady

def finishSource (plan : Plan Tree File) (fuel : Nat) (metadata : Metadata Tree) :
    Program Tree File (Metadata Tree) :=
  match plan.source with
  | none => finishAbsencePublication plan.target fuel metadata
  | some source => finishPresentPublication (some plan.target) source fuel metadata

def publishSource (plan : Plan Tree File) (fuel : Nat) (metadata : Metadata Tree) :
    Program Tree File Unit := do
  let completed ← finishSource plan fuel metadata
  let observed ← observeModules
  let _ ← recordModulesRestored completed observed

def recoverModules (plan : Plan Tree File) (fuel : Nat) (metadata : Metadata Tree) :
    Program Tree File Unit :=
  if metadata.phase = .preStopIntent then settleUnpublishedModules plan metadata
  else do
    stopForRecovery metadata
    withDebuginfo plan restoreDebuginfo
    if metadata.phase = .targetDefined ∨ metadata.phase = .moduleRestored then do
      let layout ← observeLayout
      if metadata.phase = .moduleRestored ∧ layout = ⟨plan.source, none, none⟩ then
        pure ()
      else do
        let staged ← stageSource plan metadata layout
        publishSource plan fuel staged
    else publishSource plan fuel metadata

def defineSourceLoop (metadata : Metadata Tree) : Nat → Program Tree File Unit
  | 0 => throw .outOfFuel
  | fuel + 1 => do
    let state ← hostState
    match state with
    | (.target, false) =>
      defineXml .source
      defineSourceLoop metadata fuel
    | (.source, false) =>
      let _ ← recordPhase metadata .sourceRestored
    | _ => valueError "external-boot source XML/power state conflicts with recovery metadata"

def defineSource (fuel : Nat) (metadata : Metadata Tree) : Program Tree File Unit :=
  if metadata.phase = .moduleRestored then defineSourceLoop metadata fuel else pure ()

def restorePowerLoop (plan : Plan Tree File) (metadata : Metadata Tree) :
    Nat → Program Tree File Unit
  | 0 => throw .outOfFuel
  | fuel + 1 => do
    let state ← hostState
    match state, plan.priorPower with
    | (.source, false), .inactive =>
      let _ ← recordPhase metadata .recovered
    | (.source, false), .running =>
      start
      restorePowerLoop plan metadata fuel
    | (.source, true), .running =>
      requireReadiness
      let after ← hostState
      if after ≠ (.source, true) then
        valueError "external-boot source changed during readiness"
      else do
        let _ ← recordPhase metadata .recovered
    | _, _ => valueError "external-boot restored power state conflicts with recovery metadata"

def restorePower (plan : Plan Tree File) (fuel : Nat) (metadata : Metadata Tree) :
    Program Tree File Unit :=
  if metadata.phase = .sourceRestored then restorePowerLoop plan metadata fuel else pure ()

def recoverPower (plan : Plan Tree File) (fuel : Nat) (restoresPower : Bool) :
    Program Tree File Unit := do
  let metadata ← reopen
  if metadata.phase = .sourceRestored then
    if restoresPower then restorePower plan fuel metadata
    else do
      let _ ← recordPhase metadata .recovered
  else pure ()

def recoverDomain (plan : Plan Tree File) (fuel : Nat) (restoresPower : Bool) :
    Program Tree File Unit := do
  let metadata ← reopen
  defineSource fuel metadata
  recoverPower plan fuel restoresPower

def recover (plan : Plan Tree File) (fuel : Nat) (restoresPower : Bool) :
    Program Tree File Unit := do
  let metadata ← reopen
  if metadata.phase = .recovered ∨ metadata.phase = .cleaned then
    pure ()
  else if metadata.phase ≠ .sourceRestored then do
    recoverModules plan fuel metadata
    recoverDomain plan fuel restoresPower
  else recoverPower plan fuel restoresPower

end Kdive.ExternalBoot
