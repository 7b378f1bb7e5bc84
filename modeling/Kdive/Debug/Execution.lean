import Kdive.Debug.Commands

/-!
Resume, wait and interrupt, the attach that opens a session, and the operations of a session.
`attachment.execution` belongs to this part: a resume sets `running` before it is written, every
observed stop sets `halted`, and a resume that gdb refuses restores `halted`.
-/
namespace Kdive.Debug
open Console (Text Bytes)

attribute [local instance] Utf8.lawful

variable (engine : Engine)

section Stops

structure StopRecord where
  reason : Option Text
  signalName : Option Text
  bkptno : Option Text
  stoppedThread : Option Text
  frame : Option Frame
  timedOut : Bool := false

inductive HaltCause where
  | interrupt | stopEvent | attach | alreadyHalted
  deriving DecidableEq

structure Halt where
  haltedBy : HaltCause
  stop : Option StopRecord := none

def terminalStopReasons : List String := ["exited", "exited-normally", "exited-signalled"]

def stopRecordFrom (record : MiRecord) : Except Raised StopRecord := do
  let payload := payloadDict record.payload
  let reason := isText (Dict.get payload "reason")
  match reason with
  | some r =>
    if r ∈ terminalStopReasons.map String.toList then
      throw (.categorized (moduleError ("gdb/MI inferior exited (".toList ++ r ++
        "); the debug session is dead".toList) [code "session_exited", detail "reason" (.text r)]))
  | none => pure ()
  let frame ← match payloadDict (Dict.get payload "frame") with
    | [] => pure none
    | fields => some <$> frameFrom engine fields
  return { reason, signalName := isText (Dict.get payload "signal-name"),
           bkptno := isText (Dict.get payload "bkptno"),
           stoppedThread := isText (Dict.get payload "stopped-threads"), frame }

def redactStop (stop : StopRecord) : StopRecord :=
  { stop with reason := stop.reason.map engine.redactText,
              signalName := stop.signalName.map engine.redactText,
              bkptno := stop.bkptno.map engine.redactText,
              stoppedThread := stop.stoppedThread.map engine.redactText,
              frame := stop.frame.map (redactFrame engine) }

def haltCause (stop : StopRecord) : HaltCause :=
  if stop.reason = some "signal-received".toList ∧ stop.signalName = some "SIGINT".toList then
    .interrupt
  else .stopEvent

def MiRecord.isStop (record : MiRecord) : Bool := decide (record.message = some "stopped".toList)

def stopFromRecords (records : List MiRecord) : Op (Option StopRecord) := do
  match records.find? MiRecord.isStop with
  | none => pure none
  | some stop =>
    setExecution .halted
    some <$> ofExcept (stopRecordFrom engine stop)

def pollForStop : Nat → Op (Option StopRecord)
  | 0 => pure none
  | slices + 1 => do
    let raw ← (Dialogue.read : Dialogue.Program Text GdbRecord _)
    match ← stopFromRecords engine (recordsFrom raw) with
    | some stop => pure (some stop)
    | none => pollForStop slices

def waitForStop (timeoutSec : ℚ) : Op (Option StopRecord) :=
  pollForStop engine (⌊2 * timeoutSec⌋.toNat + 1)

def interruptStopTimeoutSec : ℚ := 10

def interruptRefused : CategorizedError :=
  attachFailure "gdb/MI refused the interrupt; end the session"
    [code "interrupt_refused", detail "command" (.text "-exec-interrupt".toList)]

def interruptStop : Op (Option StopRecord) := do
  let records ← write "-exec-interrupt".toList
  match ← stopFromRecords engine records with
  | some stop => pure (some (redactStop engine stop))
  | none =>
    if (MiRecord.firstResult records).any (·.message == some "error".toList) then
      raise interruptRefused
    else return (← waitForStop engine interruptStopTimeoutSec).map (redactStop engine)

def transportStall (verb : Text) : CategorizedError where
  message := ("gdb/MI RSP went silent: interrupt issued but no *stopped arrived; " ++
    "link stalled").toList
  category := .infrastructureFailure
  details := [code "transport_stall", detail "verb" (.text verb)]

def interrupt : Op Halt := do
  match (← get).execution with
  | .attachHalted =>
    setExecution .halted
    pure { haltedBy := .attach }
  | .halted => pure { haltedBy := .alreadyHalted }
  | .running =>
    match ← interruptStop engine with
    | none => raise (transportStall "-exec-interrupt".toList)
    | some stop => pure { haltedBy := haltCause stop, stop }

end Stops

section Resume

inductive Verb where
  | continue | step | next | stepInstruction | finish
  deriving DecidableEq

def Verb.text : Verb → Text
  | .continue => "-exec-continue".toList
  | .step => "-exec-step".toList
  | .next => "-exec-next".toList
  | .stepInstruction => "-exec-step-instruction".toList
  | .finish => "-exec-finish".toList

/-- An error that gdb answered means that the target never resumed. -/
def haltIfRefused (e : CategorizedError) : Op Unit :=
  if e.category = .debugAttachFailure then setExecution .halted else pure ()

def refused (verb : Text) (e : CategorizedError) : Op (List MiRecord) := do
  haltIfRefused e
  raise ((watchpointInsertFailure engine e verb).getD e)

def start (verb : Text) : Op (Option StopRecord) := do
  setExecution .running
  let resumed ← except (executeMiCommand engine verb) (refused engine verb)
  stopFromRecords engine resumed

def resumeBackground : Op (Option StopRecord) := do
  if (← get).execution = .running then pure none
  else return (← start engine Verb.continue.text).map (redactStop engine)

def maxInteractiveWaitSec : Int := 60

def boundedWait (timeoutSec : ℚ) : Int :=
  let requested := if timeoutSec = 0 then maxInteractiveWaitSec else ⌈timeoutSec⌉
  max 1 (min requested maxInteractiveWaitSec)

def badResumeTimeout : CategorizedError :=
  configError "gdb/MI resume timeout must be a finite non-negative number".toList
    "bad_resume_timeout" []

def stopOrWait (stop : Option StopRecord) (bounded : Int) : Op (Option StopRecord) :=
  match stop with
  | some stop => pure (some stop)
  | none => waitForStop engine bounded

def stopAfter (verb : Text) (stop : Option StopRecord) (bounded : Int) : Op StopRecord := do
  match ← stopOrWait engine stop bounded with
  | some stop => pure (redactStop engine stop)
  | none =>
    match ← interruptStop engine with
    | none => raise (transportStall verb)
    | some stop => pure (redactStop engine { stop with timedOut := true })

def inferiorIsRunning (details : Dict) : CategorizedError :=
  attachFailure ("the guest is running; halt it with debug.interrupt or wait for its stop with " ++
    "debug.continue") (code "inferior_running" :: details)

def resume (verb : Verb) (timeoutSec : Option ℚ) : Op StopRecord := do
  match timeoutSec with
  | none => raise badResumeTimeout
  | some timeout =>
    if timeout < 0 then raise badResumeTimeout
    else if (← get).execution ≠ .running then
      stopAfter engine verb.text (← start engine verb.text) (boundedWait timeout)
    else if verb = .continue then stopAfter engine verb.text none (boundedWait timeout)
    else raise (inferiorIsRunning [detail "command" (.text verb.text)])

end Resume

section Attach

structure AttachRequest where
  host : Text
  port : Nat
  /-- The resolved path of the symbol file. -/
  vmlinux : Text
  /-- The name of the guest's architecture where it is not the host's. -/
  architecture : Option Text

def asAttachFailure (e : CategorizedError) : CategorizedError :=
  if e.category = .debugAttachFailure ∧
      isText (Dict.get e.details "code") ≠ some "transport_stall".toList then e
  else { message := e.message, category := .debugAttachFailure,
         details := e.details.filter (fun field => field.1 != "code".toList) }

def connectWithRetry (command : Text) : Nat → Op Unit
  | 0 => raise (attachFailure "gdb/MI RSP connect failed" [])
  | 1 => do
    let _ ← except (executeMiCommand engine command) (fun e => raise (asAttachFailure e))
  | attempts + 2 =>
    except (do let _ ← executeMiCommand engine command)
      (fun _ => connectWithRetry command (attempts + 1))

def setArchitecture : Option Text → Op Unit
  | some architecture => do
    let _ ← executeMiCommand engine ("-gdb-set architecture ".toList ++ architecture)
  | none => pure ()

def attachCommands (request : AttachRequest) : Op Unit := do
  let _ ← executeMiCommand engine "-gdb-set confirm off".toList
  let _ ← executeMiCommand engine "-gdb-set pagination off".toList
  let _ ← executeMiCommand engine "-gdb-set mi-async on".toList
  let path ← ofExcept (miPath request.vmlinux)
  let _ ← executeMiCommand engine ("-file-exec-and-symbols ".toList ++ path)
  setArchitecture engine request.architecture
  let _ ← executeMiCommand engine "-gdb-set remotetimeout 30".toList
  connectWithRetry engine ("-target-select remote ".toList ++ request.host ++ ":".toList ++
    decimal request.port) 3

def attach (request : AttachRequest) : Op Unit := do
  except (attachCommands engine request) (fun e => raise (asAttachFailure e))
  setExecution .attachHalted

end Attach

section Operations

inductive Operation where
  | readMemory (address byteCount : Int)
  | resolveSymbol (name : Text)
  | setBreakpoint (location : Text)
  | clearBreakpoint (number : Text)
  | listBreakpoints
  | setWatchpoint (symbol : Option Text) (address : Option Int) (byteCount : Int)
  | clearWatchpoint (number : Text)
  | listWatchpoints
  | readRegisters (names : List Text)
  | backtrace (maxFrames : Int)
  | readFrame (level : Int)
  | disassemble (symbol : Option Text) (address : Option Int) (instructionCount : Int)
  | listModules (limit : Int)
  | loadModuleSymbols (resolved : Except CategorizedError ModuleDebuginfo) (name : Text)
      (expectedBase : Option Nat)
  | resume (verb : Verb) (timeoutSec : Option ℚ)
  | continueBackground
  | interrupt
  | waitForStop (timeoutSec : ℚ)

inductive Result where
  | bytes (blob : Bytes)
  | address (n : Nat)
  | breakpoint (ref : BreakpointRef)
  | breakpoints (refs : List BreakpointRef)
  | watchpoint (ref : WatchpointRef)
  | watchpoints (refs : List WatchpointRef)
  | registers (values : Dict)
  | backtrace (trace : Backtrace)
  | frame (detail : FrameDetail)
  | disassembly (window : Disassembly)
  | modules (list : ModuleList)
  | loaded (m : Module)
  | stop (stop : StopRecord)
  | maybeStop (stop : Option StopRecord)
  | halt (halt : Halt)
  | done

def perform : Operation → Op Result
  | .readMemory address byteCount => .bytes <$> readMemory engine address byteCount
  | .resolveSymbol name => .address <$> resolveSymbol engine name
  | .setBreakpoint location => .breakpoint <$> setBreakpoint engine location
  | .clearBreakpoint number => (fun _ => .done) <$> clearBreakpoint engine number
  | .listBreakpoints => .breakpoints <$> listBreakpoints engine
  | .setWatchpoint symbol address byteCount =>
    .watchpoint <$> setWatchpoint engine symbol address byteCount
  | .clearWatchpoint number => (fun _ => .done) <$> clearWatchpoint engine number
  | .listWatchpoints => .watchpoints <$> listWatchpoints engine
  | .readRegisters names => .registers <$> readRegisters engine names
  | .backtrace maxFrames => .backtrace <$> backtrace engine maxFrames
  | .readFrame level => .frame <$> readFrame engine level
  | .disassemble symbol address count => .disassembly <$> disassemble engine symbol address count
  | .listModules limit => .modules <$> listModules engine limit
  | .loadModuleSymbols resolved name expectedBase =>
    .loaded <$> loadModuleSymbols engine resolved name expectedBase
  | .resume verb timeoutSec => .stop <$> resume engine verb timeoutSec
  | .continueBackground => .maybeStop <$> resumeBackground engine
  | .interrupt => .halt <$> interrupt engine
  | .waitForStop timeoutSec => .maybeStop <$> waitForStop engine timeoutSec

abbrev Outcome := Except Raised Result

abbrev SessionProgram := Dialogue.Program Text GdbRecord (Outcome × Option Attachment)

def cleanupPending : CategorizedError where
  message := "debug attachment cleanup is pending".toList
  category := .infrastructureFailure
  details := [detail "reason" (.text "debug_cleanup_pending".toList)]

def Operation.whileRunning : Operation → Bool
  | .resume .continue _ => true
  | .continueBackground => true
  | .interrupt => true
  | .waitForStop _ => true
  | _ => false

def attachAndRun (operation : Operation) : Op Result := do
  if (← get).execution = .running ∧ !operation.whileRunning then
    raise (inferiorIsRunning [])
  else perform engine operation

def program (operation : Operation) : Option Attachment → SessionProgram
  | none => .done (.error (.categorized cleanupPending), none)
  | some attachment => do
    let ended ← (attachAndRun engine operation).run.run attachment
    pure (ended.1, some ended.2)

def opening (request : AttachRequest) : SessionProgram := do
  let ended ← (attach engine request).run.run {}
  match ended with
  | (.ok _, attachment) => pure (.ok .done, some attachment)
  | (.error e, _) => pure (.error e, none)

abbrev Event := Dialogue.Event Operation GdbRecord

abbrev Session := Dialogue.Session Text GdbRecord Outcome (Option Attachment)

def opened (request : AttachRequest) : Session := Dialogue.opened none (opening engine request)

def step : Session → Event → Session := Dialogue.step GdbRecord.isReply (program engine)

end Operations

end Kdive.Debug
