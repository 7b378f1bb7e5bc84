import Kdive.Debug.Records
import Kdive.Lib.Dialogue
import Mathlib.Data.Rat.Floor

/-!
The gdb/MI engine: every operation of a debug session as a program over the controller's line. An
operation changes the attachment as it goes, and the changes stay when it raises.
-/
namespace Kdive.Debug
open Console (Text Bytes literal)

attribute [local instance] Utf8.lawful

/-- What the operations take from the interpreter and from the redactor: `str.isdigit`, `\d` and
`\w` of one character, `int` and `repr` of a text, `str` of what is not a text, and `redact_value`
of a text and of a payload. -/
structure Engine where
  isDigit : Char → Bool
  isDecimal : Char → Bool
  isWord : Char → Bool
  int : Text → Option Int
  repr : Text → Text
  str : Value → Text
  redactText : Text → Text
  redactValue : Value → Value

inductive Execution where
  | attachHalted | halted | running
  deriving DecidableEq

structure Attachment where
  execution : Execution := .halted
  loadedModules : List Text := []
  deriving DecidableEq

abbrev Op := ExceptT Raised (StateT Attachment (Dialogue.Program Text GdbRecord))

def raise {α : Type} (e : CategorizedError) : Op α := throw (.categorized e)

def except {α : Type} (op : Op α) (handler : CategorizedError → Op α) : Op α :=
  tryCatch op (fun e => match e with
    | .categorized error => handler error
    | .valueError => throw .valueError)

def ofExcept {α : Type} : Except Raised α → Op α
  | .ok a => pure a
  | .error e => throw e

def setExecution (execution : Execution) : Op Unit := modify ({ · with execution })

def recordsFrom (raw : List GdbRecord) : List MiRecord := raw.map MiRecord.fromRaw

variable (engine : Engine)

def Engine.strOf : Value → Text
  | .text t => t
  | value => engine.str value

section Commands

def timeoutError (command : Text) : CategorizedError where
  message := "gdb/MI command timed out after 10.0s: ".toList ++ command
  category := .infrastructureFailure
  details := [code "transport_stall", detail "command" (.text command),
    detail "timeout_seconds" (.int 10)]

def write (command : Text) : Op (List MiRecord) := do
  match ← (Dialogue.write command : Dialogue.Program Text GdbRecord _) with
  | some raw => pure (recordsFrom raw)
  | none => raise (timeoutError command)

def commandFailed (command : Text) (payload : Option Value) : CategorizedError where
  message := "gdb/MI command failed: ".toList ++ command
  category := .debugAttachFailure
  details := [detail "command" (.text command),
    detail "payload" (engine.redactValue (payload.getD .none))]

def replyOrError (command : Text) (records : List MiRecord) : Except Raised (List MiRecord) :=
  match MiRecord.firstResult records with
  | some result =>
    if result.message = some "error".toList then
      .error (.categorized (commandFailed engine command result.payload))
    else .ok records
  | none => .ok records

def executeMiCommand (command : Text) : Op (List MiRecord) := do
  modify (fun a =>
    if a.execution = .attachHalted then { a with execution := .halted } else a)
  let records ← write command
  ofExcept (replyOrError engine command records)

end Commands

section Memory

def maxMemoryReadBytes : Int := 4096

def memoryBlob (address byteCount : Int) (records : List MiRecord) : Except Raised Bytes :=
  let contents := fun segment : Dict =>
    Hex.decode (engine.strOf ((Dict.get segment "contents").getD (.text [])))
  match (memorySegments records).mapM contents with
  | none => .error (.categorized (attachFailure "gdb/MI returned non-hex memory contents"
      [code "bad_memory_contents"]))
  | some blobs =>
    let blob := blobs.flatten
    if (blob.length : Int) ≠ byteCount then
      .error (.categorized (attachFailure "gdb/MI returned fewer memory bytes than requested"
        [code "short_memory_read", detail "address" (.int address),
          detail "requested" (.int byteCount), detail "actual" (.int blob.length)]))
    else .ok blob

def readMemory (address byteCount : Int) : Op Bytes := do
  if address < 0 ∨ address > 0xFFFFFFFFFFFFFFFF then
    raise (configError "address out of range".toList "bad_read_range"
      [detail "address" (.int address)])
  else if byteCount < 1 ∨ byteCount > maxMemoryReadBytes then
    raise (configError "byte_count must be between 1 and 4096".toList "bad_read_range"
      [detail "byte_count" (.int byteCount)])
  else
    let records ← executeMiCommand engine ("-data-read-memory-bytes ".toList ++
      hex address.toNat ++ " ".toList ++ decimal byteCount.toNat)
    ofExcept (memoryBlob engine address byteCount records)

end Memory

section Symbols

def symbolNotFound (name : Text) : CategorizedError where
  message := "symbol ".toList ++ engine.repr name ++ " not found".toList
  category := .symbolNotFound
  details := [code "symbol_not_found", detail "name" (.text name),
    detail "hint" (.text
      "symbol may be inlined or optimized away; try disassembling its caller.".toList)]

def evaluateSymbol (name : Text) : Op (List MiRecord) :=
  except (executeMiCommand engine ("-data-evaluate-expression &".toList ++ name))
    (fun e =>
      if e.category = .debugAttachFailure ∧ e.gdbMessage.any namesMissingSymbol then
        raise (symbolNotFound engine name)
      else raise e)

def symbolAddress (name : Text) (records : List MiRecord) : Except Raised Nat :=
  match (evaluateValue records).bind hexFrom with
  | some address => .ok address
  | none => .error (.categorized (attachFailure "gdb/MI returned no parseable symbol address"
      [code "bad_symbol_value", detail "name" (.text name),
        detail "value" (((evaluateValue records).map
          (fun value => engine.redactValue (.text value))).getD .none)]))

def resolveSymbol (name : Text) : Op Nat := do
  if !isName name then
    raise (configError ("symbol name must be a bare C identifier, got ".toList ++ engine.repr name)
      "bad_symbol_name" [detail "name" (.text name)])
  else
    let records ← evaluateSymbol engine name
    ofExcept (symbolAddress engine name records)

end Symbols

section Breakpoints

structure BreakpointRef where
  number : Text
  type : Option Text
  addr : Option Text
  func : Option Text
  what : Option Text

def numberText (entry : Dict) : Text := engine.strOf ((Dict.get entry "number").getD .none)

def breakpointRefFrom (entry : Dict) : BreakpointRef :=
  let field := fun key => (isText (Dict.get entry key)).map engine.redactText
  { number := engine.redactText (numberText engine entry), type := field "type", addr := field "addr",
    func := field "func", what := field "what" }

def breakpointRef (key : String) (records : List MiRecord) : Except Raised BreakpointRef :=
  match Dict.get (resultPayloadDict records) key with
  | some (.dict entry) => .ok (breakpointRefFrom engine entry)
  | _ => .error (.categorized (attachFailure ("gdb/MI " ++ key ++ " response had no breakpoint record")
      [detail "command_key" (.text key.toList)]))

def setBreakpoint (location : Text) : Op BreakpointRef := do
  if !isName location then
    raise (configError ("breakpoint location must be a bare C identifier, got ".toList ++
      engine.repr location) "bad_location" [detail "location" (.text location)])
  else
    let records ← executeMiCommand engine ("-break-insert ".toList ++ location)
    ofExcept (breakpointRef engine "bkpt" records)

def clearNumbered (what name : String) (number : Text) : Op Unit := do
  if !isNumber number then
    raise (configError (what.toList ++ " id must be numeric, got ".toList ++ engine.repr number)
      name [detail "number" (.text number)])
  else
    let _ ← executeMiCommand engine ("-break-delete ".toList ++ number)

def clearBreakpoint (number : Text) : Op Unit :=
  clearNumbered engine "breakpoint" "bad_breakpoint_id" number

def listBreakpoints : Op (List BreakpointRef) := do
  let records ← executeMiCommand engine "-break-list".toList
  return (breakpointRows records).map (breakpointRefFrom engine)

end Breakpoints

section Registers

def registerRow (ordered : List Text) (byNumber : Dict) (name : Text) : Option (Text × Value) :=
  if name ∈ ordered then (byNumber.lookup (decimal (ordered.idxOf name))).map (name, ·)
  else none

def requestedRegisters (requested : List Text) (names values : List MiRecord) :
    Except Raised Dict :=
  let found := requested.eraseDups.filterMap
    (registerRow (registerNames names) (registerValuesByNumber values))
  let missing := requested.filter (fun name => (found.lookup name).isNone)
  if missing ≠ [] then
    .error (.categorized (attachFailure "gdb/MI omitted requested register data"
      [code "missing_registers", detail "requested" (.list (requested.map .text)),
        detail "missing" (.list (missing.map .text))]))
  else .ok (payloadDict (some (engine.redactValue (.dict found))))

def readRegisters (requested : List Text) : Op Dict := do
  if requested.isEmpty then
    raise (configError "registers must be a non-empty list".toList "bad_register" [])
  else match requested.find? (fun name => !isRegister name) with
    | some name =>
      raise (configError ("invalid register name ".toList ++ engine.repr name) "bad_register" [])
    | none =>
      let names ← executeMiCommand engine "-data-list-register-names".toList
      let values ← executeMiCommand engine "-data-list-register-values x".toList
      ofExcept (requestedRegisters engine requested names values)

end Registers

section Stack

structure Frame where
  level : Option Int
  func : Option Text
  addr : Option Text
  file : Option Text
  line : Option Int

structure Variable where
  name : Text
  type : Option Text
  value : Option Text
  deriving DecidableEq

structure FrameDetail where
  frame : Frame
  args : List Variable
  locals : List Variable
  truncated : Bool := false

structure Backtrace where
  frames : List Frame
  truncated : Bool

/-- `int` raises on a text such as `--5`, which passes the check before it. -/
def miInt (value : Option Value) : Except Raised (Option Int) :=
  match isText value with
  | none => .ok none
  | some t =>
    let digits := t.dropWhile (· == '-')
    if digits ≠ [] ∧ digits.all engine.isDigit then
      match engine.int t with
      | some n => .ok (some n)
      | none => .error .valueError
    else .ok none

def frameFrom (payload : Dict) : Except Raised Frame := do
  let level ← miInt engine (Dict.get payload "level")
  let line ← miInt engine (Dict.get payload "line")
  return { level, line, func := isText (Dict.get payload "func"),
           addr := isText (Dict.get payload "addr"), file := isText (Dict.get payload "file") }

def redactFrame (frame : Frame) : Frame :=
  { frame with func := frame.func.map engine.redactText, addr := frame.addr.map engine.redactText,
               file := frame.file.map engine.redactText }

def inferiorRunning (message : String) (command : Text) : CategorizedError :=
  attachFailure message [code "inferior_running", detail "command" (.text command)]

def stackCommand (command : Text) (missing : CategorizedError) : Op (List MiRecord) :=
  except (executeMiCommand engine command) (fun e =>
    if e.category = .debugAttachFailure ∧ e.gdbMessage.any namesRunning then
      raise (inferiorRunning "gdb/MI cannot walk the stack while the inferior is running" command)
    else if e.category = .debugAttachFailure ∧ e.gdbMessage.any namesMissingStack then raise missing
    else raise e)

def maxBacktraceFrames : Int := 64

def noFrames : CategorizedError := attachFailure "gdb/MI returned no stack frames" [code "no_frames"]

def backtraceOf (maxFrames : Int) (records : List MiRecord) : Except Raised Backtrace := do
  let rows := stackFrames records
  if rows = [] then throw (.categorized noFrames)
  let parsed ← rows.mapM (frameFrom engine)
  return { frames := (parsed.take maxFrames.toNat).map (redactFrame engine),
           truncated := decide ((parsed.length : Int) > maxFrames) }

def backtrace (maxFrames : Int) : Op Backtrace := do
  if maxFrames < 1 ∨ maxFrames > maxBacktraceFrames then
    raise (configError "max_frames must be between 1 and 64".toList "bad_frame_count"
      [detail "max_frames" (.int maxFrames)])
  else
    let records ← stackCommand engine "-stack-list-frames".toList noFrames
    ofExcept (backtraceOf engine maxFrames records)

def threadOf (records : List MiRecord) : Except Raised Text :=
  match isText (Dict.get (resultPayloadDict records) "current-thread-id") with
  | some thread =>
    if thread ≠ [] ∧ thread.all engine.isDigit then .ok thread
    else .error (.categorized (attachFailure "gdb/MI reported no current thread"
      [code "no_current_thread"]))
  | none => .error (.categorized (attachFailure "gdb/MI reported no current thread"
      [code "no_current_thread"]))

def currentThread : Op Text := do
  let records ← executeMiCommand engine "-thread-list-ids".toList
  ofExcept (threadOf engine records)

def maxFrameVariables : Nat := 64

def maxVariableText : Nat := 256

def Variable.cut (v : Variable) : Variable :=
  { v with type := v.type.map (·.take maxVariableText), value := v.value.map (·.take maxVariableText) }

def Variable.redact (v : Variable) : Variable :=
  { name := engine.redactText v.name, type := v.type.map engine.redactText,
    value := v.value.map engine.redactText }

def FrameDetail.bounded (detail : FrameDetail) : FrameDetail :=
  let args := detail.args.take maxFrameVariables
  let kept := args ++ detail.locals.take (maxFrameVariables - args.length)
  let cut := kept.map Variable.cut
  { detail with args := cut.take args.length, locals := cut.drop args.length,
                truncated := decide (cut ≠ detail.args ++ detail.locals) }

def variableOf (row : Dict) : Option (Bool × Variable) :=
  (isText (Dict.get row "name")).map (fun name =>
    (decide (isText (Dict.get row "arg") = some "1".toList),
      { name, type := isText (Dict.get row "type"), value := isText (Dict.get row "value") }))

def frameDetail (level : Int) (row : Dict) (records : List MiRecord) : Except Raised FrameDetail :=
  match frameVariables records with
  | none => .error (.categorized (attachFailure "gdb/MI returned no variables for the frame"
      [code "no_frame_variables", detail "level" (.int level)]))
  | some rows => do
    let named := rows.filterMap variableOf
    let frame ← frameFrom engine row
    let args := (named.filter (·.1)).map (fun v => Variable.redact engine v.2)
    let locals := (named.filter (!·.1)).map (fun v => Variable.redact engine v.2)
    return FrameDetail.bounded { frame := redactFrame engine frame, args, locals }

def readFrame (level : Int) : Op FrameDetail := do
  if level < 0 then
    raise (configError ("frame level must be a non-negative integer, got ".toList ++
      "-".toList ++ decimal level.natAbs) "bad_frame_level" [detail "level" (.int level)])
  else
    let missing := attachFailure "gdb/MI returned no frame at the requested level"
      [code "no_frame_at_level", detail "level" (.int level)]
    let position := decimal level.toNat
    let rows := stackFrames (← stackCommand engine
      ("-stack-list-frames ".toList ++ position ++ " ".toList ++ position) missing)
    match rows with
    | [] => raise missing
    | row :: _ =>
      let thread ← currentThread engine
      let records ← stackCommand engine ("-stack-list-variables --thread ".toList ++ thread ++
        " --frame ".toList ++ position ++ " --simple-values".toList) missing
      ofExcept (frameDetail engine level row records)

end Stack

section Disassembly

structure Instruction where
  address : Option Text
  inst : Option Text
  funcName : Option Text
  offset : Option Int

structure Disassembly where
  instructions : List Instruction
  truncated : Bool

def resolveTarget (symbol : Option Text) (address : Option Int) : Op Nat :=
  match symbol, address with
  | some name, none => resolveSymbol engine name
  | none, some address =>
    if address < 0 ∨ address > 0xFFFFFFFFFFFFFFFF then
      raise (configError "address out of range".toList "bad_address"
        [detail "address" (.int address)])
    else pure address.toNat
  | symbol, address =>
    raise (configError "exactly one of symbol or address is required".toList "bad_target"
      [detail "symbol" ((symbol.map Value.text).getD .none),
        detail "address" ((address.map Value.int).getD .none)])

def maxInstructionBytes : Nat := 16

def isUnreadableMemory (e : CategorizedError) : Bool :=
  decide (e.category = .debugAttachFailure) && e.gdbMessage.any namesUnreadableMemory

/-- The window shrinks to half as long as gdb cannot read all of it. -/
def disassembleCommand (start span : Nat) (missing : CategorizedError) : Op (List MiRecord) :=
  except (executeMiCommand engine ("-data-disassemble -s ".toList ++ hex start ++ " -e ".toList ++
      hex (start + span) ++ " -- 0".toList))
    (fun e =>
      if !isUnreadableMemory e then raise e
      else if small : span ≤ maxInstructionBytes then raise missing
      else disassembleCommand start (max (span / 2) maxInstructionBytes) missing)
termination_by span
decreasing_by
  simp only [maxInstructionBytes] at small ⊢
  omega

def instructionFrom (payload : Dict) : Except Raised Instruction := do
  let offset ← miInt engine (Dict.get payload "offset")
  return { offset, address := isText (Dict.get payload "address"),
           inst := isText (Dict.get payload "inst"),
           funcName := isText (Dict.get payload "func-name") }

def redactInstruction (i : Instruction) : Instruction :=
  { i with address := i.address.map engine.redactText, inst := i.inst.map engine.redactText,
           funcName := i.funcName.map engine.redactText }

def noInstructions : CategorizedError :=
  attachFailure "gdb/MI returned no instructions" [code "no_instructions"]

def disassemblyOf (instructionCount : Nat) (records : List MiRecord) :
    Except Raised Disassembly := do
  let rows := disassemblyRows records
  if rows = [] then throw (.categorized noInstructions)
  let parsed ← rows.mapM (instructionFrom engine)
  return { instructions := (parsed.take instructionCount).map (redactInstruction engine),
           truncated := decide (parsed.length > instructionCount) }

def disassemble (symbol : Option Text) (address : Option Int) (instructionCount : Int) :
    Op Disassembly := do
  if instructionCount < 1 ∨ instructionCount > 256 then
    raise (configError "instruction_count must be between 1 and 256".toList "bad_instruction_count"
      [detail "instruction_count" (.int instructionCount)])
  else
    let start ← resolveTarget engine symbol address
    let records ← disassembleCommand engine start
      (instructionCount.toNat * maxInstructionBytes) noInstructions
    ofExcept (disassemblyOf engine instructionCount.toNat records)

end Disassembly

section Watchpoints

structure WatchpointRef where
  number : Text
  type : Option Text
  expr : Option Text
  addr : Option Text
  enabled : Option Bool

def watchByteSizes : List Int := [1, 2, 4, 8]

/-- `does not support\b.*watchpoint|cannot set hardware watchpoint`. -/
def namesNoWatchpoint (message : Text) : Bool :=
  let unsupported := message.tails.any (fun rest =>
    ((literal "does not support").splits rest).any (fun found =>
      !(found.2.head?.any engine.isWord) &&
        !((Regex.seq anything (literal "watchpoint")).splits found.2).isEmpty))
  unsupported || (literal "cannot set hardware watchpoint").search message

def watchpointCommand (command : Text) : Op (List MiRecord) :=
  except (executeMiCommand engine command) (fun e =>
    if e.category = .debugAttachFailure ∧ e.gdbMessage.any namesRunning then
      raise (inferiorRunning "gdb/MI cannot set the watchpoint while the inferior is running" command)
    else if e.category = .debugAttachFailure ∧ e.gdbMessage.any (namesNoWatchpoint engine) then
      raise (attachFailure "gdb/MI target cannot support the requested watchpoint"
        [code "watchpoint_unsupported", detail "command" (.text command)])
    else raise e)

def watchpointRefFrom (entry : Dict) : WatchpointRef :=
  let field := fun key => (isText (Dict.get entry key)).map engine.redactText
  { number := engine.redactText (numberText engine entry), type := field "type",
    expr := (field "exp").or (field "what"), addr := field "addr",
    enabled := (isText (Dict.get entry "enabled")).map (fun raw => decide (raw = "y".toList)) }

def watchpointRef (records : List MiRecord) : Except Raised WatchpointRef :=
  match Dict.get (resultPayloadDict records) "wpt" with
  | some (.dict entry) => .ok (watchpointRefFrom engine entry)
  | _ => .error (.categorized (attachFailure "gdb/MI -break-watch returned no watchpoint record"
      [code "no_watchpoint_record"]))

def setWatchpoint (symbol : Option Text) (address : Option Int) (byteCount : Int) :
    Op WatchpointRef := do
  if byteCount ∉ watchByteSizes then
    raise (configError "byte_count must be one of [1, 2, 4, 8]".toList "bad_byte_count"
      [detail "byte_count" (.int byteCount), detail "supported" (.list (watchByteSizes.map .int))])
  else
    let start ← resolveTarget engine symbol address
    let records ← watchpointCommand engine ("-break-watch *(char(*)[".toList ++
      decimal byteCount.toNat ++ "])".toList ++ hex start)
    ofExcept (watchpointRef engine records)

def isWatchpointRow (entry : Dict) : Bool :=
  (isText (Dict.get entry "type")).any (fun kind =>
    (Regex.word (fun c found : Char => found.toLower == c) "watchpoint".toList).search kind)

def listWatchpoints : Op (List WatchpointRef) := do
  let records ← executeMiCommand engine "-break-list".toList
  return ((breakpointRows records).filter isWatchpointRow).map (watchpointRefFrom engine)

def clearWatchpoint (number : Text) : Op Unit :=
  clearNumbered engine "watchpoint" "bad_watchpoint_id" number

def insertFailed (message : Text) : Option Text :=
  message.tails.findSome? (fun rest =>
    (Regex.groups [Regex.word (· == ·) "Could not insert hardware watchpoint ".toList,
      .some engine.isDecimal, .one (· == '.')] rest).bind (·[1]?))

def Dict.set (d : Dict) (key : String) (value : Value) : Dict :=
  if (Dict.get d key).isSome then
    d.map (fun field => if field.1 = key.toList then (field.1, value) else field)
  else d ++ [(key.toList, value)]

def watchpointInsertFailure (e : CategorizedError) (verb : Text) : Option CategorizedError :=
  if e.category ≠ .debugAttachFailure then none
  else (e.gdbMessage.bind (insertFailed engine)).map (fun number =>
    { message := "gdb/MI could not insert hardware watchpoint ".toList ++ number ++
        (" on resume: the target cannot insert a hardware watchpoint, or too many are armed; " ++
          "remove one with debug.clear_watchpoint (see debug.list_watchpoints), then retry").toList
      category := .debugAttachFailure
      details := Dict.set (Dict.set (Dict.set e.details "code"
        (.text "watchpoint_insert_failed".toList)) "verb" (.text verb)) "watchpoint" (.text number) })

end Watchpoints

section Modules

structure Module where
  name : Text
  baseAddress : Text
  symbolsLoaded : Bool
  identityVerified : Option Bool := none
  deriving DecidableEq

structure ModuleList where
  modules : List Module
  truncated : Bool
  decodeErrors : Nat
  deriving DecidableEq

structure ModuleDebuginfo where
  path : Text
  srcversion : Option Text
  buildId : Option Text

/-- A row of the walk: the name, the base and the address of the `struct module`. -/
abbrev ModuleRow := Text × Nat × Nat

def maxModules : Nat := 512

def moduleBaseFields : List String := ["mem[0].base", "core_layout.base"]

def evalCommand (expr : Text) : Text :=
  "-data-evaluate-expression \"".toList ++ expr ++ "\"".toList

def moduleField (modulePtr : Nat) (field : String) : Text :=
  "((struct module *)".toList ++ hex modulePtr ++ ")->".toList ++ field.toList

/-- Only what gdb answered counts as a field that cannot be decoded. -/
def decodeFailure {α : Type} (e : CategorizedError) : Op (Option α) :=
  if e.category ≠ .debugAttachFailure then raise e else pure none

def moduleWalkError (e : CategorizedError) : CategorizedError :=
  if e.gdbMessage.any namesRunning then
    attachFailure "gdb/MI cannot read the module list while the inferior is running"
      [code "inferior_running"]
  else attachFailure "gdb/MI could not read the kernel module list" [code "module_decode_failed"]

def moduleEvalRequired (expr : String) : Op Nat := do
  let records ← except (executeMiCommand engine (evalCommand expr.toList))
    (fun e => raise (moduleWalkError e))
  match (evaluateValue records).bind hexFrom with
  | some address => pure address
  | none => raise (attachFailure "gdb/MI returned no parseable module-list pointer"
      [code "module_decode_failed", detail "expr" (.text expr.toList)])

def evalDecoded {α : Type} (expr : Text) (decode : Text → Option α) : Op (Option α) :=
  except (do
    let records ← executeMiCommand engine (evalCommand expr)
    return (evaluateValue records).bind decode) decodeFailure

def moduleEvalOptional (expr : Text) : Op (Option Nat) := evalDecoded engine expr hexFrom

def quotedText (value : Text) : Option Text := (quoted value).filter (fun t => !t.isEmpty)

def moduleTextField (modulePtr : Nat) (field : String) : Op (Option Text) :=
  evalDecoded engine (moduleField modulePtr field) quotedText

def moduleName (modulePtr : Nat) : Op (Option Text) := moduleTextField engine modulePtr "name"

def firstBase (modulePtr : Nat) : List String → Op (Option Nat × String)
  | [] => raise (attachFailure "gdb/MI could not read any known module base-address field"
      [code "module_decode_failed", detail "fields"
        (.list (moduleBaseFields.map (fun field => .text field.toList)))])
  | candidate :: rest => do
    match ← moduleEvalOptional engine (moduleField modulePtr candidate) with
    | some base => pure (some base, candidate)
    | none => firstBase modulePtr rest

def moduleBase (modulePtr : Nat) (baseField : String) : Op (Option Nat × String) := do
  if baseField ≠ "" then
    let base ← moduleEvalOptional engine (moduleField modulePtr baseField)
    pure (base, baseField)
  else firstBase engine modulePtr moduleBaseFields

structure Walk where
  rows : List ModuleRow := []
  truncated : Bool := false
  decodeErrors : Nat := 0

def Walk.add (walk : Walk) (name : Option Text) (base : Option Nat) (modulePtr : Nat) : Walk :=
  match name, base with
  | some name, some base => { walk with rows := walk.rows ++ [(name, base, modulePtr)] }
  | _, _ => { walk with decodeErrors := walk.decodeErrors + 1 }

/-- `left` modules may still be read. -/
def moduleWalkFrom (offset head : Nat) : Nat → Nat → String → Walk → Op Walk
  | 0, node, _, walk => pure { walk with truncated := decide (node ≠ head) }
  | left + 1, node, baseField, walk => do
    if node = head then pure walk
    else
      let modulePtr := (((node : Int) - offset) % 2 ^ 64).toNat
      let name ← moduleName engine modulePtr
      let (base, baseField) ← moduleBase engine modulePtr baseField
      let walk := walk.add name base modulePtr
      match ← moduleEvalOptional engine
        ("((struct list_head *)".toList ++ hex node ++ ")->next".toList) with
      | none => pure walk
      | some next =>
        if next = node then pure walk else moduleWalkFrom offset head left next baseField walk

def moduleWalk (limit : Nat) : Op Walk := do
  let offset ← moduleEvalRequired engine "&((struct module *)0)->list"
  let head ← moduleEvalRequired engine "&modules"
  let node ← moduleEvalRequired engine "modules.next"
  moduleWalkFrom engine offset head limit node "" {}

def redactModule (m : Module) : Module :=
  { m with name := engine.redactText m.name, baseAddress := engine.redactText m.baseAddress }

def listModules (limit : Int) : Op ModuleList := do
  let walk ← moduleWalk engine limit.toNat
  let attachment ← get
  return { modules := walk.rows.map (fun row => redactModule engine
             { name := row.1, baseAddress := hex row.2.1,
               symbolsLoaded := decide (row.1 ∈ attachment.loadedModules) })
           truncated := walk.truncated
           decodeErrors := walk.decodeErrors }

def moduleLocate (name : Text) : Op (Option (Nat × Nat)) := do
  let walk ← moduleWalk engine maxModules
  return (walk.rows.find? (·.1 == name)).map Prod.snd

def moduleBuildId (modulePtr : Nat) : Op (Option Text) := do
  match ← moduleEvalOptional engine ("&".toList ++ moduleField modulePtr "build_id") with
  | none => pure none
  | some address =>
    let blob ← except (some <$> readMemory engine address 20) decodeFailure
    return blob.map (fun bytes => bytes.flatMap (fun byte =>
      [Nat.digitChar (byte.toNat / 16), Nat.digitChar (byte.toNat % 16)]))

def identityMatch (name : Text) (ok : Bool) : Op Bool := do
  if ok then pure true
  else raise { message := "the artifact .ko for ".toList ++ engine.repr name ++
                 " does not match the running module's identity".toList
               category := .debugAttachFailure
               details := [code "module_binary_mismatch", detail "module" (.text name)] }

def verifyBuildId (name : Text) (modulePtr : Nat) (info : ModuleDebuginfo) : Op Bool := do
  match ← moduleBuildId engine modulePtr, info.buildId with
  | some live, some buildId => identityMatch engine name (buildId.isPrefixOf live)
  | _, _ => pure false

def verifyIdentity (name : Text) (modulePtr : Nat) (info : ModuleDebuginfo) : Op Bool := do
  match ← moduleTextField engine modulePtr "srcversion", info.srcversion with
  | some live, some srcversion => identityMatch engine name (decide (live = srcversion))
  | _, _ => verifyBuildId engine name modulePtr info

def miPath (path : Text) : Except Raised Text :=
  if path.any (fun c => c == '\t' || c == '\r' || c == '\n') then
    .error (.categorized (configError "vmlinux path must not contain control whitespace".toList
      "bad_vmlinux_path" []))
  else
    let doubled := path.flatMap (fun c => if c == '\\' then [c, c] else [c])
    .ok (doubled.flatMap (fun c => if c == ' ' then ['\\', c] else [c]))

def addSymbolFile (name path : Text) (base : Nat) : Op Unit := do
  let text ← ofExcept (miPath path)
  if '"' ∈ text then
    raise (configError "staged module path is not safely quotable".toList "add_symbol_failed" [])
  else
    let _ ← except (executeMiCommand engine
      ("-interpreter-exec console \"add-symbol-file ".toList ++ text ++ " ".toList ++ hex base ++
        "\"".toList))
      (fun _ => raise
        { message := "gdb/MI add-symbol-file failed for ".toList ++ engine.repr name
          category := .debugAttachFailure
          details := [code "add_symbol_failed", detail "module" (.text name)] })

def moduleError (message : Text) (details : Dict) : CategorizedError :=
  { message, category := .debugAttachFailure, details }

/-- `resolved` is what the resolver of module debuginfo answers. -/
def loadModuleSymbols (resolved : Except CategorizedError ModuleDebuginfo) (name : Text)
    (expectedBase : Option Nat) : Op Module := do
  if !isModuleName name then
    raise (configError ("module name must be a bare identifier, got ".toList ++ engine.repr name)
      "bad_module_name" [detail "module" (.text name)])
  else match ← moduleLocate engine name with
    | none => raise (moduleError ("module ".toList ++ engine.repr name ++
        " is not in the live module list (unloaded or never loaded)".toList)
        [code "module_not_loaded", detail "module" (.text name)])
    | some (base, modulePtr) =>
      if expectedBase.any (· != base) then
        raise (moduleError ("module ".toList ++ engine.repr name ++
          " base changed since listing (reloaded); refusing a stale load".toList)
          [code "stale_module_address", detail "module" (.text name),
            detail "current_base" (.int base)])
      else if name ∈ (← get).loadedModules then
        pure (redactModule engine { name, baseAddress := hex base, symbolsLoaded := true })
      else
        match resolved with
        | .error e => raise e
        | .ok info =>
          let verified ← verifyIdentity engine name modulePtr info
          addSymbolFile engine name info.path base
          modify (fun a => { a with loadedModules := name :: a.loadedModules })
          pure (redactModule engine
            { name, baseAddress := hex base, symbolsLoaded := true, identityVerified := verified })

end Modules

end Kdive.Debug
