import Kdive.Domain
import Kdive.Console.Redaction
import Kdive.Lib.Hex

/-!
The gdb/MI records as the engine reads them: the parsed payloads, the helpers that look into them,
and the errors the operations raise.
-/
namespace Kdive.Debug
open Console (Text Bytes literal)

inductive Value where
  | none
  | int (n : Int)
  | text (t : Text)
  | list (items : List Value)
  | dict (fields : List (Text × Value))

abbrev Dict := List (Text × Value)

def Dict.get (d : Dict) (key : String) : Option Value := d.lookup key.toList

def isText : Option Value → Option Text
  | some (.text t) => some t
  | _ => none

/-- A raw record of pygdbmi. gdb knows five classes of results; everything else it says out of
band. -/
inductive ResultClass where
  | done | running | connected | error | exit
  deriving DecidableEq

inductive NoticeType where
  | notify | console | log | target | output
  deriving DecidableEq

inductive GdbRecord where
  | result (kind : ResultClass) (payload : Option Value)
  | notice (kind : NoticeType) (message : Option Text) (payload : Option Value)

def GdbRecord.isReply : GdbRecord → Bool
  | .result _ _ => true
  | .notice _ _ _ => false

def ResultClass.text : ResultClass → Text
  | .done => "done".toList
  | .running => "running".toList
  | .connected => "connected".toList
  | .error => "error".toList
  | .exit => "exit".toList

def NoticeType.text : NoticeType → Text
  | .notify => "notify".toList
  | .console => "console".toList
  | .log => "log".toList
  | .target => "target".toList
  | .output => "output".toList

/-- The token of a record is parsed too, but no command carries one and nothing reads it. -/
structure MiRecord where
  type : Text
  message : Option Text
  payload : Option Value

def MiRecord.fromRaw : GdbRecord → MiRecord
  | .result kind payload => ⟨"result".toList, some kind.text, payload⟩
  | .notice kind message payload => ⟨kind.text, message, payload⟩

def MiRecord.firstResult (records : List MiRecord) : Option MiRecord :=
  records.find? (fun record => record.type == "result".toList)

def payloadDict : Option Value → Dict
  | some (.dict fields) => fields
  | _ => []

def payloadList : Option Value → List Value
  | some (.list items) => items
  | _ => []

def dictRows (value : Option Value) : List Dict :=
  (payloadList value).filterMap (fun row => match row with
    | .dict fields => some fields
    | _ => none)

def resultPayloadDict (records : List MiRecord) : Dict :=
  match MiRecord.firstResult records with
  | some result => payloadDict result.payload
  | none => []

def breakpointRows (records : List MiRecord) : List Dict :=
  let table := payloadDict (Dict.get (resultPayloadDict records) "BreakpointTable")
  (dictRows (Dict.get table "body")).filterMap (fun row =>
    match Dict.get row "bkpt" with
    | some (.dict entry) => some entry
    | _ => if (Dict.get row "number").isSome then some row else none)

def stackFrames (records : List MiRecord) : List Dict :=
  (dictRows (Dict.get (resultPayloadDict records) "stack")).map (fun row =>
    match Dict.get row "frame" with
    | some (.dict entry) => entry
    | _ => row)

def frameVariables (records : List MiRecord) : Option (List Dict) :=
  match Dict.get (resultPayloadDict records) "variables" with
  | some (.list items) => some (dictRows (some (.list items)))
  | _ => none

def disassemblyRows (records : List MiRecord) : List Dict :=
  dictRows (Dict.get (resultPayloadDict records) "asm_insns")

def registerNames (records : List MiRecord) : List Text :=
  (payloadList (Dict.get (resultPayloadDict records) "register-names")).filterMap
    (fun name => isText (some name))

def registerValuesByNumber (records : List MiRecord) : Dict :=
  ((dictRows (Dict.get (resultPayloadDict records) "register-values")).filterMap (fun row =>
    (isText (Dict.get row "number")).map (fun number =>
      (number, (Dict.get row "value").getD .none)))).reverse

def memorySegments (records : List MiRecord) : List Dict :=
  dictRows (Dict.get (resultPayloadDict records) "memory")

def evaluateValue (records : List MiRecord) : Option Text :=
  isText (Dict.get (resultPayloadDict records) "value")

section Text

def hex (n : Nat) : Text := "0x".toList ++ Nat.toDigits 16 n

def decimal (n : Nat) : Text := Nat.toDigits 10 n

def isHexDigit (c : Char) : Bool := (Hex.digit c).isSome

def hexFrom (value : Text) : Option Nat := do
  let found ← value.tails.findSome? (fun rest =>
    (Regex.groups [Regex.word (· == ·) "0x".toList, .some isHexDigit] rest).bind (·[1]?))
  return found.foldl (fun n c => 16 * n + (Hex.digit c).getD 0) 0

def quoted (value : Text) : Option Text :=
  let quote : Regex Char := .one (· == '"')
  value.tails.findSome? (fun rest =>
    (Regex.groups [quote, .many (· != '"'), quote] rest).bind (·[1]?))

def isAsciiLetter (c : Char) : Bool := c.isAlpha

def identifier (first rest : Char → Bool) : Text → Bool
  | [] => false
  | c :: text =>
    let body := if text.getLast? = some '\n' then text.dropLast else text
    first c && body.all rest

def isName (name : Text) : Bool :=
  identifier (fun c => isAsciiLetter c || c == '_')
    (fun c => isAsciiLetter c || c.isDigit || c == '_') name

def isNumber (number : Text) : Bool := identifier Char.isDigit Char.isDigit number

def isModuleName (name : Text) : Bool :=
  let letter := fun c : Char => isAsciiLetter c || c.isDigit || c == '_'
  identifier letter letter name

def isRegister (name : Text) : Bool :=
  identifier isAsciiLetter (fun c => isAsciiLetter c || c.isDigit || c == '_') name

def anything : Regex Char := .many (· != '\n')

def namesRunning (message : Text) : Bool := (literal "running").search message

def namesMissingSymbol (message : Text) : Bool :=
  (Regex.alt (.seq (literal "no symbol ") (.seq anything (literal " in current context")))
    (literal "address of value not located in memory")).search message

def namesMissingStack (message : Text) : Bool :=
  (Regex.alt (.seq (literal "no ") (.alt (literal "stack") (literal "frame")))
    (literal "not enough frames")).search message

def namesUnreadableMemory (message : Text) : Bool :=
  (literal "cannot access memory").search message

end Text

structure CategorizedError where
  message : Text
  category : ErrorCategory
  details : Dict := []

inductive Raised where
  | categorized (error : CategorizedError)
  | valueError

def code (name : String) : Text × Value := ("code".toList, .text name.toList)

def detail (key : String) (value : Value) : Text × Value := (key.toList, value)

def configError (message : Text) (name : String) (details : Dict) : CategorizedError :=
  { message, category := .configurationError, details := code name :: details }

def attachFailure (message : String) (details : Dict) : CategorizedError :=
  { message := message.toList, category := .debugAttachFailure, details }

def CategorizedError.gdbMessage (e : CategorizedError) : Option Text :=
  match Dict.get e.details "payload" with
  | some (.dict payload) => isText (Dict.get payload "msg")
  | _ => none

end Kdive.Debug
