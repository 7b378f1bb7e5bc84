import Kdive.Debug.Execution
import Kdive.Lib.Raises

/-!
The operations that look at a halted guest, seen as what they are put together from: commands of
which none resumes the guest, and steps that say nothing and leave the execution of the attachment
alone. What holds of the parts and is kept by putting them together holds of every such operation.
An error that none of its commands has met comes of the operation itself, and tells neither of a
stalled link nor of a running guest.
-/
namespace Kdive.Debug
open Console (Text Bytes)
open Raises (Only only_ok only_error only_bind only_ite)

variable (engine : Engine)

section Parts

variable {α β : Type}

def Looks (command : Text) : Prop := 6 ≤ command.length ∧ command.take 6 ≠ "-exec-".toList

instance (command : Text) : Decidable (Looks command) := inferInstanceAs (Decidable (_ ∧ _))

theorem Looks.append {command : Text} (looks : Looks command) (more : Text) :
    Looks (command ++ more) := by
  refine ⟨?_, ?_⟩
  · rw [List.length_append]
    exact looks.1.trans (Nat.le_add_right _ _)
  · rw [List.take_append_of_le_length looks.1]
    exact looks.2

def Says : Raised → Prop
  | .categorized e => isText (Dict.get e.details "code") = some "transport_stall".toList ∨
      isText (Dict.get e.details "code") = some "inferior_running".toList
  | .valueError => False

instance : DecidablePred Says
  | .categorized _ => inferInstanceAs (Decidable (_ ∨ _))
  | .valueError => inferInstanceAs (Decidable False)

abbrev Unsaid (e : Raised) : Prop := ¬ Says e

/-- `P` holds of the errors that the operation raises of its own accord: what it makes of a command
that failed is not among them. -/
inductive Built : (Raised → Prop) → {α : Type} → Op α → Prop where
  | pure {P : Raised → Prop} {α : Type} (a : α) : Built P (pure a)
  | throw {P : Raised → Prop} {α : Type} (e : Raised) (own : P e) : Built P (throw e : Op α)
  | get {P : Raised → Prop} : Built P (get : Op Attachment)
  | modify {P : Raised → Prop} (f : Attachment → Attachment)
      (kept : ∀ a, (f a).execution = a.execution) : Built P (modify f : Op Unit)
  | command {P : Raised → Prop} (command : Text) (looks : Looks command) :
      Built P (executeMiCommand engine command)
  | bind {P : Raised → Prop} {α β : Type} {op : Op α} {k : α → Op β} (first : Built P op)
      (second : ∀ a, Built P (k a)) : Built P (op >>= k)
  | except {P R : Raised → Prop} {α : Type} {op : Op α} {handler : CategorizedError → Op α}
      (first : Built R op) (passed : R .valueError → P .valueError)
      (second : ∀ e, R (.categorized e) → Built P (handler e))
      (failed : ∀ e, Built (fun _ => True) (handler e)) : Built P (except op handler)
  | rescued {P : Raised → Prop} {handler : CategorizedError → Op (List MiRecord)} (command : Text)
      (looks : Looks command) (failed : ∀ e, Built (fun _ => True) (handler e)) :
      Built P (except (executeMiCommand engine command) handler)

variable {engine} {P Q : Raised → Prop}

theorem Built.mono {op : Op α} (built : Built engine P op) (wider : ∀ e, P e → Q e) :
    Built engine Q op := by
  induction built with
  | pure a => exact .pure a
  | throw e own => exact .throw e (wider e own)
  | get => exact .get
  | modify f kept => exact .modify f kept
  | command command looks => exact .command command looks
  | bind first second ihFirst ihSecond =>
    exact .bind (ihFirst wider) (fun a => ihSecond a wider)
  | except first passed second failed _ ihSecond _ =>
    exact .except first (fun raised => wider _ (passed raised))
      (fun e raised => ihSecond e raised wider) failed
  | rescued command looks failed _ => exact .rescued command looks failed

theorem unsaid_of_code {e : CategorizedError} {name : String} {others : Dict}
    (details : e.details = code name :: others)
    (other : name ≠ "transport_stall" ∧ name ≠ "inferior_running") : Unsaid (.categorized e) := by
  have named : isText (Dict.get e.details "code") = some name.toList := by
    rw [details, Dict.get, code, List.lookup_cons_self]
    rfl
  rintro (told | told)
  · exact other.1 (String.toList_inj.mp (Option.some.inj (named.symm.trans told)))
  · exact other.2 (String.toList_inj.mp (Option.some.inj (named.symm.trans told)))

theorem built_raise {e : CategorizedError} (own : P (.categorized e)) :
    Built engine P (raise e : Op α) := .throw _ own

/-- After a command that failed an operation may raise what it likes. -/
theorem built_anyway (e : CategorizedError) : Built engine (fun _ => True) (raise e : Op α) :=
  .throw _ trivial

theorem built_coded {e : CategorizedError} {name : String} {others : Dict}
    (details : e.details = code name :: others)
    (other : name ≠ "transport_stall" ∧ name ≠ "inferior_running") :
    Built engine Unsaid (raise e : Op α) := .throw _ (unsaid_of_code details other)

theorem built_ofExcept {value : Except Raised α} (own : Only P value) :
    Built engine P (ofExcept value) := by
  cases value with
  | ok a => exact .pure a
  | error e => exact .throw e (own e rfl)

theorem built_map {op : Op α} (f : α → β) (first : Built engine P op) : Built engine P (f <$> op) :=
  .bind first (fun a => .pure (f a))

theorem built_ite {c : Prop} [Decidable c] {op op' : Op α} (first : c → Built engine P op)
    (second : ¬c → Built engine P op') : Built engine P (if c then op else op') := by
  split
  · exact first ‹c›
  · exact second ‹¬ c›

theorem built_decoded {op : Op (List MiRecord)} (command : Built engine P op)
    {decode : List MiRecord → Except Raised α} (own : ∀ records, Only P (decode records)) :
    Built engine P (do let records ← op; ofExcept (decode records)) :=
  .bind command (fun records => built_ofExcept (own records))

theorem built_narrowed {command : Text} (looks : Looks command) {c d : CategorizedError → Prop}
    [∀ e, Decidable (c e)] [∀ e, Decidable (d e)] (first second : CategorizedError) :
    Built engine P (except (executeMiCommand engine command) (fun e =>
      if c e then raise first else if d e then raise second else raise e)) := by
  apply Built.rescued _ looks
  intro e
  apply built_ite (fun _ => built_anyway _)
  intro _
  exact built_ite (fun _ => built_anyway _) (fun _ => built_anyway _)

end Parts

section Decoding

variable {α β : Type}

theorem unsaid_coded {e : CategorizedError} {name : String} {others : Dict}
    (details : e.details = code name :: others)
    (other : name ≠ "transport_stall" ∧ name ≠ "inferior_running") :
    Only Unsaid (.error (.categorized e) : Except Raised α) :=
  only_error (unsaid_of_code details other)

theorem unsaid_mapM {f : α → Except Raised β} (each : ∀ a, Only Unsaid (f a)) (rows : List α) :
    Only Unsaid (rows.mapM f) := by
  induction rows with
  | nil => exact only_ok _
  | cons row rows ih =>
    rw [List.mapM_cons]
    exact only_bind (each row) (fun _ _ => only_bind ih (fun _ _ => only_ok _))

theorem unsaid_memoryBlob (address byteCount : Int) (records : List MiRecord) :
    Only Unsaid (memoryBlob engine address byteCount records) := by
  rw [memoryBlob]
  split
  · exact unsaid_coded rfl (by decide)
  · exact only_ite (fun _ => unsaid_coded rfl (by decide)) (fun _ => only_ok _)

theorem unsaid_symbolAddress (name : Text) (records : List MiRecord) :
    Only Unsaid (symbolAddress engine name records) := by
  rw [symbolAddress]
  split
  · exact only_ok _
  · exact unsaid_coded rfl (by decide)

theorem unsaid_breakpointRef (records : List MiRecord) :
    Only Unsaid (breakpointRef engine "bkpt" records) := by
  rw [breakpointRef]
  split
  · exact only_ok _
  · exact only_error (by decide : Unsaid (.categorized ⟨[], .debugAttachFailure, [detail "command_key"
      (.text "bkpt".toList)]⟩))

theorem unsaid_requestedRegisters (requested : List Text) (names values : List MiRecord) :
    Only Unsaid (requestedRegisters engine requested names values) :=
  only_ite (fun _ => unsaid_coded rfl (by decide)) (fun _ => only_ok _)

theorem unsaid_miInt (value : Option Value) : Only Unsaid (miInt engine value) := by
  rw [miInt]
  split
  · exact only_ok _
  · refine only_ite (fun _ => ?_) (fun _ => only_ok _)
    split
    · exact only_ok _
    · exact only_error id

theorem unsaid_frameFrom (payload : Dict) : Only Unsaid (frameFrom engine payload) :=
  only_bind (unsaid_miInt engine _) (fun _ _ => only_bind (unsaid_miInt engine _) (fun _ _ => only_ok _))

theorem unsaid_backtraceOf (maxFrames : Int) (records : List MiRecord) :
    Only Unsaid (backtraceOf engine maxFrames records) := by
  have read (pack : List Frame → Backtrace) :
      Only Unsaid (((stackFrames records).mapM (frameFrom engine)).bind fun parsed => .ok (pack parsed)) :=
    only_bind (unsaid_mapM (unsaid_frameFrom engine) _) (fun _ _ => only_ok _)
  exact only_ite (fun _ => unsaid_coded (e := noFrames) rfl (by decide)) (fun _ => read _)

theorem unsaid_threadOf (records : List MiRecord) : Only Unsaid (threadOf engine records) := by
  rw [threadOf]
  split
  · exact only_ite (fun _ => only_ok _) (fun _ => unsaid_coded rfl (by decide))
  · exact unsaid_coded rfl (by decide)

theorem unsaid_frameDetail (level : Int) (row : Dict) (records : List MiRecord) :
    Only Unsaid (frameDetail engine level row records) := by
  rw [frameDetail]
  split
  · exact unsaid_coded rfl (by decide)
  · exact only_bind (unsaid_frameFrom engine row) (fun _ _ => only_ok _)

theorem unsaid_disassemblyOf (count : Nat) (records : List MiRecord) :
    Only Unsaid (disassemblyOf engine count records) := by
  have one (payload : Dict) : Only Unsaid (instructionFrom engine payload) :=
    only_bind (unsaid_miInt engine _) (fun _ _ => only_ok _)
  have read (pack : List Instruction → Disassembly) : Only Unsaid
      (((disassemblyRows records).mapM (instructionFrom engine)).bind fun parsed => .ok (pack parsed)) :=
    only_bind (unsaid_mapM one _) (fun _ _ => only_ok _)
  exact only_ite (fun _ => unsaid_coded (e := noInstructions) rfl (by decide)) (fun _ => read _)

theorem unsaid_watchpointRef (records : List MiRecord) : Only Unsaid (watchpointRef engine records) := by
  rw [watchpointRef]
  split
  · exact only_ok _
  · exact unsaid_coded rfl (by decide)

theorem unsaid_miPath (path : Text) : Only Unsaid (miPath path) :=
  only_ite (fun _ => unsaid_coded rfl (by decide)) (fun _ => only_ok _)

end Decoding

section Commands

theorem built_readMemory (address byteCount : Int) :
    Built engine Unsaid (readMemory engine address byteCount) := by
  unfold readMemory
  apply built_ite (fun _ => built_coded rfl (by decide))
  intro _
  apply built_ite (fun _ => built_coded rfl (by decide))
  intro _
  exact built_decoded (Built.command _ (.append (.append (.append (by decide) _) _) _))
    (unsaid_memoryBlob engine address byteCount)

theorem built_resolveSymbol (name : Text) : Built engine Unsaid (resolveSymbol engine name) := by
  unfold resolveSymbol
  apply built_ite (fun _ => built_coded rfl (by decide))
  intro _
  refine built_decoded (Built.rescued _ (.append (by decide) _) ?_) (unsaid_symbolAddress engine name)
  intro e
  exact built_ite (fun _ => built_anyway _) (fun _ => built_anyway _)

theorem built_setBreakpoint (location : Text) : Built engine Unsaid (setBreakpoint engine location) := by
  unfold setBreakpoint
  apply built_ite (fun _ => built_coded rfl (by decide))
  intro _
  exact built_decoded (Built.command _ (.append (by decide) _)) (unsaid_breakpointRef engine)

theorem built_clearNumbered {what name : String} (number : Text)
    (other : name ≠ "transport_stall" ∧ name ≠ "inferior_running") :
    Built engine Unsaid (clearNumbered engine what name number) := by
  unfold clearNumbered
  apply built_ite (fun _ => built_coded rfl other)
  intro _
  apply Built.bind (Built.command _ (.append (by decide) _))
  intro _
  exact .pure _

theorem built_listBreakpoints : Built engine Unsaid (listBreakpoints engine) := by
  unfold listBreakpoints
  apply Built.bind (Built.command _ (by decide))
  intro records
  exact .pure _

theorem built_readRegisters (names : List Text) : Built engine Unsaid (readRegisters engine names) := by
  unfold readRegisters
  apply built_ite (fun _ => built_coded rfl (by decide))
  intro _
  split
  · exact built_coded rfl (by decide)
  · apply Built.bind (Built.command _ (by decide))
    intro known
    exact built_decoded (Built.command _ (by decide)) (unsaid_requestedRegisters engine names known)

theorem built_backtrace (maxFrames : Int) : Built engine Unsaid (backtrace engine maxFrames) := by
  unfold backtrace
  apply built_ite (fun _ => built_coded rfl (by decide))
  intro _
  exact built_decoded (built_narrowed (by decide) _ _) (unsaid_backtraceOf engine maxFrames)

theorem built_readFrame (level : Int) : Built engine Unsaid (readFrame engine level) := by
  unfold readFrame
  apply built_ite (fun _ => built_coded rfl (by decide))
  intro _
  apply Built.bind (built_narrowed (.append (.append (.append (by decide) _) _) _) _ _)
  intro records
  dsimp only
  split
  · exact built_coded rfl (by decide)
  · apply Built.bind (built_decoded (Built.command _ (by decide)) (unsaid_threadOf engine))
    intro thread
    exact built_decoded (built_narrowed (.append (.append (.append (.append (by decide) _) _) _) _) _ _)
      (unsaid_frameDetail engine level _)

theorem built_resolveTarget (symbol : Option Text) (address : Option Int) :
    Built engine Unsaid (resolveTarget engine symbol address) := by
  unfold resolveTarget
  split
  · exact built_resolveSymbol engine _
  · exact built_ite (fun _ => built_coded rfl (by decide)) (fun _ => .pure _)
  · exact built_coded rfl (by decide)

theorem built_disassembleCommand (start span : Nat) (missing : CategorizedError) :
    Built engine P (disassembleCommand engine start span missing) := by
  induction span using Nat.strong_induction_on generalizing P with
  | _ span ih =>
    unfold disassembleCommand
    apply Built.rescued _ (.append (.append (.append (.append (by decide) _) _) _) _)
    intro e
    apply built_ite (fun _ => built_anyway _)
    intro _
    split
    · exact built_anyway _
    · rename_i large
      apply ih
      simp only [maxInstructionBytes] at large ⊢
      omega

theorem built_disassemble (symbol : Option Text) (address : Option Int) (count : Int) :
    Built engine Unsaid (disassemble engine symbol address count) := by
  unfold disassemble
  apply built_ite (fun _ => built_coded rfl (by decide))
  intro _
  apply Built.bind (built_resolveTarget engine symbol address)
  intro start
  exact built_decoded (built_disassembleCommand engine _ _ _) (unsaid_disassemblyOf engine _)

theorem built_setWatchpoint (symbol : Option Text) (address : Option Int) (byteCount : Int) :
    Built engine Unsaid (setWatchpoint engine symbol address byteCount) := by
  unfold setWatchpoint
  apply built_ite (fun _ => built_coded rfl (by decide))
  intro _
  apply Built.bind (built_resolveTarget engine symbol address)
  intro start
  exact built_decoded (built_narrowed (.append (.append (.append (by decide) _) _) _) _ _)
    (unsaid_watchpointRef engine)

theorem built_listWatchpoints : Built engine Unsaid (listWatchpoints engine) := by
  unfold listWatchpoints
  apply Built.bind (Built.command _ (by decide))
  intro records
  exact .pure _

end Commands

section Modules

theorem built_decodeFailure {α : Type} {e : CategorizedError} (own : P (.categorized e)) :
    Built engine P (decodeFailure e : Op (Option α)) :=
  built_ite (fun _ => built_raise own) (fun _ => .pure _)

theorem built_moduleEvalRequired (expr : String) :
    Built engine Unsaid (moduleEvalRequired engine expr) := by
  unfold moduleEvalRequired
  apply Built.bind (Built.rescued _ (.append (.append (by decide) _) _) (fun e => built_anyway _))
  intro records
  split
  · exact .pure _
  · exact built_coded rfl (by decide)

theorem built_evalDecoded {α : Type} (expr : Text) (decode : Text → Option α) :
    Built engine Unsaid (evalDecoded engine expr decode) := by
  unfold evalDecoded
  refine Built.except (R := Unsaid) ?_ id (fun _ => built_decodeFailure engine)
    (fun _ => built_decodeFailure engine trivial)
  apply Built.bind (Built.command _ (.append (.append (by decide) _) _))
  intro records
  exact .pure _

theorem built_firstBase (modulePtr : Nat) (candidates : List String) :
    Built engine Unsaid (firstBase engine modulePtr candidates) := by
  induction candidates with
  | nil => exact built_coded rfl (by decide)
  | cons candidate rest ih =>
    unfold firstBase
    apply Built.bind (built_evalDecoded engine _ _)
    intro base
    cases base with
    | none => exact ih
    | some base => exact .pure _

theorem built_moduleBase (modulePtr : Nat) (baseField : String) :
    Built engine Unsaid (moduleBase engine modulePtr baseField) := by
  unfold moduleBase
  apply built_ite
  · intro _
    apply Built.bind (built_evalDecoded engine _ _)
    intro base
    exact .pure _
  · intro _
    exact built_firstBase engine _ _

theorem built_moduleWalkFrom (offset head left node : Nat) (baseField : String) (walk : Walk) :
    Built engine Unsaid (moduleWalkFrom engine offset head left node baseField walk) := by
  induction left generalizing node baseField walk with
  | zero => exact .pure _
  | succ left ih =>
    unfold moduleWalkFrom
    apply built_ite (fun _ => .pure _)
    intro _
    apply Built.bind (built_evalDecoded engine _ _)
    intro name
    apply Built.bind (built_moduleBase engine _ _)
    intro base
    apply Built.bind (built_evalDecoded engine _ _)
    intro next
    cases next with
    | none => exact .pure _
    | some next => exact built_ite (fun _ => .pure _) (fun _ => ih next _ _)

theorem built_moduleWalk (limit : Nat) : Built engine Unsaid (moduleWalk engine limit) := by
  unfold moduleWalk
  apply Built.bind (built_moduleEvalRequired engine _)
  intro offset
  apply Built.bind (built_moduleEvalRequired engine _)
  intro head
  apply Built.bind (built_moduleEvalRequired engine _)
  intro node
  exact built_moduleWalkFrom engine _ _ _ _ _ _

theorem built_listModules (limit : Int) : Built engine Unsaid (listModules engine limit) := by
  unfold listModules
  apply Built.bind (built_moduleWalk engine _)
  intro walk
  apply Built.bind Built.get
  intro attachment
  exact .pure _

theorem built_identityMatch (name : Text) (ok : Bool) : Built engine Unsaid (identityMatch engine name ok) :=
  built_ite (fun _ => .pure _) (fun _ => built_coded rfl (by decide))

theorem built_moduleBuildId (modulePtr : Nat) : Built engine Unsaid (moduleBuildId engine modulePtr) := by
  unfold moduleBuildId
  apply Built.bind (built_evalDecoded engine _ _)
  intro address
  cases address with
  | none => exact .pure _
  | some address =>
    apply Built.bind
    · exact Built.except (built_map _ (built_readMemory engine _ _)) id
        (fun _ => built_decodeFailure engine) (fun _ => built_decodeFailure engine trivial)
    · intro blob
      exact .pure _

theorem built_verifyIdentity (name : Text) (modulePtr : Nat) (info : ModuleDebuginfo) :
    Built engine Unsaid (verifyIdentity engine name modulePtr info) := by
  unfold verifyIdentity
  apply Built.bind (built_evalDecoded engine _ _)
  intro live
  split
  · exact built_identityMatch engine _ _
  · unfold verifyBuildId
    apply Built.bind (built_moduleBuildId engine _)
    intro buildId
    split
    · exact built_identityMatch engine _ _
    · exact .pure _

theorem built_addSymbolFile (name path : Text) (base : Nat) :
    Built engine Unsaid (addSymbolFile engine name path base) := by
  unfold addSymbolFile
  apply Built.bind (built_ofExcept (unsaid_miPath path))
  intro text
  apply built_ite (fun _ => built_coded rfl (by decide))
  intro _
  apply Built.bind (Built.rescued _ (.append (.append (.append (.append (by decide) _) _) _) _)
    (fun e => built_anyway _))
  intro _
  exact .pure _

theorem built_loadModuleSymbols (resolved : Except CategorizedError ModuleDebuginfo) (name : Text)
    (expectedBase : Option Nat) :
    Built engine (fun e => Unsaid e ∨ ∃ error, resolved = .error error ∧ e = .categorized error)
      (loadModuleSymbols engine resolved name expectedBase) := by
  have own {α : Type} {op : Op α} (built : Built engine Unsaid op) :
      Built engine (fun e => Unsaid e ∨ ∃ error, resolved = .error error ∧ e = .categorized error) op :=
    built.mono (fun _ => .inl)
  unfold loadModuleSymbols
  apply built_ite (fun _ => own (built_coded rfl (by decide)))
  intro _
  apply Built.bind
  · unfold moduleLocate
    apply Built.bind (own (built_moduleWalk engine _))
    intro walk
    exact .pure _
  · intro located
    cases located with
    | none => exact own (built_coded rfl (by decide))
    | some located =>
      apply built_ite (fun _ => own (built_coded rfl (by decide)))
      intro _
      apply Built.bind Built.get
      intro attachment
      apply built_ite (fun _ => .pure _)
      intro _
      cases resolved with
      | error e => exact built_raise (.inr ⟨e, rfl, rfl⟩)
      | ok info =>
        apply Built.bind (own (built_verifyIdentity engine _ _ _))
        intro verified
        apply Built.bind (own (built_addSymbolFile engine _ _ _))
        intro _
        refine Built.bind (.modify _ (fun _ => rfl)) ?_
        intro _
        exact .pure _

end Modules

section Looking

def Operation.looks : Operation → Bool
  | .resume _ _ => false
  | .continueBackground => false
  | .interrupt => false
  | .waitForStop _ => false
  | _ => true

/-- The error that the resolver of module debuginfo answers, where it does. -/
def Operation.unresolved : Operation → Option CategorizedError
  | .loadModuleSymbols (.error e) _ _ => some e
  | _ => none

def Operation.Owns (operation : Operation) (e : Raised) : Prop :=
  Unsaid e ∨ ∃ error, operation.unresolved = some error ∧ e = .categorized error

theorem built_perform {operation : Operation} (looks : operation.looks = true) :
    Built engine operation.Owns (perform engine operation) := by
  have own {α : Type} {f : α → Result} {op : Op α} (built : Built engine Unsaid op) :
      Built engine operation.Owns (f <$> op) := (built_map f built).mono (fun _ => .inl)
  cases operation with
  | readMemory address byteCount => exact own (built_readMemory engine _ _)
  | resolveSymbol name => exact own (built_resolveSymbol engine _)
  | setBreakpoint location => exact own (built_setBreakpoint engine _)
  | clearBreakpoint number => exact own (built_clearNumbered engine _ (by decide))
  | listBreakpoints => exact own (built_listBreakpoints engine)
  | setWatchpoint symbol address byteCount => exact own (built_setWatchpoint engine _ _ _)
  | clearWatchpoint number => exact own (built_clearNumbered engine _ (by decide))
  | listWatchpoints => exact own (built_listWatchpoints engine)
  | readRegisters names => exact own (built_readRegisters engine _)
  | backtrace maxFrames => exact own (built_backtrace engine _)
  | readFrame level => exact own (built_readFrame engine _)
  | disassemble symbol address count => exact own (built_disassemble engine _ _ _)
  | listModules limit => exact own (built_listModules engine _)
  | loadModuleSymbols resolved name expectedBase =>
    refine built_map _ ((built_loadModuleSymbols engine resolved name expectedBase).mono ?_)
    rintro e (unsaid | ⟨error, rfl, rfl⟩)
    · exact .inl unsaid
    · exact .inr ⟨error, rfl, rfl⟩
  | resume verb timeoutSec => cases looks
  | continueBackground => cases looks
  | interrupt => cases looks
  | waitForStop timeoutSec => cases looks

end Looking

end Kdive.Debug
