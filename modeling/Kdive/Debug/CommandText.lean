import Kdive.Debug.LoadedModules
import Kdive.Lib.GdbLine

/-!
What gdb makes of the commands that the breakpoint, watchpoint and module-symbol operations write.
The names and numbers they accept may end in a newline, which the end anchor of a pattern lets
through, and a staged path is escaped once while gdb decodes it twice.
-/
namespace Kdive.Debug
open Console (Text)
open GdbLine (Reading isSpace)

section Writes

variable {α β : Type} {peer : Peer} {P : Text → Prop} {Q : α → Prop} {R : β → Prop}
variable {op : Op α} {k : α → Op β}

/-- Every command the operation writes satisfies `P` and every value it returns `Q`. -/
structure Writes (peer : Peer) (P : Text → Prop) (op : Op α) (Q : α → Prop) : Prop where
  written : ∀ a, ∀ c ∈ (Op.on peer op a).2, P c
  returned : ∀ a x, (Op.on peer op a).1.1 = .ok x → Q x

theorem writes_pure {x : α} (holds : Q x) : Writes peer P (pure x : Op α) Q where
  written _ _ member := absurd member List.not_mem_nil
  returned a y came := by
    rw [Op.on_pure] at came
    exact Except.ok.inj came ▸ holds

theorem writes_raise (e : CategorizedError) : Writes peer P (raise e : Op α) Q where
  written _ _ member := absurd member List.not_mem_nil
  returned _ _ came := absurd came nofun

theorem writes_ofExcept (value : Except Raised α) :
    Writes peer P (ofExcept value) (fun x => value = .ok x) where
  written a c member := by cases value <;> exact absurd member List.not_mem_nil
  returned a y came := by
    cases value with
    | ok x => exact came
    | error e => cases came

theorem Writes.weaken {Q' : α → Prop} (wrote : Writes peer P op Q) (weaker : ∀ x, Q x → Q' x) :
    Writes peer P op Q' :=
  ⟨wrote.written, fun a x came => weaker x (wrote.returned a x came)⟩

theorem Writes.came (wrote : Writes peer P op Q) :
    Writes peer P op (fun x => Q x ∧ ∃ a, (Op.on peer op a).1.1 = .ok x) :=
  ⟨wrote.written, fun a x came => ⟨wrote.returned a x came, a, came⟩⟩

theorem writes_bind (first : Writes peer P op Q) (second : ∀ x, Q x → Writes peer P (k x) R) :
    Writes peer P (op >>= k) R := by
  have both (a : Attachment) : (∀ c ∈ (Op.on peer (op >>= k) a).2, P c) ∧
      ∀ y, (Op.on peer (op >>= k) a).1.1 = .ok y → R y := by
    rcases came : Op.on peer op a with ⟨⟨value, a'⟩, commands⟩
    have written := first.written a
    have returned := first.returned a
    rw [came] at written returned
    cases value with
    | error e =>
      rw [Op.on_bind_error came]
      exact ⟨written, fun y raised => absurd raised nofun⟩
    | ok x =>
      rw [Op.on_bind_ok came]
      have next := second x (returned x rfl)
      refine ⟨fun c member => ?_, fun y found => next.returned a' y found⟩
      rcases List.mem_append.mp member with before | after
      · exact written c before
      · exact next.written a' c after
  exact ⟨fun a => (both a).1, fun a => (both a).2⟩

theorem writes_except {handler : CategorizedError → Op α} (first : Writes peer P op Q)
    (second : ∀ e, Writes peer P (handler e) Q) : Writes peer P (except op handler) Q := by
  have both (a : Attachment) : (∀ c ∈ (Op.on peer (except op handler) a).2, P c) ∧
      ∀ y, (Op.on peer (except op handler) a).1.1 = .ok y → Q y := by
    rcases came : Op.on peer op a with ⟨⟨value, a'⟩, commands⟩
    have written := first.written a
    have returned := first.returned a
    rw [came] at written returned
    rcases value with (e | _) | x
    · rw [Op.on_except_raised came]
      refine ⟨fun c member => ?_, fun y found => (second e).returned a' y found⟩
      rcases List.mem_append.mp member with before | after
      · exact written c before
      · exact (second e).written a' c after
    · rw [Op.on_except_other came nofun]
      exact ⟨written, fun y raised => absurd raised nofun⟩
    · rw [Op.on_except_other came nofun]
      exact ⟨written, returned⟩
  exact ⟨fun a => (both a).1, fun a => (both a).2⟩

theorem writes_executeMiCommand {engine : Engine} {command : Text} (holds : P command) :
    Writes peer P (executeMiCommand engine command) (fun _ => True) where
  written a c member := by
    obtain ⟨a', came, -⟩ := @executeMiCommand_on engine peer command a
    rw [came] at member
    exact List.mem_singleton.mp member ▸ holds
  returned _ _ _ := trivial

end Writes

section Requests

/-- What a caller asks for; `resolved` is the staged debuginfo of the module. -/
inductive Request where
  | setBreakpoint (location : Text)
  | clearBreakpoint (number : Text)
  | setWatchpoint (symbol : Option Text) (address : Option Int) (byteCount : Int)
  | clearWatchpoint (number : Text)
  | loadModuleSymbols (resolved : Except CategorizedError ModuleDebuginfo) (name : Text)
      (expectedBase : Option Nat)

variable (engine : Engine)

def Request.commands (peer : Peer) (a : Attachment) : Request → List Text
  | .setBreakpoint location => (Op.on peer (Debug.setBreakpoint engine location) a).2
  | .clearBreakpoint number => (Op.on peer (Debug.clearBreakpoint engine number) a).2
  | .setWatchpoint symbol address byteCount =>
    (Op.on peer (Debug.setWatchpoint engine symbol address byteCount) a).2
  | .clearWatchpoint number => (Op.on peer (Debug.clearWatchpoint engine number) a).2
  | .loadModuleSymbols resolved name expectedBase =>
    (Op.on peer (Debug.loadModuleSymbols engine resolved name expectedBase) a).2

def evaluation (expr : Text) : Reading := .mi "-data-evaluate-expression".toList [expr]

inductive ModuleExpression : Text → Prop where
  | offset : ModuleExpression "&((struct module *)0)->list".toList
  | head : ModuleExpression "&modules".toList
  | first : ModuleExpression "modules.next".toList
  | next (node : Nat) :
      ModuleExpression ("((struct list_head *)".toList ++ hex node ++ ")->next".toList)
  | field (modulePtr : Nat) {name : String}
      (known : name ∈ "name" :: "srcversion" :: moduleBaseFields) :
      ModuleExpression (moduleField modulePtr name)
  | buildId (modulePtr : Nat) :
      ModuleExpression ("&".toList ++ moduleField modulePtr "build_id")

inductive Intended (peer : Peer) : Request → Reading → Prop where
  | breakInsert (location : Text) :
      Intended peer (.setBreakpoint location) (.mi "-break-insert".toList [location])
  | clearBreakpoint (number : Text) :
      Intended peer (.clearBreakpoint number) (.mi "-break-delete".toList [number])
  | clearWatchpoint (number : Text) :
      Intended peer (.clearWatchpoint number) (.mi "-break-delete".toList [number])
  | symbol (name : Text) (address : Option Int) (byteCount : Int) :
      Intended peer (.setWatchpoint (some name) address byteCount) (evaluation ('&' :: name))
  | watch {symbol : Option Text} {address : Option Int} {byteCount : Int} {a : Attachment}
      {start : Nat} (resolved : (Op.on peer (resolveTarget engine symbol address) a).1.1 = .ok start) :
      Intended peer (.setWatchpoint symbol address byteCount) (.mi "-break-watch".toList
        ["*(char(*)[".toList ++ decimal byteCount.toNat ++ "])".toList ++ hex start])
  | evaluate {resolved : Except CategorizedError ModuleDebuginfo} {name expr : Text}
      {expectedBase : Option Nat} (known : ModuleExpression expr) :
      Intended peer (.loadModuleSymbols resolved name expectedBase) (evaluation expr)
  | buildId {resolved : Except CategorizedError ModuleDebuginfo} {name : Text}
      {expectedBase : Option Nat} (address : Nat) :
      Intended peer (.loadModuleSymbols resolved name expectedBase)
        (.mi "-data-read-memory-bytes".toList [hex address, "20".toList])
  | addSymbolFile {info : ModuleDebuginfo} {name : Text} {expectedBase : Option Nat} {base : Nat}
      (located : Located engine peer name base) :
      Intended peer (.loadModuleSymbols (.ok info) name expectedBase)
        (.console "add-symbol-file".toList [info.path, hex base])

structure ReadAsMeant (peer : Peer) (request : Request) (command : Text) : Prop where
  line : '\n' ∉ command ∧ '\r' ∉ command
  read : ∃ reading, Intended engine peer request reading ∧ GdbLine.reads command = some reading

/-- A path without control white space and double quotes; the others are refused. -/
def Accepted (path : Text) : Prop := ∀ c ∈ path, c ≠ '\t' ∧ c ≠ '\r' ∧ c ≠ '\n' ∧ c ≠ '"'

def Wordlike (path : Text) : Prop :=
  path ≠ [] ∧ Char.ofNat 0 ∉ path ∧ ∀ c ∈ path, GdbLine.plain c = true

def Request.Clean : Request → Prop
  | .setBreakpoint location => isName location = true → '\n' ∉ location
  | .clearBreakpoint number => isNumber number = true → '\n' ∉ number
  | .setWatchpoint (some name) none byteCount =>
    byteCount ∈ watchByteSizes → isName name = true → '\n' ∉ name
  | .setWatchpoint _ _ _ => True
  | .clearWatchpoint number => isNumber number = true → '\n' ∉ number
  | .loadModuleSymbols (.ok info) name _ =>
    isModuleName name = true → Accepted info.path → Wordlike info.path
  | .loadModuleSymbols (.error _) _ _ => True

end Requests

section Characters

def inert (c : Char) : Bool := GdbLine.plain c && c != Char.ofNat 0

def quotable (c : Char) : Bool :=
  c != '"' && c != '\\' && c != Char.ofNat 0 && c != '\n' && c != '\r'

theorem inert_iff {c : Char} : inert c = true ↔
    isSpace c = false ∧ c ≠ '\\' ∧ c ≠ '\'' ∧ c ≠ '"' ∧ c ≠ Char.ofNat 0 := by
  rw [inert, Bool.and_eq_true, GdbLine.plain_iff, bne_iff_ne]
  constructor
  · rintro ⟨⟨solid, backslash, quote, double⟩, nul⟩
    exact ⟨solid, backslash, quote, double, nul⟩
  · rintro ⟨solid, backslash, quote, double, nul⟩
    exact ⟨⟨solid, backslash, quote, double⟩, nul⟩

theorem quotable_of_inert {c : Char} (isInert : inert c = true) : quotable c = true := by
  obtain ⟨solid, backslash, -, double, nul⟩ := inert_iff.mp isInert
  have newline : c ≠ '\n' := by
    rintro rfl
    exact absurd solid (by decide)
  have feed : c ≠ '\r' := by
    rintro rfl
    exact absurd solid (by decide)
  simp [quotable, backslash, double, nul, newline, feed]

theorem one_line {text : Text} (each : ∀ c ∈ text, quotable c = true) :
    '\n' ∉ text ∧ '\r' ∉ text := by
  constructor
  · exact fun member => absurd (each _ member) (by decide)
  · exact fun member => absurd (each _ member) (by decide)

theorem inert_alphanum {c : Char} (letter : c.isAlpha = true ∨ c.isDigit = true) :
    inert c = true := by
  have large : 48 ≤ c.toNat := by
    delta Char.isAlpha Char.isUpper Char.isLower Char.isDigit at letter
    simp only [Bool.or_eq_true, Bool.and_eq_true, decide_eq_true_eq,
      UInt32.le_iff_toNat_le] at letter
    simp only [Char.toNat]
    rcases letter with (⟨low, -⟩ | ⟨low, -⟩) | ⟨low, -⟩
    · exact le_trans (by decide) low
    · exact le_trans (by decide) low
    · exact low
  have solid : isSpace c = false := by
    have blank : c ≠ ' ' := by
      rintro rfl
      exact absurd large (by decide)
    have after : ¬ c.toNat ≤ 13 := by omega
    simp [isSpace, blank, after]
  refine inert_iff.mpr ⟨solid, ?_, ?_, ?_, ?_⟩ <;> rintro rfl
  · revert letter
    decide
  · exact absurd large (by decide)
  · exact absurd large (by decide)
  · exact absurd large (by decide)

theorem digits_inert {b : Nat} (positive : 1 < b) (small : b ≤ 16) (n : Nat) :
    ∀ c ∈ Nat.toDigits b n, inert c = true := by
  have each : ∀ d < 16, inert (Nat.digitChar d) = true := by decide
  induction n using Nat.strongRecOn with
  | ind n ih =>
    intro c member
    rw [Nat.toDigits_eq_if positive] at member
    split at member
    · rw [List.mem_singleton] at member
      subst member
      exact each n (by omega)
    · rename_i large
      rcases List.mem_append.mp member with before | last
      · exact ih (n / b) (Nat.div_lt_self (by omega) positive) c before
      · rw [List.mem_singleton] at last
        subst last
        exact each _ (lt_of_lt_of_le (Nat.mod_lt n (by omega)) small)

theorem hex_inert (n : Nat) : ∀ c ∈ hex n, inert c = true := by
  intro c member
  have sign : ∀ c ∈ "0x".toList, inert c = true := GdbLine.each (by decide)
  rcases List.mem_append.mp member with before | digit
  · exact sign c before
  · exact digits_inert (by decide) le_rfl n c digit

theorem hex_ne_nil (n : Nat) : hex n ≠ [] := nofun

/-- What an anchored pattern accepts without a final newline has only its letters. -/
theorem identifier_letters {first rest : Char → Bool} {text : Text}
    (accepted : identifier first rest text = true) (ended : '\n' ∉ text) :
    text ≠ [] ∧ ∀ c ∈ text, first c = true ∨ rest c = true := by
  cases text with
  | nil => cases accepted
  | cons c text =>
    refine ⟨List.cons_ne_nil _ _, ?_⟩
    have noEnd : text.getLast? ≠ some '\n' := fun last =>
      ended (List.mem_cons_of_mem c (List.mem_of_getLast? last))
    rw [identifier, if_neg noEnd, Bool.and_eq_true, List.all_eq_true] at accepted
    rw [List.forall_mem_cons]
    exact ⟨.inl accepted.1, fun d member => .inr (accepted.2 d member)⟩

end Characters

section Readings

variable {engine : Engine} {peer : Peer} {request : Request}

structure Harmless (word : Text) : Prop where
  filled : word ≠ []
  undashed : word.head? ≠ some '-'
  each : ∀ c ∈ word, inert c = true

theorem Harmless.word {word : Text} (harmless : Harmless word) : GdbLine.Word word where
  filled := harmless.filled
  solid c member := (inert_iff.mp (harmless.each c member)).1
  unquoted first := (inert_iff.mp (harmless.each _ (List.mem_of_head? first))).2.2.2.1 rfl
  whole member := (inert_iff.mp (harmless.each _ member)).2.2.2.2 rfl
  undashed := harmless.undashed

/-- An operation of the machine interface other than the one that runs console commands. -/
structure MiOperation (operation : Text) : Prop where
  each : ∀ c ∈ operation, inert c = true
  dash : operation.head? = some '-'
  other : operation ≠ GdbLine.interpreterExec

theorem MiOperation.solid {operation : Text} (known : MiOperation operation) :
    ∀ c ∈ operation, isSpace c = false := fun c member => (inert_iff.mp (known.each c member)).1

theorem MiOperation.whole {operation : Text} (known : MiOperation operation) :
    Char.ofNat 0 ∉ operation := fun member => (inert_iff.mp (known.each _ member)).2.2.2.2 rfl

theorem words_asMeant {operation : Text} {words : List Text} (known : MiOperation operation)
    (harmless : ∀ w ∈ words, Harmless w)
    (intended : Intended engine peer request (.mi operation words)) :
    ReadAsMeant engine peer request (operation ++ words.flatMap (' ' :: ·)) where
  line := by
    apply one_line
    intro c member
    rcases List.mem_append.mp member with inOperation | inWords
    · exact quotable_of_inert (known.each c inOperation)
    · obtain ⟨w, isWord, inWord⟩ := List.mem_flatMap.mp inWords
      rcases List.mem_cons.mp inWord with rfl | inWord
      · decide
      · exact quotable_of_inert ((harmless w isWord).each c inWord)
  read := ⟨_, intended, GdbLine.reads_words known.solid known.whole known.dash known.other
    (fun w isWord => (harmless w isWord).word)⟩

theorem evaluation_operation : MiOperation "-data-evaluate-expression".toList :=
  ⟨GdbLine.each (by decide), rfl, by decide⟩

theorem evalCommand_asMeant {expr : Text} (each : ∀ c ∈ expr, quotable c = true)
    (intended : Intended engine peer request (evaluation expr)) :
    ReadAsMeant engine peer request (evalCommand expr) := by
  have spelled : evalCommand expr =
      "-data-evaluate-expression".toList ++ ' ' :: '"' :: (expr ++ ['"']) := rfl
  have plain : ∀ c ∈ expr, c ≠ '"' ∧ c ≠ '\\' := by
    intro c member
    have known := each c member
    simp only [quotable, Bool.and_eq_true, bne_iff_ne] at known
    exact ⟨known.1.1.1.1, known.1.1.1.2⟩
  have read : GdbLine.string (expr ++ ['"']) = some (expr, []) := by
    rw [GdbLine.string_append plain, GdbLine.string_closed, Option.map_some, List.append_nil]
  have whole : Char.ofNat 0 ∉ "-data-evaluate-expression".toList ++ (expr ++ ['"']) := by
    simp only [List.mem_append, not_or]
    exact ⟨by decide, fun member => absurd (each _ member) (by decide), by decide⟩
  have breaks : ∀ c ∈ evalCommand expr, c ≠ '\n' ∧ c ≠ '\r' := by
    have before : ∀ c ∈ "-data-evaluate-expression \"".toList, c ≠ '\n' ∧ c ≠ '\r' := by
      exact GdbLine.each (by decide +kernel)
    have after : ∀ c ∈ "\"".toList, c ≠ '\n' ∧ c ≠ '\r' := GdbLine.each (by decide +kernel)
    intro c member
    rcases List.mem_append.mp member with member | member
    · rcases List.mem_append.mp member with member | member
      · exact before c member
      · have lines := one_line each
        exact ⟨fun same => lines.1 (same ▸ member), fun same => lines.2 (same ▸ member)⟩
    · exact after c member
  refine ⟨⟨fun member => (breaks _ member).1 rfl, fun member => (breaks _ member).2 rfl⟩, _,
    intended, ?_⟩
  · rw [spelled]
    exact GdbLine.reads_string evaluation_operation.solid whole rfl evaluation_operation.other read

theorem hex_quotable (n : Nat) : ∀ c ∈ hex n, quotable c = true :=
  fun c member => quotable_of_inert (hex_inert n c member)

theorem moduleField_quotable (modulePtr : Nat) {name : String}
    (each : ∀ c ∈ name.toList, quotable c = true) :
    ∀ c ∈ moduleField modulePtr name, quotable c = true := by
  have before : ∀ c ∈ "((struct module *)".toList, quotable c = true :=
    GdbLine.each (by decide +kernel)
  have between : ∀ c ∈ ")->".toList, quotable c = true := GdbLine.each (by decide +kernel)
  have pointer := List.forall_mem_append.mpr ⟨before, hex_quotable modulePtr⟩
  exact List.forall_mem_append.mpr ⟨List.forall_mem_append.mpr ⟨pointer, between⟩, each⟩

theorem moduleExpression_quotable {expr : Text} (known : ModuleExpression expr) :
    ∀ c ∈ expr, quotable c = true := by
  cases known with
  | offset => exact GdbLine.each (by decide +kernel)
  | head => exact GdbLine.each (by decide +kernel)
  | first => exact GdbLine.each (by decide +kernel)
  | next node =>
    have before : ∀ c ∈ "((struct list_head *)".toList, quotable c = true :=
      GdbLine.each (by decide +kernel)
    have after : ∀ c ∈ ")->next".toList, quotable c = true := GdbLine.each (by decide +kernel)
    have pointer := List.forall_mem_append.mpr ⟨before, hex_quotable node⟩
    exact List.forall_mem_append.mpr ⟨pointer, after⟩
  | field modulePtr known =>
    have fields : ∀ name ∈ "name" :: "srcversion" :: moduleBaseFields,
        name.toList.all quotable = true := by decide +kernel
    exact moduleField_quotable modulePtr (List.all_eq_true.mp (fields _ known))
  | buildId modulePtr =>
    have sign : ∀ c ∈ "&".toList, quotable c = true := GdbLine.each (by decide +kernel)
    have field := @moduleField_quotable modulePtr "build_id" (GdbLine.each (by decide +kernel))
    exact List.forall_mem_append.mpr ⟨sign, field⟩

end Readings

section Paths

def escaped (path : Text) : Text :=
  path.flatMap (fun c => if c = '\\' ∨ c = ' ' then ['\\', c] else [c])

theorem escaped_eq (path : Text) :
    (path.flatMap (fun c => if c == '\\' then [c, c] else [c])).flatMap
      (fun c => if c == ' ' then ['\\', c] else [c]) = escaped path := by
  rw [escaped, List.flatMap_assoc]
  congr 1
  funext c
  by_cases backslash : c = '\\'
  · subst backslash
    rfl
  · by_cases space : c = ' '
    · subst space
      rfl
    · simp [backslash, space]

theorem miPath_eq (path : Text) : miPath path =
    if '\t' ∉ path ∧ '\r' ∉ path ∧ '\n' ∉ path then .ok (escaped path)
    else .error (.categorized (configError "vmlinux path must not contain control whitespace".toList
      "bad_vmlinux_path" [])) := by
  have opposite : path.any (fun c => c == '\t' || c == '\r' || c == '\n') = true ↔
      ¬ ('\t' ∉ path ∧ '\r' ∉ path ∧ '\n' ∉ path) := by
    simp only [List.any_eq_true, Bool.or_eq_true, beq_iff_eq]
    constructor
    · rintro ⟨c, member, (rfl | rfl) | rfl⟩ outside
      · exact outside.1 member
      · exact outside.2.1 member
      · exact outside.2.2 member
    · intro inside
      by_contra none
      exact inside ⟨fun member => none ⟨_, member, .inl (.inl rfl)⟩,
        fun member => none ⟨_, member, .inl (.inr rfl)⟩, fun member => none ⟨_, member, .inr rfl⟩⟩
  rw [miPath]
  by_cases controlled : '\t' ∉ path ∧ '\r' ∉ path ∧ '\n' ∉ path
  · rw [if_neg (fun found => opposite.mp found controlled), if_pos controlled]
    exact congrArg Except.ok (escaped_eq path)
  · rw [if_pos (opposite.mpr controlled), if_neg controlled]

theorem mem_escaped {path : Text} {c : Char} (other : c ≠ '\\') : c ∈ escaped path ↔ c ∈ path := by
  simp only [escaped, List.mem_flatMap]
  constructor
  · rintro ⟨d, member, found⟩
    split at found
    · rcases List.mem_cons.mp found with same | found
      · exact absurd same other
      · exact List.mem_singleton.mp found ▸ member
    · exact List.mem_singleton.mp found ▸ member
  · intro member
    refine ⟨c, member, ?_⟩
    split <;> simp

theorem string_escaped_path {path : Text} (unquoted : '"' ∉ path) (text : Text) :
    GdbLine.string (escaped path ++ text) =
      (GdbLine.string text).map (fun taken => (path ++ taken.1, taken.2)) := by
  induction path with
  | nil => simp [escaped]
  | cons c path ih =>
    simp only [List.mem_cons, not_or] at unquoted
    have more := ih unquoted.2
    have step : GdbLine.string (escaped (c :: path) ++ text) =
        (GdbLine.string (escaped path ++ text)).map (fun taken => (c :: taken.1, taken.2)) := by
      have cut : escaped (c :: path) =
          (if c = '\\' ∨ c = ' ' then ['\\', c] else [c]) ++ escaped path := List.flatMap_cons
      rw [cut, List.append_assoc]
      split
      · rename_i special
        rcases special with rfl | rfl
        · exact GdbLine.string_escaped (by decide) (by decide) (by decide) _
        · exact GdbLine.string_escaped (by decide) (by decide) (by decide) _
      · rename_i ordinary
        rw [not_or] at ordinary
        exact GdbLine.string_plain (Ne.symm unquoted.1) ordinary.1 _
    rw [step, more, Option.map_map]
    rfl

theorem addSymbolCommand_eq (text : Text) (base : Nat) : addSymbolCommand text base =
    GdbLine.consoleLine ("add-symbol-file ".toList ++ (text ++ (' ' :: hex base ++ ['"']))) := by
  have spelled : addSymbolCommand text base =
    GdbLine.consoleLine "add-symbol-file ".toList ++ text ++ " ".toList ++ hex base ++ ['"'] := rfl
  rw [spelled]
  simp only [GdbLine.consoleLine, List.append_assoc]
  rfl

theorem string_addSymbol {path : Text} (unquoted : '"' ∉ path) (base : Nat) :
    GdbLine.string ("add-symbol-file ".toList ++ (escaped path ++ (' ' :: hex base ++ ['"']))) =
      some ("add-symbol-file ".toList ++ (path ++ ' ' :: hex base), []) := by
  have address : ∀ c ∈ ' ' :: hex base, c ≠ '"' ∧ c ≠ '\\' := by
    rw [List.forall_mem_cons]
    refine ⟨by decide, fun c member => ?_⟩
    obtain ⟨-, backslash, -, double, -⟩ := inert_iff.mp (hex_inert base c member)
    exact ⟨double, backslash⟩
  rw [GdbLine.string_append (GdbLine.each (by decide)), string_escaped_path unquoted,
    GdbLine.string_append address, GdbLine.string_closed]
  simp only [Option.map_some, List.append_nil]

theorem console_addSymbol (rest : Text) : GdbLine.console ("add-symbol-file ".toList ++ rest) =
    ("add-symbol-file".toList, GdbLine.argv rest) := by
  have skipped : ("add-symbol-file ".toList ++ rest).dropWhile isSpace =
      "add-symbol-file".toList ++ ' ' :: rest := List.dropWhile_cons_of_neg (by decide)
  have name : ∀ c ∈ "add-symbol-file".toList, GdbLine.nameChar c = true := GdbLine.each (by decide)
  rw [GdbLine.console]
  rw [skipped, List.takeWhile_append_of_pos name, List.dropWhile_append_of_pos name,
    List.takeWhile_cons_of_neg (by decide), List.dropWhile_cons_of_neg (by decide), List.append_nil,
    GdbLine.argv_space (by decide)]

theorem reads_addSymbol {path : Text} (unquoted : '"' ∉ path) (base : Nat) :
    GdbLine.reads (addSymbolCommand (escaped path) base) =
      if Char.ofNat 0 ∈ path then none
      else some (.console "add-symbol-file".toList (GdbLine.argv (path ++ ' ' :: hex base))) := by
  rw [addSymbolCommand_eq]
  split
  · rename_i cut
    obtain ⟨before, after, rfl, whole⟩ := List.eq_append_cons_of_mem cut
    have spelled : escaped (before ++ Char.ofNat 0 :: after) =
        escaped before ++ Char.ofNat 0 :: escaped after := by
      simp [escaped, List.flatMap_append, List.flatMap_cons]
    have body : "add-symbol-file ".toList ++ (escaped (before ++ Char.ofNat 0 :: after) ++
        (' ' :: hex base ++ ['"'])) = ("add-symbol-file ".toList ++ escaped before) ++
          Char.ofNat 0 :: (escaped after ++ (' ' :: hex base ++ ['"'])) := by
      rw [spelled]
      simp only [List.append_assoc, List.cons_append]
    rw [body]
    apply GdbLine.reads_consoleLine_cut
    · rw [List.mem_append, not_or]
      exact ⟨by decide, fun member => whole ((mem_escaped (by decide)).mp member)⟩
    · rw [List.mem_append, not_or]
      refine ⟨by decide, fun member => unquoted ?_⟩
      exact List.mem_append_left _ ((mem_escaped (by decide)).mp member)
  · rename_i whole
    have uncut : Char.ofNat 0 ∉ "add-symbol-file ".toList ++
        (escaped path ++ (' ' :: hex base ++ ['"'])) := by
      have other : Char.ofNat 0 ≠ '\\' := by decide
      simp only [List.mem_append, List.mem_cons, not_or, mem_escaped other]
      refine ⟨by decide, whole, ⟨by decide, fun member => ?_⟩, by decide, List.not_mem_nil⟩
      exact (inert_iff.mp (hex_inert base _ member)).2.2.2.2 rfl
    rw [GdbLine.reads_consoleLine uncut (string_addSymbol unquoted base), console_addSymbol]

theorem reads_addSymbol_iff {path : Text} (unquoted : '"' ∉ path) (base : Nat) :
    GdbLine.reads (addSymbolCommand (escaped path) base) =
      some (.console "add-symbol-file".toList [path, hex base]) ↔ Wordlike path := by
  have words := @GdbLine.argv_two_words path (hex base) (hex_ne_nil base)
    (fun c member => (Bool.and_eq_true_iff.mp (hex_inert base c member)).1)
  rw [reads_addSymbol unquoted]
  split
  · rename_i cut
    exact ⟨fun read => absurd read nofun, fun wordlike => absurd cut wordlike.2.1⟩
  · rename_i whole
    rw [Option.some.injEq, Reading.console.injEq, words]
    exact ⟨fun read => ⟨read.2.1, whole, read.2.2⟩, fun wordlike => ⟨rfl, wordlike.1, wordlike.2.2⟩⟩

end Paths

section Operations

variable {engine : Engine} {peer : Peer} {request : Request}

def letter (c : Char) : Bool := isAsciiLetter c || c.isDigit || c == '_'

theorem harmless_letters {word : Text} (filled : word ≠ []) (letters : ∀ c ∈ word, letter c = true) :
    Harmless word where
  filled := filled
  undashed first := absurd (letters _ (List.mem_of_head? first)) (by decide)
  each c member := by
    have known := letters c member
    simp only [letter, isAsciiLetter, Bool.or_eq_true, beq_iff_eq] at known
    rcases known with known | rfl
    · exact inert_alphanum known
    · decide

theorem harmless_name {name : Text} (accepted : isName name = true) (ended : '\n' ∉ name) :
    Harmless name := by
  obtain ⟨filled, letters⟩ := identifier_letters accepted ended
  refine harmless_letters filled (fun c member => ?_)
  have known := letters c member
  simp only [Bool.or_eq_true, beq_iff_eq] at known
  simp only [letter, Bool.or_eq_true, beq_iff_eq]
  tauto

theorem harmless_number {number : Text} (accepted : isNumber number = true)
    (ended : '\n' ∉ number) : Harmless number := by
  obtain ⟨filled, letters⟩ := identifier_letters accepted ended
  refine harmless_letters filled (fun c member => ?_)
  have digit : c.isDigit = true := (letters c member).elim id id
  simp [letter, digit]

theorem writes_modify {P : Text → Prop} (change : Attachment → Attachment) :
    Writes peer P (modify change : Op Unit) (fun _ => True) where
  written _ _ member := absurd member List.not_mem_nil
  returned _ _ _ := trivial

theorem writes_get {P : Text → Prop} : Writes peer P (get : Op Attachment) (fun _ => True) where
  written _ _ member := absurd member List.not_mem_nil
  returned _ _ _ := trivial

theorem setBreakpoint_asMeant {location : Text} (ended : isName location = true → '\n' ∉ location) :
    Writes peer (ReadAsMeant engine peer (.setBreakpoint location)) (setBreakpoint engine location)
      (fun _ => True) := by
  rw [setBreakpoint]
  split
  · exact writes_raise _
  · rename_i accepted
    have accepted : isName location = true := by simpa using accepted
    have spelled : "-break-insert ".toList ++ location =
        "-break-insert".toList ++ [location].flatMap (' ' :: ·) := by
      simp
    have harmless := harmless_name accepted (ended accepted)
    refine writes_bind (writes_executeMiCommand ?_) (fun records _ =>
      (writes_ofExcept _).weaken (fun _ _ => trivial))
    rw [spelled]
    exact words_asMeant ⟨GdbLine.each (by decide), rfl, by decide⟩ (by simpa using harmless)
      (.breakInsert location)

theorem clearNumbered_asMeant {what name : String} {number : Text}
    (ended : isNumber number = true → '\n' ∉ number)
    (intended : Intended engine peer request (.mi "-break-delete".toList [number])) :
    Writes peer (ReadAsMeant engine peer request) (clearNumbered engine what name number)
      (fun _ => True) := by
  rw [clearNumbered]
  split
  · exact writes_raise _
  · rename_i accepted
    have accepted : isNumber number = true := by simpa using accepted
    have spelled : "-break-delete ".toList ++ number =
        "-break-delete".toList ++ [number].flatMap (' ' :: ·) := by
      simp
    have harmless := harmless_number accepted (ended accepted)
    refine writes_bind (writes_executeMiCommand ?_) (fun _ _ => writes_pure trivial)
    rw [spelled]
    exact words_asMeant ⟨GdbLine.each (by decide), rfl, by decide⟩ (by simpa using harmless) intended

theorem resolveSymbol_asMeant {name : Text} (ended : isName name = true → '\n' ∉ name)
    (intended : Intended engine peer request (evaluation ('&' :: name))) :
    Writes peer (ReadAsMeant engine peer request) (resolveSymbol engine name) (fun _ => True) := by
  rw [resolveSymbol]
  split
  · exact writes_raise _
  · rename_i accepted
    have accepted : isName name = true := by simpa using accepted
    have harmless := harmless_name accepted (ended accepted)
    have spelled : "-data-evaluate-expression &".toList ++ name =
        "-data-evaluate-expression".toList ++ ['&' :: name].flatMap (' ' :: ·) := by
      simp
    have reference : Harmless ('&' :: name) := by
      refine ⟨List.cons_ne_nil _ _, ?_, ?_⟩
      · rw [List.head?_cons]
        decide
      · rw [List.forall_mem_cons]
        exact ⟨by decide, harmless.each⟩
    refine writes_bind (writes_except (writes_executeMiCommand ?_) (fun e => ?_)) (fun records _ =>
      (writes_ofExcept _).weaken (fun _ _ => trivial))
    · rw [spelled]
      exact words_asMeant evaluation_operation (by simpa using reference) intended
    · split
      · exact writes_raise _
      · exact writes_raise _

theorem setWatchpoint_asMeant {symbol : Option Text} {address : Option Int} {byteCount : Int}
    (clean : Request.Clean (.setWatchpoint symbol address byteCount)) :
    Writes peer (ReadAsMeant engine peer (.setWatchpoint symbol address byteCount))
      (setWatchpoint engine symbol address byteCount) (fun _ => True) := by
  rw [setWatchpoint]
  split
  · exact writes_raise _
  · rename_i supported
    have target : Writes peer (ReadAsMeant engine peer (.setWatchpoint symbol address byteCount))
        (resolveTarget engine symbol address) (fun _ => True) := by
      rcases symbol with _ | name <;> rcases address with _ | address
      · exact writes_raise _
      · rw [resolveTarget]
        split
        · exact writes_raise _
        · exact writes_pure trivial
      · exact resolveSymbol_asMeant (clean (not_not.mp supported)) (.symbol _ _ _)
      · exact writes_raise _
    refine writes_bind target.came (fun start resolved => ?_)
    obtain ⟨-, a, came⟩ := resolved
    have spelled : "-break-watch *(char(*)[".toList ++ decimal byteCount.toNat ++ "])".toList ++
        hex start = "-break-watch".toList ++
          ["*(char(*)[".toList ++ decimal byteCount.toNat ++ "])".toList ++ hex start].flatMap
            (' ' :: ·) := by
      simp
    have harmless : Harmless ("*(char(*)[".toList ++ decimal byteCount.toNat ++ "])".toList ++
        hex start) := by
      have before : ∀ c ∈ "*(char(*)[".toList, inert c = true := GdbLine.each (by decide)
      have between : ∀ c ∈ "])".toList, inert c = true := GdbLine.each (by decide)
      have size := @digits_inert 10 (by decide) (by decide) byteCount.toNat
      have cast := List.forall_mem_append.mpr ⟨List.forall_mem_append.mpr ⟨before, size⟩, between⟩
      refine ⟨nofun, ?_, List.forall_mem_append.mpr ⟨cast, hex_inert start⟩⟩
      change some '*' ≠ some '-'
      decide
    refine writes_bind (writes_except (writes_executeMiCommand ?_) (fun e => ?_)) (fun records _ =>
      (writes_ofExcept _).weaken (fun _ _ => trivial))
    · rw [spelled]
      exact words_asMeant ⟨GdbLine.each (by decide), rfl, by decide⟩ (by simpa using harmless)
        (.watch came)
    · split
      · exact writes_raise _
      · split
        · exact writes_raise _
        · exact writes_raise _

end Operations

section Loads

variable {engine : Engine} {peer : Peer} {request : Request}
variable {resolved : Except CategorizedError ModuleDebuginfo} {name : Text}
variable {expectedBase : Option Nat}

theorem writes_evaluation {expr : Text} (known : ModuleExpression expr) :
    Writes peer (ReadAsMeant engine peer (.loadModuleSymbols resolved name expectedBase))
      (executeMiCommand engine (evalCommand expr)) (fun _ => True) :=
  writes_executeMiCommand (evalCommand_asMeant (moduleExpression_quotable known) (.evaluate known))

theorem moduleEvalRequired_asMeant {expr : String} (known : ModuleExpression expr.toList) :
    Writes peer (ReadAsMeant engine peer (.loadModuleSymbols resolved name expectedBase))
      (moduleEvalRequired engine expr) (fun _ => True) := by
  refine writes_bind (writes_except (writes_evaluation known) (fun e => writes_raise _))
    (fun records _ => ?_)
  split
  · exact writes_pure trivial
  · exact writes_raise _

theorem writes_decodeFailure {α : Type} {P : Text → Prop} (e : CategorizedError) :
    Writes peer P (decodeFailure e : Op (Option α)) (fun _ => True) := by
  rw [decodeFailure]
  split
  · exact writes_raise _
  · exact writes_pure trivial

theorem evalDecoded_asMeant {α : Type} {expr : Text} {decode : Text → Option α}
    (known : ModuleExpression expr) :
    Writes peer (ReadAsMeant engine peer (.loadModuleSymbols resolved name expectedBase))
      (evalDecoded engine expr decode) (fun _ => True) := by
  refine writes_except (writes_bind (writes_evaluation known) (fun _ _ => writes_pure trivial))
    writes_decodeFailure

theorem field_known (modulePtr : Nat) {field : String} (known : field ∈ moduleBaseFields) :
    ModuleExpression (moduleField modulePtr field) :=
  .field modulePtr (List.mem_cons_of_mem _ (List.mem_cons_of_mem _ known))

theorem firstBase_asMeant (modulePtr : Nat) {candidates : List String}
    (known : ∀ field ∈ candidates, field ∈ moduleBaseFields) :
    Writes peer (ReadAsMeant engine peer (.loadModuleSymbols resolved name expectedBase))
      (firstBase engine modulePtr candidates) (fun found => found.2 ∈ moduleBaseFields) := by
  induction candidates with
  | nil => exact writes_raise _
  | cons candidate rest ih =>
    obtain ⟨first, others⟩ := List.forall_mem_cons.mp known
    refine writes_bind (evalDecoded_asMeant (field_known modulePtr first)) (fun base _ => ?_)
    split
    · exact writes_pure first
    · exact ih others

theorem moduleBase_asMeant (modulePtr : Nat) {field : String}
    (known : field ≠ "" → field ∈ moduleBaseFields) :
    Writes peer (ReadAsMeant engine peer (.loadModuleSymbols resolved name expectedBase))
      (moduleBase engine modulePtr field) (fun found => found.2 ∈ moduleBaseFields) := by
  rw [moduleBase]
  split
  · rename_i chosen
    exact writes_bind (evalDecoded_asMeant (field_known modulePtr (known chosen)))
      (fun _ _ => writes_pure (known chosen))
  · exact firstBase_asMeant modulePtr (fun _ member => member)

theorem moduleWalkFrom_asMeant (offset head left node : Nat) (field : String) (walk : Walk)
    (known : field ≠ "" → field ∈ moduleBaseFields) :
    Writes peer (ReadAsMeant engine peer (.loadModuleSymbols resolved name expectedBase))
      (moduleWalkFrom engine offset head left node field walk) (fun _ => True) := by
  induction left generalizing node field walk with
  | zero => exact writes_pure trivial
  | succ left ih =>
    rw [moduleWalkFrom]
    split
    · exact writes_pure trivial
    · refine writes_bind (evalDecoded_asMeant (.field _ (by decide))) (fun moduleName _ => ?_)
      refine writes_bind (moduleBase_asMeant _ known) (fun base chosen => ?_)
      refine writes_bind (evalDecoded_asMeant (.next node)) (fun next _ => ?_)
      split
      · exact writes_pure trivial
      · split
        · exact writes_pure trivial
        · exact ih _ _ _ (fun _ => chosen)

theorem moduleLocate_asMeant :
    Writes peer (ReadAsMeant engine peer (.loadModuleSymbols resolved name expectedBase))
      (moduleLocate engine name) (fun _ => True) := by
  have walked : Writes peer
      (ReadAsMeant engine peer (.loadModuleSymbols resolved name expectedBase))
      (moduleWalk engine maxModules) (fun _ => True) := by
    refine writes_bind (moduleEvalRequired_asMeant .offset) (fun offset _ => ?_)
    refine writes_bind (moduleEvalRequired_asMeant .head) (fun head _ => ?_)
    refine writes_bind (moduleEvalRequired_asMeant .first) (fun node _ => ?_)
    exact moduleWalkFrom_asMeant offset head maxModules node "" {} (fun chosen => absurd rfl chosen)
  exact writes_bind walked (fun _ _ => writes_pure trivial)

theorem identityMatch_asMeant {P : Text → Prop} (ok : Bool) :
    Writes peer P (identityMatch engine name ok) (fun _ => True) := by
  rw [identityMatch]
  split
  · exact writes_pure trivial
  · exact writes_raise _

theorem readBuildId_asMeant (address : Nat) :
    Writes peer (ReadAsMeant engine peer (.loadModuleSymbols resolved name expectedBase))
      (readMemory engine address 20) (fun _ => True) := by
  rw [readMemory]
  split
  · exact writes_raise _
  · split
    · exact writes_raise _
    · have spelled : "-data-read-memory-bytes ".toList ++ hex (address : Int).toNat ++ " ".toList ++
          decimal (20 : Int).toNat = "-data-read-memory-bytes".toList ++
            [hex address, "20".toList].flatMap (' ' :: ·) := by
        have twenty : decimal (20 : Int).toNat = "20".toList := by decide +kernel
        rw [twenty]
        simp
      have harmless : ∀ w ∈ [hex address, "20".toList], Harmless w := by
        rw [List.forall_mem_cons, List.forall_mem_singleton]
        refine ⟨⟨hex_ne_nil address, ?_, hex_inert address⟩,
          ⟨nofun, by decide, GdbLine.each (by decide)⟩⟩
        change some '0' ≠ some '-'
        decide
      refine writes_bind (writes_executeMiCommand ?_) (fun records _ =>
        (writes_ofExcept _).weaken (fun _ _ => trivial))
      rw [spelled]
      exact words_asMeant ⟨GdbLine.each (by decide), rfl, by decide⟩ harmless (.buildId address)

theorem verifyIdentity_asMeant (modulePtr : Nat) (info : ModuleDebuginfo) :
    Writes peer (ReadAsMeant engine peer (.loadModuleSymbols resolved name expectedBase))
      (verifyIdentity engine name modulePtr info) (fun _ => True) := by
  have buildId : Writes peer
      (ReadAsMeant engine peer (.loadModuleSymbols resolved name expectedBase))
      (moduleBuildId engine modulePtr) (fun _ => True) := by
    refine writes_bind (evalDecoded_asMeant (.buildId modulePtr)) (fun address _ => ?_)
    split
    · exact writes_pure trivial
    · rename_i address
      refine writes_bind (writes_except ?_ writes_decodeFailure) (fun _ _ => writes_pure trivial)
      exact writes_bind (readBuildId_asMeant address) (fun _ _ => writes_pure trivial)
  refine writes_bind (evalDecoded_asMeant (.field modulePtr (by decide))) (fun live _ => ?_)
  split
  · exact identityMatch_asMeant _
  · refine writes_bind buildId (fun live _ => ?_)
    split
    · exact identityMatch_asMeant _
    · exact writes_pure trivial

theorem addSymbolCommand_line {path : Text} (accepted : Accepted path) (base : Nat) :
    ∀ c ∈ addSymbolCommand (escaped path) base, c ≠ '\n' ∧ c ≠ '\r' := by
  have before : ∀ c ∈ "-interpreter-exec console \"add-symbol-file ".toList,
      c ≠ '\n' ∧ c ≠ '\r' := GdbLine.each (by decide +kernel)
  have between : ∀ c ∈ " ".toList, c ≠ '\n' ∧ c ≠ '\r' := GdbLine.each (by decide)
  have after : ∀ c ∈ "\"".toList, c ≠ '\n' ∧ c ≠ '\r' := GdbLine.each (by decide)
  have address : ∀ c ∈ hex base, c ≠ '\n' ∧ c ≠ '\r' := by
    have lines := one_line (hex_quotable base)
    exact fun c member => ⟨fun same => lines.1 (same ▸ member), fun same => lines.2 (same ▸ member)⟩
  have middle : ∀ c ∈ escaped path, c ≠ '\n' ∧ c ≠ '\r' := by
    intro c member
    constructor
    · rintro rfl
      exact (accepted _ ((mem_escaped (by decide)).mp member)).2.2.1 rfl
    · rintro rfl
      exact (accepted _ ((mem_escaped (by decide)).mp member)).2.1 rfl
  have start := List.forall_mem_append.mpr ⟨before, middle⟩
  have words := List.forall_mem_append.mpr ⟨List.forall_mem_append.mpr ⟨start, between⟩, address⟩
  exact List.forall_mem_append.mpr ⟨words, after⟩

theorem addSymbolFile_asMeant {info : ModuleDebuginfo} {base : Nat}
    (located : Located engine peer name base) (clean : Accepted info.path → Wordlike info.path) :
    Writes peer (ReadAsMeant engine peer (.loadModuleSymbols (.ok info) name expectedBase))
      (addSymbolFile engine name info.path base) (fun _ => True) := by
  rw [addSymbolFile_eq]
  refine writes_bind (writes_ofExcept _) (fun text spelled => ?_)
  rw [miPath_eq] at spelled
  split at spelled
  · rename_i controlled
    obtain rfl := Except.ok.inj spelled
    split
    · exact writes_raise _
    · rename_i unquoted
      have unquoted : '"' ∉ info.path := fun member => unquoted ((mem_escaped (by decide)).mpr member)
      have accepted : Accepted info.path := by
        intro c member
        exact ⟨fun same => controlled.1 (same ▸ member), fun same => controlled.2.1 (same ▸ member),
          fun same => controlled.2.2 (same ▸ member), fun same => unquoted (same ▸ member)⟩
      have breaks := addSymbolCommand_line accepted base
      refine writes_bind (writes_except (writes_executeMiCommand ?_) (fun e => writes_raise _))
        (fun _ _ => writes_pure trivial)
      refine ⟨⟨fun member => (breaks _ member).1 rfl, fun member => (breaks _ member).2 rfl⟩, _,
        .addSymbolFile located, ?_⟩
      exact (reads_addSymbol_iff unquoted base).mpr (clean accepted)
  · cases spelled

theorem located_of_came {a : Attachment} {base modulePtr : Nat}
    (came : (Op.on peer (moduleLocate engine name) a).1.1 = .ok (some (base, modulePtr))) :
    Located engine peer name base := by
  obtain ⟨a', commands, on, -⟩ := @comes_moduleLocate engine peer name a
  rw [on] at came
  cases walked : walkAt engine peer maxModules with
  | error e =>
    rw [walked] at came
    cases came
  | ok walk =>
    rw [walked] at came
    obtain ⟨row, found, same⟩ := Option.map_eq_some_iff.mp (Except.ok.inj came)
    exact ⟨walk, row, walked, found, congrArg Prod.fst same⟩

theorem loadModuleSymbols_asMeant
    (clean : Request.Clean (.loadModuleSymbols resolved name expectedBase)) :
    Writes peer (ReadAsMeant engine peer (.loadModuleSymbols resolved name expectedBase))
      (loadModuleSymbols engine resolved name expectedBase) (fun _ => True) := by
  rw [loadModuleSymbols]
  split
  · exact writes_raise _
  rename_i accepted
  have accepted : isModuleName name = true := by simpa using accepted
  refine writes_bind moduleLocate_asMeant.came (fun found came => ?_)
  split
  · exact writes_raise _
  rename_i base modulePtr
  obtain ⟨-, a, came⟩ := came
  split
  · exact writes_raise _
  refine writes_bind writes_get (fun attachment _ => ?_)
  split
  · exact writes_pure trivial
  cases resolved with
  | error e => exact writes_raise _
  | ok info =>
    refine writes_bind (verifyIdentity_asMeant modulePtr info) (fun verified _ => ?_)
    refine writes_bind (addSymbolFile_asMeant (located_of_came came) (clean accepted))
      (fun _ _ => ?_)
    exact writes_bind (writes_modify _) (fun _ _ => writes_pure trivial)

end Loads

section Reached

variable {α β : Type} {engine : Engine} {peer : Peer} {op : Op α} {k : α → Op β} {a : Attachment}
variable {command : Text}

theorem mem_executeMiCommand :
    command ∈ (Op.on peer (executeMiCommand engine command) a).2 := by
  obtain ⟨a', came, -⟩ := @executeMiCommand_on engine peer command a
  rw [came]
  exact List.mem_singleton_self _

theorem mem_bind (first : command ∈ (Op.on peer op a).2) :
    command ∈ (Op.on peer (op >>= k) a).2 := by
  rcases came : Op.on peer op a with ⟨⟨value, a'⟩, commands⟩
  rw [came] at first
  cases value with
  | error e =>
    rw [Op.on_bind_error came]
    exact first
  | ok x =>
    rw [Op.on_bind_ok came]
    exact List.mem_append_left _ first

theorem mem_bind_next {a' : Attachment} {x : α} {commands : List Text}
    (came : Op.on peer op a = ((.ok x, a'), commands))
    (next : command ∈ (Op.on peer (k x) a').2) : command ∈ (Op.on peer (op >>= k) a).2 := by
  rw [Op.on_bind_ok came]
  exact List.mem_append_right _ next

theorem mem_except {handler : CategorizedError → Op α} (first : command ∈ (Op.on peer op a).2) :
    command ∈ (Op.on peer (except op handler) a).2 := by
  rcases came : Op.on peer op a with ⟨⟨value, a'⟩, commands⟩
  rw [came] at first
  rcases value with (e | _) | x
  · rw [Op.on_except_raised came]
    exact List.mem_append_left _ first
  · rw [Op.on_except_other came nofun]
    exact first
  · rw [Op.on_except_other came nofun]
    exact first

theorem setBreakpoint_writes {location : Text} (accepted : isName location = true) :
    "-break-insert ".toList ++ location ∈ (Op.on peer (setBreakpoint engine location) a).2 := by
  rw [setBreakpoint, if_neg (by simp [accepted])]
  exact mem_bind mem_executeMiCommand

theorem clearNumbered_writes {what name : String} {number : Text}
    (accepted : isNumber number = true) : "-break-delete ".toList ++ number ∈
      (Op.on peer (clearNumbered engine what name number) a).2 := by
  rw [clearNumbered, if_neg (by simp [accepted])]
  exact mem_bind mem_executeMiCommand

theorem setWatchpoint_writes {name : Text} {byteCount : Int} (supported : byteCount ∈ watchByteSizes)
    (accepted : isName name = true) : "-data-evaluate-expression &".toList ++ name ∈
      (Op.on peer (setWatchpoint engine (some name) none byteCount) a).2 := by
  rw [setWatchpoint, if_neg (not_not_intro supported)]
  apply mem_bind
  rw [resolveTarget, resolveSymbol, if_neg (by simp [accepted])]
  exact mem_bind (mem_except mem_executeMiCommand)

theorem addSymbolFile_writes {name path : Text} (accepted : Accepted path) (base : Nat) :
    addSymbolCommand (escaped path) base ∈
      (Op.on peer (addSymbolFile engine name path base) a).2 := by
  have controlled : '\t' ∉ path ∧ '\r' ∉ path ∧ '\n' ∉ path :=
    ⟨fun member => (accepted _ member).1 rfl, fun member => (accepted _ member).2.1 rfl,
      fun member => (accepted _ member).2.2.1 rfl⟩
  have unquoted : '"' ∉ escaped path := by
    rw [mem_escaped (by decide)]
    exact fun member => (accepted _ member).2.2.2 rfl
  have spelled : Op.on peer (ofExcept (.ok (escaped path)) : Op Text) a =
      ((.ok (escaped path), a), []) := rfl
  rw [addSymbolFile_eq, miPath_eq, if_pos controlled]
  refine mem_bind_next spelled ?_
  rw [if_neg unquoted]
  exact mem_bind (mem_except mem_executeMiCommand)

end Reached

section Sees

/-- What is asked about a list of one module, whose entry is 8 bytes into it. -/
inductive Query where
  | offset
  | head
  | first
  | name
  | base
  | next
  deriving DecidableEq

def queries : List (Text × Query) :=
  [("&((struct module *)0)->list".toList, .offset), ("&modules".toList, .head),
    ("modules.next".toList, .first), (moduleField 0x200 "name", .name),
    (moduleField 0x200 "mem[0].base", .base),
    ("((struct list_head *)".toList ++ hex 0x208 ++ ")->next".toList, .next)].map
      (fun q => (evalCommand q.1, q.2))

variable (engine : Engine) (name : Text) (base : Nat)

def answerTo : Query → Text
  | .offset => hex 8
  | .head => hex 0x100
  | .first => hex 0x208
  | .name => '"' :: (name ++ ['"'])
  | .base => hex base
  | .next => hex 0x100

def seesModule : Peer := fun command =>
  some [.result .done ((queries.lookup command).map
    (fun query => .dict [("value".toList, .text (answerTo name base query))]))]

theorem seesModule_reply (command : Text) : ∃ records,
    reply engine (seesModule name base) command = .ok records ∧
      evaluateValue records = (queries.lookup command).map (answerTo name base) := by
  refine ⟨_, rfl, ?_⟩
  cases queries.lookup command with
  | none => rfl
  | some query => rfl

variable {engine name base}

theorem seesModule_decodedAt {α : Type} (expr : Text) (decode : Text → Option α) :
    decodedAt engine (seesModule name base) expr decode =
      .ok (((queries.lookup (evalCommand expr)).map (answerTo name base)).bind decode) := by
  obtain ⟨records, came, value⟩ := seesModule_reply engine name base (evalCommand expr)
  rw [decodedAt, came, ← value]
  rfl

theorem seesModule_requiredAt {expr : String} {query : Query} {address : Nat}
    (asked : queries.lookup (evalCommand expr.toList) = some query)
    (answered : hexFrom (answerTo name base query) = some address) :
    requiredAt engine (seesModule name base) expr = .ok address := by
  obtain ⟨records, came, value⟩ := seesModule_reply engine name base (evalCommand expr.toList)
  rw [asked, Option.map_some] at value
  have found : (evaluateValue records).bind hexFrom = some address := by
    rw [value, Option.bind_some, answered]
  rw [requiredAt, came]
  simp only [handled, bind, Except.bind, found]

theorem digits_value (n : Nat) :
    (Nat.toDigits 16 n).foldl (fun n c => 16 * n + (Hex.digit c).getD 0) 0 = n := by
  have each : ∀ d < 16, (Hex.digit (Nat.digitChar d)).getD 0 = d := by decide
  induction n using Nat.strongRecOn with
  | ind n ih =>
    rw [Nat.toDigits_eq_if (by decide)]
    split
    · rename_i small
      rw [List.foldl_cons, List.foldl_nil, each n small, Nat.mul_zero, Nat.zero_add]
    · rename_i large
      rw [List.foldl_append, ih (n / 16) (Nat.div_lt_self (by omega) (by decide)), List.foldl_cons,
        List.foldl_nil, each _ (Nat.mod_lt n (by decide))]
      exact Nat.div_add_mod n 16

theorem digits_hex (n : Nat) : ∀ c ∈ Nat.toDigits 16 n, isHexDigit c = true := by
  have each : ∀ d < 16, isHexDigit (Nat.digitChar d) = true := by decide
  induction n using Nat.strongRecOn with
  | ind n ih =>
    rw [Nat.toDigits_eq_if (by decide)]
    split
    · rename_i small
      rw [List.forall_mem_singleton]
      exact each n small
    · rename_i large
      rw [List.forall_mem_append, List.forall_mem_singleton]
      exact ⟨ih (n / 16) (Nat.div_lt_self (by omega) (by decide)),
        each _ (Nat.mod_lt n (by decide))⟩

theorem hexFrom_hex (n : Nat) : hexFrom (hex n) = some n := by
  have digits : Regex.groups [Regex.some isHexDigit] (Nat.toDigits 16 n) =
      some [Nat.toDigits 16 n] := Regex.groups_some_all Nat.toDigits_ne_nil (digits_hex n)
  have sign : (Regex.word (· == ·) "0x".toList).splits (hex n) =
      [("0x".toList, Nat.toDigits 16 n)] := rfl
  have found : Regex.groups [Regex.word (· == ·) "0x".toList, .some isHexDigit] (hex n) =
      some ["0x".toList, Nat.toDigits 16 n] := by
    rw [Regex.groups, sign, List.findSome?_cons, digits]
    rfl
  have first : (hex n).tails.findSome? (fun rest =>
      (Regex.groups [Regex.word (· == ·) "0x".toList, .some isHexDigit] rest).bind (·[1]?)) =
      some (Nat.toDigits 16 n) := by
    have tails : (hex n).tails = hex n :: ('x' :: Nat.toDigits 16 n).tails := rfl
    rw [tails, List.findSome?_cons, found]
    rfl
  rw [hexFrom, first]
  exact congrArg some (digits_value n)

theorem quotedText_quotes {text : Text} (filled : text ≠ []) (unquoted : '"' ∉ text) :
    quotedText ('"' :: (text ++ ['"'])) = some text := by
  have each : ∀ c ∈ text, (c != '"') = true :=
    fun c member => bne_iff_ne.mpr (fun same => unquoted (same ▸ member))
  have longest := Regex.head?_runs (· != '"') (text ++ ['"'])
  rw [List.takeWhile_append_of_pos each, List.dropWhile_append_of_pos each] at longest
  obtain ⟨others, runs⟩ := List.head?_eq_some_iff.mp longest
  have body : Regex.groups [.many (· != '"'), .one (· == '"')] (text ++ ['"']) =
      some [text ++ [], ['"']] := by
    rw [Regex.groups, Regex.splits, runs, List.findSome?_cons]
    rfl
  have found : Regex.groups [.one (· == '"'), .many (· != '"'), .one (· == '"')]
      ('"' :: (text ++ ['"'])) = some [['"'], text ++ [], ['"']] := by
    have opened : (Regex.one (· == '"')).splits ('"' :: (text ++ ['"'])) =
        [(['"'], text ++ ['"'])] := rfl
    rw [Regex.groups, opened, List.findSome?_cons, body]
    rfl
  have first : quoted ('"' :: (text ++ ['"'])) = some text := by
    rw [quoted, List.tails, List.findSome?_cons, found]
    exact congrArg some (List.append_nil text)
  rw [quotedText, first, Option.filter_some, if_pos (by simpa using filled)]

theorem seesModule_walk (filled : name ≠ []) (unquoted : '"' ∉ name) :
    ∃ walk, walkAt engine (seesModule name base) maxModules = .ok walk ∧
      walk.rows = [(name, base, 0x200)] := by
  have offset : requiredAt engine (seesModule name base) "&((struct module *)0)->list" = .ok 8 :=
    seesModule_requiredAt (by decide +kernel : _ = some Query.offset) (hexFrom_hex 8)
  have head : requiredAt engine (seesModule name base) "&modules" = .ok 0x100 :=
    seesModule_requiredAt (by decide +kernel : _ = some Query.head) (hexFrom_hex 0x100)
  have first : requiredAt engine (seesModule name base) "modules.next" = .ok 0x208 :=
    seesModule_requiredAt (by decide +kernel : _ = some Query.first) (hexFrom_hex 0x208)
  have named : queries.lookup (evalCommand (moduleField 0x200 "name")) = some .name := by
    decide +kernel
  have based : queries.lookup (evalCommand (moduleField 0x200 "mem[0].base")) = some .base := by
    decide +kernel
  have nexts : queries.lookup (evalCommand ("((struct list_head *)".toList ++ hex 0x208 ++
      ")->next".toList)) = some .next := by decide +kernel
  have nameRead : decodedAt engine (seesModule name base) (moduleField 0x200 "name") quotedText =
      .ok (some name) := by
    rw [seesModule_decodedAt, named, Option.map_some, Option.bind_some]
    exact congrArg Except.ok (quotedText_quotes filled unquoted)
  have baseRead : decodedAt engine (seesModule name base) (moduleField 0x200 "mem[0].base") hexFrom =
      .ok (some base) := by
    rw [seesModule_decodedAt, based, Option.map_some, Option.bind_some]
    exact congrArg Except.ok (hexFrom_hex base)
  have nextRead : nextAt engine (seesModule name base) 0x208 = .ok (some 0x100) := by
    rw [nextAt, seesModule_decodedAt, nexts, Option.map_some, Option.bind_some]
    exact congrArg Except.ok (hexFrom_hex 0x100)
  have row : rowAt engine (seesModule name base) 8 "" 0x208 =
      .ok (some (name, base, 0x200), "mem[0].base") := by
    have there : ((((0x208 : Nat) : Int) - (8 : Nat)) % 2 ^ 64).toNat = 0x200 := by decide
    have candidates : baseAt engine (seesModule name base) 0x200 "" =
        .ok (some base, "mem[0].base") := by
      rw [baseAt, if_neg (by decide), moduleBaseFields, firstBaseAt, baseRead]
      rfl
    rw [rowAt, there, nameRead]
    dsimp only [bind, Except.bind]
    rw [candidates]
    rfl
  refine ⟨{ rows := [(name, base, 0x200)] }, ?_, rfl⟩
  rw [walkAt, offset, head, first]
  dsimp only [bind, Except.bind]
  rw [show maxModules = 510 + 1 + 1 from rfl, walkFrom, if_neg (by decide), row]
  dsimp only [bind, Except.bind]
  rw [nextRead]
  dsimp only
  rw [if_neg (by decide), walkFrom, if_pos rfl]
  rfl

end Sees

section Misread

variable {engine : Engine} {name : Text} {expectedBase : Option Nat}

theorem identifier_mem {first rest : Char → Bool} {text : Text}
    (accepted : identifier first rest text = true) :
    text ≠ [] ∧ ∀ c ∈ text, first c = true ∨ rest c = true ∨ c = '\n' := by
  cases text with
  | nil => cases accepted
  | cons c text =>
    refine ⟨List.cons_ne_nil _ _, ?_⟩
    rw [identifier, Bool.and_eq_true, List.all_eq_true] at accepted
    rw [List.forall_mem_cons]
    refine ⟨.inl accepted.1, fun d member => .inr ?_⟩
    by_cases ends : text.getLast? = some '\n'
    · rw [if_pos ends] at accepted
      obtain ⟨before, rfl⟩ := List.getLast?_eq_some_iff.mp ends
      rw [List.dropLast_concat] at accepted
      rcases List.mem_append.mp member with earlier | last
      · exact .inl (accepted.2 d earlier)
      · exact .inr (List.mem_singleton.mp last)
    · rw [if_neg ends] at accepted
      exact .inl (accepted.2 d member)

theorem moduleName_unquoted (accepted : isModuleName name = true) : name ≠ [] ∧ '"' ∉ name := by
  obtain ⟨filled, each⟩ := identifier_mem accepted
  exact ⟨filled, fun member => absurd (each _ member) (by decide)⟩

theorem seesModule_unverified {peer : Peer} (modulePtr : Nat) (info : ModuleDebuginfo)
    (noVersion : decodedAt engine peer (moduleField modulePtr "srcversion") quotedText = .ok none)
    (noBuildId : decodedAt engine peer ("&".toList ++ moduleField modulePtr "build_id") hexFrom =
      .ok none) : Comes peer (verifyIdentity engine name modulePtr info) (.ok false) := by
  have unbuilt : Comes peer (moduleBuildId engine modulePtr) (.ok none) := by
    have read := @comes_evalDecoded engine peer _ ("&".toList ++ moduleField modulePtr "build_id")
      hexFrom
    rw [noBuildId] at read
    intro a
    obtain ⟨a', commands, came, same⟩ := read a
    refine ⟨a', commands, ?_, same⟩
    rw [moduleBuildId]
    refine (Op.on_bind_ok came).trans ?_
    exact congrArg (Prod.mk _) (List.append_nil commands)
  have unversioned := @comes_evalDecoded engine peer _ (moduleField modulePtr "srcversion") quotedText
  rw [noVersion] at unversioned
  intro a
  obtain ⟨a₁, commands₁, came₁, same₁⟩ := unversioned a
  obtain ⟨a₂, commands₂, came₂, same₂⟩ := unbuilt a₁
  refine ⟨a₂, commands₁ ++ commands₂, ?_, same₂.trans same₁⟩
  have second : Op.on peer (verifyBuildId engine name modulePtr info) a₁ =
      ((.ok false, a₂), commands₂) := by
    rw [verifyBuildId]
    refine (Op.on_bind_ok came₂).trans ?_
    exact congrArg (Prod.mk _) (List.append_nil commands₂)
  rw [verifyIdentity]
  refine (Op.on_bind_ok came₁).trans ?_
  exact congrArg (fun on => (on.1, commands₁ ++ on.2)) second

theorem loadModuleSymbols_writes {info : ModuleDebuginfo} {base : Nat}
    (accepted : isModuleName name = true) (expected : expectedBase.any (· != base) = false)
    (path : Accepted info.path) : addSymbolCommand (escaped info.path) base ∈
      Request.commands engine (seesModule name base) {}
        (.loadModuleSymbols (.ok info) name expectedBase) := by
  obtain ⟨filled, unquoted⟩ := moduleName_unquoted accepted
  obtain ⟨walk, walked, rows⟩ := @seesModule_walk engine name base filled unquoted
  have located := @comes_moduleLocate engine (seesModule name base) name
  rw [walked] at located
  obtain ⟨a₁, commands, came, same⟩ := located {}
  have found : (walk.rows.find? (·.1 == name)).map Prod.snd = some (base, 0x200) := by
    rw [rows, List.find?_cons_of_pos (by simp)]
    rfl
  have came : Op.on (seesModule name base) (moduleLocate engine name) {} =
      ((.ok (some (base, 0x200)), a₁), commands) := by
    rw [came, ← found]
    rfl
  have noVersion : queries.lookup (evalCommand (moduleField 0x200 "srcversion")) = none := by
    decide +kernel
  have noBuildId : queries.lookup (evalCommand ("&".toList ++ moduleField 0x200 "build_id")) =
      none := by decide +kernel
  have verified := @seesModule_unverified engine name (seesModule name base) 0x200 info
    (by rw [seesModule_decodedAt, noVersion]; rfl) (by rw [seesModule_decodedAt, noBuildId]; rfl)
  obtain ⟨a₂, commands₂, came₂, -⟩ := verified a₁
  have state : Op.on (seesModule name base) (get : Op Attachment) a₁ = ((.ok a₁, a₁), []) := rfl
  rw [Request.commands, loadModuleSymbols, if_neg (by simp [accepted])]
  refine mem_bind_next came ?_
  dsimp only
  rw [if_neg (by simp [expected])]
  refine mem_bind_next state ?_
  rw [if_neg (by rw [same]; exact List.not_mem_nil)]
  refine mem_bind_next came₂ ?_
  exact mem_bind (addSymbolFile_writes path base)

theorem seesModule_located {base base' : Nat} (accepted : isModuleName name = true)
    (located : Located engine (seesModule name base) name base') : base' = base := by
  obtain ⟨filled, unquoted⟩ := moduleName_unquoted accepted
  obtain ⟨walk, walked, rows⟩ := @seesModule_walk engine name base filled unquoted
  obtain ⟨walk', row, walked', found, rfl⟩ := located
  obtain rfl := Except.ok.inj (walked.symm.trans walked')
  rw [rows, List.find?_cons_of_pos (by simp)] at found
  obtain rfl := Option.some.inj found
  rfl

theorem clean_of_asMeant (request : Request)
    (meant : ∀ peer a, ∀ c ∈ request.commands engine peer a, ReadAsMeant engine peer request c) :
    request.Clean := by
  have lines (peer : Peer) : ∀ c ∈ request.commands engine peer {}, '\n' ∉ c :=
    fun c member => (meant peer {} c member).line.1
  cases request with
  | setBreakpoint location =>
    intro accepted ended
    exact lines (fun _ => none) _ (setBreakpoint_writes accepted) (List.mem_append_right _ ended)
  | clearBreakpoint number =>
    intro accepted ended
    exact lines (fun _ => none) _ (clearNumbered_writes accepted) (List.mem_append_right _ ended)
  | clearWatchpoint number =>
    intro accepted ended
    exact lines (fun _ => none) _ (clearNumbered_writes accepted) (List.mem_append_right _ ended)
  | setWatchpoint symbol address byteCount =>
    rcases symbol with _ | name
    · trivial
    rcases address with _ | address
    · intro supported accepted ended
      exact lines (fun _ => none) _ (setWatchpoint_writes supported accepted)
        (List.mem_append_right _ ended)
    · trivial
  | loadModuleSymbols resolved name expectedBase =>
    cases resolved with
    | error e => trivial
    | ok info =>
      intro accepted path
      -- the debugger sees the module where the caller expects it
      have written := @loadModuleSymbols_writes engine name expectedBase info
        (expectedBase.getD 0) accepted (by cases expectedBase <;> simp) path
      have unquoted : '"' ∉ info.path := fun member => (path _ member).2.2.2 rfl
      obtain ⟨reading, intended, read⟩ := (meant _ _ _ written).read
      have consoleOnly := reads_addSymbol unquoted (expectedBase.getD 0)
      cases intended with
      | evaluate known =>
        rw [read] at consoleOnly
        split at consoleOnly <;> cases consoleOnly
      | buildId address =>
        rw [read] at consoleOnly
        split at consoleOnly <;> cases consoleOnly
      | addSymbolFile located =>
        rw [seesModule_located accepted located] at read
        exact (reads_addSymbol_iff unquoted _).mp read

/-- Whatever it accepts, a request is read as it is meant exactly when it is clean. -/
theorem request_asMeant_iff (engine : Engine) (request : Request) :
    (∀ peer a, ∀ c ∈ request.commands engine peer a, ReadAsMeant engine peer request c) ↔
      request.Clean := by
  refine ⟨clean_of_asMeant request, fun clean peer a => ?_⟩
  cases request with
  | setBreakpoint location => exact (setBreakpoint_asMeant clean).written a
  | clearBreakpoint number => exact (clearNumbered_asMeant clean (.clearBreakpoint number)).written a
  | clearWatchpoint number => exact (clearNumbered_asMeant clean (.clearWatchpoint number)).written a
  | setWatchpoint symbol address byteCount => exact (setWatchpoint_asMeant clean).written a
  | loadModuleSymbols resolved name expectedBase =>
    exact (loadModuleSymbols_asMeant clean).written a

def spacedLoad : Request :=
  .loadModuleSymbols (.ok ⟨"/stage/my ext4.ko".toList, none, none⟩) "ext4".toList none

theorem accepted_arguments_misread :
    (∃ c ∈ (Request.setBreakpoint "main\n".toList).commands plain (fun _ => none) {}, '\n' ∈ c) ∧
    ∃ c ∈ spacedLoad.commands plain (seesModule "ext4".toList 0xf000) {},
      GdbLine.reads c = some (.console "add-symbol-file".toList
        ["/stage/my".toList, "ext4.ko".toList, "0xf000".toList]) ∧
      ¬ ReadAsMeant plain (seesModule "ext4".toList 0xf000) spacedLoad c := by
  refine ⟨⟨_, setBreakpoint_writes (by decide), by decide⟩, ?_⟩
  have accepted : Accepted "/stage/my ext4.ko".toList := by
    unfold Accepted
    exact GdbLine.each (by decide)
  have unquoted : '"' ∉ "/stage/my ext4.ko".toList := by decide
  have words : GdbLine.argv ("/stage/my ext4.ko".toList ++ ' ' :: hex 0xf000) =
      ["/stage/my".toList, "ext4.ko".toList, "0xf000".toList] := by
    change GdbLine.argv ("/stage/my".toList ++ ' ' :: ("ext4.ko".toList ++ ' ' ::
      ("0xf000".toList ++ []))) = _
    rw [@GdbLine.argv_plain "/stage/my".toList _ nofun (GdbLine.each (by decide)) (.inr rfl),
      GdbLine.argv_space (by decide),
      @GdbLine.argv_plain "ext4.ko".toList _ nofun (GdbLine.each (by decide)) (.inr rfl),
      GdbLine.argv_space (by decide),
      @GdbLine.argv_plain "0xf000".toList _ nofun (GdbLine.each (by decide)) (.inl rfl),
      GdbLine.argv_nil]
  have read := reads_addSymbol unquoted 0xf000
  rw [if_neg (by decide), words] at read
  refine ⟨_, loadModuleSymbols_writes (by decide) rfl accepted, read, fun meant => ?_⟩
  obtain ⟨reading, intended, again⟩ := meant.read
  rw [read] at again
  obtain rfl := Option.some.inj again
  cases intended

end Misread

end Kdive.Debug
