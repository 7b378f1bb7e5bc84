import Kdive.Debug.ModuleWalk

/-!
A debug session over guest module lists that change between its operations. The session remembers a
load by the module's name, so what it says of a module is right as long as every module stands where
its symbols were loaded.
-/
namespace Kdive.Debug
open Console (Text)

section Loading

variable {α β : Type} {engine : Engine} {peer : Peer}

def Settled (peer : Peer) (op : Op α) : Prop := ∃ value, Comes peer op value

theorem settled_bind {op : Op α} {k : α → Op β} (first : Settled peer op)
    (second : ∀ x, Settled peer (k x)) : Settled peer (op >>= k) := by
  obtain ⟨value, came⟩ := first
  choose next comes using second
  exact ⟨value >>= next, comes_bind came comes⟩

theorem settled_except {op : Op α} {handler : CategorizedError → Op α} (first : Settled peer op)
    (second : ∀ e, Settled peer (handler e)) : Settled peer (except op handler) := by
  obtain ⟨value, came⟩ := first
  choose next comes using second
  exact ⟨handled value next, comes_except came comes⟩

theorem settled_pure (x : α) : Settled peer (pure x : Op α) := ⟨_, comes_pure x⟩

theorem settled_raise (e : CategorizedError) : Settled peer (raise e : Op α) := ⟨_, comes_raise e⟩

theorem settled_ite {c : Prop} [Decidable c] {op op' : Op α} (first : Settled peer op)
    (second : Settled peer op') : Settled peer (if c then op else op') := by
  split
  · exact first
  · exact second

theorem settled_identityMatch (name : Text) (ok : Bool) :
    Settled peer (identityMatch engine name ok) :=
  settled_ite (settled_pure _) (settled_raise _)

theorem settled_readMemory (address byteCount : Int) :
    Settled peer (readMemory engine address byteCount) := by
  refine settled_ite (settled_raise _) (settled_ite (settled_raise _) ?_)
  exact settled_bind ⟨_, comes_executeMiCommand _⟩ (fun records => ⟨_, comes_ofExcept _⟩)

theorem settled_moduleBuildId (modulePtr : Nat) :
    Settled peer (moduleBuildId engine modulePtr) := by
  refine settled_bind ⟨_, comes_evalDecoded _ _⟩ (fun found => ?_)
  cases found with
  | none => exact settled_pure _
  | some address =>
    refine settled_bind (settled_except ?_ ?_) (fun blob => settled_pure _)
    · exact settled_bind (settled_readMemory _ _) (fun bytes => settled_pure _)
    · exact fun e => settled_ite (settled_raise _) (settled_pure _)

theorem settled_verifyIdentity (name : Text) (modulePtr : Nat) (info : ModuleDebuginfo) :
    Settled peer (verifyIdentity engine name modulePtr info) := by
  refine settled_bind ⟨_, comes_evalDecoded _ _⟩ (fun live => ?_)
  have byBuildId : Settled peer (verifyBuildId engine name modulePtr info) := by
    refine settled_bind (settled_moduleBuildId _) (fun live => ?_)
    split
    · exact settled_identityMatch _ _
    · exact settled_pure _
  split
  · exact settled_identityMatch _ _
  · exact byBuildId

def addSymbolCommand (text : Text) (base : Nat) : Text :=
  "-interpreter-exec console \"add-symbol-file ".toList ++ text ++ " ".toList ++ hex base ++
    "\"".toList

theorem addSymbolCommand_suffix (text : Text) (base : Nat) :
    (hex base ++ "\"".toList) <:+ addSymbolCommand text base := by
  unfold addSymbolCommand
  exact ⟨_, (List.append_assoc _ _ _).symm⟩

def addSymbolFailed (engine : Engine) (name : Text) : CategorizedError where
  message := "gdb/MI add-symbol-file failed for ".toList ++ engine.repr name
  category := .debugAttachFailure
  details := [code "add_symbol_failed", detail "module" (.text name)]

theorem addSymbolFile_eq (name path : Text) (base : Nat) :
    addSymbolFile engine name path base = (ofExcept (miPath path) >>= fun text =>
      if '"' ∈ text then
        raise (configError "staged module path is not safely quotable".toList "add_symbol_failed" [])
      else except (executeMiCommand engine (addSymbolCommand text base))
        (fun _ => raise (addSymbolFailed engine name)) >>= fun _ => pure ()) := rfl

theorem addSymbolFile_on (name path : Text) (base : Nat) (a : Attachment) :
    ∃ outcome a' commands, Op.on peer (addSymbolFile engine name path base) a =
      ((outcome, a'), commands) ∧ a'.loadedModules = a.loadedModules ∧
      (outcome = .ok () → ∃ text, miPath path = .ok text ∧ addSymbolCommand text base ∈ commands) := by
  rw [addSymbolFile_eq]
  cases spelled : miPath path with
  | error e =>
    have first : Op.on peer (ofExcept (.error e) : Op Text) a = ((.error e, a), []) := rfl
    rw [Op.on_bind_error first]
    exact ⟨_, _, _, rfl, rfl, nofun⟩
  | ok text =>
    have first : Op.on peer (ofExcept (.ok text) : Op Text) a = ((.ok text, a), []) := rfl
    rw [Op.on_bind_ok first]
    split
    · exact ⟨_, _, _, rfl, rfl, nofun⟩
    · obtain ⟨a', came, same⟩ := @executeMiCommand_on engine peer (addSymbolCommand text base) a
      generalize spelling : addSymbolCommand text base = command at came ⊢
      cases answer : reply engine peer command with
      | ok records =>
        rw [answer] at came
        rw [Op.on_bind_ok (Op.on_except_other came nofun), Op.on_pure]
        refine ⟨_, _, _, rfl, same, fun _ => ⟨text, rfl, ?_⟩⟩
        rw [spelling]
        exact List.mem_append_right _ (List.mem_append_left _ (List.mem_singleton_self _))
      | error e =>
        rw [answer] at came
        cases e with
        | valueError =>
          rw [Op.on_bind_error (Op.on_except_other came nofun)]
          exact ⟨_, _, _, rfl, same, nofun⟩
        | categorized e =>
          have handled := @Op.on_except_raised _ _ _
            (fun _ => raise (addSymbolFailed engine name)) a a' e [command] came
          rw [Op.on_raise] at handled
          rw [Op.on_bind_error handled]
          exact ⟨_, _, _, rfl, same, nofun⟩

def Located (engine : Engine) (peer : Peer) (name : Text) (base : Nat) : Prop :=
  ∃ walk row, walkAt engine peer maxModules = .ok walk ∧
    walk.rows.find? (·.1 == name) = some row ∧ row.2.1 = base

theorem comes_moduleLocate (name : Text) :
    Comes peer (moduleLocate engine name) ((walkAt engine peer maxModules).map
      (fun walk => (walk.rows.find? (·.1 == name)).map Prod.snd)) := by
  have walks := comes_bind (@comes_moduleWalk engine peer maxModules)
    (fun walk => comes_pure ((walk.rows.find? (·.1 == name)).map Prod.snd))
  rw [moduleLocate]
  cases walked : walkAt engine peer maxModules with
  | error e =>
    rw [walked] at walks
    exact walks
  | ok walk =>
    rw [walked] at walks
    exact walks

structure LoadCame (engine : Engine) (peer : Peer) (resolved : Except CategorizedError ModuleDebuginfo)
    (name : Text) (expectedBase : Option Nat) (loaded loaded' : List Text)
    (outcome : Except Raised Module) (commands : List Text) : Prop where
  reports : ∀ m, outcome = .ok m → ∃ base, Located engine peer name base ∧
    expectedBase.any (· != base) = false ∧ m.name = engine.redactText name ∧ m.baseAddress = engine.redactText (hex base) ∧
      (loaded' = loaded ∧ name ∈ loaded ∨ loaded' = name :: loaded ∧ ∃ info text,
        resolved = .ok info ∧ miPath info.path = .ok text ∧ addSymbolCommand text base ∈ commands)
  fails : ∀ e, outcome = .error e → loaded' = loaded

theorem LoadCame.failed {resolved : Except CategorizedError ModuleDebuginfo} {name : Text}
    {expectedBase : Option Nat} {loaded loaded' commands : List Text} {e : Raised}
    (same : loaded' = loaded) :
    LoadCame engine peer resolved name expectedBase loaded loaded' (.error e) commands :=
  ⟨fun _ returned => absurd returned nofun, fun _ _ => same⟩

theorem loadModuleSymbols_on (resolved : Except CategorizedError ModuleDebuginfo) (name : Text)
    (expectedBase : Option Nat) (a : Attachment) :
    ∃ outcome a' commands, Op.on peer (loadModuleSymbols engine resolved name expectedBase) a =
      ((outcome, a'), commands) ∧
      LoadCame engine peer resolved name expectedBase a.loadedModules a'.loadedModules outcome
        commands := by
  rw [loadModuleSymbols]
  split
  · exact ⟨_, _, _, rfl, .failed rfl⟩
  obtain ⟨a₁, commands, came, same⟩ := @comes_moduleLocate engine peer name a
  cases walked : walkAt engine peer maxModules with
  | error e =>
    rw [walked] at came
    rw [Op.on_bind_error came]
    exact ⟨_, _, _, rfl, .failed same⟩
  | ok walk =>
    rw [walked] at came
    rw [Op.on_bind_ok came]
    dsimp only
    cases found : walk.rows.find? (·.1 == name) with
    | none =>
      dsimp only [Option.map_none]
      rw [Op.on_raise]
      exact ⟨_, _, _, rfl, .failed same⟩
    | some row =>
      obtain ⟨rowName, base, modulePtr⟩ := row
      have located : Located engine peer name base := ⟨walk, _, walked, found, rfl⟩
      dsimp only [Option.map_some]
      split
      · rw [Op.on_raise]
        exact ⟨_, _, _, rfl, .failed same⟩
      rename_i expected
      rw [Bool.not_eq_true] at expected
      have state : Op.on peer (get : Op Attachment) a₁ = ((.ok a₁, a₁), []) := rfl
      rw [Op.on_bind_ok state]
      split
      · rename_i member
        rw [Op.on_pure]
        refine ⟨_, _, _, rfl, fun m returned => ?_, fun _ raised => absurd raised nofun⟩
        obtain rfl := Except.ok.inj returned
        exact ⟨base, located, expected, rfl, rfl, .inl ⟨same, same ▸ member⟩⟩
      cases resolved with
      | error e =>
        dsimp only
        rw [Op.on_raise]
        exact ⟨_, _, _, rfl, .failed same⟩
      | ok info =>
        dsimp only
        obtain ⟨verified, settled⟩ := @settled_verifyIdentity engine peer name modulePtr info
        obtain ⟨a₂, commands₂, came₂, same₂⟩ := settled a₁
        cases verified with
        | error e =>
          rw [Op.on_bind_error came₂]
          exact ⟨_, _, _, rfl, .failed (same₂.trans same)⟩
        | ok verified =>
          rw [Op.on_bind_ok came₂]
          obtain ⟨added, a₃, commands₃, came₃, same₃, issued⟩ :=
            @addSymbolFile_on engine peer name info.path base a₂
          cases added with
          | error e =>
            rw [Op.on_bind_error came₃]
            exact ⟨_, _, _, rfl, .failed (same₃.trans (same₂.trans same))⟩
          | ok _ =>
            obtain ⟨text, spelled, member⟩ := issued rfl
            rw [Op.on_bind_ok came₃]
            have kept : Op.on peer (modify (fun a : Attachment =>
                { a with loadedModules := name :: a.loadedModules }) : Op Unit) a₃ =
                ((.ok (), { a₃ with loadedModules := name :: a₃.loadedModules }), []) := rfl
            rw [Op.on_bind_ok kept, Op.on_pure]
            refine ⟨_, _, _, rfl, fun m returned => ?_, fun _ raised => absurd raised nofun⟩
            obtain rfl := Except.ok.inj returned
            refine ⟨base, located, expected, rfl, rfl, .inr ⟨?_, info, text, rfl, spelled, ?_⟩⟩
            · exact congrArg (List.cons name) (same₃.trans (same₂.trans same))
            · simp only [List.mem_append]
              exact .inr (.inr (.inr (.inl member)))

end Loading

section Sessions

inductive Call where
  | listModules (limit : Int)
  | loadModuleSymbols (resolved : Except CategorizedError ModuleDebuginfo) (name : Text)
      (expectedBase : Option Nat)
  | other (execution : Execution) (commands : List Text)

/-- An operation, and the debugger as it answers while the operation runs. -/
structure Asked where
  peer : Peer
  call : Call

structure Performed where
  call : Call
  returned : Bool
  commands : List Text

structure ModuleSession where
  attachment : Attachment := {}
  performed : List Performed := []

variable (engine : Engine)

def outcomeOf (a : Attachment) (asked : Asked) :
    (Except Raised (List Module) × Attachment) × List Text :=
  match asked.call with
  | .listModules limit =>
    let came := Op.on asked.peer (listModules engine limit) a
    ((came.1.1.map ModuleList.modules, came.1.2), came.2)
  | .loadModuleSymbols resolved name expectedBase =>
    let came := Op.on asked.peer (loadModuleSymbols engine resolved name expectedBase) a
    ((came.1.1.map (fun m => [m]), came.1.2), came.2)
  | .other execution commands => ((.ok [], { a with execution }), commands)

def ModuleSession.ask (s : ModuleSession) (asked : Asked) : ModuleSession where
  attachment := (outcomeOf engine s.attachment asked).1.2
  performed := s.performed ++ [⟨asked.call, (outcomeOf engine s.attachment asked).1.1.isOk,
    (outcomeOf engine s.attachment asked).2⟩]

def Performed.Adds (p : Performed) (name : Text) (base : Nat) : Prop :=
  ∃ info text expectedBase, p.call = .loadModuleSymbols (.ok info) name expectedBase ∧
    miPath info.path = .ok text ∧ addSymbolCommand text base ∈ p.commands

def Issued (performed : List Performed) (name : Text) (base : Nat) : Prop :=
  ∃ p ∈ performed, p.Adds name base

def LoadedAt (performed : List Performed) (name : Text) (base : Nat) : Prop :=
  ∃ p ∈ performed, p.returned = true ∧ p.Adds name base

def rowsReported (asked : Asked) : List ModuleRow :=
  match asked.call with
  | .listModules limit =>
    match walkAt engine asked.peer limit.toNat with
    | .ok walk => walk.rows
    | .error _ => []
  | .loadModuleSymbols _ name _ =>
    match walkAt engine asked.peer maxModules with
    | .ok walk => (walk.rows.find? (·.1 == name)).toList
    | .error _ => []
  | .other _ _ => []

/-- What a report says of a module is so: it gives the name and the base that the guest has, and
where it says that symbols are loaded they were issued for that name at that base. -/
structure TrueOf (performed : List Performed) (m : Module) (row : ModuleRow) : Prop where
  name : m.name = engine.redactText row.1
  base : m.baseAddress = engine.redactText (hex row.2.1)
  issued : m.symbolsLoaded = true → Issued performed row.1 row.2.1

def Truthful (s : ModuleSession) (asked : Asked) : Prop :=
  ∀ modules, (outcomeOf engine s.attachment asked).1.1 = .ok modules →
    List.Forall₂ (TrueOf engine (s.ask engine asked).performed) modules (rowsReported engine asked)

def Call.expects (base : Nat) : Call → Bool
  | .loadModuleSymbols _ _ expectedBase => !expectedBase.any (· != base)
  | _ => true

/-- Every module with symbols loaded that the operation reports on stands where they were loaded, or
not where the operation expects it. -/
def InPlace (s : ModuleSession) (asked : Asked) : Prop :=
  ∀ row ∈ rowsReported engine asked, asked.call.expects row.2.1 = true →
    ∀ base, LoadedAt s.performed row.1 base → row.2.1 = base

def Remembered (s : ModuleSession) : Prop :=
  ∀ name ∈ s.attachment.loadedModules, ∃ base, LoadedAt s.performed name base

variable {engine}

theorem LoadedAt.issued {performed : List Performed} {name : Text} {base : Nat}
    (loaded : LoadedAt performed name base) (more : List Performed) :
    Issued (performed ++ more) name base := by
  obtain ⟨p, member, -, adds⟩ := loaded
  exact ⟨p, List.mem_append_left more member, adds⟩

theorem LoadedAt.append {performed : List Performed} {name : Text} {base : Nat}
    (loaded : LoadedAt performed name base) (more : List Performed) :
    LoadedAt (performed ++ more) name base := by
  obtain ⟨p, member, rest⟩ := loaded
  exact ⟨p, List.mem_append_left more member, rest⟩

theorem listing_truthful {s : ModuleSession} {peer : Peer} {limit : Int} (remembered : Remembered s)
    (inPlace : InPlace engine s ⟨peer, .listModules limit⟩) :
    Truthful engine s ⟨peer, .listModules limit⟩ := by
  intro modules returned
  obtain ⟨a', commands, came, -⟩ := @listModules_on engine peer limit s.attachment
  rw [outcomeOf] at returned
  dsimp only at returned
  rw [came] at returned
  rw [InPlace, rowsReported] at inPlace
  rw [rowsReported]
  dsimp only at returned inPlace ⊢
  cases walked : walkAt engine peer limit.toNat with
  | error e =>
    rw [walked] at returned
    cases returned
  | ok walk =>
    rw [walked] at returned inPlace
    obtain rfl := Except.ok.inj returned
    dsimp only at inPlace ⊢
    rw [listed, List.forall₂_map_left_iff, List.forall₂_same]
    intro row member
    refine ⟨rfl, rfl, fun marked => ?_⟩
    have known : row.1 ∈ s.attachment.loadedModules := of_decide_eq_true marked
    obtain ⟨base, loaded⟩ := remembered row.1 known
    rw [inPlace row member rfl base loaded]
    exact loaded.issued _

theorem find_name {rows : List ModuleRow} {row : ModuleRow} {name : Text}
    (found : rows.find? (·.1 == name) = some row) : row.1 = name := by
  simpa using List.find?_some found

/-- A load reports the module it found, on the strength of its own command or of an earlier one. -/
theorem load_truthful {s : ModuleSession} {peer : Peer} {name : Text} {expectedBase : Option Nat}
    {resolved : Except CategorizedError ModuleDebuginfo} (remembered : Remembered s)
    (inPlace : InPlace engine s ⟨peer, .loadModuleSymbols resolved name expectedBase⟩) :
    Truthful engine s ⟨peer, .loadModuleSymbols resolved name expectedBase⟩ := by
  intro modules returned
  obtain ⟨outcome, a', commands, came, load⟩ :=
    @loadModuleSymbols_on engine peer resolved name expectedBase s.attachment
  have performed : (s.ask engine ⟨peer, .loadModuleSymbols resolved name expectedBase⟩).performed =
      s.performed ++ [⟨.loadModuleSymbols resolved name expectedBase,
        (outcome.map (fun m => [m])).isOk, commands⟩] := by
    rw [ModuleSession.ask, outcomeOf]
    dsimp only
    rw [came]
  rw [outcomeOf] at returned
  dsimp only at returned
  rw [came] at returned
  cases outcome with
  | error e => cases returned
  | ok m =>
    obtain rfl := Except.ok.inj returned
    obtain ⟨base, ⟨walk, row, walked, found, rfl⟩, expected, sameName, sameBase, ways⟩ :=
      load.reports m rfl
    have rows : rowsReported engine ⟨peer, .loadModuleSymbols resolved name expectedBase⟩ =
        [row] := by
      rw [rowsReported]
      dsimp only
      rw [walked]
      dsimp only
      rw [found]
      rfl
    rw [rows, performed]
    refine .cons ⟨by rw [find_name found]; exact sameName, sameBase, fun _ => ?_⟩ .nil
    rcases ways with ⟨-, known⟩ | ⟨-, info, text, resolution, spelled, member⟩
    · rw [← find_name found] at known
      obtain ⟨base, loaded⟩ := remembered row.1 known
      have expects : Call.expects row.2.1 (.loadModuleSymbols resolved name expectedBase) = true := by
        rw [Call.expects, expected]
        rfl
      rw [inPlace row (by rw [rows]; exact List.mem_singleton_self row) expects base loaded]
      exact loaded.issued _
    · refine ⟨_, List.mem_append_right _ (List.mem_singleton_self _), info, text, expectedBase, ?_,
        spelled, member⟩
      rw [resolution, find_name found]

theorem ask_remembered {s : ModuleSession} (remembered : Remembered s) (asked : Asked) :
    Remembered (s.ask engine asked) := by
  obtain ⟨peer, call⟩ := asked
  have kept (same : (s.ask engine ⟨peer, call⟩).attachment.loadedModules =
      s.attachment.loadedModules) : Remembered (s.ask engine ⟨peer, call⟩) := by
    intro name member
    rw [same] at member
    obtain ⟨base, loaded⟩ := remembered name member
    exact ⟨base, loaded.append _⟩
  cases call with
  | listModules limit =>
    obtain ⟨a', commands, came, same⟩ := @listModules_on engine peer limit s.attachment
    refine kept ?_
    rw [ModuleSession.ask, outcomeOf]
    dsimp only
    rw [came]
    exact same
  | other execution commands => exact kept rfl
  | loadModuleSymbols resolved name expectedBase =>
    obtain ⟨outcome, a', commands, came, load⟩ :=
      @loadModuleSymbols_on engine peer resolved name expectedBase s.attachment
    have names : (s.ask engine ⟨peer, .loadModuleSymbols resolved name
        expectedBase⟩).attachment.loadedModules = a'.loadedModules := by
      rw [ModuleSession.ask, outcomeOf]
      dsimp only
      rw [came]
    cases outcome with
    | error e => exact kept (names.trans (load.fails e rfl))
    | ok m =>
      obtain ⟨base, -, -, -, -, ways⟩ := load.reports m rfl
      rcases ways with ⟨same, -⟩ | ⟨grown, info, text, rfl, spelled, added⟩
      · exact kept (names.trans same)
      · intro other member
        rw [names, grown] at member
        rcases List.mem_cons.mp member with rfl | old
        · refine ⟨base, ⟨.loadModuleSymbols (.ok info) other expectedBase, true, commands⟩, ?_, rfl,
            info, text, expectedBase, rfl, spelled, added⟩
          rw [ModuleSession.ask, outcomeOf]
          dsimp only
          rw [came]
          exact List.mem_append_right _ (List.mem_singleton_self _)
        · obtain ⟨base', loaded⟩ := remembered other old
          exact ⟨base', loaded.append _⟩

/-- In every session whose operations find the modules that it loaded where it loaded them, or expect
them elsewhere, every report is true. -/
theorem reports_truthful (engine : Engine) (history : List Asked)
    (inPlace : Trace.Along (ModuleSession.ask engine) (InPlace engine) {} history) :
    Trace.Along (ModuleSession.ask engine) (Truthful engine) {} history := by
  refine @Trace.along_of_invariant _ _ _ Remembered _ _
    (fun s asked remembered _ => ask_remembered remembered asked) ?_ _ _ ?_ inPlace
  · rintro s ⟨peer, call⟩ remembered placed
    cases call with
    | listModules limit => exact listing_truthful remembered placed
    | loadModuleSymbols resolved name expectedBase => exact load_truthful remembered placed
    | other execution commands =>
      intro modules returned
      obtain rfl := Except.ok.inj returned
      exact .nil
  · exact fun name member => absurd member List.not_mem_nil

end Sessions

section Samples

/-- A debugger that sees one module and takes every other command but an evaluation. -/
def oneModule (name base : String) : Peer := fun command =>
  if "-interpreter-exec".toList.isPrefixOf command then some [.result .done none]
  else evaluates [("&((struct module *)0)->list", "(struct list_head *) 0x8"),
    ("&modules", "(struct list_head *) 0x100 <modules>"),
    ("modules.next", "(struct list_head *) 0x208"),
    ("((struct module *)0x200)->name", "\"" ++ name ++ "\""),
    ("((struct module *)0x200)->mem[0].base", "(void *) " ++ base),
    ("((struct list_head *)0x208)->next", "(struct list_head *) 0x100 <modules>")] command

def loadExt4 : Call :=
  .loadModuleSymbols (.ok ⟨"/stage/ext4.ko".toList, none, none⟩) "ext4".toList none

def replacedModule : List Asked :=
  [⟨oneModule "ext4" "0xf000", loadExt4⟩, ⟨oneModule "e1000" "0xf000", .listModules 512⟩]

theorem replacedModule_truthful :
    Trace.Along (ModuleSession.ask plain) (Truthful plain) {} replacedModule := by
  refine reports_truthful plain replacedModule ⟨?_, ?_, trivial⟩
  · rintro row - - base ⟨p, member, -⟩
    exact absurd member List.not_mem_nil
  · intro row seen _ base loaded
    have others : ∀ row ∈ rowsReported plain ⟨oneModule "e1000" "0xf000", .listModules 512⟩,
        row.1 ≠ "ext4".toList := by decide +kernel
    obtain ⟨p, member, -, info, text, expectedBase, call, -⟩ := loaded
    rw [ModuleSession.ask] at member
    obtain rfl := List.mem_singleton.mp member
    injection call with _ name _
    exact absurd name.symm (others row seen)

def placedExt4 : Asked := ⟨oneModule "ext4" "0xf000", loadExt4⟩

def movedExt4 : Asked := ⟨oneModule "ext4" "0x9000", loadExt4⟩

def placedSession : ModuleSession := ModuleSession.ask plain {} placedExt4

theorem movedExt4_outcome : (outcomeOf plain placedSession.attachment movedExt4).1.1 = .ok
    [{ name := "ext4".toList, baseAddress := "0x9000".toList, symbolsLoaded := true }] :=
  eq_ok_of_toOption (by decide +kernel)

theorem movedExt4_rows : rowsReported plain movedExt4 = [("ext4".toList, 0x9000, 0x200)] := by
  decide +kernel

theorem movedExt4_commands : ∀ p ∈ (placedSession.ask plain movedExt4).performed,
    ∀ command ∈ p.commands, ¬ (hex 0x9000 ++ "\"".toList) <:+ command := by
  decide +kernel

/-- The second load reports symbols at the new base, and no command of the session names it. -/
theorem moved_module_untrue :
    (outcomeOf plain placedSession.attachment movedExt4).1.1 = .ok
      [{ name := "ext4".toList, baseAddress := "0x9000".toList, symbolsLoaded := true }] ∧
    ¬ Trace.Along (ModuleSession.ask plain) (Truthful plain) {} [placedExt4, movedExt4] := by
  refine ⟨movedExt4_outcome, fun along => ?_⟩
  have truthful : Truthful plain placedSession movedExt4 := along.2.1
  have reports := truthful _ movedExt4_outcome
  rw [movedExt4_rows] at reports
  obtain ⟨p, member, info, text, expectedBase, -, -, added⟩ :=
    (List.forall₂_cons.mp reports).1.issued rfl
  exact movedExt4_commands p member _ added (addSymbolCommand_suffix text 0x9000)

end Samples

end Kdive.Debug
