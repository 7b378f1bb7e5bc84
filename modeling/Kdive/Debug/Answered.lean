import Kdive.Debug.Commands

/-!
The module commands against a debugger that answers. What such an operation reads does not depend on
the attachment, so each has a plain counterpart over the debugger's answers.
-/
namespace Kdive.Debug
open Console (Text)

attribute [local instance] Utf8.lawful

abbrev Peer := Text → Option (List GdbRecord)

def Op.on {α : Type} (peer : Peer) (op : Op α) (a : Attachment) :
    (Except Raised α × Attachment) × List Text :=
  Dialogue.answered peer (op.run.run a)

section Comes

variable {α β : Type} {peer : Peer} {op : Op α} {k : α → Op β} {value : Except Raised α}

theorem Op.on_pure (a : Attachment) (x : α) : Op.on peer (pure x) a = ((.ok x, a), []) := rfl

theorem Op.on_raise (a : Attachment) (e : CategorizedError) :
    Op.on peer (raise e : Op α) a = ((.error (.categorized e), a), []) := rfl

theorem Op.on_bind_ok {a a' : Attachment} {x : α} {commands : List Text}
    (first : Op.on peer op a = ((.ok x, a'), commands)) :
    Op.on peer (op >>= k) a = ((Op.on peer (k x) a').1, commands ++ (Op.on peer (k x) a').2) := by
  have unfolded : Op.on peer (op >>= k) a = Dialogue.answered peer ((op.run.run a) >>= fun r =>
      (ExceptT.bindCont k r.1).run r.2) := rfl
  rw [Op.on] at first
  rw [unfolded, Dialogue.answered_bind, first]
  rfl

theorem Op.on_bind_error {a a' : Attachment} {e : Raised} {commands : List Text}
    (first : Op.on peer op a = ((.error e, a'), commands)) :
    Op.on peer (op >>= k) a = ((.error e, a'), commands) := by
  have unfolded : Op.on peer (op >>= k) a = Dialogue.answered peer ((op.run.run a) >>= fun r =>
      (ExceptT.bindCont k r.1).run r.2) := rfl
  rw [Op.on] at first
  rw [unfolded, Dialogue.answered_bind, first]
  exact congrArg (Prod.mk _) (List.append_nil commands)

def Comes (peer : Peer) (op : Op α) (value : Except Raised α) : Prop :=
  ∀ a, ∃ a' commands, Op.on peer op a = ((value, a'), commands) ∧
    a'.loadedModules = a.loadedModules

theorem comes_pure (x : α) : Comes peer (pure x : Op α) (.ok x) :=
  fun a => ⟨a, [], rfl, rfl⟩

theorem comes_raise (e : CategorizedError) :
    Comes peer (raise e : Op α) (.error (.categorized e)) :=
  fun a => ⟨a, [], rfl, rfl⟩

theorem comes_ofExcept (value : Except Raised α) : Comes peer (ofExcept value) value := by
  intro a
  cases value with
  | ok x => exact ⟨a, [], rfl, rfl⟩
  | error e => exact ⟨a, [], rfl, rfl⟩

theorem comes_bind {next : α → Except Raised β} (first : Comes peer op value)
    (second : ∀ x, Comes peer (k x) (next x)) : Comes peer (op >>= k) (value >>= next) := by
  intro a
  obtain ⟨a₁, commands, came, same⟩ := first a
  cases value with
  | ok x =>
    obtain ⟨a₂, commands', came', same'⟩ := second x a₁
    refine ⟨a₂, commands ++ commands', ?_, same'.trans same⟩
    rw [Op.on_bind_ok came, came']
    rfl
  | error e => exact ⟨a₁, commands, Op.on_bind_error came, same⟩

def handled (value : Except Raised α) (handler : CategorizedError → Except Raised α) :
    Except Raised α :=
  match value with
  | .error (.categorized e) => handler e
  | value => value

theorem Op.on_except (handler : CategorizedError → Op α) (a : Attachment) :
    Op.on peer (except op handler) a =
      Dialogue.answered peer ((op.run.run a) >>= fun r =>
        (match r.1 with
          | .ok x => (pure (.ok x) : StateT Attachment _ (Except Raised α))
          | .error (.categorized e) => (handler e).run
          | .error .valueError => pure (.error .valueError)).run r.2) := by
  rw [Op.on, except]
  change Dialogue.answered peer ((op.run.run a) >>= _) = _
  congr 2
  funext r
  rcases r with ⟨(_ | _) | _, a'⟩ <;> rfl

theorem Op.on_except_raised {handler : CategorizedError → Op α} {a a' : Attachment}
    {e : CategorizedError} {commands : List Text}
    (first : Op.on peer op a = ((.error (.categorized e), a'), commands)) :
    Op.on peer (except op handler) a =
      ((Op.on peer (handler e) a').1, commands ++ (Op.on peer (handler e) a').2) := by
  rw [Op.on] at first
  rw [Op.on_except, Dialogue.answered_bind, first]
  rfl

theorem Op.on_except_other {handler : CategorizedError → Op α} {a a' : Attachment}
    {commands : List Text} (first : Op.on peer op a = ((value, a'), commands))
    (other : ∀ e, value ≠ .error (.categorized e)) :
    Op.on peer (except op handler) a = ((value, a'), commands) := by
  rw [Op.on] at first
  rw [Op.on_except, Dialogue.answered_bind, first]
  cases value with
  | ok x => exact congrArg (Prod.mk _) (List.append_nil commands)
  | error e =>
    cases e with
    | valueError => exact congrArg (Prod.mk _) (List.append_nil commands)
    | categorized e => exact absurd rfl (other e)

theorem comes_except {handler : CategorizedError → Op α}
    {next : CategorizedError → Except Raised α} (first : Comes peer op value)
    (second : ∀ e, Comes peer (handler e) (next e)) :
    Comes peer (except op handler) (handled value next) := by
  intro a
  obtain ⟨a₁, commands, came, same⟩ := first a
  cases value with
  | ok x => exact ⟨a₁, commands, Op.on_except_other came nofun, same⟩
  | error e =>
    cases e with
    | valueError => exact ⟨a₁, commands, Op.on_except_other came nofun, same⟩
    | categorized e =>
      obtain ⟨a₂, commands', came', same'⟩ := second e a₁
      refine ⟨a₂, commands ++ commands', ?_, same'.trans same⟩
      rw [Op.on_except_raised came, came']
      rfl

end Comes

section Reads

variable (engine : Engine) (peer : Peer)

/-- The records that answer a command, or what `execute_mi_command` raises. -/
def reply (command : Text) : Except Raised (List MiRecord) :=
  match peer command with
  | some raw => replyOrError engine command (recordsFrom raw)
  | none => .error (.categorized (timeoutError command))

def requiredAt (expr : String) : Except Raised Nat :=
  handled (reply engine peer (evalCommand expr.toList))
      (fun e => .error (.categorized (moduleWalkError e))) >>= fun records =>
    match (evaluateValue records).bind hexFrom with
    | some address => .ok address
    | none => .error (.categorized (attachFailure "gdb/MI returned no parseable module-list pointer"
        [code "module_decode_failed", detail "expr" (.text expr.toList)]))

def decodedAt {α : Type} (expr : Text) (decode : Text → Option α) : Except Raised (Option α) :=
  handled (reply engine peer (evalCommand expr) >>= fun records =>
      .ok ((evaluateValue records).bind decode))
    (fun e => if e.category ≠ .debugAttachFailure then .error (.categorized e) else .ok none)

def nextAt (node : Nat) : Except Raised (Option Nat) :=
  decodedAt engine peer ("((struct list_head *)".toList ++ hex node ++ ")->next".toList) hexFrom

def firstBaseAt (modulePtr : Nat) : List String → Except Raised (Option Nat × String)
  | [] => .error (.categorized (attachFailure
      "gdb/MI could not read any known module base-address field"
      [code "module_decode_failed", detail "fields"
        (.list (moduleBaseFields.map (fun field => .text field.toList)))]))
  | candidate :: rest =>
    decodedAt engine peer (moduleField modulePtr candidate) hexFrom >>= fun base =>
      match base with
      | some base => .ok (some base, candidate)
      | none => firstBaseAt modulePtr rest

def baseAt (modulePtr : Nat) (baseField : String) : Except Raised (Option Nat × String) :=
  if baseField ≠ "" then
    decodedAt engine peer (moduleField modulePtr baseField) hexFrom >>= fun base =>
      .ok (base, baseField)
  else firstBaseAt engine peer modulePtr moduleBaseFields

def rowOf (name : Option Text) (base : Option Nat) (modulePtr : Nat) : Option ModuleRow :=
  match name, base with
  | some name, some base => some (name, base, modulePtr)
  | _, _ => none

def rowAt (offset : Nat) (baseField : String) (node : Nat) :
    Except Raised (Option ModuleRow × String) :=
  let modulePtr := (((node : Int) - offset) % 2 ^ 64).toNat
  decodedAt engine peer (moduleField modulePtr "name") quotedText >>= fun name =>
    baseAt engine peer modulePtr baseField >>= fun base =>
      .ok (rowOf name base.1 modulePtr, base.2)

def Walk.put (walk : Walk) (row : Option ModuleRow) : Walk :=
  match row with
  | some row => { walk with rows := walk.rows ++ [row] }
  | none => { walk with decodeErrors := walk.decodeErrors + 1 }

def walkFrom (offset head : Nat) : Nat → Nat → String → Walk → Except Raised Walk
  | 0, node, _, walk => .ok { walk with truncated := decide (node ≠ head) }
  | left + 1, node, baseField, walk =>
    if node = head then .ok walk
    else rowAt engine peer offset baseField node >>= fun row =>
      nextAt engine peer node >>= fun next =>
        match next with
        | none => .ok (walk.put row.1)
        | some next =>
          if next = node then .ok (walk.put row.1)
          else walkFrom offset head left next row.2 (walk.put row.1)

def walkAt (limit : Nat) : Except Raised Walk :=
  requiredAt engine peer "&((struct module *)0)->list" >>= fun offset =>
    requiredAt engine peer "&modules" >>= fun head =>
      requiredAt engine peer "modules.next" >>= fun node =>
        walkFrom engine peer offset head limit node "" {}

variable {engine peer}

theorem comes_ite {α : Type} {c : Prop} [Decidable c] {op op' : Op α} {v v' : Except Raised α}
    (first : c → Comes peer op v) (second : ¬ c → Comes peer op' v') :
    Comes peer (if c then op else op') (if c then v else v') := by
  split
  · exact first ‹_›
  · exact second ‹_›

theorem executeMiCommand_on (command : Text) (a : Attachment) :
    ∃ a', Op.on peer (executeMiCommand engine command) a =
      ((reply engine peer command, a'), [command]) ∧ a'.loadedModules = a.loadedModules := by
  have halts : ∃ a' : Attachment, (if a.execution = .attachHalted then
      { a with execution := .halted } else a) = a' ∧ a'.loadedModules = a.loadedModules := by
    split <;> exact ⟨_, rfl, rfl⟩
  obtain ⟨a', moved, same⟩ := halts
  have first : Op.on peer (modify (fun a : Attachment => if a.execution = .attachHalted then
      { a with execution := .halted } else a) : Op Unit) a = ((.ok (), a'), []) := by
    rw [← moved]
    rfl
  refine ⟨a', ?_, same⟩
  rw [executeMiCommand, Op.on_bind_ok first]
  cases answer : peer command with
  | none =>
    have wrote : Op.on peer (write command) a' =
        ((.error (.categorized (timeoutError command)), a'), [command]) := by
      change Dialogue.answered peer (.write command _) = _
      rw [Dialogue.answered, answer]
      rfl
    rw [Op.on_bind_error wrote, reply, answer]
    rfl
  | some raw =>
    have wrote : Op.on peer (write command) a' = ((.ok (recordsFrom raw), a'), [command]) := by
      change Dialogue.answered peer (.write command _) = _
      rw [Dialogue.answered, answer]
      rfl
    rw [Op.on_bind_ok wrote, reply, answer]
    dsimp only
    cases replyOrError engine command (recordsFrom raw) with
    | ok records => rfl
    | error e => rfl

theorem comes_executeMiCommand (command : Text) :
    Comes peer (executeMiCommand engine command) (reply engine peer command) := by
  intro a
  obtain ⟨a', came, same⟩ := @executeMiCommand_on engine peer command a
  exact ⟨a', [command], came, same⟩

theorem comes_moduleEvalRequired (expr : String) :
    Comes peer (moduleEvalRequired engine expr) (requiredAt engine peer expr) := by
  refine comes_bind (comes_except (comes_executeMiCommand _) (fun e => comes_raise _)) ?_
  intro records
  cases (evaluateValue records).bind hexFrom with
  | some address => exact comes_pure address
  | none => exact comes_raise _

theorem comes_evalDecoded {α : Type} (expr : Text) (decode : Text → Option α) :
    Comes peer (evalDecoded engine expr decode) (decodedAt engine peer expr decode) := by
  refine comes_except (comes_bind (comes_executeMiCommand _) (fun records => comes_pure _)) ?_
  intro e
  exact comes_ite (fun _ => comes_raise _) (fun _ => comes_pure _)

theorem comes_firstBase (modulePtr : Nat) (candidates : List String) :
    Comes peer (firstBase engine modulePtr candidates)
      (firstBaseAt engine peer modulePtr candidates) := by
  induction candidates with
  | nil => exact comes_raise _
  | cons candidate rest ih =>
    refine comes_bind (comes_evalDecoded _ _) ?_
    intro base
    cases base with
    | some base => exact comes_pure _
    | none => exact ih

theorem comes_moduleBase (modulePtr : Nat) (baseField : String) :
    Comes peer (moduleBase engine modulePtr baseField) (baseAt engine peer modulePtr baseField) := by
  refine comes_ite (fun _ => ?_) (fun _ => comes_firstBase _ _)
  exact comes_bind (comes_evalDecoded _ _) (fun base => comes_pure _)

theorem Walk.add_eq_put (walk : Walk) (name : Option Text) (base : Option Nat) (modulePtr : Nat) :
    walk.add name base modulePtr = walk.put (rowOf name base modulePtr) := by
  cases name <;> cases base <;> rfl

theorem comes_moduleWalkFrom (offset head left node : Nat) (baseField : String) (walk : Walk) :
    Comes peer (moduleWalkFrom engine offset head left node baseField walk)
      (walkFrom engine peer offset head left node baseField walk) := by
  induction left generalizing node baseField walk with
  | zero => exact comes_pure _
  | succ left ih =>
    refine comes_ite (fun _ => comes_pure _) (fun _ => ?_)
    -- the counterpart reads name and base together
    simp only [rowAt, bind_assoc]
    refine comes_bind (comes_evalDecoded _ _) (fun name => ?_)
    refine comes_bind (comes_moduleBase _ _) (fun base => ?_)
    refine comes_bind (comes_evalDecoded _ _) (fun next => ?_)
    rw [Walk.add_eq_put]
    cases next with
    | none => exact comes_pure _
    | some next => exact comes_ite (fun _ => comes_pure _) (fun _ => ih next base.2 _)

theorem comes_moduleWalk (limit : Nat) :
    Comes peer (moduleWalk engine limit) (walkAt engine peer limit) := by
  refine comes_bind (comes_moduleEvalRequired _) (fun offset => ?_)
  refine comes_bind (comes_moduleEvalRequired _) (fun head => ?_)
  refine comes_bind (comes_moduleEvalRequired _) (fun node => ?_)
  exact comes_moduleWalkFrom _ _ _ _ _ _

def listed (engine : Engine) (loaded : List Text) (walk : Walk) : ModuleList where
  modules := walk.rows.map (fun row => redactModule engine
    { name := row.1, baseAddress := hex row.2.1, symbolsLoaded := decide (row.1 ∈ loaded) })
  truncated := walk.truncated
  decodeErrors := walk.decodeErrors

theorem listModules_on (limit : Int) (a : Attachment) :
    ∃ a' commands, Op.on peer (listModules engine limit) a =
      (((walkAt engine peer limit.toNat).map (listed engine a.loadedModules), a'), commands) ∧
      a'.loadedModules = a.loadedModules := by
  obtain ⟨a', commands, came, same⟩ := @comes_moduleWalk engine peer limit.toNat a
  refine ⟨a', commands, ?_, same⟩
  rw [listModules]
  cases walked : walkAt engine peer limit.toNat with
  | error e =>
    rw [walked] at came
    rw [Op.on_bind_error came]
    rfl
  | ok walk =>
    rw [walked] at came
    rw [Op.on_bind_ok came, ← same]
    exact congrArg (Prod.mk _) (List.append_nil commands)

end Reads

end Kdive.Debug
