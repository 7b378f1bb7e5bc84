import Kdive.Lib.Dialogue

/-!
Pre- and postconditions of operations that talk to a peer. A run of a program leaves a log of its
calls, in which the peer may have said anything. An observer goes along the log; what it has made of
the log so far is part of the conditions, so that they can speak of what was said on the line, and of
no run in which the peer was not fair.
-/
namespace Dialogue

variable {Command Record α β : Type}

inductive Call (Command Record : Type) where
  | wrote (command : Command) (answer : Option (List Record))
  | heard (records : List Record)

inductive Runs : Program Command Record α → List (Call Command Record) → α → Prop where
  | done (a : α) : Runs (.done a) [] a
  | write {command : Command} {next : Option (List Record) → Program Command Record α}
      {answer : Option (List Record)} {log : List (Call Command Record)} {a : α}
      (rest : Runs (next answer) log a) : Runs (.write command next) (.wrote command answer :: log) a
  | read {next : List Record → Program Command Record α} {records : List Record}
      {log : List (Call Command Record)} {a : α} (rest : Runs (next records) log a) :
      Runs (.read next) (.heard records :: log) a

theorem runs_bind {p : Program Command Record α} {k : α → Program Command Record β}
    {log : List (Call Command Record)} {b : β} (runs : Runs (p >>= k) log b) :
    ∃ first second a, log = first ++ second ∧ Runs p first a ∧ Runs (k a) second b := by
  change Runs (bind p k) log b at runs
  induction p generalizing log with
  | done a => exact ⟨[], log, a, rfl, .done a, runs⟩
  | write command next ih =>
    cases runs with
    | write rest =>
      obtain ⟨first, second, a, rfl, ran, after⟩ := ih _ rest
      exact ⟨_ :: first, second, a, rfl, .write ran, after⟩
  | read next ih =>
    cases runs with
    | read rest =>
      obtain ⟨first, second, a, rfl, ran, after⟩ := ih _ rest
      exact ⟨_ :: first, second, a, rfl, .read ran, after⟩

def follow [DecidableEq Command] :
    Program Command Record α → List (Call Command Record) → Option α
  | .done a, [] => some a
  | .write command next, .wrote sent answer :: log =>
    if command = sent then follow (next answer) log else none
  | .read next, .heard records :: log => follow (next records) log
  | _, _ => none

theorem runs_of_follow [DecidableEq Command] {p : Program Command Record α}
    {log : List (Call Command Record)} {a : α} (followed : follow p log = some a) : Runs p log a := by
  fun_induction follow p log with
  | case1 b =>
    obtain rfl := Option.some.inj followed
    exact .done _
  | case2 command next answer log ih => exact .write (ih followed)
  | case3 => cases followed
  | case4 next records log ih => exact .read (ih followed)
  | case5 => cases followed

section Conditions

variable {σ ε γ : Type}

/-- Operations on a state that may fail; what they have done to the state stays. -/
abbrev Stateful (Command Record σ ε : Type) := ExceptT ε (StateT σ (Program Command Record))

structure Observer (Command Record γ : Type) where
  sees : γ → Call Command Record → γ
  fair : Call Command Record → Prop

variable (o : Observer Command Record γ)

def Meets (P : σ → γ → Prop) (op : Stateful Command Record σ ε α)
    (Q : Except ε α → σ → γ → Prop) : Prop :=
  ∀ s g log r s', P s g → Runs (op.run.run s) log (r, s') → (∀ call ∈ log, o.fair call) →
    Q r s' (log.foldl o.sees g)

variable {o} {P P' : σ → γ → Prop}

theorem meets_pure {Q : Except ε α → σ → γ → Prop} {a : α} (post : ∀ s g, P s g → Q (.ok a) s g) :
    Meets o P (pure a : Stateful Command Record σ ε α) Q := by
  intro s g log r s' pre runs _
  cases runs
  exact post s g pre

theorem meets_throw {Q : Except ε α → σ → γ → Prop} {e : ε}
    (post : ∀ s g, P s g → Q (.error e) s g) :
    Meets o P (throw e : Stateful Command Record σ ε α) Q := by
  intro s g log r s' pre runs _
  cases runs
  exact post s g pre

theorem meets_get :
    Meets o P (get : Stateful Command Record σ ε σ) (fun r s g => r = .ok s ∧ P s g) := by
  intro s g log r s' pre runs _
  cases runs
  exact ⟨rfl, pre⟩

theorem meets_modify (f : σ → σ) {R : σ → γ → Prop} (kept : ∀ s g, P s g → R (f s) g) :
    Meets o P (modify f : Stateful Command Record σ ε Unit) (fun r s g => r = .ok () ∧ R s g) := by
  intro s g log r s' pre runs _
  cases runs
  exact ⟨rfl, kept s g pre⟩

theorem Meets.imp {op : Stateful Command Record σ ε α} {Q Q' : Except ε α → σ → γ → Prop}
    (meets : Meets o P op Q) (before : ∀ s g, P' s g → P s g)
    (after : ∀ r s g, Q r s g → Q' r s g) : Meets o P' op Q' :=
  fun s g log r s' pre runs fair => after _ _ _ (meets s g log r s' (before s g pre) runs fair)

theorem Meets.pre {op : Stateful Command Record σ ε α} {Q : Except ε α → σ → γ → Prop}
    (meets : Meets o P op Q) (before : ∀ s g, P' s g → P s g) : Meets o P' op Q :=
  meets.imp before (fun _ _ _ post => post)

theorem Meets.post {op : Stateful Command Record σ ε α} {Q Q' : Except ε α → σ → γ → Prop}
    (meets : Meets o P op Q) (after : ∀ r s g, Q r s g → Q' r s g) : Meets o P op Q' :=
  meets.imp (fun _ _ pre => pre) after

theorem meets_bind {op : Stateful Command Record σ ε α} {k : α → Stateful Command Record σ ε β}
    {Q : Except ε α → σ → γ → Prop} {R : Except ε β → σ → γ → Prop} (first : Meets o P op Q)
    (second : ∀ a, Meets o (Q (.ok a)) (k a) R)
    (failed : ∀ e s g, Q (.error e) s g → R (.error e) s g) : Meets o P (op >>= k) R := by
  intro s g log r s' pre runs fair
  obtain ⟨early, late, ⟨outcome, between⟩, rfl, ran, after⟩ := runs_bind (p := op.run.run s) runs
  have mid := first s g early outcome between pre ran
    (fun call member => fair call (List.mem_append_left _ member))
  rw [List.foldl_append]
  cases outcome with
  | ok a =>
    exact second a between _ late r s' mid after
      (fun call member => fair call (List.mem_append_right _ member))
  | error e =>
    cases after
    exact failed e _ _ mid

theorem meets_modifying {f : σ → σ} {k : Unit → Stateful Command Record σ ε β} {R : σ → γ → Prop}
    {Q : Except ε β → σ → γ → Prop} (kept : ∀ s g, P s g → R (f s) g) (rest : Meets o R (k ()) Q) :
    Meets o P (modify f >>= k) Q := by
  refine meets_bind (meets_modify f kept) (fun _ => rest.pre (fun _ _ pre => pre.2)) ?_
  rintro e s g ⟨same, -⟩
  cases same

theorem meets_getting {k : σ → Stateful Command Record σ ε β} {Q : Except ε β → σ → γ → Prop}
    (rest : ∀ now, Meets o (fun s g => s = now ∧ P s g) (k now) Q) : Meets o P (get >>= k) Q := by
  refine meets_bind meets_get (fun now => (rest now).pre ?_) ?_
  · rintro s g ⟨same, pre⟩
    exact ⟨(Except.ok.inj same).symm, pre⟩
  · rintro e s g ⟨same, -⟩
    cases same

theorem meets_tryCatch {op : Stateful Command Record σ ε α}
    {handler : ε → Stateful Command Record σ ε α} {Q R : Except ε α → σ → γ → Prop}
    (first : Meets o P op Q) (second : ∀ e, Meets o (Q (.error e)) (handler e) R)
    (passed : ∀ a s g, Q (.ok a) s g → R (.ok a) s g) : Meets o P (tryCatch op handler) R := by
  intro s g log r s' pre runs fair
  obtain ⟨early, late, ⟨outcome, between⟩, rfl, ran, after⟩ := runs_bind (p := op.run.run s) runs
  have mid := first s g early outcome between pre ran
    (fun call member => fair call (List.mem_append_left _ member))
  rw [List.foldl_append]
  cases outcome with
  | error e =>
    exact second e between _ late r s' mid after
      (fun call member => fair call (List.mem_append_right _ member))
  | ok a =>
    cases after
    exact passed a _ _ mid

theorem meets_map {op : Stateful Command Record σ ε α} {f : α → β} {Q : Except ε α → σ → γ → Prop}
    {R : Except ε β → σ → γ → Prop} (meets : Meets o P op Q)
    (passed : ∀ a s g, Q (.ok a) s g → R (.ok (f a)) s g)
    (failed : ∀ e s g, Q (.error e) s g → R (.error e) s g) : Meets o P (f <$> op) R :=
  meets_bind meets (fun a => meets_pure (passed a)) failed

theorem meets_ite {c : Prop} [Decidable c] {op op' : Stateful Command Record σ ε α}
    {Q : Except ε α → σ → γ → Prop} (first : c → Meets o P op Q) (second : ¬ c → Meets o P op' Q) :
    Meets o P (if c then op else op') Q := by
  split
  · exact first ‹c›
  · exact second ‹¬ c›

theorem meets_write (command : Command) :
    Meets o P (write command : Program Command Record _) (fun r s g => ∃ answer before,
      r = (.ok answer : Except ε _) ∧ o.fair (.wrote command answer) ∧ P s before ∧
        g = o.sees before (.wrote command answer)) := by
  intro s g log r s' pre runs fair
  cases runs with
  | write rest =>
    cases rest
    exact ⟨_, g, rfl, fair _ List.mem_cons_self, pre, rfl⟩

theorem meets_read :
    Meets o P (read : Program Command Record _) (fun r s g => ∃ records before,
      r = (.ok records : Except ε _) ∧ o.fair (.heard records) ∧ P s before ∧
        g = o.sees before (.heard records)) := by
  intro s g log r s' pre runs fair
  cases runs with
  | read rest =>
    cases rest
    exact ⟨_, g, rfl, fair _ List.mem_cons_self, pre, rfl⟩

end Conditions

end Dialogue
