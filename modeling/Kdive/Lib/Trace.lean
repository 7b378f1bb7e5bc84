import Mathlib.Data.List.Basic

/-!
Runs of a deterministic machine over a list of events, conditions on every step of a run,
and the rule that carries an invariant along it.
-/
namespace Trace

variable {State Event : Type*} (step : State → Event → State)

def run (s : State) (events : List Event) : State := events.foldl step s

@[simp] theorem run_nil (s : State) : run step s [] = s := rfl

@[simp] theorem run_cons (s : State) (e : Event) (rest : List Event) :
    run step s (e :: rest) = run step (step s e) rest := rfl

theorem run_snoc (s : State) (events : List Event) (e : Event) :
    run step s (events ++ [e]) = step (run step s events) e := by
  simp [run]

/-- `P` holds of every step of the run, in the state the step is taken in. -/
def Along (P : State → Event → Prop) : State → List Event → Prop
  | _, [] => True
  | s, e :: rest => P s e ∧ Along P (step s e) rest

instance decidableAlong (P : State → Event → Prop) [∀ s e, Decidable (P s e)] :
    ∀ (s : State) (events : List Event), Decidable (Along step P s events)
  | _, [] => isTrue trivial
  | s, e :: rest => @instDecidableAnd _ _ _ (decidableAlong P (step s e) rest)

variable {step}

theorem along_append {P : State → Event → Prop} {s : State} {first second : List Event} :
    Along step P s (first ++ second) ↔
      Along step P s first ∧ Along step P (run step s first) second := by
  induction first generalizing s with
  | nil => simp [Along]
  | cons e rest ih => simp [Along, ih, and_assoc]

theorem along_of_forall {P : State → Event → Prop} (always : ∀ s e, P s e) (s : State)
    (events : List Event) : Along step P s events := by
  induction events generalizing s with
  | nil => trivial
  | cons e rest ih => exact ⟨always s e, ih (step s e)⟩

theorem along_of_forall_mem {P : State → Event → Prop} {events : List Event}
    (always : ∀ e ∈ events, ∀ s, P s e) (s : State) : Along step P s events := by
  induction events generalizing s with
  | nil => trivial
  | cons e rest ih =>
    exact ⟨always e List.mem_cons_self s,
      ih (fun e inside => always e (List.mem_cons_of_mem _ inside)) (step s e)⟩

/-- If every step that meets `Q` keeps the invariant, a run whose steps all meet `Q` does. -/
theorem invariant_along {Inv : State → Prop} {Q : State → Event → Prop}
    (keeps : ∀ s e, Inv s → Q s e → Inv (step s e)) :
    ∀ {s events}, Inv s → Along step Q s events → Inv (run step s events) := by
  intro s events
  induction events generalizing s with
  | nil =>
    intro holds _
    exact holds
  | cons e rest ih =>
    intro holds along
    exact ih (keeps s e holds along.1) along.2

theorem along_of_invariant {Inv : State → Prop} {P Q : State → Event → Prop}
    (keeps : ∀ s e, Inv s → Q s e → Inv (step s e)) (gives : ∀ s e, Inv s → Q s e → P s e) :
    ∀ {s events}, Inv s → Along step Q s events → Along step P s events := by
  intro s events
  induction events generalizing s with
  | nil =>
    intro _ _
    trivial
  | cons e rest ih =>
    intro holds along
    exact ⟨gives s e holds along.1, ih (keeps s e holds along.1) along.2⟩

end Trace
