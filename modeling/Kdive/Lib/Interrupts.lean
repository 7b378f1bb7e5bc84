import Kdive.Lib.Calls

/-!
One process at a time on a durable state, which may be interrupted. A call takes effect, or it goes
wrong and leaves what its fate says, and the process may die between any two of its calls. What it
leaves behind is all the next process has.

`run` is the program with nothing going wrong, `crash` what is left after any beginning of it.
-/
namespace Interrupts
open Calls

/-- `serve` answers a call, or refuses it. `fail` is what a call that goes wrong answers and
leaves. -/
structure Device (State Request : Type) (Answer : Request → Type) (Fate : Type) where
  serve : State → (r : Request) → Option (Answer r) × State
  fail : Fate → State → (r : Request) → Option (Answer r) × State

section Running

variable {State Request : Type} {Answer : Request → Type} {Error α β Fate : Type}
  (d : Device State Request Answer Fate)

def respond (s : State) (r : Request) : Option Fate → Option (Answer r) × State
  | none => d.serve s r
  | some fate => d.fail fate s r

def run : Program Request Answer Error α → State → Except Error α × State
  | .done a, s => (.ok a, s)
  | .raise e, s => (.error e, s)
  | .call r next, s => run (next (d.serve s r).1) (d.serve s r).2

def crash : List (Option Fate) → Program Request Answer Error α → State → State
  | fate :: rest, .call r next, s =>
    crash rest (next (respond d s r fate).1) (respond d s r fate).2
  | _, _, s => s

variable {d} {s t : State}

@[simp] theorem run_pure (a : α) :
    run d (pure a : Program Request Answer Error α) s = (.ok a, s) := rfl

@[simp] theorem run_throw (e : Error) :
    run d (throw e : Program Request Answer Error α) s = (.error e, s) := rfl

def andThen : Except Error α × State → (α → State → Except Error β × State) →
    Except Error β × State
  | (.ok a, s), k => k a s
  | (.error e, s), _ => (.error e, s)

@[simp] theorem andThen_ok (a : α) (k : α → State → Except Error β × State) :
    andThen (.ok a, s) k = k a s := rfl

@[simp] theorem andThen_error (e : Error) (k : α → State → Except Error β × State) :
    andThen (.error e, s) k = (.error e, s) := rfl

theorem run_bind (p : Program Request Answer Error α) (k : α → Program Request Answer Error β) :
    run d (p >>= k) s = andThen (run d p s) (fun a t => run d (k a) t) := by
  change run d (Calls.bind p k) s = _
  induction p generalizing s with
  | done a => rfl
  | raise e => rfl
  | call r next ih => exact ih _

theorem run_demand {e : Error} {r : Request} {a : Answer r} (served : d.serve s r = (some a, t)) :
    run d (demand e r : Program Request Answer Error _) s = (.ok a, t) := by
  simp only [demand, run, served]

variable (d)

/-- `Inv` holds wherever the process may die, and `Q` of its result, whatever goes wrong. -/
def Keeps (Inv : State → Prop) (Q : α → State → Prop) :
    Program Request Answer Error α → State → Prop
  | .done a, s => Inv s ∧ Q a s
  | .raise _, s => Inv s
  | .call r next, s =>
    Inv s ∧ ∀ fate, Keeps Inv Q (next (respond d s r fate).1) (respond d s r fate).2

variable {d} {Inv : State → Prop}

theorem Keeps.inv {Q : α → State → Prop} {p : Program Request Answer Error α}
    (keeps : Keeps d Inv Q p s) : Inv s := by
  cases p with
  | done a => exact keeps.1
  | raise e => exact keeps
  | call r next => exact keeps.1

theorem Keeps.crash {Q : α → State → Prop} {p : Program Request Answer Error α}
    (keeps : Keeps d Inv Q p s) (fates : List (Option Fate)) : Inv (crash d fates p s) := by
  induction fates generalizing p s with
  | nil =>
    rw [Interrupts.crash]
    exact keeps.inv
    nofun
  | cons fate rest ih =>
    cases p with
    | done a => exact keeps.1
    | raise e => exact keeps
    | call r next => exact ih (keeps.2 fate)

theorem Keeps.bind {Q : α → State → Prop} {R : β → State → Prop}
    {p : Program Request Answer Error α} {k : α → Program Request Answer Error β}
    (first : Keeps d Inv Q p s) (second : ∀ a t, Inv t → Q a t → Keeps d Inv R (k a) t) :
    Keeps d Inv R (p >>= k) s := by
  change Keeps d Inv R (Calls.bind p k) s
  induction p generalizing s with
  | done a => exact second a s first.1 first.2
  | raise e => exact first
  | call r next ih => exact ⟨first.1, fun fate => ih _ (first.2 fate)⟩

theorem Keeps.imp_inv {Q R : α → State → Prop} {p : Program Request Answer Error α}
    (keeps : Keeps d Inv Q p s) (weaker : ∀ a t, Inv t → Q a t → R a t) : Keeps d Inv R p s := by
  induction p generalizing s with
  | done a => exact ⟨keeps.1, weaker a s keeps.1 keeps.2⟩
  | raise e => exact keeps
  | call r next ih => exact ⟨keeps.1, fun fate => ih _ (keeps.2 fate)⟩

theorem Keeps.imp {Q R : α → State → Prop} {p : Program Request Answer Error α}
    (keeps : Keeps d Inv Q p s) (weaker : ∀ a t, Q a t → R a t) : Keeps d Inv R p s :=
  keeps.imp_inv (fun a t _ => weaker a t)

theorem keeps_pure {Q : α → State → Prop} {a : α} (holds : Inv s) (result : Q a s) :
    Keeps d Inv Q (pure a : Program Request Answer Error α) s := ⟨holds, result⟩

theorem keeps_throw {Q : α → State → Prop} {e : Error} (holds : Inv s) :
    Keeps d Inv Q (throw e : Program Request Answer Error α) s := holds

theorem keeps_ask {r : Request} {Q : Option (Answer r) → State → Prop} (holds : Inv s)
    (stays : ∀ fate, Inv (respond d s r fate).2)
    (result : ∀ fate, Q (respond d s r fate).1 (respond d s r fate).2) :
    Keeps d Inv Q (ask r : Program Request Answer Error _) s :=
  ⟨holds, fun fate => ⟨stays fate, result fate⟩⟩

/-- A call keeps the invariant if it does with every fate; its result is of one that answered. -/
theorem keeps_demand {e : Error} {r : Request} {Q : Answer r → State → Prop} (holds : Inv s)
    (stays : ∀ fate, Inv (respond d s r fate).2)
    (result : ∀ fate a, (respond d s r fate).1 = some a → Q a (respond d s r fate).2) :
    Keeps d Inv Q (demand e r : Program Request Answer Error _) s := by
  refine ⟨holds, ?_⟩
  intro fate
  cases answered : (respond d s r fate).1 with
  | none => exact stays fate
  | some a => exact ⟨stays fate, result fate a answered⟩

end Running

end Interrupts
