import Kdive.Lib.Trace

/-!
Processes that make atomic calls on a shared state. A program is a tree of calls whose answers
decide what comes next. A call may have to wait; its answer may be lost after it took effect, or it
may fail without effect; and a process may die between any two of its calls.

The second half is the proof rule: a program is safe if each of its calls is allowed at whatever
state the others have left, and then the invariant holds along every interleaving.
-/
namespace Calls

inductive Program (Request : Type) (Answer : Request → Type) (Error α : Type) where
  | done (value : α)
  | raise (error : Error)
  | call (request : Request) (next : Option (Answer request) → Program Request Answer Error α)

section Programs

variable {Request : Type} {Answer : Request → Type} {Error α β : Type}

def bind : Program Request Answer Error α → (α → Program Request Answer Error β) →
    Program Request Answer Error β
  | .done a, k => k a
  | .raise e, _ => .raise e
  | .call r next, k => .call r (fun answer => bind (next answer) k)

instance : Monad (Program Request Answer Error) where
  pure := .done
  bind := bind

def ask (r : Request) : Program Request Answer Error (Option (Answer r)) := .call r .done

def throw (e : Error) : Program Request Answer Error α := .raise e

def demand (e : Error) (r : Request) : Program Request Answer Error (Answer r) :=
  .call r (fun answer => match answer with
    | some a => .done a
    | none => .raise e)

def rescue (p : Program Request Answer Error α) (handler : Error → Program Request Answer Error α) :
    Program Request Answer Error α :=
  match p with
  | .done a => .done a
  | .raise e => handler e
  | .call r next => .call r (fun answer => rescue (next answer) handler)

def attempt (p : Program Request Answer Error α) : Program Request Answer Error (Except Error α) :=
  match p with
  | .done a => .done (.ok a)
  | .raise e => .done (.error e)
  | .call r next => .call r (fun answer => attempt (next answer))

def ensure (p : Program Request Answer Error α) (cleanup : Program Request Answer Error Unit) :
    Program Request Answer Error α :=
  bind (attempt p) (fun outcome => bind cleanup (fun _ =>
    match outcome with
    | .ok a => .done a
    | .error e => .raise e))

variable {Request' : Type} {Answer' : Request' → Type} {σ : Type}

/-- A wrapper around a service, with its own state: it answers the calls of one interface by calls
of another. -/
abbrev Wrapper (Request : Type) (Answer : Request → Type) (Request' : Type)
    (Answer' : Request' → Type) (Error σ : Type) :=
  σ → (r : Request) → Program Request' Answer' Error (Option (Answer r) × σ)

def through (wrapper : Wrapper Request Answer Request' Answer' Error σ) :
    Program Request Answer Error α → σ → Program Request' Answer' Error α
  | .done a, _ => .done a
  | .raise e, _ => .raise e
  | .call r next, w => bind (wrapper w r) (fun heard => through wrapper (next heard.1) heard.2)

/-- `Q` holds of the result whenever every call is answered as `reply` allows. -/
def Answers (reply : σ → (r : Request) → Option (Answer r) → σ → Prop) (Q : α → σ → Prop) :
    Program Request Answer Error α → σ → Prop
  | .done a, w => Q a w
  | .raise _, _ => True
  | .call r next, w => ∀ answer w', reply w r answer w' → Answers reply Q (next answer) w'

section Answers

variable {reply : σ → (r : Request) → Option (Answer r) → σ → Prop} {w : σ}

@[simp] theorem answers_pure (Q : α → σ → Prop) (a : α) :
    Answers reply Q (pure a : Program Request Answer Error α) w = Q a w := rfl

@[simp] theorem answers_throw (Q : α → σ → Prop) (e : Error) :
    Answers reply Q (throw e : Program Request Answer Error α) w = True := rfl

@[simp] theorem answers_bind (Q : β → σ → Prop) (p : Program Request Answer Error α)
    (k : α → Program Request Answer Error β) :
    Answers reply Q (p >>= k) w = Answers reply (fun a w => Answers reply Q (k a) w) p w := by
  change Answers reply Q (bind p k) w = _
  induction p generalizing w with
  | done a => rfl
  | raise e => rfl
  | call r next ih => simp only [bind, Answers, ih]

theorem answers_mono {Q Q' : α → σ → Prop} {p : Program Request Answer Error α}
    (holds : Answers reply Q p w) (weaker : ∀ a w, Q a w → Q' a w) : Answers reply Q' p w := by
  induction p generalizing w with
  | done a => exact weaker a w holds
  | raise e => trivial
  | call r next ih =>
    intro answer w' replied
    exact ih answer (holds answer w' replied)

theorem answers_of_invariant {J : σ → Prop} (p : Program Request Answer Error α)
    (kept : ∀ w r answer w', J w → reply w r answer w' → J w') (holds : J w) :
    Answers reply (fun _ w => J w) p w := by
  induction p generalizing w with
  | done a => exact holds
  | raise e => trivial
  | call r next ih =>
    intro answer w' replied
    exact ih answer (kept w r answer w' holds replied)

end Answers

/-- Every call of the program, whatever it is answered, is one of these. -/
def Only (P : Request → Prop) : Program Request Answer Error α → Prop
  | .done _ => True
  | .raise _ => True
  | .call r next => P r ∧ ∀ answer, Only P (next answer)

section Only

variable {P : Request → Prop}

theorem only_pure (a : α) : Only P (pure a : Program Request Answer Error α) := trivial

theorem only_throw (e : Error) : Only P (throw e : Program Request Answer Error α) := trivial

theorem only_ask {r : Request} (allowed : P r) : Only P (ask r : Program Request Answer Error _) :=
  ⟨allowed, fun _ => trivial⟩

theorem only_demand {e : Error} {r : Request} (allowed : P r) :
    Only P (demand e r : Program Request Answer Error _) := by
  refine ⟨allowed, ?_⟩
  intro answer
  cases answer <;> trivial

theorem only_bind {p : Program Request Answer Error α} {k : α → Program Request Answer Error β}
    (first : Only P p) (second : ∀ a, Only P (k a)) : Only P (p >>= k) := by
  change Only P (bind p k)
  induction p with
  | done a => exact second a
  | raise e => trivial
  | call r next ih => exact ⟨first.1, fun answer => ih answer (first.2 answer)⟩

theorem only_rescue {p : Program Request Answer Error α}
    {handler : Error → Program Request Answer Error α} (first : Only P p)
    (second : ∀ e, Only P (handler e)) : Only P (rescue p handler) := by
  induction p with
  | done a => trivial
  | raise e => exact second e
  | call r next ih => exact ⟨first.1, fun answer => ih answer (first.2 answer)⟩

theorem only_attempt {p : Program Request Answer Error α} (only : Only P p) :
    Only P (attempt p) := by
  induction p with
  | done a => trivial
  | raise e => trivial
  | call r next ih => exact ⟨only.1, fun answer => ih answer (only.2 answer)⟩

theorem only_ensure {p : Program Request Answer Error α} {cleanup : Program Request Answer Error Unit}
    (first : Only P p) (second : Only P cleanup) : Only P (ensure p cleanup) := by
  apply only_bind (only_attempt first)
  intro outcome
  apply only_bind second
  intro _
  cases outcome <;> trivial

theorem only_through {P : Request' → Prop}
    {wrapper : Wrapper Request Answer Request' Answer' Error σ}
    (wraps : ∀ w r, Only P (wrapper w r)) (p : Program Request Answer Error α) (w : σ) :
    Only P (through wrapper p w) := by
  induction p generalizing w with
  | done a => trivial
  | raise e => trivial
  | call r next ih => exact only_bind (wraps w r) (fun heard => ih heard.1 heard.2)

end Only

end Programs

section Interleaving

variable {State Request : Type} {Answer : Request → Type} {Error α Operation : Type}

theorem state_eq {a b : α} {s t : State} (served : some (a, s) = some (b, t)) : s = t :=
  (Prod.mk.inj (Option.some.inj served)).2

/-- `serve` answers a call of a process, or makes it wait. `leave` is what the end of a process does
to the state, its open transaction committed or rolled back. -/
structure Service (State Request : Type) (Answer : Request → Type) where
  serve : Nat → State → (r : Request) → Option (Answer r × State)
  leave : Nat → Bool → State → State

structure Config (State Request : Type) (Answer : Request → Type) (Error α : Type) where
  state : State
  processes : List (Option (Program Request Answer Error α))

inductive Fate where
  | answered | lost | refused
  deriving DecidableEq

inductive Event (Operation : Type) where
  | start (operation : Operation)
  | call (process : Nat) (fate : Fate)
  | leave (process : Nat) (commits : Bool)

namespace Config

def At (c : Config State Request Answer Error α) (i : Nat)
    (p : Program Request Answer Error α) : Prop := c.processes[i]? = some (some p)

def request (c : Config State Request Answer Error α) (i : Nat) : Option Request :=
  match c.processes[i]? with
  | some (some (.call r _)) => some r
  | _ => none

def move (c : Config State Request Answer Error α) (i : Nat) (s : State)
    (p : Option (Program Request Answer Error α)) : Config State Request Answer Error α :=
  ⟨s, c.processes.set i p⟩

end Config

/-- What the process hears and what the call leaves, unless it has to wait. -/
def reply (service : Service State Request Answer) (i : Nat) (s : State) (r : Request) :
    Fate → Option (Option (Answer r) × State)
  | .answered => (service.serve i s r).map (fun served => (some served.1, served.2))
  | .lost => (service.serve i s r).map (fun served => (none, served.2))
  | .refused => some (none, s)

def step (service : Service State Request Answer)
    (program : Operation → Program Request Answer Error α) (c : Config State Request Answer Error α) :
    Event Operation → Config State Request Answer Error α
  | .start operation => { c with processes := c.processes ++ [some (program operation)] }
  | .call i fate =>
    match c.processes[i]? with
    | some (some (.call r next)) =>
      match reply service i c.state r fate with
      | some (answer, s) => c.move i s (some (next answer))
      | none => c
    | _ => c
  | .leave i commits =>
    match c.processes[i]? with
    | some (some _) => c.move i (service.leave i commits c.state) none
    | _ => c

/-- What every served call and every departure keeps holds along every run, whatever the programs
are. -/
theorem state_along {service : Service State Request Answer}
    {program : Operation → Program Request Answer Error α} {P : State → Prop}
    (serves : ∀ i s r a t, service.serve i s r = some (a, t) → P s → P t)
    (leaves : ∀ i commits s, P s → P (service.leave i commits s)) (events : List (Event Operation)) :
    ∀ c : Config State Request Answer Error α, P c.state →
      P (Trace.run (step service program) c events).state := by
  induction events with
  | nil => exact fun _ holds => holds
  | cons e rest ih =>
    intro c holds
    apply ih
    cases e with
    | start operation => exact holds
    | call i fate =>
      rw [step]
      split
      · rename_i r next _
        split
        · rename_i answer t replied
          cases fate with
          | refused =>
            obtain ⟨rfl, rfl⟩ := Prod.mk.inj (Option.some.inj replied)
            exact holds
          | lost | answered =>
            obtain ⟨⟨a, u⟩, served, same⟩ := Option.map_eq_some_iff.mp replied
            obtain ⟨_, rfl⟩ := Prod.mk.inj same
            exact serves i c.state r a u served holds
        · exact holds
      · exact holds
    | leave i commits =>
      rw [step]
      split
      · exact leaves i commits c.state holds
      · exact holds

end Interleaving

section Discipline

variable {State Request : Type} {Answer : Request → Type} {Error α β Operation : Type}

/-- `assumes i s r`: what is assumed of every call `r` that process `i` makes in `s`.
`rely i s t`: what the others may have made of `s`, as far as process `i` cares.
`fresh i s`: process `i` has not begun. -/
structure Discipline (service : Service State Request Answer) where
  inv : State → Prop
  assumes : Nat → State → Request → Prop
  rely : Nat → State → State → Prop
  fresh : Nat → State → Prop
  rely_refl : ∀ i s, rely i s s
  rely_trans : ∀ i s t u, rely i s t → rely i t u → rely i s u
  fresh_rely : ∀ i s t, fresh i s → rely i s t → fresh i t
  leave_inv : ∀ i commits s, inv s → inv (service.leave i commits s)
  leave_rely : ∀ i j commits s, inv s → j ≠ i → rely j s (service.leave i commits s)

variable {service : Service State Request Answer}

structure Allows (d : Discipline service) (i : Nat) (s t : State) : Prop where
  inv : d.inv t
  rely : ∀ j, j ≠ i → d.rely j s t

/-- `Q` holds of the result and `E` of the error, in the state the last call left, whatever the
others do before each call; and each call is allowed. -/
def wp (d : Discipline service) (i : Nat) (Q : α → State → Prop) (E : Error → State → Prop) :
    Program Request Answer Error α → State → Prop
  | .done a, s => Q a s
  | .raise e, s => E e s
  | .call r next, s => ∀ t, d.inv t → d.rely i s t → wp d i Q E (next none) t ∧
      (d.assumes i t r → ∀ a u, service.serve i t r = some (a, u) → Allows d i t u ∧
        wp d i Q E (next none) u ∧ wp d i Q E (next (some a)) u)

def anything {γ : Type} (_ : γ) (_ : State) : Prop := True

def Safe (d : Discipline service) (p : Program Request Answer Error α) : Prop :=
  ∀ i s, d.inv s → d.fresh i s → wp d i anything anything p s

variable {d : Discipline service} {i : Nat} {s : State}

@[simp] theorem wp_pure (Q : α → State → Prop) (E : Error → State → Prop) (a : α) :
    wp d i Q E (pure a : Program Request Answer Error α) s = Q a s := rfl

@[simp] theorem wp_throw (Q : α → State → Prop) (E : Error → State → Prop) (e : Error) :
    wp d i Q E (throw e : Program Request Answer Error α) s = E e s := rfl

@[simp] theorem wp_bind (Q : β → State → Prop) (E : Error → State → Prop)
    (p : Program Request Answer Error α) (k : α → Program Request Answer Error β) :
    wp d i Q E (p >>= k) s = wp d i (fun a t => wp d i Q E (k a) t) E p s := by
  change wp d i Q E (bind p k) s = _
  induction p generalizing s with
  | done a => rfl
  | raise e => rfl
  | call r next ih => simp only [bind, wp, ih]

theorem wp_rescue (Q : α → State → Prop) (E : Error → State → Prop)
    (p : Program Request Answer Error α) (handler : Error → Program Request Answer Error α) :
    wp d i Q E (rescue p handler) s = wp d i Q (fun e t => wp d i Q E (handler e) t) p s := by
  induction p generalizing s with
  | done a => rfl
  | raise e => rfl
  | call r next ih => simp only [rescue, wp, ih]

theorem wp_attempt (Q : Except Error α → State → Prop) (E : Error → State → Prop)
    (p : Program Request Answer Error α) :
    wp d i Q E (attempt p) s = wp d i (fun a t => Q (.ok a) t) (fun e t => Q (.error e) t) p s := by
  induction p generalizing s with
  | done a => rfl
  | raise e => rfl
  | call r next ih => simp only [attempt, wp, ih]

theorem wp_ensure (Q : α → State → Prop) (E : Error → State → Prop)
    (p : Program Request Answer Error α) (cleanup : Program Request Answer Error Unit) :
    wp d i Q E (ensure p cleanup) s =
      wp d i (fun a t => wp d i (fun _ u => Q a u) E cleanup t)
        (fun e t => wp d i (fun _ u => E e u) E cleanup t) p s := by
  change wp d i Q E (attempt p >>= fun outcome => cleanup >>= fun _ => _) s = _
  rw [wp_bind, wp_attempt]
  simp only [wp_bind]
  rfl

theorem wp_mono {Q Q' : α → State → Prop} {E E' : Error → State → Prop}
    {p : Program Request Answer Error α} (holds : wp d i Q E p s)
    (weaker : ∀ a t, Q a t → Q' a t) (raised : ∀ e t, E e t → E' e t) : wp d i Q' E' p s := by
  induction p generalizing s with
  | done a => exact weaker a s holds
  | raise e => exact raised e s holds
  | call r next ih =>
    intro t inv rely
    obtain ⟨failed, served⟩ := holds t inv rely
    refine ⟨ih none failed, ?_⟩
    intro assumed a u answer
    obtain ⟨allowed, lost, heard⟩ := served assumed a u answer
    exact ⟨allowed, ih none lost, ih (some a) heard⟩

theorem wp_ask {r : Request} {Q : Option (Answer r) → State → Prop} {E : Error → State → Prop}
    (failed : ∀ t, d.inv t → d.rely i s t → Q none t)
    (served : ∀ t, d.inv t → d.rely i s t → d.assumes i t r → ∀ a u,
      service.serve i t r = some (a, u) → Allows d i t u ∧ Q none u ∧ Q (some a) u) :
    wp d i Q E (ask r : Program Request Answer Error _) s :=
  fun t inv rely => ⟨failed t inv rely, served t inv rely⟩

theorem wp_demand {r : Request} {e : Error} {Q : Answer r → State → Prop} {E : Error → State → Prop}
    (failed : ∀ t, d.inv t → d.rely i s t → E e t)
    (served : ∀ t, d.inv t → d.rely i s t → d.assumes i t r → ∀ a u,
      service.serve i t r = some (a, u) → Allows d i t u ∧ E e u ∧ Q a u) :
    wp d i Q E (demand e r : Program Request Answer Error _) s :=
  fun t inv rely => ⟨failed t inv rely, served t inv rely⟩

/-- What every such call keeps, and the others leave alone, the program keeps. -/
theorem wp_only {P : Request → Prop} {K : State → Prop} {E : Error → State → Prop}
    {p : Program Request Answer Error α} (only : Only P p)
    (kept : ∀ r t, P r → d.inv t → K t → d.assumes i t r → ∀ a u,
      service.serve i t r = some (a, u) → Allows d i t u ∧ K u)
    (stable : ∀ s t, K s → d.rely i s t → K t) (errs : ∀ e s, K s → E e s) (holds : K s) :
    wp d i (fun _ t => K t) E p s := by
  induction p generalizing s with
  | done a => exact holds
  | raise e => exact errs e s holds
  | call r next ih =>
    intro t inv rely
    have now := stable s t holds rely
    refine ⟨ih none (only.2 none) now, ?_⟩
    intro assumed a u served
    obtain ⟨allowed, still⟩ := kept r t only.1 inv now assumed a u served
    exact ⟨allowed, ih none (only.2 none) still, ih (some a) (only.2 (some a)) still⟩

/-- A program that is right for every allowed reply is right through a wrapper that gives only such
replies; `g` is what has been heard so far, and `knows` ties it to the wrapper and the state. -/
theorem wp_through {Request' : Type} {Answer' : Request' → Type} {σ γ : Type}
    {wrapper : Wrapper Request' Answer' Request Answer Error σ}
    {reply : γ → (r : Request') → Option (Answer' r) → γ → Prop} {knows : γ → σ → State → Prop}
    (wraps : ∀ g w r s, knows g w s → wp d i (fun heard t => ∃ g', reply g r heard.1 g' ∧
      knows g' heard.2 t) anything (wrapper w r) s) {Q : α → γ → Prop} :
    ∀ {p : Program Request' Answer' Error α} {g : γ} {w : σ} {s : State}, Answers reply Q p g →
      knows g w s →
      wp d i (fun a t => ∃ g w, Q a g ∧ knows g w t) anything (through wrapper p w) s := by
  intro p
  induction p with
  | done a =>
    intro g w s right known
    exact ⟨g, w, right, known⟩
  | raise e =>
    intro g w s _ _
    trivial
  | call r next ih =>
    intro g w s right known
    change wp d i _ anything (wrapper w r >>= _) s
    rw [wp_bind]
    refine wp_mono (wraps g w r s known) ?_ (fun e t raised => raised)
    intro heard t replied
    obtain ⟨g', allowed, known'⟩ := replied
    exact ih heard.1 (right heard.1 g' allowed) known'

/-- What holds in every configuration of every interleaving of programs whose results and errors are
accounted for. -/
structure Accounted (d : Discipline service) (Q : Nat → α → State → Prop)
    (E : Nat → Error → State → Prop) (c : Config State Request Answer Error α) : Prop where
  inv : d.inv c.state
  safe : ∀ i p, c.At i p → ∃ s, d.rely i s c.state ∧ wp d i (Q i) (E i) p s
  fresh : ∀ i, c.processes.length ≤ i → d.fresh i c.state

/-- What holds in every configuration of every interleaving of safe programs. -/
structure Consistent (d : Discipline service) (c : Config State Request Answer Error α) : Prop where
  inv : d.inv c.state
  safe : ∀ i p, c.At i p → ∃ s, d.rely i s c.state ∧ wp d i anything anything p s
  fresh : ∀ i, c.processes.length ≤ i → d.fresh i c.state

def Meets (d : Discipline service) (c : Config State Request Answer Error α) :
    Event Operation → Prop
  | .call i _ => ∀ r, c.request i = some r → d.assumes i c.state r
  | _ => True

theorem at_move {c : Config State Request Answer Error α} {i j : Nat} {s : State}
    {p : Option (Program Request Answer Error α)} {q : Program Request Answer Error α}
    (there : (c.move i s p).At j q) : (j = i ∧ p = some q) ∨ (j ≠ i ∧ c.At j q) := by
  change (c.processes.set i p)[j]? = some (some q) at there
  by_cases same : j = i
  · subst same
    rw [List.getElem?_set_self'] at there
    cases here : c.processes[j]? with
    | none =>
      rw [here] at there
      cases there
    | some old =>
      rw [here] at there
      exact .inl ⟨rfl, Option.some.inj there⟩
  · rw [List.getElem?_set_ne (Ne.symm same)] at there
    exact .inr ⟨same, there⟩

variable {Q : Nat → α → State → Prop} {E : Nat → Error → State → Prop}

/-- A process has made an allowed move; the others saw a change they were entitled to rely on. -/
theorem Accounted.move {c : Config State Request Answer Error α} (ok : Accounted d Q E c) {i : Nat}
    {s : State} {p : Option (Program Request Answer Error α)} {q : Program Request Answer Error α}
    (here : c.At i q) (allowed : Allows d i c.state s)
    (safe : ∀ q, p = some q → ∃ t, d.rely i t s ∧ wp d i (Q i) (E i) q t) :
    Accounted d Q E (c.move i s p) := by
  refine ⟨allowed.inv, ?_, ?_⟩
  · intro j q' there
    rcases at_move there with ⟨rfl, rfl⟩ | ⟨other, there⟩
    · exact safe q' rfl
    · obtain ⟨t, rely, holds⟩ := ok.safe j q' there
      exact ⟨t, d.rely_trans j t c.state s rely (allowed.rely j other), holds⟩
  · intro j beyond
    have outside : c.processes.length ≤ j := by
      rw [Config.move, List.length_set] at beyond
      exact beyond
    have inside : i < c.processes.length := (List.getElem?_eq_some_iff.mp here).1
    exact d.fresh_rely j c.state s (ok.fresh j outside) (allowed.rely j (by omega))

theorem accounted_step {program : Operation → Program Request Answer Error α}
    (accounts : ∀ operation i s, d.inv s → d.fresh i s → wp d i (Q i) (E i) (program operation) s)
    {c : Config State Request Answer Error α} (ok : Accounted d Q E c) {e : Event Operation}
    (meets : Meets d c e) : Accounted d Q E (step service program c e) := by
  cases e with
  | start operation =>
    refine ⟨ok.inv, ?_, ?_⟩
    · intro j q there
      change (c.processes ++ [some (program operation)])[j]? = some (some q) at there
      rcases Nat.lt_or_ge j c.processes.length with old | new
      · rw [List.getElem?_append_left old] at there
        exact ok.safe j q there
      · have last : j = c.processes.length := by
          have bound := (List.getElem?_eq_some_iff.mp there).1
          rw [List.length_append, List.length_singleton] at bound
          omega
        subst last
        rw [List.getElem?_concat_length] at there
        obtain rfl := Option.some.inj (Option.some.inj there)
        exact ⟨c.state, d.rely_refl _ _, accounts operation _ _ ok.inv (ok.fresh _ (Nat.le_refl _))⟩
    · intro j beyond
      have outside : c.processes.length + 1 ≤ j := by
        change (c.processes ++ [some (program operation)]).length ≤ j at beyond
        rwa [List.length_append, List.length_singleton] at beyond
      exact ok.fresh j (by omega)
  | call i fate =>
    rw [step]
    split
    · rename_i r next here
      obtain ⟨s, rely, holds⟩ := ok.safe i _ here
      obtain ⟨failed, served⟩ := holds c.state ok.inv rely
      have assumed : d.assumes i c.state r := by
        apply meets r
        rw [Config.request, here]
      split
      · rename_i answer t replied
        have stays : Allows d i c.state c.state := ⟨ok.inv, fun j _ => d.rely_refl j _⟩
        cases fate with
        | refused =>
          obtain ⟨rfl, rfl⟩ := Prod.mk.inj (Option.some.inj replied)
          refine ok.move here stays ?_
          rintro q ⟨rfl⟩
          exact ⟨_, d.rely_refl i _, failed⟩
        | lost =>
          obtain ⟨⟨a, u⟩, answered, same⟩ := Option.map_eq_some_iff.mp replied
          obtain ⟨rfl, rfl⟩ := Prod.mk.inj same
          obtain ⟨allowed, lost, _⟩ := served assumed a u answered
          refine ok.move here allowed ?_
          rintro q ⟨rfl⟩
          exact ⟨_, d.rely_refl i _, lost⟩
        | answered =>
          obtain ⟨⟨a, u⟩, answered, same⟩ := Option.map_eq_some_iff.mp replied
          obtain ⟨rfl, rfl⟩ := Prod.mk.inj same
          obtain ⟨allowed, _, heard⟩ := served assumed a u answered
          refine ok.move here allowed ?_
          rintro q ⟨rfl⟩
          exact ⟨_, d.rely_refl i _, heard⟩
      · exact ok
    · exact ok
  | leave i commits =>
    rw [step]
    split
    · rename_i p here
      have allowed : Allows d i c.state (service.leave i commits c.state) :=
        ⟨d.leave_inv i commits c.state ok.inv, fun j other => d.leave_rely i j commits _ ok.inv other⟩
      refine ok.move here allowed ?_
      intro q none
      cases none
    · exact ok

theorem accounted_of_run {program : Operation → Program Request Answer Error α}
    (accounts : ∀ operation i s, d.inv s → d.fresh i s → wp d i (Q i) (E i) (program operation) s)
    {s : State} (start : d.inv s) (unused : ∀ i, d.fresh i s) {events : List (Event Operation)}
    (meets : Trace.Along (step service program) (Meets d) ⟨s, []⟩ events) :
    Accounted d Q E (Trace.run (step service program) ⟨s, []⟩ events) := by
  have begun : Accounted d Q E (⟨s, []⟩ : Config State Request Answer Error α) := by
    refine ⟨start, ?_, fun i _ => unused i⟩
    intro i p here
    cases here
  exact @Trace.invariant_along _ _ _ (Accounted d Q E) (Meets d)
    (fun c e ok meets => accounted_step accounts ok meets) _ _ begun meets

theorem consistent_of_run {program : Operation → Program Request Answer Error α}
    (safe : ∀ operation, Safe d (program operation)) {s : State} (start : d.inv s)
    (unused : ∀ i, d.fresh i s) {events : List (Event Operation)}
    (meets : Trace.Along (step service program) (Meets d) ⟨s, []⟩ events) :
    Consistent d (Trace.run (step service program) ⟨s, []⟩ events) := by
  have ok := @accounted_of_run _ _ _ _ _ _ _ d (fun _ => anything) (fun _ => anything) _ safe s
    start unused events meets
  exact ⟨ok.inv, ok.safe, ok.fresh⟩

theorem meets_of_always (always : ∀ i s r, d.assumes i s r)
    (c : Config State Request Answer Error α) (e : Event Operation) : Meets d c e := by
  cases e with
  | start operation => trivial
  | call i fate => exact fun r _ => always i c.state r
  | leave i commits => trivial

theorem consistent_of_any_run {program : Operation → Program Request Answer Error α}
    (always : ∀ i s r, d.assumes i s r) (safe : ∀ operation, Safe d (program operation)) {s : State}
    (start : d.inv s) (unused : ∀ i, d.fresh i s) (events : List (Event Operation)) :
    Consistent d (Trace.run (step service program) ⟨s, []⟩ events) :=
  consistent_of_run safe start unused (Trace.along_of_forall (meets_of_always always) _ events)

theorem accounted_of_any_run {program : Operation → Program Request Answer Error α}
    (always : ∀ i s r, d.assumes i s r)
    (accounts : ∀ operation i s, d.inv s → d.fresh i s → wp d i (Q i) (E i) (program operation) s)
    {s : State} (start : d.inv s) (unused : ∀ i, d.fresh i s) (events : List (Event Operation)) :
    Accounted d Q E (Trace.run (step service program) ⟨s, []⟩ events) :=
  accounted_of_run accounts start unused (Trace.along_of_forall (meets_of_always always) _ events)

end Discipline

end Calls
