import Mathlib.Data.Set.Lattice
import Mathlib.Order.CompletePartialOrder

/-!
Database transactions at READ COMMITTED with transaction-scoped advisory locks. A
transaction is a program of statements: each statement sees the committed state with the
transaction's own writes on top, its writes reach the committed state at the commit, and
its locks are held until then. A transaction that raises leaves nothing behind.

The second half is the proof rule: if every program respects a discipline (what it may do
with the locks it holds, and what it may rely on while holding them), then every commit of
every interleaving does.
-/
namespace Txn

inductive Program (State Lock Error α : Type) where
  | done (value : α)
  | raise (error : Error)
  | lock (l : Lock) (next : Program State Lock Error α)
  | query (next : State → Program State Lock Error α)
  | write (f : State → State) (next : Program State Lock Error α)

section Programs

variable {State Lock Error α β : Type}

def bind : Program State Lock Error α → (α → Program State Lock Error β) →
    Program State Lock Error β
  | .done a, k => k a
  | .raise e, _ => .raise e
  | .lock l next, k => .lock l (bind next k)
  | .query next, k => .query (fun s => bind (next s) k)
  | .write f next, k => .write f (bind next k)

instance : Monad (Program State Lock Error) where
  pure := .done
  bind := bind

/-- A `SELECT`: the state this statement sees. -/
def get : Program State Lock Error State := .query .done

def acquire (l : Lock) : Program State Lock Error Unit := .lock l (.done ())

def modify (f : State → State) : Program State Lock Error Unit := .write f (.done ())

def throw (e : Error) : Program State Lock Error α := .raise e

def exec : Program State Lock Error α → State → Except Error (α × State)
  | .done a, s => .ok (a, s)
  | .raise e, _ => .error e
  | .lock _ next, s => exec next s
  | .query next, s => exec (next s) s
  | .write f next, s => exec next (f s)

/-- What the database holds afterwards: a transaction that raised was rolled back. -/
def commit (p : Program State Lock Error α) (s : State) : State :=
  match exec p s with
  | .ok (_, t) => t
  | .error _ => s

theorem exec_bind (p : Program State Lock Error α) (k : α → Program State Lock Error β)
    (s : State) :
    exec (p >>= k) s = match exec p s with
      | .ok (a, t) => exec (k a) t
      | .error e => .error e := by
  change exec (bind p k) s = _
  induction p generalizing s with
  | done a => rfl
  | raise e => rfl
  | lock l next ih => exact ih s
  | query next ih => exact ih s s
  | write f next ih => exact ih (f s)

theorem exec_bind_ok {p : Program State Lock Error α} {k : α → Program State Lock Error β}
    {s : State} {r : β × State} (ran : exec (p >>= k) s = .ok r) :
    ∃ a t, exec p s = .ok (a, t) ∧ exec (k a) t = .ok r := by
  rw [exec_bind] at ran
  cases first : exec p s with
  | error e =>
    rw [first] at ran
    cases ran
  | ok result =>
    rw [first] at ran
    exact ⟨result.1, result.2, rfl, ran⟩

theorem commit_of_raise {p : Program State Lock Error α} {s : State} {e : Error}
    (raised : exec p s = .error e) : commit p s = s := by
  simp [commit, raised]

end Programs

section Keeps

variable {State Lock Error α β : Type} {R : State → State → Prop}

def Keeps (R : State → State → Prop) (p : Program State Lock Error α) : Prop :=
  ∀ s a t, exec p s = .ok (a, t) → R s t

theorem keeps_throw (e : Error) : Keeps R (throw e : Program State Lock Error α) := by
  intro s a t ran
  cases ran

theorem keeps_modify {f : State → State} (kept : ∀ s, R s (f s)) :
    Keeps R (modify f : Program State Lock Error Unit) := by
  intro s a t ran
  cases ran
  exact kept s

theorem keeps_pure [Std.Refl R] (a : α) : Keeps R (pure a : Program State Lock Error α) := by
  intro s b t ran
  cases ran
  exact Std.Refl.refl s

theorem keeps_get [Std.Refl R] : Keeps R (get : Program State Lock Error State) := by
  intro s a t ran
  cases ran
  exact Std.Refl.refl s

theorem keeps_acquire [Std.Refl R] (l : Lock) :
    Keeps R (acquire l : Program State Lock Error Unit) := by
  intro s a t ran
  cases ran
  exact Std.Refl.refl s

theorem keeps_bind [IsTrans State R] {p : Program State Lock Error α}
    {k : α → Program State Lock Error β} (first : Keeps R p) (second : ∀ a, Keeps R (k a)) :
    Keeps R (p >>= k) := by
  intro s b t ran
  rw [exec_bind] at ran
  split at ran
  · rename_i a u ran'
    exact IsTrans.trans s u t (first s a u ran') (second a u b t ran)
  · cases ran

def Reads : Program State Lock Error α → Prop
  | .done _ => True
  | .raise _ => True
  | .lock _ next => Reads next
  | .query next => ∀ s, Reads (next s)
  | .write _ _ => False

theorem reads_pure (a : α) : Reads (pure a : Program State Lock Error α) := trivial

theorem reads_throw (e : Error) : Reads (throw e : Program State Lock Error α) := trivial

theorem reads_get : Reads (get : Program State Lock Error State) := fun _ => trivial

theorem reads_acquire (l : Lock) : Reads (acquire l : Program State Lock Error Unit) := trivial

theorem reads_bind {p : Program State Lock Error α} {k : α → Program State Lock Error β}
    (first : Reads p) (second : ∀ a, Reads (k a)) : Reads (p >>= k) := by
  change Reads (bind p k)
  induction p with
  | done a => exact second a
  | raise e => trivial
  | lock l next ih => exact ih first
  | query next ih => exact fun s => ih s (first s)
  | write f next ih => exact first.elim

theorem keeps_reads [Std.Refl R] {p : Program State Lock Error α} (reads : Reads p) :
    Keeps R p := by
  intro s a t ran
  induction p with
  | done b =>
    cases ran
    exact Std.Refl.refl s
  | raise e => cases ran
  | lock l next ih => exact ih reads ran
  | query next ih => exact ih s (reads s) ran
  | write f next ih => exact reads.elim

theorem keeps_commit [Std.Refl R] {p : Program State Lock Error α} (keeps : Keeps R p) (s : State) :
    R s (commit p s) := by
  unfold commit
  split
  · rename_i a t ran
    exact keeps s a t ran
  · exact Std.Refl.refl s

end Keeps

section Raises

variable {State Lock Error α β : Type} {allowed : Error → Prop}

def Raises (allowed : Error → Prop) (p : Program State Lock Error α) : Prop :=
  ∀ s e, exec p s = .error e → allowed e

theorem raises_pure (a : α) : Raises allowed (pure a : Program State Lock Error α) := by
  intro s e raised
  cases raised

theorem raises_throw {e : Error} (fine : allowed e) :
    Raises allowed (throw e : Program State Lock Error α) := by
  intro s e' raised
  cases raised
  exact fine

theorem raises_get : Raises allowed (get : Program State Lock Error State) := by
  intro s e raised
  cases raised

theorem raises_acquire (l : Lock) : Raises allowed (acquire l : Program State Lock Error Unit) := by
  intro s e raised
  cases raised

theorem raises_modify (f : State → State) :
    Raises allowed (modify f : Program State Lock Error Unit) := by
  intro s e raised
  cases raised

theorem raises_bind {p : Program State Lock Error α} {k : α → Program State Lock Error β}
    (first : Raises allowed p) (second : ∀ a, Raises allowed (k a)) : Raises allowed (p >>= k) := by
  intro s e raised
  rw [exec_bind] at raised
  split at raised
  · exact second _ _ e raised
  · rename_i e' failed
    cases raised
    exact first s e failed

end Raises

section Interleaving

variable {State Lock Error α : Type}

/-- A transaction in flight: what remains of it, its locks and its own writes. -/
structure Process (State Lock Error α : Type) where
  program : Program State Lock Error α
  held : Set Lock
  pending : State → State

structure Config (State Lock Error α : Type) where
  db : State
  processes : Nat → Option (Process State Lock Error α)

def Config.set (c : Config State Lock Error α) (i : Nat)
    (p : Option (Process State Lock Error α)) : Config State Lock Error α :=
  { c with processes := Function.update c.processes i p }

/-- One statement of one transaction. `starts` says which transactions are ever begun. -/
inductive Step (starts : Program State Lock Error α → Prop) :
    Config State Lock Error α → Config State Lock Error α → Prop where
  | start (c i p) : c.processes i = none → starts p → Step starts c (c.set i (some ⟨p, ∅, id⟩))
  | lock (c i l next H w) : c.processes i = some ⟨.lock l next, H, w⟩ →
      (∀ j q, j ≠ i → c.processes j = some q → l ∉ q.held) →
      Step starts c (c.set i (some ⟨next, insert l H, w⟩))
  | query (c i next H w) : c.processes i = some ⟨.query next, H, w⟩ →
      Step starts c (c.set i (some ⟨next (w c.db), H, w⟩))
  | write (c i f next H w) : c.processes i = some ⟨.write f next, H, w⟩ →
      Step starts c (c.set i (some ⟨next, H, fun s => f (w s)⟩))
  | commit (c i a H w) : c.processes i = some ⟨.done a, H, w⟩ →
      Step starts c { c.set i none with db := w c.db }
  | abort (c i p) : c.processes i = some p → Step starts c (c.set i none)

/-- The configurations of the runs whose steps are all `ok`, as changes of the committed state. -/
inductive Reachable (starts : Program State Lock Error α → Prop) (ok : State → State → Prop)
    (init : State) : Config State Lock Error α → Prop where
  | init : ok init init → Reachable starts ok init ⟨init, fun _ => none⟩
  | step (c c') : Reachable starts ok init c → Step starts c c' → ok c.db c'.db →
      Reachable starts ok init c'

theorem Reachable.mono {starts : Program State Lock Error α → Prop} {ok weaker : State → State → Prop}
    {init : State} {c : Config State Lock Error α} (implies : ∀ s t, ok s t → weaker s t)
    (reachable : Reachable starts ok init c) : Reachable starts weaker init c := by
  induction reachable with
  | init fine => exact .init (implies init init fine)
  | step c c' _ step fine ih => exact .step c c' ih step (implies c.db c'.db fine)

theorem step_db {starts : Program State Lock Error α → Prop} {c c' : Config State Lock Error α}
    (step : Step starts c c') :
    c'.db = c.db ∨ ∃ i a H w, c.processes i = some ⟨.done a, H, w⟩ ∧ c'.db = w c.db := by
  cases step with
  | start i p => exact .inl rfl
  | lock i l next H w => exact .inl rfl
  | query i next H w => exact .inl rfl
  | write i f next H w => exact .inl rfl
  | commit i a H w here => exact .inr ⟨i, a, H, w, here, rfl⟩
  | abort i p => exact .inl rfl

section Alone

variable {starts : Program State Lock Error α → Prop} {ok : State → State → Prop}
  {init s t : State} {p : Program State Lock Error α} {a : α}

def alone (s : State) (p : Option (Process State Lock Error α)) : Config State Lock Error α :=
  ⟨s, Function.update (fun _ => none) 0 p⟩

theorem alone_set (s : State) (p q : Option (Process State Lock Error α)) :
    (alone s p).set 0 q = alone s q := by
  simp [alone, Config.set]

theorem alone_none (s : State) : alone s none = (⟨s, fun _ => none⟩ : Config State Lock Error α) := by
  rw [alone, Function.update_eq_self]

theorem alone_here (s : State) (p : Option (Process State Lock Error α)) :
    (alone s p).processes 0 = p := by
  simp [alone]

theorem reachable_done {H : Set Lock} {w : State → State} (fine : ok s s)
    (reachable : Reachable starts ok init (alone s (some ⟨p, H, w⟩)))
    (ran : exec p (w s) = .ok (a, t)) :
    ∃ K v, Reachable starts ok init (alone s (some ⟨.done a, K, v⟩)) ∧ v s = t := by
  induction p generalizing H w with
  | done b =>
    cases ran
    exact ⟨H, w, reachable, rfl⟩
  | raise e => cases ran
  | lock l next ih =>
    refine ih (H := insert l H) (w := w) ?_ ran
    have free : ∀ j q, j ≠ 0 → (alone s (some ⟨.lock l next, H, w⟩)).processes j = some q →
        l ∉ q.held := by
      intro j q other there
      simp [alone, other] at there
    have step : Step starts _ _ := .lock _ 0 l next H w (alone_here s _) free
    rw [alone_set] at step
    exact .step _ _ reachable step fine
  | query next ih =>
    refine ih (w s) (H := H) (w := w) ?_ ran
    have step : Step starts _ _ := .query _ 0 next H w (alone_here s _)
    rw [alone_set] at step
    exact .step _ _ reachable step fine
  | write f next ih =>
    refine ih (H := H) (w := fun s => f (w s)) ?_ ran
    have step : Step starts _ _ := .write _ 0 f next H w (alone_here s _)
    rw [alone_set] at step
    exact .step _ _ reachable step fine

theorem step_commit (begun : starts p) (fine : ok s s)
    (reachable : Reachable starts ok init ⟨s, fun _ => none⟩) (ran : exec p s = .ok (a, t)) :
    ∃ c, Reachable starts ok init c ∧ c.db = s ∧ Step starts c ⟨t, fun _ => none⟩ := by
  have first : Step starts _ _ := .start _ 0 p (alone_here s none) begun
  rw [alone_set] at first
  rw [← alone_none] at reachable
  obtain ⟨K, v, last, rfl⟩ := reachable_done fine (.step _ _ reachable first fine) ran
  have final : Step starts _ _ := .commit _ 0 a K v (alone_here s _)
  rw [alone_set, alone_none] at final
  exact ⟨_, last, rfl, final⟩

theorem reachable_commit (begun : starts p) (fine : ok s s) (after : ok s (commit p s))
    (reachable : Reachable starts ok init ⟨s, fun _ => none⟩) :
    Reachable starts ok init ⟨commit p s, fun _ => none⟩ := by
  cases ran : exec p s with
  | error e =>
    rw [commit_of_raise ran]
    exact reachable
  | ok answer =>
    obtain ⟨a, t⟩ := answer
    have left : commit p s = t := by rw [commit, ran]
    obtain ⟨c, before, rfl, step⟩ := step_commit begun fine reachable ran
    rw [left] at after ⊢
    exact .step _ _ before step after

end Alone

end Interleaving

section Discipline

variable {State Lock Error α β : Type}

/-- `guar H s t`: a transaction holding `H` may turn `s` into `t` at its commit.
`rely H s t`: what others may have made of `s` while this one holds `H`.
`assumes s t`: what is assumed of every step of the run, whoever takes it. -/
structure Discipline (State Lock : Type) where
  inv : State → Prop
  assumes : State → State → Prop
  rely : Set Lock → State → State → Prop
  guar : Set Lock → State → State → Prop
  assumes_after : ∀ s t, assumes s t → assumes t t
  rely_refl : ∀ H s, rely H s s
  rely_trans : ∀ H s t u, rely H s t → rely H t u → rely H s u
  rely_mono : ∀ H K s t, H ⊆ K → rely K s t → rely H s t
  guar_inv : ∀ H s t, inv s → guar H s t → assumes s t → inv t
  guar_rely : ∀ H K s t, inv s → guar H s t → assumes s t → Disjoint H K → rely K s t

structure Discipline.Sound (d : Discipline State Lock) (s : State) : Prop where
  inv : d.inv s
  assumes : d.assumes s s

/-- `Q` holds of the result, the locks, the writes and the last state seen, whatever the
others do between the statements. -/
def wp (d : Discipline State Lock) (Q : α → Set Lock → (State → State) → State → Prop) :
    Program State Lock Error α → Set Lock → (State → State) → State → Prop
  | .done a, H, w, s => Q a H w s
  | .raise _, _, _, _ => True
  | .lock l next, H, w, s => ∀ t, d.Sound t → d.rely H s t → wp d Q next (insert l H) w t
  | .query next, H, w, s => ∀ t, d.Sound t → d.rely H s t → wp d Q (next (w t)) H w t
  | .write f next, H, w, s => wp d Q next H (fun s => f (w s)) s

def Commits (d : Discipline State Lock) (_ : α) (H : Set Lock) (w : State → State)
    (s : State) : Prop :=
  ∀ t, d.Sound t → d.rely H s t → d.guar H t (w t)

def Safe (d : Discipline State Lock) (p : Program State Lock Error α) : Prop :=
  ∀ s, d.Sound s → wp d (Commits d) p ∅ id s

variable {d : Discipline State Lock}

@[simp] theorem wp_pure (Q : α → Set Lock → (State → State) → State → Prop) (a : α)
    (H : Set Lock) (w : State → State) (s : State) :
    wp d Q (pure a : Program State Lock Error α) H w s = Q a H w s := rfl

@[simp] theorem wp_throw (Q : α → Set Lock → (State → State) → State → Prop) (e : Error)
    (H : Set Lock) (w : State → State) (s : State) :
    wp d Q (throw e : Program State Lock Error α) H w s = True := rfl

@[simp] theorem wp_get (Q : State → Set Lock → (State → State) → State → Prop)
    (H : Set Lock) (w : State → State) (s : State) :
    wp d Q (get : Program State Lock Error State) H w s =
      ∀ t, d.Sound t → d.rely H s t → Q (w t) H w t := rfl

@[simp] theorem wp_acquire (Q : Unit → Set Lock → (State → State) → State → Prop) (l : Lock)
    (H : Set Lock) (w : State → State) (s : State) :
    wp d Q (acquire l : Program State Lock Error Unit) H w s =
      ∀ t, d.Sound t → d.rely H s t → Q () (insert l H) w t := rfl

@[simp] theorem wp_modify (Q : Unit → Set Lock → (State → State) → State → Prop)
    (f : State → State) (H : Set Lock) (w : State → State) (s : State) :
    wp d Q (modify f : Program State Lock Error Unit) H w s = Q () H (fun s => f (w s)) s := rfl

@[simp] theorem wp_bind (Q : β → Set Lock → (State → State) → State → Prop)
    (p : Program State Lock Error α) (k : α → Program State Lock Error β) (H : Set Lock)
    (w : State → State) (s : State) :
    wp d Q (p >>= k) H w s = wp d (fun a H w s => wp d Q (k a) H w s) p H w s := by
  change wp d Q (bind p k) H w s = _
  induction p generalizing H w s with
  | done a => rfl
  | raise e => rfl
  | lock l next ih => simp only [bind, wp, ih]
  | query next ih => simp only [bind, wp, ih]
  | write f next ih => simp only [bind, wp, ih]

theorem wp_mono {Q R : α → Set Lock → (State → State) → State → Prop}
    {p : Program State Lock Error α} {H : Set Lock} {w : State → State} {s : State}
    (holds : wp d Q p H w s) (weaker : ∀ a H w s, Q a H w s → R a H w s) : wp d R p H w s := by
  induction p generalizing H w s with
  | done a => exact weaker a H w s holds
  | raise e => trivial
  | lock l next ih =>
    intro t sound rely
    exact ih (holds t sound rely)
  | query next ih =>
    intro t sound rely
    exact ih (w t) (holds t sound rely)
  | write f next ih => exact ih holds

/-- After statements that only read, the locks may have grown and the others may have moved. -/
theorem wp_reads {Q : α → Set Lock → (State → State) → State → Prop}
    {p : Program State Lock Error α} (reads : Reads p) {H : Set Lock} {w : State → State}
    {s : State} (sound : d.Sound s)
    (post : ∀ a K t, H ⊆ K → d.Sound t → d.rely H s t → Q a K w t) : wp d Q p H w s := by
  induction p generalizing H s with
  | done a => exact post a H s (Set.Subset.refl H) sound (d.rely_refl H s)
  | raise e => trivial
  | lock l next ih =>
    intro t sound' moved
    refine ih reads sound' ?_
    intro a K u grown sound'' moved'
    refine post a K u ((Set.subset_insert l H).trans grown) sound'' ?_
    exact d.rely_trans H s t u moved (d.rely_mono H _ t u (Set.subset_insert l H) moved')
  | query next ih =>
    intro t sound' moved
    refine ih (w t) (reads (w t)) sound' ?_
    intro a K u grown sound'' moved'
    exact post a K u grown sound'' (d.rely_trans H s t u moved moved')
  | write f next ih => exact reads.elim

structure Consistent (d : Discipline State Lock) (c : Config State Lock Error α) : Prop where
  inv : d.inv c.db
  exclusive : ∀ i j p q, i ≠ j → c.processes i = some p → c.processes j = some q →
    Disjoint p.held q.held
  safe : ∀ i p, c.processes i = some p →
    ∃ s, d.rely p.held s c.db ∧ wp d (Commits d) p.program p.held p.pending s

theorem set_same (c : Config State Lock Error α) (i : Nat)
    (p : Option (Process State Lock Error α)) : (c.set i p).processes i = p := by
  simp [Config.set]

theorem set_other (c : Config State Lock Error α) {i j : Nat}
    (p : Option (Process State Lock Error α)) (other : j ≠ i) :
    (c.set i p).processes j = c.processes j := by
  simp [Config.set, other]

theorem consistent_set {c : Config State Lock Error α} (ok : Consistent d c) (i : Nat)
    (p : Process State Lock Error α)
    (alone : ∀ j q, j ≠ i → c.processes j = some q → Disjoint p.held q.held)
    (safe : ∃ s, d.rely p.held s c.db ∧ wp d (Commits d) p.program p.held p.pending s) :
    Consistent d (c.set i (some p)) := by
  refine ⟨ok.inv, ?_, ?_⟩
  · intro j k q r different left right
    by_cases hj : j = i
    · subst hj
      rw [set_same] at left
      rw [set_other c _ (Ne.symm different)] at right
      cases left
      exact alone k r (Ne.symm different) right
    · rw [set_other c _ hj] at left
      by_cases hk : k = i
      · subst hk
        rw [set_same] at right
        cases right
        exact (alone j q hj left).symm
      · rw [set_other c _ hk] at right
        exact ok.exclusive j k q r different left right
  · intro j q here
    by_cases hj : j = i
    · subst hj
      rw [set_same] at here
      cases here
      exact safe
    · rw [set_other c _ hj] at here
      exact ok.safe j q here

theorem consistent_clear {c : Config State Lock Error α} (ok : Consistent d c) (i : Nat) :
    Consistent d (c.set i none) := by
  have kept : ∀ j q, (c.set i none).processes j = some q → c.processes j = some q := by
    intro j q here
    by_cases hj : j = i
    · subst hj
      rw [set_same] at here
      cases here
    · rw [set_other c _ hj] at here
      exact here
  refine ⟨ok.inv, ?_, ?_⟩
  · intro j k q r different left right
    exact ok.exclusive j k q r different (kept j q left) (kept k r right)
  · intro j q here
    exact ok.safe j q (kept j q here)

theorem consistent_step {starts : Program State Lock Error α → Prop}
    (safe : ∀ p, starts p → Safe d p) {c c' : Config State Lock Error α}
    (ok : Consistent d c) (sound : d.Sound c.db) (step : Step starts c c')
    (assumed : d.assumes c.db c'.db) : Consistent d c' := by
  cases step with
  | start i p free started =>
    refine consistent_set ok i ⟨p, ∅, id⟩ ?_ ⟨c.db, d.rely_refl ∅ c.db, safe p started c.db sound⟩
    intro j q _ _
    exact Set.empty_disjoint _
  | lock i l next H w here free =>
    obtain ⟨s, rely, holds⟩ := ok.safe i _ here
    refine consistent_set ok i ⟨next, insert l H, w⟩ ?_
      ⟨c.db, d.rely_refl _ c.db, holds c.db sound rely⟩
    intro j q other there
    rw [Set.disjoint_insert_left]
    exact ⟨free j q other there, ok.exclusive i j _ q (Ne.symm other) here there⟩
  | query i next H w here =>
    obtain ⟨s, rely, holds⟩ := ok.safe i _ here
    refine consistent_set ok i ⟨next (w c.db), H, w⟩ ?_
      ⟨c.db, d.rely_refl H c.db, holds c.db sound rely⟩
    intro j q other there
    have apart := ok.exclusive i j _ q (Ne.symm other) here there
    exact apart
  | write i f next H w here =>
    obtain ⟨s, rely, holds⟩ := ok.safe i _ here
    refine consistent_set ok i ⟨next, H, fun s => f (w s)⟩ ?_ ⟨s, rely, holds⟩
    intro j q other there
    have apart := ok.exclusive i j _ q (Ne.symm other) here there
    exact apart
  | commit i a H w here =>
    obtain ⟨s, rely, commits⟩ := ok.safe i _ here
    have allowed : d.guar H c.db (w c.db) := commits c.db sound rely
    have cleared := consistent_clear ok i
    refine ⟨d.guar_inv H c.db (w c.db) ok.inv allowed assumed, cleared.exclusive, ?_⟩
    -- The others have only seen a change they were entitled to rely on.
    intro j q there
    obtain ⟨t, rely', holds⟩ := cleared.safe j q there
    have other : j ≠ i := by
      intro same
      subst same
      rw [set_same] at there
      cases there
    rw [set_other c _ other] at there
    have apart : Disjoint H q.held := ok.exclusive i j _ q (Ne.symm other) here there
    exact ⟨t, d.rely_trans q.held t c.db (w c.db) rely'
      (d.guar_rely H q.held c.db (w c.db) ok.inv allowed assumed apart), holds⟩
  | abort i p here => exact consistent_clear ok i

theorem consistent_of_reachable {starts : Program State Lock Error α → Prop}
    (safe : ∀ p, starts p → Safe d p) {init : State} (start : d.inv init)
    {c : Config State Lock Error α} (reachable : Reachable starts d.assumes init c) :
    Consistent d c ∧ d.Sound c.db := by
  induction reachable with
  | init assumed =>
    refine ⟨⟨start, ?_, ?_⟩, ⟨start, assumed⟩⟩
    · intro i j p q _ here _
      cases here
    · intro i p here
      cases here
  | step c c' _ step assumed ih =>
    have ok := consistent_step safe ih.1 ih.2 step assumed
    exact ⟨ok, ⟨ok.inv, d.assumes_after c.db c'.db assumed⟩⟩

theorem inv_of_reachable {starts : Program State Lock Error α → Prop}
    (safe : ∀ p, starts p → Safe d p) {init : State} (start : d.inv init)
    {c : Config State Lock Error α} (reachable : Reachable starts d.assumes init c) :
    d.inv c.db :=
  (consistent_of_reachable safe start reachable).1.inv

/-- Every step of every interleaving either leaves the committed state alone or is allowed. -/
theorem step_allowed {starts : Program State Lock Error α → Prop}
    (safe : ∀ p, starts p → Safe d p) {init : State} (start : d.inv init)
    {c c' : Config State Lock Error α} (reachable : Reachable starts d.assumes init c)
    (step : Step starts c c') : c'.db = c.db ∨ ∃ H, d.guar H c.db c'.db := by
  obtain ⟨ok, sound⟩ := consistent_of_reachable safe start reachable
  rcases step_db step with same | ⟨i, a, H, w, here, after⟩
  · exact .inl same
  · obtain ⟨s, rely, commits⟩ := ok.safe i _ here
    rw [after]
    exact .inr ⟨H, commits c.db sound rely⟩

end Discipline

end Txn
