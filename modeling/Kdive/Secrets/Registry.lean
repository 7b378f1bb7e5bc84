import Mathlib.Data.List.Induction
import Mathlib.Data.Set.Basic

/-!
The registry of secret values: one count for each value over all scopes, and the values of each
scope. Values without a scope are kept under an ordinary key, so a release of that key takes them
along; in every run without such a release the registry holds what was registered and not released.
-/
namespace Kdive.Secrets

structure SecretRegistry (Key : Type) where
  globalKey : Key
  refcount : String → Option Int
  byScope : Key → Option (List String)
  version : Nat

inductive Call (Key : Type)
  | register (value : Option String) (scope : Option Key)
  | release (scope : Option Key)
  | clear

section Operations

variable {Key : Type} [DecidableEq Key]

def SecretRegistry.new (globalKey : Key) : SecretRegistry Key :=
  ⟨globalKey, fun _ => none, fun _ => none, 0⟩

def isSecret (value : Option String) : Bool := value.any (fun v => v ≠ "")

def SecretRegistry.register (r : SecretRegistry Key) (value : Option String)
    (scope : Option Key) : SecretRegistry Key :=
  if isSecret value then
    let v := value.getD ""
    let key := scope.getD r.globalKey
    { r with
      byScope := Function.update r.byScope key (some ((r.byScope key).getD [] ++ [v]))
      refcount := Function.update r.refcount v (some ((r.refcount v).getD 0 + 1))
      version := r.version + 1 }
  else r

def dropOne (refcount : String → Option Int) (value : String) : String → Option Int :=
  let remaining := (refcount value).getD 0 - 1
  Function.update refcount value (if remaining ≤ 0 then none else some remaining)

def SecretRegistry.release (r : SecretRegistry Key) : Option Key → SecretRegistry Key
  | none => r
  | some scope =>
    let values := (r.byScope scope).getD []
    let popped := Function.update r.byScope scope none
    if values = [] then { r with byScope := popped }
    else { r with
      byScope := popped
      refcount := values.foldl dropOne r.refcount
      version := r.version + 1 }

def SecretRegistry.clear (r : SecretRegistry Key) : SecretRegistry Key :=
  { r with refcount := fun _ => none, byScope := fun _ => none, version := r.version + 1 }

def SecretRegistry.snapshot (r : SecretRegistry Key) : Set String :=
  {v | (r.refcount v).isSome}

def SecretRegistry.step (r : SecretRegistry Key) : Call Key → SecretRegistry Key
  | .register value scope => r.register value scope
  | .release scope => r.release scope
  | .clear => r.clear

def run (globalKey : Key) (calls : List (Call Key)) : SecretRegistry Key :=
  calls.foldl SecretRegistry.step (.new globalKey)

end Operations

section Purpose

variable {Key : Type}

/-- The value was registered with the scope, and neither the scope was released nor the registry
cleared since. -/
def Registered (calls : List (Call Key)) (value : String) (scope : Option Key) : Prop :=
  value ≠ "" ∧ ∃ before after, calls = before ++ .register (some value) scope :: after ∧
    .clear ∉ after ∧ ∀ k, scope = some k → .release (some k) ∉ after

def expected (calls : List (Call Key)) : Set String := {v | ∃ scope, Registered calls v scope}

/-- The key that stands for no scope is never released while it holds a value. -/
def Spared (globalKey : Key) (calls : List (Call Key)) : Prop :=
  ∀ before after, calls = before ++ .release (some globalKey) :: after →
    ∀ value, ¬ Registered before value none

end Purpose

section Live

variable {Key : Type}

theorem registered_snoc {calls : List (Call Key)} {c : Call Key} {v : String} {s : Option Key} :
    Registered (calls ++ [c]) v s ↔
      (v ≠ "" ∧ c = .register (some v) s) ∨
      (Registered calls v s ∧ c ≠ .clear ∧ ∀ k, s = some k → c ≠ .release (some k)) := by
  constructor
  · rintro ⟨filled, before, after, same, uncleared, unreleased⟩
    rcases List.eq_nil_or_concat after with rfl | ⟨rest, last, rfl⟩
    · left
      have parts := List.append_inj' same rfl
      exact ⟨filled, List.singleton_inj.1 parts.2⟩
    · right
      rw [List.concat_eq_append] at same uncleared unreleased
      have parts := List.append_inj' (same.trans (by simp) :
        calls ++ [c] = (before ++ .register (some v) s :: rest) ++ [last]) rfl
      obtain rfl := List.singleton_inj.1 parts.2
      simp only [List.mem_append, List.mem_singleton, not_or] at uncleared unreleased
      exact ⟨⟨filled, before, rest, parts.1, uncleared.1, fun k under => (unreleased k under).1⟩,
        fun cleared => uncleared.2 cleared.symm,
        fun k under released => (unreleased k under).2 released.symm⟩
  · rintro (⟨filled, rfl⟩ | ⟨⟨filled, before, after, rfl, uncleared, unreleased⟩, other, kept⟩)
    · exact ⟨filled, calls, [], rfl, by simp, by simp⟩
    · refine ⟨filled, before, after ++ [c], by simp, ?_, ?_⟩
      · simp only [List.mem_append, List.mem_singleton, not_or]
        exact ⟨uncleared, other.symm⟩
      · intro k under
        simp only [List.mem_append, List.mem_singleton, not_or]
        exact ⟨unreleased k under, (kept k under).symm⟩

variable [DecidableEq Key]

def liveStep (live : List (Option Key × String)) : Call Key → List (Option Key × String)
  | .register value scope =>
    if isSecret value then live ++ [(scope, value.getD "")] else live
  | .release none => live
  | .release (some k) => live.filter (fun e => e.1 ≠ some k)
  | .clear => []

def live (calls : List (Call Key)) : List (Option Key × String) := calls.foldl liveStep []

theorem live_snoc (calls : List (Call Key)) (c : Call Key) :
    live (calls ++ [c]) = liveStep (live calls) c := by
  simp [live]

theorem mem_live {calls : List (Call Key)} {v : String} {s : Option Key} :
    (s, v) ∈ live calls ↔ Registered calls v s := by
  induction calls using List.reverseRecOn with
  | nil => simp [live, Registered]
  | append_singleton calls c ih =>
    rw [live_snoc, registered_snoc, ← ih]
    cases c with
    | register value scope =>
      cases value with
      | none => simp [liveStep, isSecret]
      | some value =>
        by_cases filled : value = ""
        · simp [liveStep, isSecret, filled]
          rintro empty rfl
          exact absurd rfl empty
        · simp [liveStep, isSecret, filled]
          constructor
          · rintro (before | ⟨rfl, rfl⟩)
            · exact .inr before
            · exact .inl ⟨filled, rfl, rfl⟩
          · rintro (⟨_, rfl, rfl⟩ | before)
            · exact .inr ⟨rfl, rfl⟩
            · exact .inl before
    | release scope =>
      cases scope with
      | none => simp [liveStep]
      | some k =>
        simp [liveStep]
        intro _
        constructor
        · rintro other k' rfl rfl
          exact other rfl
        · rintro other rfl
          exact other k rfl rfl
    | clear => simp [liveStep]

end Live

section Counts

def counted (n : Nat) : Option Int := if n = 0 then none else some n

theorem counted_getD (n : Nat) : (counted n).getD 0 = n := by
  unfold counted
  split <;> simp_all

theorem dropOne_counted {refcount : String → Option Int} {count : String → Nat} {value : String}
    (held : ∀ v, refcount v = counted (count v)) (some_left : 0 < count value) (v : String) :
    dropOne refcount value v = counted (if v = value then count v - 1 else count v) := by
  unfold dropOne
  rw [held value, counted_getD]
  by_cases same : v = value
  · rw [same, Function.update_self, if_pos rfl]
    unfold counted
    split <;> split <;> first | rfl | omega | (congr 1; omega)
  · rw [Function.update_of_ne same, if_neg same, held]

theorem foldl_dropOne (values : List String) : ∀ {refcount : String → Option Int}
    {count : String → Nat}, (∀ v, refcount v = counted (count v)) →
    (∀ v, values.count v ≤ count v) → ∀ v, values.foldl dropOne refcount v =
      counted (count v - values.count v) := by
  induction values with
  | nil =>
    intro refcount count held _ v
    simpa using held v
  | cons value values ih =>
    intro refcount count held enough v
    have some_left : 0 < count value := by
      have := enough value
      rw [List.count_cons_self] at this
      omega
    have less : ∀ w, values.count w ≤ if w = value then count w - 1 else count w := by
      intro w
      have := enough w
      rw [List.count_cons] at this
      by_cases same : w = value
      · simp only [same, beq_self_eq_true, if_true] at this ⊢
        omega
      · have other : (value == w) = false := by simpa using Ne.symm same
        simp only [other, Bool.false_eq_true, if_false, same] at this ⊢
        omega
    rw [List.foldl_cons, ih (dropOne_counted held some_left) less v, List.count_cons]
    by_cases same : v = value
    · simp only [same, beq_self_eq_true, if_true]
      congr 1
      omega
    · have other : (value == v) = false := by simpa using Ne.symm same
      simp [other, same]

end Counts

section Refinement

variable {Key : Type} [DecidableEq Key]

def keyOf (globalKey : Key) (e : Option Key × String) : Key := e.1.getD globalKey

structure Holds (r : SecretRegistry Key) (live : List (Option Key × String)) : Prop where
  scopes : ∀ k, (r.byScope k).getD [] =
    (live.filter (fun e => keyOf r.globalKey e = k)).map Prod.snd
  counts : ∀ v, r.refcount v = counted ((live.map Prod.snd).count v)

theorem globalKey_step (r : SecretRegistry Key) (c : Call Key) :
    (r.step c).globalKey = r.globalKey := by
  cases c with
  | register value scope =>
    simp only [SecretRegistry.step, SecretRegistry.register]
    split <;> rfl
  | release scope =>
    cases scope with
    | none => rfl
    | some k =>
      simp only [SecretRegistry.step, SecretRegistry.release]
      split <;> rfl
  | clear => rfl

theorem run_snoc (globalKey : Key) (calls : List (Call Key)) (c : Call Key) :
    run globalKey (calls ++ [c]) = (run globalKey calls).step c := by
  simp [run]

theorem globalKey_run (globalKey : Key) (calls : List (Call Key)) :
    (run globalKey calls).globalKey = globalKey := by
  induction calls using List.reverseRecOn with
  | nil => rfl
  | append_singleton calls c ih => rw [run_snoc, globalKey_step, ih]

theorem Holds.register {r : SecretRegistry Key} {live : List (Option Key × String)}
    (held : Holds r live) (value : Option String) (scope : Option Key) :
    Holds (r.register value scope) (liveStep live (.register value scope)) := by
  simp only [SecretRegistry.register, liveStep]
  split
  · constructor
    · intro k
      rw [List.filter_append, List.map_append]
      dsimp only
      by_cases same : scope.getD r.globalKey = k
      · simp [same, keyOf, held.scopes k]
      · rw [Function.update_of_ne (Ne.symm same)]
        simp [same, keyOf, held.scopes k]
    · intro v
      rw [List.map_append, List.count_append]
      dsimp only
      by_cases same : v = value.getD ""
      · rw [same, Function.update_self, held.counts, counted_getD]
        simp [counted]
      · rw [Function.update_of_ne same, held.counts]
        simp [Ne.symm same]
  · exact held

/-- The registrations under a key leave with it, as long as the key stands for one scope. -/
theorem Holds.release {r : SecretRegistry Key} {live : List (Option Key × String)}
    (held : Holds r live) {k : Key} (apart : ∀ e ∈ live, keyOf r.globalKey e = k ↔ e.1 = some k) :
    Holds (r.release (some k)) (liveStep live (.release (some k))) := by
  have values : (r.byScope k).getD [] = (live.filter (fun e => e.1 = some k)).map Prod.snd := by
    rw [held.scopes k]
    congr 1
    apply List.filter_congr
    intro e inside
    simp [apart e inside]
  have total : ∀ v, (live.map Prod.snd).count v =
      ((r.byScope k).getD []).count v +
        ((live.filter (fun e => e.1 ≠ some k)).map Prod.snd).count v := by
    intro v
    rw [values]
    generalize live = entries
    induction entries with
    | nil => rfl
    | cons e entries ih =>
      by_cases same : e.1 = some k
      · simp [same, List.count_cons, ih]
        omega
      · simp [same, List.count_cons, ih]
        omega
  have scopes : ∀ other, (Function.update r.byScope k none other).getD [] =
      ((live.filter (fun e => e.1 ≠ some k)).filter
        (fun e => keyOf r.globalKey e = other)).map Prod.snd := by
    intro other
    rw [List.filter_filter]
    by_cases same : other = k
    · rw [same, Function.update_self]
      have empty : live.filter (fun e => decide (keyOf r.globalKey e = k) &&
          decide (e.1 ≠ some k)) = [] := by
        rw [List.filter_eq_nil_iff]
        intro e inside
        simp [apart e inside]
      rw [empty]
      rfl
    · rw [Function.update_of_ne same, held.scopes other]
      congr 1
      apply List.filter_congr
      intro e inside
      by_cases here : keyOf r.globalKey e = other
      · have elsewhere : e.1 ≠ some k := fun under => same (here.symm.trans ((apart e inside).2 under))
        simp [here, elsewhere]
      · simp [here]
  simp only [SecretRegistry.release, liveStep]
  split
  · rename_i none_held
    refine ⟨scopes, ?_⟩
    intro v
    have := total v
    rw [none_held, List.count_nil, Nat.zero_add] at this
    show r.refcount v = _
    rw [held.counts v, this]
  · refine ⟨scopes, ?_⟩
    intro v
    show List.foldl dropOne r.refcount ((r.byScope k).getD []) v = _
    rw [foldl_dropOne _ held.counts (fun w => by have := total w; omega) v]
    congr 1
    have := total v
    omega

theorem holds_run {globalKey : Key} {calls : List (Call Key)} (spared : Spared globalKey calls) :
    Holds (run globalKey calls) (live calls) := by
  induction calls using List.reverseRecOn with
  | nil => exact ⟨fun k => rfl, fun v => rfl⟩
  | append_singleton calls c ih =>
    have earlier : Spared globalKey calls := by
      rintro before after rfl
      exact spared before (after ++ [c]) (by simp)
    have held := ih earlier
    rw [run_snoc, live_snoc]
    cases c with
    | register value scope => exact held.register value scope
    | clear => exact ⟨fun k => rfl, fun v => rfl⟩
    | release scope =>
      cases scope with
      | none => exact held
      | some k =>
        apply held.release
        rintro ⟨scope, v⟩ inside
        rw [globalKey_run]
        cases scope with
        | some other => simp [keyOf]
        | none =>
          simp only [keyOf, Option.getD_none, reduceCtorEq, iff_false]
          rintro rfl
          exact spared calls [] rfl v (mem_live.1 inside)

theorem snapshot_of_holds {r : SecretRegistry Key} {calls : List (Call Key)}
    (held : Holds r (live calls)) : r.snapshot = expected calls := by
  ext v
  simp only [SecretRegistry.snapshot, expected, Set.mem_ofPred_eq]
  rw [held.counts v]
  have present : (counted (((live calls).map Prod.snd).count v)).isSome ↔
      v ∈ (live calls).map Prod.snd := by
    rw [← List.count_pos_iff]
    unfold counted
    split
    · rename_i zero
      simp [zero]
    · rename_i some_left
      simp [Nat.pos_of_ne_zero some_left]
  rw [present, List.mem_map]
  constructor
  · rintro ⟨⟨scope, w⟩, inside, rfl⟩
    exact ⟨scope, mem_live.1 inside⟩
  · rintro ⟨scope, registered⟩
    exact ⟨(scope, v), mem_live.2 registered, rfl⟩

theorem version_lt_of_snapshot_ne {r : SecretRegistry Key} {c : Call Key}
    (changed : (r.step c).snapshot ≠ r.snapshot) : r.version < (r.step c).version := by
  cases c with
  | register value scope =>
    simp only [SecretRegistry.step, SecretRegistry.register] at changed ⊢
    split
    · exact Nat.lt_succ_self _
    · rename_i empty
      rw [if_neg empty] at changed
      exact absurd rfl changed
  | release scope =>
    cases scope with
    | none => exact absurd rfl changed
    | some k =>
      simp only [SecretRegistry.step, SecretRegistry.release] at changed ⊢
      split
      · rename_i empty
        rw [if_pos empty] at changed
        exact absurd rfl changed
      · exact Nat.lt_succ_self _
  | clear => exact Nat.lt_succ_self _

/-- At every point of a run that never releases the key of the global scope while a value is held
under it: the snapshot is what was registered and not released, a release leaves the values without
a scope, and a call that changes the snapshot raises the version. -/
theorem registry_faithful {globalKey : Key} {calls : List (Call Key)}
    (spared : Spared globalKey calls) : ∀ prior later, calls = prior ++ later →
    (run globalKey prior).snapshot = expected prior ∧
    ∀ c rest, later = c :: rest →
      (∀ scope v, c = .release scope → Registered prior v none →
        v ∈ (run globalKey (prior ++ [c])).snapshot) ∧
      ((run globalKey (prior ++ [c])).snapshot ≠ (run globalKey prior).snapshot →
        (run globalKey prior).version < (run globalKey (prior ++ [c])).version) := by
  rintro prior later rfl
  have early : Spared globalKey prior := by
    rintro before after rfl
    exact spared before (after ++ later) (by simp)
  refine ⟨snapshot_of_holds (holds_run early), ?_⟩
  rintro c rest rfl
  constructor
  · rintro scope v rfl registered
    have next : Spared globalKey (prior ++ [.release scope]) := by
      rintro before after same
      exact spared before (after ++ rest) (by rw [List.append_cons, same]; simp)
    rw [snapshot_of_holds (holds_run next)]
    exact ⟨none, registered_snoc.2 (.inr ⟨registered, nofun, nofun⟩)⟩
  · rw [run_snoc]
    exact version_lt_of_snapshot_ne

/-- A run with a token of the process, a scoped secret and the release of its scope. -/
theorem registry_faithful_scoped :
    (run "__global__" [.register (some "token") none, .register (some "pw") (some "run-1"),
      .release (some "run-1")]).snapshot =
    expected [.register (some "token") none, .register (some "pw") (some "run-1"),
      .release (some "run-1")] := by
  refine (@registry_faithful String _ "__global__" _ ?_ _ [] (List.append_nil _).symm).1
  intro before after same value
  rcases before with _ | ⟨_, _ | ⟨_, _ | ⟨_, before⟩⟩⟩ <;> simp at same

/-- The release of the key itself takes along what was registered without a scope. -/
theorem global_value_evicted :
    @Registered String [.register (some "token") none, .release (some "__global__")]
      "token" none ∧
    "token" ∉ (run "__global__" [.register (some "token") none,
      .release (some "__global__")]).snapshot := by
  constructor
  · exact ⟨by decide, [], [.release (some "__global__")], rfl, by simp, by simp⟩
  · simp [run, SecretRegistry.step, SecretRegistry.register, SecretRegistry.release,
      SecretRegistry.new, SecretRegistry.snapshot, isSecret, dropOne]

end Refinement

end Kdive.Secrets
