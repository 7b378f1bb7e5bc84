import Mathlib.Tactic.Common

/-!
Which errors a computation may end with. `Only P x` says that `x` returns, or raises an error of which
`P` holds; the rules follow the ways computations are put together.
-/
namespace Raises

variable {ε α β : Type} {P : ε → Prop}

def Only (P : ε → Prop) (x : Except ε α) : Prop := ∀ e, x = .error e → P e

theorem only_ok (a : α) : Only P (.ok a : Except ε α) := fun _ => nofun

theorem only_error_iff {e : ε} : Only P (.error e : Except ε α) ↔ P e := by
  constructor
  · intro only
    exact only e rfl
  · intro allowed e' same
    obtain rfl := Except.error.inj same
    exact allowed

theorem only_error {e : ε} (allowed : P e) : Only P (.error e : Except ε α) :=
  only_error_iff.mpr allowed

theorem only_bind_iff {x : Except ε α} {f : α → Except ε β} :
    Only P (x.bind f) ↔ Only P x ∧ ∀ a, x = .ok a → Only P (f a) := by
  cases x with
  | error e =>
    constructor
    · intro only
      exact ⟨only_error (only_error_iff.mp only), fun _ => nofun⟩
    · intro both
      exact only_error (only_error_iff.mp both.1)
  | ok a =>
    constructor
    · intro only
      refine ⟨only_ok a, ?_⟩
      intro b same
      obtain rfl := Except.ok.inj same
      exact only
    · intro both
      exact both.2 a rfl

theorem only_bind {x : Except ε α} {f : α → Except ε β} (first : Only P x)
    (next : ∀ a, x = .ok a → Only P (f a)) : Only P (x.bind f) :=
  only_bind_iff.mpr ⟨first, next⟩

theorem only_map_iff {x : Except ε α} {f : α → β} : Only P (x.map f) ↔ Only P x := by
  cases x with
  | error e => rw [Except.map, only_error_iff, only_error_iff]
  | ok a => exact ⟨fun _ => only_ok a, fun _ => only_ok _⟩

theorem only_map {x : Except ε α} {f : α → β} (only : Only P x) : Only P (x.map f) :=
  only_map_iff.mpr only

theorem only_ite {c : Prop} [Decidable c] {x y : Except ε α} (yes : c → Only P x)
    (no : ¬c → Only P y) : Only P (if c then x else y) := by
  split
  · exact yes ‹_›
  · exact no ‹_›

def caught (kinds : ε → Bool) (replacement : ε) : Except ε α → Except ε α
  | .ok a => .ok a
  | .error e => if kinds e then .error replacement else .error e

theorem only_caught_iff {kinds : ε → Bool} {replacement : ε} (allowed : P replacement)
    {x : Except ε α} :
    Only P (caught kinds replacement x) ↔ Only (fun e => kinds e = true ∨ P e) x := by
  cases x with
  | ok a => exact ⟨fun _ => only_ok a, fun _ => only_ok a⟩
  | error e =>
    rw [only_error_iff, caught]
    split
    · rename_i kind
      exact ⟨fun _ => .inl kind, fun _ => only_error allowed⟩
    · rename_i other
      rw [only_error_iff]
      exact ⟨.inr, fun either => either.resolve_left other⟩

end Raises
