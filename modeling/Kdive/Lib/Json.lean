import Mathlib.Data.Finmap
import Mathlib.Data.Rat.Defs

/-!
JSON values as a dynamic language compares them: numbers by value, a truth value as the number one
or zero, objects without regard to the order of their members.
-/

inductive Json where
  | null
  | number (value : ℚ)
  | text (value : String)
  | array (elements : List Json)
  | object (members : List (String × Json))

namespace Json

mutual

def decEq : (a b : Json) → Decidable (a = b)
  | .null, .null => isTrue rfl
  | .number p, .number q => decidable_of_iff (p = q) (by simp)
  | .text s, .text t => decidable_of_iff (s = t) (by simp)
  | .array xs, .array ys =>
    match decEqElements xs ys with
    | isTrue same => isTrue (by rw [same])
    | isFalse differ => isFalse (by simpa using differ)
  | .object xs, .object ys =>
    match decEqMembers xs ys with
    | isTrue same => isTrue (by rw [same])
    | isFalse differ => isFalse (by simpa using differ)
  | .null, .number _ | .null, .text _ | .null, .array _ | .null, .object _ => isFalse (by simp)
  | .number _, .null | .number _, .text _ | .number _, .array _ | .number _, .object _ =>
    isFalse (by simp)
  | .text _, .null | .text _, .number _ | .text _, .array _ | .text _, .object _ => isFalse (by simp)
  | .array _, .null | .array _, .number _ | .array _, .text _ | .array _, .object _ =>
    isFalse (by simp)
  | .object _, .null | .object _, .number _ | .object _, .text _ | .object _, .array _ =>
    isFalse (by simp)

def decEqElements : (xs ys : List Json) → Decidable (xs = ys)
  | [], [] => isTrue rfl
  | x :: xs, y :: ys =>
    match decEq x y, decEqElements xs ys with
    | isTrue head, isTrue tail => isTrue (by rw [head, tail])
    | isFalse head, _ => isFalse (by simp [head])
    | _, isFalse tail => isFalse (by simp [tail])
  | [], _ :: _ | _ :: _, [] => isFalse (by simp)

def decEqMembers : (xs ys : List (String × Json)) → Decidable (xs = ys)
  | [], [] => isTrue rfl
  | (k, x) :: xs, (l, y) :: ys =>
    match decEq x y, decEqMembers xs ys with
    | isTrue head, isTrue tail => decidable_of_iff (k = l) (by simp [head, tail])
    | isFalse head, _ => isFalse (by simp [head])
    | _, isFalse tail => isFalse (by simp [tail])
  | [], _ :: _ | _ :: _, [] => isFalse (by simp)

end

instance : DecidableEq Json := decEq

def ofNat (n : Nat) : Json := .number n

def ofInt (n : Int) : Json := .number n

def ofBool (b : Bool) : Json := .number (if b then 1 else 0)

def ofOption : Option String → Json
  | none => .null
  | some s => .text s

abbrev Dict := Finmap (fun _ : String => Json)

def Dict.of (members : List (String × Json)) : Dict :=
  (members.map (fun m => Sigma.mk m.1 m.2)).toFinmap

def Dict.merge (old new : Dict) : Dict := new ∪ old

theorem Dict.lookup_merge (old new : Dict) (name : String) :
    (old.merge new).lookup name = (new.lookup name).or (old.lookup name) := by
  unfold merge
  by_cases held : name ∈ new
  · rw [Finmap.lookup_union_left held]
    obtain ⟨value, found⟩ := Finmap.mem_iff.mp held
    simp [found]
  · rw [Finmap.lookup_union_right held, Finmap.lookup_eq_none.mpr held, Option.none_or]

end Json
