import Mathlib.Data.List.Infix
import Mathlib.Order.Bounds.Basic

/-!
Where a text occurs in a longer one: the first place at or after a start and the last place before
a stop, for one text and for several, and texts made of lines. A string without the separator of the
lines occurs in the text exactly where it occurs in one of them.
-/
namespace Find

variable {α : Type*}

def Occurs (pattern text : List α) (i : Nat) : Prop :=
  i + pattern.length ≤ text.length ∧ pattern <+: text.drop i

instance [DecidableEq α] (pattern text : List α) (i : Nat) : Decidable (Occurs pattern text i) :=
  inferInstanceAs (Decidable (_ ∧ _))

theorem occurs_iff {pattern text : List α} {i : Nat} :
    Occurs pattern text i ↔ ∃ before after, text = before ++ pattern ++ after ∧ before.length = i := by
  constructor
  · rintro ⟨inside, after, rest⟩
    refine ⟨text.take i, after, ?_, ?_⟩
    · rw [List.append_assoc, rest, List.take_append_drop]
    · rw [List.length_take]
      omega
  · rintro ⟨before, after, rfl, rfl⟩
    constructor
    · simp only [List.length_append]
      omega
    · rw [List.append_assoc, List.drop_left]
      exact List.prefix_append pattern after

theorem occurs_of_infix {pattern text : List α} (found : pattern <:+: text) :
    ∃ i, Occurs pattern text i := by
  obtain ⟨before, after, whole⟩ := found
  exact ⟨before.length, occurs_iff.mpr ⟨before, after, whole.symm, rfl⟩⟩

theorem Occurs.infix {pattern text : List α} {i : Nat} (occurs : Occurs pattern text i) :
    pattern <:+: text := by
  obtain ⟨before, after, rfl, _⟩ := occurs_iff.mp occurs
  exact ⟨before, after, rfl⟩

section Searching

variable [DecidableEq α]

def find (text pattern : List α) (start : Nat) : Option Nat :=
  (List.range (text.length + 1)).find? (fun i => decide (start ≤ i ∧ Occurs pattern text i))

def lastBelow (p : Nat → Bool) : Nat → Option Nat
  | 0 => none
  | n + 1 => if p n then some n else lastBelow p n

def rfind (text pattern : List α) (stop : Nat) : Option Nat :=
  lastBelow (fun i => decide (i + pattern.length ≤ stop ∧ Occurs pattern text i)) (text.length + 1)

theorem find_eq_some {text pattern : List α} {start i : Nat} :
    find text pattern start = some i ↔ IsLeast {j | start ≤ j ∧ Occurs pattern text j} i := by
  simp only [find, List.find?_range_eq_some, List.mem_range, Bool.not_eq_true', decide_eq_true_eq,
    decide_eq_false_iff_not]
  constructor
  · rintro ⟨found, _, first⟩
    refine ⟨found, ?_⟩
    intro j occurs
    by_contra earlier
    exact first j (Nat.lt_of_not_le earlier) occurs
  · rintro ⟨found, first⟩
    refine ⟨found, ?_, ?_⟩
    · have := found.2.1
      omega
    · intro j earlier occurs
      have := first occurs
      omega

theorem find_eq_none {text pattern : List α} {start : Nat} :
    find text pattern start = none ↔ ∀ j, start ≤ j → ¬ Occurs pattern text j := by
  simp only [find, List.find?_eq_none, List.mem_range, decide_eq_true_eq, not_and]
  constructor
  · intro none j later occurs
    have := occurs.1
    exact none j (by omega) later occurs
  · intro none j _
    exact none j

theorem lastBelow_eq_some {p : Nat → Bool} {n i : Nat} :
    lastBelow p n = some i ↔ IsGreatest {j | j < n ∧ p j = true} i := by
  induction n with
  | zero =>
    simp only [lastBelow]
    constructor
    · intro bad
      cases bad
    · rintro ⟨⟨below, _⟩, _⟩
      omega
  | succ n ih =>
    rw [lastBelow]
    by_cases here : p n = true
    · rw [if_pos here]
      constructor
      · rintro same
        obtain rfl := Option.some.inj same
        exact ⟨⟨Nat.lt_succ_self n, here⟩, fun j inside => Nat.le_of_lt_succ inside.1⟩
      · rintro ⟨⟨below, _⟩, last⟩
        have := last ⟨Nat.lt_succ_self n, here⟩
        exact congrArg some (by omega)
    · rw [if_neg here, ih]
      have same : {j | j < n + 1 ∧ p j = true} = {j | j < n ∧ p j = true} := by
        ext j
        constructor
        · rintro ⟨below, holds⟩
          refine ⟨?_, holds⟩
          rcases Nat.lt_succ_iff_lt_or_eq.mp below with less | rfl
          · exact less
          · exact absurd holds here
        · rintro ⟨below, holds⟩
          exact ⟨Nat.lt_succ_of_lt below, holds⟩
      rw [same]

theorem lastBelow_eq_none {p : Nat → Bool} {n : Nat} :
    lastBelow p n = none ↔ ∀ j < n, p j = false := by
  induction n with
  | zero => simp [lastBelow]
  | succ n ih =>
    rw [lastBelow]
    by_cases here : p n = true
    · simp only [here, if_true]
      constructor
      · intro bad
        cases bad
      · intro none
        have := none n (Nat.lt_succ_self n)
        simp [here] at this
    · rw [if_neg here, ih]
      constructor
      · intro none j below
        rcases Nat.lt_succ_iff_lt_or_eq.mp below with less | rfl
        · exact none j less
        · simpa using here
      · intro none j below
        exact none j (Nat.lt_succ_of_lt below)

theorem rfind_eq_some {text pattern : List α} {stop i : Nat} :
    rfind text pattern stop = some i ↔
      IsGreatest {j | j + pattern.length ≤ stop ∧ Occurs pattern text j} i := by
  have same : {j | j < text.length + 1 ∧
      decide (j + pattern.length ≤ stop ∧ Occurs pattern text j) = true}
      = {j | j + pattern.length ≤ stop ∧ Occurs pattern text j} := by
    ext j
    constructor
    · rintro ⟨_, holds⟩
      exact of_decide_eq_true holds
    · intro holds
      have := holds.2.1
      exact ⟨by omega, decide_eq_true holds⟩
  rw [rfind, lastBelow_eq_some, same]

theorem rfind_eq_none {text pattern : List α} {stop : Nat} :
    rfind text pattern stop = none ↔
      ∀ j, j + pattern.length ≤ stop → ¬ Occurs pattern text j := by
  rw [rfind, lastBelow_eq_none]
  simp only [decide_eq_false_iff_not, not_and]
  constructor
  · intro none j below occurs
    have := occurs.1
    exact none j (by omega) below occurs
  · intro none j _
    exact none j

end Searching

section Lines

variable {pattern left right : List α} {sep : α} {i : Nat}

theorem occurs_append_cons (filled : pattern ≠ []) (without : sep ∉ pattern) :
    Occurs pattern (left ++ sep :: right) i ↔
      Occurs pattern left i ∨ ∃ j, i = left.length + 1 + j ∧ Occurs pattern right j := by
  constructor
  · intro occurs
    obtain ⟨before, after, whole, rfl⟩ := occurs_iff.mp occurs
    rw [List.append_assoc] at whole
    rcases List.append_eq_append_iff.mp whole with ⟨gap, rfl, rest⟩ | ⟨gap, rfl, rest⟩
    · -- the pattern starts at the separator or after it
      cases gap with
      | nil =>
        obtain ⟨c, pattern, rfl⟩ := List.exists_cons_of_ne_nil filled
        simp only [List.nil_append, List.cons_append, List.cons.injEq] at rest
        exact absurd (by simp [rest.1]) without
      | cons c gap =>
        obtain ⟨rfl, rfl⟩ : sep = c ∧ right = gap ++ (pattern ++ after) := by simpa using rest
        refine .inr ⟨gap.length, ?_, occurs_iff.mpr ⟨gap, after, by simp, rfl⟩⟩
        simp only [List.length_append, List.length_cons]
        omega
    · rcases List.append_eq_append_iff.mp rest with ⟨tail, rfl, _⟩ | ⟨tail, rfl, ends⟩
      · exact .inl (occurs_iff.mpr ⟨before, tail, by simp, rfl⟩)
      · cases tail with
        | nil => exact .inl (occurs_iff.mpr ⟨before, [], by simp, rfl⟩)
        | cons c tail =>
          obtain ⟨rfl, _⟩ : sep = c ∧ right = tail ++ after := by simpa using ends
          exact absurd (by simp) without
  · rintro (inLeft | ⟨j, rfl, inRight⟩)
    · obtain ⟨before, after, rfl, rfl⟩ := occurs_iff.mp inLeft
      exact occurs_iff.mpr ⟨before, after ++ sep :: right, by simp, rfl⟩
    · obtain ⟨before, after, rfl, rfl⟩ := occurs_iff.mp inRight
      refine occurs_iff.mpr ⟨left ++ sep :: before, after, by simp, ?_⟩
      simp only [List.length_append, List.length_cons]
      omega

theorem exists_last_sep {text : List α} (found : sep ∈ text) :
    ∃ front back, text = front ++ sep :: back ∧ sep ∉ back := by
  obtain ⟨back, front, whole, none⟩ := List.eq_append_cons_of_mem (List.mem_reverse.mpr found)
  refine ⟨front.reverse, back.reverse, ?_, by simpa using none⟩
  have := congrArg List.reverse whole
  simpa using this

end Lines

end Find
