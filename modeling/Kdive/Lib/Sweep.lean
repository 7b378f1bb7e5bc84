import Mathlib.Data.List.Basic

/-!
A sweep: a step that may fail, taken for one item after the other. What a step establishes for its
own item and keeps for the others holds for every item at the end, and a sweep over items that have
nothing left to do changes nothing that matters.
-/
namespace Sweep

variable {State Item Error : Type*} {step : Item → State → Except Error State}

def run (step : Item → State → Except Error State) : List Item → State → Except Error State
  | [], s => .ok s
  | i :: rest, s => (step i s).bind (run step rest)

@[simp] theorem run_nil (s : State) : run step [] s = .ok s := rfl

theorem run_cons_ok {i : Item} {rest : List Item} {s final : State}
    (ran : run step (i :: rest) s = .ok final) :
    ∃ s', step i s = .ok s' ∧ run step rest s' = .ok final := by
  unfold run at ran
  cases first : step i s with
  | error e =>
    rw [first] at ran
    cases ran
  | ok s' =>
    rw [first] at ran
    exact ⟨s', rfl, ran⟩

theorem run_keeps (Inv : State → Prop) {items : List Item} {s final : State}
    (keeps : ∀ i ∈ items, ∀ s s', step i s = .ok s' → Inv s → Inv s')
    (ran : run step items s = .ok final) (holds : Inv s) : Inv final := by
  induction items generalizing s with
  | nil =>
    cases ran
    exact holds
  | cons i rest ih =>
    obtain ⟨s₁, one, ran⟩ := run_cons_ok ran
    refine ih (fun j member => keeps j (.tail i member)) ran ?_
    exact keeps i (.head rest) s s₁ one holds

theorem run_stages (Inv : Nat → State → Prop) {items : List Item} {s final : State} {from' : Nat}
    (moves : ∀ k i, items[k]? = some i → ∀ s s', step i s = .ok s' → Inv (from' + k) s →
      Inv (from' + k + 1) s')
    (ran : run step items s = .ok final) (holds : Inv from' s) : Inv (from' + items.length) final := by
  induction items generalizing s from' with
  | nil =>
    cases ran
    exact holds
  | cons i rest ih =>
    obtain ⟨s₁, one, ran⟩ := run_cons_ok ran
    have first := moves 0 i rfl s s₁ one holds
    have later := @ih s₁ (from' + 1) (fun k j there t t' moved held => ?_) ran first
    · rw [List.length_cons, show from' + (rest.length + 1) = from' + 1 + rest.length by omega]
      exact later
    · have shifted := moves (k + 1) j there t t' moved
      rw [show from' + (k + 1) = from' + 1 + k by omega] at shifted
      exact shifted held

structure Establishes (step : Item → State → Except Error State) (apart : Item → Item → Prop)
    (before after : Item → State → Prop) : Prop where
  own : ∀ i s s', before i s → step i s = .ok s' → after i s'
  waiting : ∀ i j s s', apart i j → before i s → before j s → step i s = .ok s' → before j s'
  done : ∀ i j s s', apart i j → after i s → before j s → step j s = .ok s' → after i s'

section Establishing

variable {apart : Item → Item → Prop} {before after : Item → State → Prop}
  (rule : Establishes step apart before after) {items : List Item} {s final : State}
  (distinct : items.Pairwise apart) (ready : ∀ i ∈ items, before i s)
  (ran : run step items s = .ok final)
include rule distinct ready ran

theorem run_keeps_ready (Inv : State → Prop)
    (keeps : ∀ i ∈ items, ∀ s s', before i s → step i s = .ok s' → Inv s → Inv s')
    (holds : Inv s) : Inv final := by
  induction items generalizing s with
  | nil =>
    cases ran
    exact holds
  | cons i rest ih =>
    obtain ⟨s₁, one, ran⟩ := run_cons_ok ran
    obtain ⟨others, distinct⟩ := List.pairwise_cons.mp distinct
    have first := ready i (.head rest)
    refine ih distinct ?_ ran (fun j member => keeps j (.tail i member)) ?_
    · intro j member
      exact rule.waiting i j s s₁ (others j member) first (ready j (.tail i member)) one
    · exact keeps i (.head rest) s s₁ first one holds

theorem run_establishes : ∀ i ∈ items, after i final := by
  induction items generalizing s with
  | nil => simp
  | cons i rest ih =>
    obtain ⟨s₁, one, ran⟩ := run_cons_ok ran
    obtain ⟨others, distinct⟩ := List.pairwise_cons.mp distinct
    have first := ready i (.head rest)
    have left : ∀ j ∈ rest, before j s₁ := fun j member =>
      rule.waiting i j s s₁ (others j member) first (ready j (.tail i member)) one
    have still : after i final := by
      refine run_keeps_ready rule distinct left ran (after i)
        (fun j member t t' due moved kept => ?_) (rule.own i s s₁ first one)
      exact rule.done i j t t' (others j member) kept due moved
    intro j member
    rcases List.mem_cons.mp member with rfl | member
    · exact still
    · exact ih distinct left ran j member

theorem run_took_ready {i : Item} (member : i ∈ items) :
    ∃ t t', before i t ∧ step i t = .ok t' := by
  induction items generalizing s with
  | nil => exact absurd member List.not_mem_nil
  | cons j rest ih =>
    obtain ⟨s₁, one, ran⟩ := run_cons_ok ran
    obtain ⟨others, distinct⟩ := List.pairwise_cons.mp distinct
    have first := ready j (.head rest)
    rcases List.mem_cons.mp member with rfl | member
    · exact ⟨s, s₁, first, one⟩
    · refine ih distinct (fun k later => ?_) ran member
      exact rule.waiting j k s s₁ (others k later) first (ready k (.tail j later)) one

omit ran in
theorem run_error_ready {e : Error} (failed : run step items s = .error e) :
    ∃ i ∈ items, ∃ t, before i t ∧ step i t = .error e := by
  induction items generalizing s with
  | nil => cases failed
  | cons i rest ih =>
    obtain ⟨others, distinct⟩ := List.pairwise_cons.mp distinct
    have first := ready i (.head rest)
    cases one : step i s with
    | error f =>
      rw [run, one] at failed
      cases failed
      exact ⟨i, .head rest, s, first, one⟩
    | ok s₁ =>
      rw [run, one] at failed
      obtain ⟨j, member, rest⟩ := ih distinct (fun k later => rule.waiting i k s s₁
        (others k later) first (ready k (.tail i later)) one) failed
      exact ⟨j, .tail i member, rest⟩

end Establishing

theorem run_quiet {quiet : State → State → Prop} (refl : ∀ s, quiet s s)
    (trans : ∀ {s t u}, quiet s t → quiet t u → quiet s u) (settled : Item → State → Prop)
    (stays : ∀ i s t, quiet s t → settled i s → settled i t)
    (idle : ∀ i s, settled i s → ∃ t, step i s = .ok t ∧ quiet s t) {items : List Item} {s : State}
    (all : ∀ i ∈ items, settled i s) : ∃ final, run step items s = .ok final ∧ quiet s final := by
  induction items generalizing s with
  | nil => exact ⟨s, rfl, refl s⟩
  | cons i rest ih =>
    obtain ⟨s₁, one, still⟩ := idle i s (all i (.head rest))
    obtain ⟨final, ran, same⟩ :=
      ih (fun j member => stays j s s₁ still (all j (.tail i member)))
    refine ⟨final, ?_, trans still same⟩
    rw [run, one]
    exact ran

end Sweep
