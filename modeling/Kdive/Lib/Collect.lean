import Mathlib.Data.List.Basic

/-!
A loop that collects: each item is checked against what has been collected so far and adds to it. When
what an item adds does not depend on the others, the loop returns what all of them add, and its checks
are checks on the items before.
-/
namespace Collect

variable {Item Out Error : Type*} {check : Item → List Out → Except Error (List Out)}
  {adds : Item → List Out}

def run (check : Item → List Out → Except Error (List Out)) :
    List Item → List Out → Except Error (List Out)
  | [], done => .ok done
  | i :: rest, done => (check i done).bind fun added => run check rest (done ++ added)

theorem ok_of_bind {Part Whole : Type*} {x : Except Error Part} {f : Part → Except Error Whole}
    {b : Whole} (bound : x.bind f = .ok b) : ∃ a, x = .ok a ∧ f a = .ok b := by
  cases x with
  | error e => cases bound
  | ok a => exact ⟨a, rfl, bound⟩

theorem run_cons_ok {i : Item} {rest : List Item} {done final : List Out}
    (ran : run check (i :: rest) done = .ok final) :
    ∃ added, check i done = .ok added ∧ run check rest (done ++ added) = .ok final :=
  ok_of_bind ran

theorem run_map {Source : Type*} (f : Source → Item) (sources : List Source) (done : List Out) :
    run check (sources.map f) done = run (fun s => check (f s)) sources done := by
  induction sources generalizing done with
  | nil => rfl
  | cons s rest ih =>
    rw [List.map_cons, run, run]
    exact congrArg _ (funext fun added => ih (done ++ added))

theorem collected {Holds : Item → Prop} {items : List Item}
    (sound : ∀ i ∈ items, ∀ done added, check i done = .ok added → added = adds i ∧ Holds i)
    {done final : List Out} (ran : run check items done = .ok final) :
    final = done ++ items.flatMap adds ∧ ∀ i ∈ items, Holds i := by
  induction items generalizing done with
  | nil =>
    cases ran
    exact ⟨by simp, nofun⟩
  | cons i rest ih =>
    obtain ⟨added, first, ran⟩ := run_cons_ok ran
    obtain ⟨rfl, holds⟩ := sound i (.head rest) done added first
    obtain ⟨rfl, others⟩ := ih (fun j member => sound j (.tail i member)) ran
    refine ⟨by rw [List.flatMap_cons, List.append_assoc], ?_⟩
    intro j member
    rcases List.mem_cons.mp member with rfl | later
    · exact holds
    · exact others j later

theorem run_ok {items : List Item} {done : List Out}
    (passes : ∀ before i after, items = before ++ i :: after →
      check i (done ++ before.flatMap adds) = .ok (adds i)) :
    run check items done = .ok (done ++ items.flatMap adds) := by
  induction items generalizing done with
  | nil => simp [run]
  | cons i rest ih =>
    have first := passes [] i rest rfl
    rw [List.flatMap_nil, List.append_nil] at first
    rw [run, first, List.flatMap_cons, ← List.append_assoc]
    refine ih fun before j after split => ?_
    rw [List.append_assoc, ← List.flatMap_cons]
    exact passes (i :: before) j after (by rw [split, List.cons_append])

end Collect
