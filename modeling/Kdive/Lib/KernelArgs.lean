import Mathlib.Data.List.Infix

/-!
How the Linux kernel reads its command line: `parse_args` takes one argument after the other with
`next_arg`. A double quote groups, and one at the start of an argument belongs to neither its name
nor its value; the name ends at the first equals sign after its first byte.
-/
namespace KernelArgs

def space (b : UInt8) : Bool := (9 ≤ b && b ≤ 13) || b == 32 || b == 0xA0

def quote : UInt8 := 34

def equalsSign : UInt8 := 61

def scan : Bool → List UInt8 → List UInt8
  | _, [] => []
  | inQuote, b :: rest =>
    if space b && !inQuote then []
    else b :: scan (if b = quote then !inQuote else inQuote) rest

structure Argument where
  before : List UInt8
  quoted : Bool
  body : List UInt8

namespace Argument

def raw (a : Argument) : List UInt8 := if a.quoted then quote :: a.body else a.body

def equals (a : Argument) : Option Nat :=
  (a.body.tail.findIdx? (fun b => b = equalsSign)).map (· + 1)

def param (a : Argument) : List UInt8 :=
  match a.equals with
  | some e => a.body.take e
  | none => if a.quoted ∧ a.body.getLast? = some quote then a.body.dropLast else a.body

def val (a : Argument) : Option (List UInt8) :=
  a.equals.map (fun e =>
    let value := a.body.drop (e + 1)
    if value.head? = some quote then
      if a.body.getLast? = some quote then value.tail.dropLast else value.tail
    else if a.quoted ∧ a.body.getLast? = some quote then value.dropLast
    else value)

end Argument

def nextArg (before : List UInt8) (b : UInt8) (more : List UInt8) : Argument :=
  if b = quote then ⟨before, true, scan true more⟩ else ⟨before, false, scan false (b :: more)⟩

theorem raw_nextArg_length {before more : List UInt8} {b : UInt8} (starts : space b = false) :
    0 < (nextArg before b more).raw.length := by
  rw [nextArg]
  split
  · simp [Argument.raw]
  · simp [Argument.raw, scan, starts]

theorem space_of_dropWhile {args more : List UInt8} {b : UInt8}
    (left : args.dropWhile space = b :: more) : space b = false := by
  have filled : args.dropWhile space ≠ [] := by simp [left]
  have stops := List.head_dropWhile_not space filled
  simp only [left, List.head_cons] at stops
  simpa using stops

def arguments (before args : List UInt8) : List Argument :=
  let gap := args.takeWhile space
  match _left : args.dropWhile space with
  | [] => []
  | b :: more =>
    let a := nextArg (before ++ gap) b more
    a :: arguments (before ++ gap ++ a.raw) ((b :: more).drop a.raw.length)
termination_by args.length
decreasing_by
  have starts := space_of_dropWhile _left
  have size : (b :: more).length ≤ args.length := by
    rw [← _left]
    exact (List.dropWhile_sublist space).length_le
  have taken := @raw_nextArg_length (before ++ args.takeWhile space) more b starts
  rw [List.length_drop]
  have some' : 0 < (b :: more).length := by simp
  omega

section Scanning

theorem scan_split (inQuote : Bool) (bytes : List UInt8) :
    ∃ after, bytes = scan inQuote bytes ++ after ∧
      (after = [] ∨ ∃ b rest, after = b :: rest ∧ space b = true) := by
  induction bytes generalizing inQuote with
  | nil => exact ⟨[], rfl, .inl rfl⟩
  | cons b rest ih =>
    rw [scan]
    split
    · rename_i ends
      simp only [Bool.and_eq_true] at ends
      exact ⟨b :: rest, rfl, .inr ⟨b, rest, rfl, ends.1⟩⟩
    · obtain ⟨after, whole, next⟩ := ih (if b = quote then !inQuote else inQuote)
      exact ⟨after, by rw [List.cons_append, ← whole], next⟩

theorem scan_unclosed {bytes : List UInt8} (unclosed : quote ∉ scan true bytes) :
    scan true bytes = bytes := by
  induction bytes with
  | nil => rfl
  | cons b rest ih =>
    have goes : scan true (b :: rest) = b :: scan (if b = quote then !true else true) rest := by
      simp [scan]
    rw [goes] at unclosed ⊢
    have other : b ≠ quote := by
      rintro rfl
      exact unclosed List.mem_cons_self
    rw [if_neg other] at unclosed ⊢
    rw [ih (fun member => unclosed (List.mem_cons_of_mem b member))]

end Scanning

section Placed

structure Argument.Placed (line : List UInt8) (a : Argument) (after : List UInt8) : Prop where
  whole : line = a.before ++ (a.raw ++ after)
  starts : a.before = [] ∨ ∃ front b, a.before = front ++ [b] ∧ space b = true
  ends : after = [] ∨ ∃ b rest, after = b :: rest ∧ space b = true
  unclosed : a.quoted = true → quote ∉ a.body → after = []
  filled : a.quoted = false → a.body ≠ [] ∧ a.body.head? ≠ some quote

theorem nextArg_placed {before more : List UInt8} {b : UInt8} (starts : space b = false)
    (fresh : before = [] ∨ ∃ front b, before = front ++ [b] ∧ space b = true) :
    ∃ after, (nextArg before b more).Placed (before ++ b :: more) after ∧
      (b :: more).drop (nextArg before b more).raw.length = after := by
  rw [nextArg]
  split
  · rename_i isQuote
    obtain ⟨after, whole, ends⟩ := scan_split true more
    refine ⟨after, ⟨?_, fresh, ends, ?_, nofun⟩, ?_⟩
    · rw [Argument.raw, if_pos rfl, List.cons_append, ← whole, isQuote]
    · intro _ open'
      rw [scan_unclosed open'] at whole
      exact List.self_eq_append_right.mp whole
    · rw [Argument.raw, if_pos rfl, List.length_cons, List.drop_succ_cons]
      dsimp only
      nth_rewrite 2 [whole]
      exact List.drop_left
  · rename_i plain
    obtain ⟨after, whole, ends⟩ := scan_split false (b :: more)
    have first : scan false (b :: more) = b :: scan false more := by
      simp [scan, starts, plain]
    refine ⟨after, ⟨?_, fresh, ends, nofun, fun _ => ?_⟩, ?_⟩
    · rw [Argument.raw, if_neg (by simp), ← whole]
    · rw [first]
      exact ⟨nofun, by simpa using plain⟩
    · rw [Argument.raw, if_neg (by simp)]
      dsimp only
      nth_rewrite 2 [whole]
      exact List.drop_left

theorem arguments_placed (before args : List UInt8)
    (fresh : before = [] ∨ args = [] ∨ ∃ b rest, args = b :: rest ∧ space b = true)
    {a : Argument} (member : a ∈ arguments before args) :
    ∃ after, a.Placed (before ++ args) after := by
  induction before, args using arguments.induct with
  | case1 before args empty =>
    rw [arguments] at member
    split at member
    · exact absurd member List.not_mem_nil
    · rename_i b more left
      rw [empty] at left
      cases left
  | case2 before args gap b more left a' ih =>
    have starts := space_of_dropWhile left
    have whole : args = args.takeWhile space ++ b :: more := by
      rw [← left, List.takeWhile_append_dropWhile]
    have left' : before ++ args.takeWhile space = [] ∨
        ∃ front c, before ++ args.takeWhile space = front ++ [c] ∧ space c = true := by
      rcases List.eq_nil_or_concat' (args.takeWhile space) with none' | ⟨front, c, some'⟩
      · rcases fresh with rfl | rfl | ⟨c, rest, rfl, isSpace⟩
        · exact .inl (by rw [none', List.append_nil])
        · simp at left
        · simp [isSpace] at none'
      · refine .inr ⟨before ++ front, c, by rw [some', List.append_assoc], ?_⟩
        have inside : c ∈ args.takeWhile space := by simp [some']
        exact List.all_eq_true.mp List.all_takeWhile c inside
    obtain ⟨after, placed, rest⟩ := @nextArg_placed (before ++ args.takeWhile space) more b starts left'
    have line : before ++ args = before ++ args.takeWhile space ++ b :: more := by
      rw [List.append_assoc, ← whole]
    rw [arguments] at member
    split at member
    · rename_i empty
      rw [left] at empty
      cases empty
    rename_i b' more' again
    rw [left, List.cons.injEq] at again
    obtain ⟨rfl, rfl⟩ := again
    rcases List.mem_cons.mp member with rfl | later
    · exact ⟨after, line ▸ placed⟩
    · have step := ih (.inr (by rw [rest]; exact placed.ends)) later
      rw [rest] at step
      rw [line, placed.whole]
      have same : (nextArg (before ++ args.takeWhile space) b more).before =
          before ++ args.takeWhile space := by
        rw [nextArg]
        split <;> rfl
      rw [same, ← List.append_assoc]
      exact step

theorem Argument.param_shape (a : Argument) :
    (∃ value, a.body = a.param ++ equalsSign :: value) ∨
    (a.equals = none ∧ a.quoted = true ∧ a.body = a.param ++ [quote]) ∨ a.body = a.param := by
  rw [param]
  cases found : a.equals with
  | some e =>
    left
    obtain ⟨i, first, rfl⟩ := Option.map_eq_some_iff.mp found
    obtain ⟨inside, isEquals, -⟩ := List.findIdx?_eq_some_iff_getElem.mp first
    have bound : i + 1 < a.body.length := by
      rw [List.length_tail] at inside
      omega
    have sign : a.body[i + 1] = equalsSign := by
      simpa using isEquals
    refine ⟨a.body.drop (i + 1 + 1), ?_⟩
    rw [← sign, ← List.drop_eq_getElem_cons bound, List.take_append_drop]
  | none =>
    dsimp only
    split
    · rename_i closed
      exact .inr (.inl ⟨rfl, closed.1, (List.dropLast_append_getLast? quote closed.2).symm⟩)
    · exact .inr (.inr rfl)

end Placed

end KernelArgs
