import Mathlib.Data.List.Basic

/-!
Path texts as `posixpath` treats them, lists of code points. `normpath` works on the text alone: it
cancels a component against the `..` behind it whatever the component names. `descend` is the same
walk over components, which fails where it would go above its start; a normalised path that leaves
its start says so at its front.
-/
namespace PosixPath

abbrev Str := List Nat

theorem lawful : LawfulBEq Str := inferInstance

def str (s : String) : Str := s.toList.map Char.toNat

def slash : Nat := 47

def dot : Str := [46]

def dotdot : Str := [46, 46]

def components (p : Str) : List Str := p.splitOn slash

def joined (cs : List Str) : Str := [slash].intercalate cs

section Texts

def push (rooted : Bool) (stack : List Str) (c : Str) : List Str :=
  if c = [] ∨ c = dot then stack
  else if c ≠ dotdot ∨ (rooted = false ∧ stack = []) ∨ stack.getLast? = some dotdot then stack ++ [c]
  else stack.dropLast

def initialSlashes (p : Str) : Nat :=
  if p.head? ≠ some slash then 0
  else if p.take 2 = [slash, slash] ∧ p.take 3 ≠ [slash, slash, slash] then 2
  else 1

def normpath (p : Str) : Str :=
  let slashes := initialSlashes p
  let path := List.replicate slashes slash ++
    joined ((components p).foldl (push (slashes ≠ 0)) [])
  if path = [] then dot else path

def dirname (p : Str) : Str :=
  let head := (p.reverse.dropWhile (· ≠ slash)).reverse
  if head = List.replicate head.length slash then head
  else (head.reverse.dropWhile (· = slash)).reverse

def join (a b : Str) : Str :=
  if b.head? = some slash ∨ a = [] then b
  else if a.getLast? = some slash then a ++ b
  else a ++ [slash] ++ b

def leaves (p : Str) : Bool := p = dotdot ∨ (dotdot ++ [slash]).isPrefixOf p

def IsName (c : Str) : Prop := c ≠ [] ∧ c ≠ dot ∧ c ≠ dotdot ∧ slash ∉ c

instance (c : Str) : Decidable (IsName c) := by unfold IsName; infer_instance

def descend : List Str → List Str → Option (List Str)
  | cwd, [] => some cwd
  | cwd, c :: rest =>
    if c = [] ∨ c = dot then descend cwd rest
    else if c = dotdot then if cwd = [] then none else descend cwd.dropLast rest
    else descend (cwd ++ [c]) rest

end Texts

section Components

theorem components_joined {cs : List Str} (names : ∀ c ∈ cs, slash ∉ c) (some : cs ≠ []) :
    components (joined cs) = cs := List.splitOn_intercalate slash names some

theorem joined_components (p : Str) : joined (components p) = p := List.intercalate_splitOn slash

theorem slash_not_mem_components {p c : Str} (member : c ∈ components p) : slash ∉ c := by
  induction p generalizing c with
  | nil =>
    rw [components, List.splitOn_nil, List.mem_singleton] at member
    rw [member]
    exact List.not_mem_nil
  | cons x rest ih =>
    rw [components, List.splitOn_cons_eq_if_modifyHead] at member
    split at member
    · rcases List.mem_cons.mp member with rfl | later
      · exact List.not_mem_nil
      · exact ih later
    · rename_i other
      cases parts : rest.splitOn slash with
      | nil => exact absurd parts (List.splitOn_ne_nil slash rest)
      | cons first more =>
        rw [parts, List.modifyHead_cons] at member
        rcases List.mem_cons.mp member with rfl | later
        · intro inside
          rcases List.mem_cons.mp inside with same | inside
          · exact other (by simp [same])
          · exact ih (by rw [components, parts]; exact .head more) inside
        · exact ih (by rw [components, parts]; exact .tail first later)

theorem components_append (p q : Str) :
    components (p ++ slash :: q) = components p ++ components q :=
  List.splitOn_append_cons_self p q

theorem joined_append {cs ds : List Str} (some : cs ≠ []) (more : ds ≠ []) :
    joined (cs ++ ds) = joined cs ++ slash :: joined ds := by
  induction cs with
  | nil => exact absurd rfl some
  | cons c rest ih =>
    cases rest with
    | nil =>
      obtain ⟨d, later, rfl⟩ := List.exists_cons_of_ne_nil more
      rw [joined, joined, joined, List.singleton_append, List.intercalate_cons_cons,
        List.intercalate_singleton, List.append_assoc, List.singleton_append]
    | cons e others =>
      have tail := ih (List.cons_ne_nil e others)
      rw [joined] at tail
      rw [joined, joined, List.cons_append, List.cons_append, List.intercalate_cons_cons,
        List.intercalate_cons_cons, ← List.cons_append, tail]
      simp only [joined, List.append_assoc]

theorem joined_concat {cs : List Str} (some : cs ≠ []) (c : Str) :
    joined (cs ++ [c]) = joined cs ++ slash :: c := by
  rw [joined_append some (List.cons_ne_nil c []), joined, joined, List.intercalate_singleton]

end Components

section Lexical

variable {cwd : List Str} {cs : List Str}

theorem head_push {stack : List Str} {c : Str} (above : stack.head? = some dotdot) :
    (push false stack c).head? = some dotdot := by
  obtain ⟨rest, rfl⟩ : ∃ rest, stack = dotdot :: rest := by
    cases stack with
    | nil => cases above
    | cons first rest => exact ⟨rest, by rw [Option.some.inj above]⟩
  rw [push]
  split
  · rfl
  · split
    · rfl
    · rename_i cancels
      cases rest with
      | nil => simp at cancels
      | cons second more => rfl

theorem head_foldl_push {stack : List Str} (above : stack.head? = some dotdot) :
    (cs.foldl (push false) stack).head? = some dotdot := by
  induction cs generalizing stack with
  | nil => exact above
  | cons c rest ih => exact ih (head_push above)

theorem descend_or_head (names : dotdot ∉ cwd) :
    (descend cwd cs).isSome ∨ (cs.foldl (push false) cwd).head? = some dotdot := by
  induction cs generalizing cwd with
  | nil => exact .inl rfl
  | cons c rest ih =>
    rw [descend, List.foldl_cons, push]
    by_cases skipped : c = [] ∨ c = dot
    · rw [if_pos skipped, if_pos skipped]
      exact ih names
    · rw [if_neg skipped, if_neg skipped]
      by_cases up : c = dotdot
      · rw [if_pos up]
        by_cases top : cwd = []
        · rw [if_pos top, if_pos (.inr (.inl ⟨rfl, top⟩)), top, up]
          exact .inr (head_foldl_push rfl)
        · have last : cwd.getLast? ≠ some dotdot := by
            intro same
            exact names (List.mem_of_getLast? same)
          rw [if_neg top, if_neg (by simp [up, top, last])]
          exact ih (fun member => names (List.dropLast_subset _ member))
      · rw [if_neg up, if_pos (.inl up)]
        refine ih ?_
        intro member
        rcases List.mem_append.mp member with inside | own
        · exact names inside
        · exact up (List.mem_singleton.mp own).symm

theorem push_mem {rooted : Bool} {stack : List Str} {c d : Str} (member : d ∈ push rooted stack c) :
    d ∈ stack ∨ d = c := by
  rw [push] at member
  split at member
  · exact .inl member
  · split at member
    · exact (List.mem_append.mp member).imp_right List.mem_singleton.mp
    · exact .inl (List.dropLast_subset _ member)

theorem foldl_push_mem {rooted : Bool} {stack : List Str} {d : Str}
    (member : d ∈ cs.foldl (push rooted) stack) : d ∈ stack ∨ d ∈ cs := by
  induction cs generalizing stack with
  | nil => exact .inl member
  | cons c rest ih =>
    rcases ih member with held | later
    · rcases push_mem held with held | rfl
      · exact .inl held
      · exact .inr (.head rest)
    · exact .inr (.tail c later)

theorem push_ne {rooted : Bool} {stack : List Str} {c d : Str} (skipped : d = [] ∨ d = dot)
    (clean : d ∉ stack) : d ∉ push rooted stack c := by
  rw [push]
  split
  · exact clean
  · rename_i counts
    split
    · intro member
      rcases List.mem_append.mp member with held | own
      · exact clean held
      · exact counts (List.mem_singleton.mp own ▸ skipped)
    · exact fun member => clean (List.dropLast_subset _ member)

theorem foldl_push_ne {rooted : Bool} {stack : List Str} {d : Str} (skipped : d = [] ∨ d = dot)
    (clean : d ∉ stack) : d ∉ cs.foldl (push rooted) stack := by
  induction cs generalizing stack with
  | nil => exact clean
  | cons c rest ih => exact ih (push_ne skipped clean)

theorem leaves_joined {rest : List Str} : leaves (joined (dotdot :: rest)) = true := by
  cases rest with
  | nil => rfl
  | cons c more =>
    rw [joined, List.intercalate_cons_cons]
    simp [leaves, dotdot]

/-- A relative path whose normal form does not leave its start stays below it all the way. -/
theorem descend_of_not_leaves {p : Str} (relative : p.head? ≠ some slash)
    (inside : leaves (normpath p) = false) : (descend [] (components p)).isSome := by
  rcases @descend_or_head [] (components p) List.not_mem_nil with walks | above
  · exact walks
  · obtain ⟨rest, stack⟩ : ∃ rest, (components p).foldl (push false) [] = dotdot :: rest := by
      cases stack : (components p).foldl (push false) [] with
      | nil =>
        rw [stack] at above
        cases above
      | cons first rest =>
        rw [stack] at above
        exact ⟨rest, by rw [Option.some.inj above]⟩
    have slashes : initialSlashes p = 0 := if_pos relative
    have path : normpath p = joined (dotdot :: rest) := by
      have some : joined (dotdot :: rest) ≠ [] := by
        intro empty
        have leaving := @leaves_joined rest
        rw [empty] at leaving
        cases leaving
      simp only [normpath, slashes, List.replicate_zero, List.nil_append]
      have unrooted : decide (0 ≠ 0) = false := rfl
      rw [unrooted, stack, if_neg some]
    rw [path, leaves_joined] at inside
    cases inside

theorem foldl_push_of_descend {d : List Str} (names : dotdot ∉ cwd)
    (walks : descend cwd cs = some d) : cs.foldl (push false) cwd = d ∧ dotdot ∉ d := by
  induction cs generalizing cwd with
  | nil =>
    obtain rfl := Option.some.inj walks
    exact ⟨rfl, names⟩
  | cons c rest ih =>
    rw [descend] at walks
    rw [List.foldl_cons, push]
    split at walks
    · rename_i skipped
      rw [if_pos skipped]
      exact ih names walks
    · rename_i counts
      rw [if_neg counts]
      split at walks
      · rename_i up
        split at walks
        · cases walks
        · rename_i below
          have last : cwd.getLast? ≠ some dotdot := by
            intro same
            exact names (List.mem_of_getLast? same)
          rw [if_neg (by simp [up, below, last])]
          exact ih (fun member => names (List.dropLast_subset _ member)) walks
      · rename_i down
        rw [if_pos (.inl down)]
        refine ih ?_ walks
        intro member
        rcases List.mem_append.mp member with inside | own
        · exact names inside
        · exact down (List.mem_singleton.mp own).symm

theorem descend_names_append {names : List Str} (all : ∀ c ∈ names, IsName c) :
    descend cwd (names ++ cs) = descend (cwd ++ names) cs := by
  induction names generalizing cwd with
  | nil => rw [List.nil_append, List.append_nil]
  | cons c rest ih =>
    obtain ⟨some, notDot, notUp, -⟩ := all c (.head rest)
    rw [List.cons_append, descend, if_neg (by simp [some, notDot]), if_neg notUp,
      ih (fun d member => all d (.tail c member)), List.append_assoc, List.singleton_append]

/-- The components of a path that is its own normal form, and does not leave its start, are names. -/
theorem names_of_normpath {p : Str} (relative : p.head? ≠ some slash) (normal : normpath p = p)
    (other : p ≠ dot) (inside : leaves p = false) : ∀ c ∈ components p, IsName c := by
  have walks := descend_of_not_leaves relative (normal.symm ▸ inside)
  obtain ⟨d, walks⟩ := Option.isSome_iff_exists.mp walks
  obtain ⟨stack, clean⟩ := foldl_push_of_descend List.not_mem_nil walks
  have slashes : initialSlashes p = 0 := if_pos relative
  have path : p = joined d := by
    have unrooted : decide (0 ≠ 0) = false := rfl
    have same := normal
    simp only [normpath, slashes, List.replicate_zero, List.nil_append] at same
    rw [unrooted, stack] at same
    split at same
    · exact absurd same.symm other
    · exact same.symm
  have parts : ∀ c ∈ d, slash ∉ c := by
    intro c member
    rw [← stack] at member
    rcases foldl_push_mem member with held | given
    · exact absurd held List.not_mem_nil
    · exact slash_not_mem_components given
  have some : d ≠ [] := by
    rintro rfl
    have empty : p = [] := path
    rw [empty] at normal
    exact absurd normal (by decide)
  intro c member
  rw [path, components_joined parts some] at member
  refine ⟨?_, ?_, ?_, parts c member⟩
  · rintro rfl
    exact foldl_push_ne (.inl rfl) List.not_mem_nil (stack ▸ member)
  · rintro rfl
    exact foldl_push_ne (.inr rfl) List.not_mem_nil (stack ▸ member)
  · rintro rfl
    exact clean member

theorem joined_ends (all : ∀ c ∈ cwd, IsName c) (some : cwd ≠ []) :
    ∃ init last, joined cwd = init ++ [last] ∧ last ≠ slash := by
  obtain ⟨front, name, rfl⟩ : ∃ front name, cwd = front ++ [name] :=
    ⟨cwd.dropLast, cwd.getLast some, (List.dropLast_append_getLast some).symm⟩
  obtain ⟨nonempty, -, -, plain⟩ := all name (by simp)
  obtain ⟨init, last, rfl⟩ : ∃ init last, name = init ++ [last] :=
    ⟨name.dropLast, name.getLast nonempty, (List.dropLast_append_getLast nonempty).symm⟩
  have letter : last ≠ slash := by
    rintro rfl
    exact plain (by simp)
  cases front with
  | nil => exact ⟨init, last, by rw [joined, List.nil_append, List.intercalate_singleton], letter⟩
  | cons c rest =>
    refine ⟨joined (c :: rest) ++ slash :: init, last, ?_, letter⟩
    rw [joined_concat (List.cons_ne_nil c rest), List.append_assoc, List.cons_append]

theorem dirname_joined {name : Str} (all : ∀ c ∈ cwd ++ [name], IsName c) :
    dirname (joined (cwd ++ [name])) = joined cwd := by
  have plain : ∀ x ∈ name.reverse, x ≠ slash := by
    intro x member same
    exact (all name (by simp)).2.2.2 (same ▸ List.mem_reverse.mp member)
  have drops (rest : Str) : (name.reverse ++ rest).dropWhile (· ≠ slash) =
      rest.dropWhile (· ≠ slash) := by
    rw [List.dropWhile_append_of_pos]
    intro x member
    simpa using plain x member
  cases cwd with
  | nil =>
    have head : (name.reverse.dropWhile (· ≠ slash)) = [] := by
      have whole := drops []
      rwa [List.append_nil, List.dropWhile_nil] at whole
    have single : joined ([] ++ [name]) = name := by
      rw [joined, List.nil_append, List.intercalate_singleton]
    rw [dirname, single, head]
    rfl
  | cons c rest =>
    have some : c :: rest ≠ [] := List.cons_ne_nil c rest
    obtain ⟨init, last, ends, letter⟩ :=
      joined_ends (fun d member => all d (List.mem_append_left _ member)) some
    have head : ((joined (c :: rest ++ [name])).reverse.dropWhile (· ≠ slash)).reverse =
        joined (c :: rest) ++ [slash] := by
      rw [joined_concat some, List.reverse_append, List.reverse_cons, List.append_assoc, drops]
      simp
    have other : joined (c :: rest) ++ [slash] ≠
        List.replicate (joined (c :: rest) ++ [slash]).length slash := by
      intro same
      have member : last ∈ joined (c :: rest) ++ [slash] := by simp [ends]
      rw [same] at member
      exact letter (List.eq_of_mem_replicate member)
    rw [dirname]
    simp only [head]
    rw [if_neg other, ends]
    simp [letter]

theorem components_join {target : Str} (all : ∀ c ∈ cwd, IsName c)
    (relative : target.head? ≠ some slash) :
    components (join (joined cwd) target) = cwd ++ components target := by
  rw [join]
  by_cases top : cwd = []
  · subst top
    rw [if_pos (.inr rfl), List.nil_append]
  · obtain ⟨init, last, ends, letter⟩ := joined_ends all top
    have some : joined cwd ≠ [] := by
      rw [ends]
      simp
    have open' : (joined cwd).getLast? ≠ Option.some slash := by
      rw [ends]
      simpa using letter
    rw [if_neg (by simp [relative, some]), if_neg open', List.append_assoc, List.singleton_append,
      components_append, components_joined (fun c member => (all c member).2.2.2) top]

theorem head_joined (all : ∀ c ∈ cwd, IsName c) : (joined cwd).head? ≠ some slash := by
  cases cwd with
  | nil => exact nofun
  | cons name rest =>
    obtain ⟨nonempty, -, -, plain⟩ := all name (.head rest)
    obtain ⟨x, more, rfl⟩ := List.exists_cons_of_ne_nil nonempty
    have letter : x ≠ slash := by
      rintro rfl
      exact plain (.head more)
    have head : (joined ((x :: more) :: rest)).head? = some x := by
      cases rest with
      | nil => rw [joined, List.intercalate_singleton, List.head?_cons]
      | cons next later => rw [joined, List.intercalate_cons_cons, List.cons_append, List.cons_append,
          List.head?_cons]
    rw [head]
    intro same
    exact letter (Option.some.inj same)

theorem descend_target {p target : Str} (all : ∀ c ∈ components p, IsName c)
    (relative : target.head? ≠ some slash)
    (inside : leaves (normpath (join (dirname p) target)) = false) :
    (descend (components p).dropLast (components target)).isSome := by
  obtain ⟨cwd, name, parts⟩ : ∃ cwd name, components p = cwd ++ [name] :=
    ⟨_, _, (List.dropLast_append_getLast (List.splitOn_ne_nil slash p)).symm⟩
  rw [parts] at all
  have above : ∀ c ∈ cwd, IsName c := fun c member => all c (List.mem_append_left _ member)
  have directory : dirname p = joined cwd := by
    rw [← joined_components p, parts]
    exact dirname_joined all
  have start : (join (joined cwd) target).head? ≠ some slash := by
    rw [join]
    by_cases top : target.head? = some slash ∨ joined cwd = []
    · rw [if_pos top]
      exact relative
    · rw [if_neg top]
      obtain ⟨x, more, first⟩ := List.exists_cons_of_ne_nil (not_or.mp top).2
      have head := head_joined above
      rw [first] at head ⊢
      split <;> exact head
  rw [directory] at inside
  have walks := descend_of_not_leaves start inside
  rw [components_join above relative, descend_names_append above, List.nil_append] at walks
  rw [parts, List.dropLast_concat]
  exact walks

end Lexical

end PosixPath
