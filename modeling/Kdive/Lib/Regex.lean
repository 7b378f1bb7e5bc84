import Kdive.Lib.Masking

/-!
Backtracking regular expressions over an arbitrary alphabet. `splits` lists the ways a pattern
can match at the front of a text in the order a backtracking engine tries them, so its first
element is the match the engine reports. A star is greedy and ranges over one class of letters.
-/

inductive Regex (α : Type)
  | empty
  | one (accepts : α → Bool)
  | many (accepts : α → Bool)
  | seq (first second : Regex α)
  | alt (first second : Regex α)

namespace Regex

variable {α : Type}

def some (accepts : α → Bool) : Regex α := seq (one accepts) (many accepts)

def optional (r : Regex α) : Regex α := alt r empty

def word (same : α → α → Bool) (letters : List α) : Regex α :=
  letters.foldr (fun a rest => seq (one (same a)) rest) empty

def runs (accepts : α → Bool) : List α → List (List α × List α)
  | [] => [([], [])]
  | a :: rest =>
    if accepts a then
      (runs accepts rest).map (fun m => (a :: m.1, m.2)) ++ [([], a :: rest)]
    else [([], a :: rest)]

def splits : Regex α → List α → List (List α × List α)
  | empty, text => [([], text)]
  | one _, [] => []
  | one accepts, a :: rest => if accepts a then [([a], rest)] else []
  | many accepts, text => runs accepts text
  | seq first second, text =>
    (first.splits text).flatMap (fun m => (second.splits m.2).map (fun n => (m.1 ++ n.1, n.2)))
  | alt first second, text => first.splits text ++ second.splits text

def search (r : Regex α) (text : List α) : Bool := text.tails.any (fun t => !(r.splits t).isEmpty)

section Language

def Matches : Regex α → List α → Prop
  | empty, text => text = []
  | one accepts, text => ∃ a, text = [a] ∧ accepts a = true
  | many accepts, text => ∀ a ∈ text, accepts a = true
  | seq first second, text => ∃ x y, text = x ++ y ∧ first.Matches x ∧ second.Matches y
  | alt first second, text => first.Matches text ∨ second.Matches text

theorem mem_runs {accepts : α → Bool} {text : List α} : ∀ {m : List α × List α},
    m ∈ runs accepts text ↔ m.1 ++ m.2 = text ∧ ∀ a ∈ m.1, accepts a = true := by
  induction text with
  | nil =>
    rintro ⟨taken, left⟩
    simp only [runs, List.mem_singleton, Prod.mk.injEq, List.append_eq_nil_iff]
    constructor
    · rintro ⟨rfl, rfl⟩
      exact ⟨⟨rfl, rfl⟩, by simp⟩
    · exact fun both => both.1
  | cons a rest ih =>
    rintro ⟨taken, left⟩
    rw [runs]
    constructor
    · intro isRun
      split at isRun
      · rename_i accepted
        rcases List.mem_append.mp isRun with longer | none
        · obtain ⟨n, shorter, same⟩ := List.mem_map.mp longer
          obtain ⟨rfl, rfl⟩ := Prod.mk.inj same
          obtain ⟨whole, others⟩ := ih.mp shorter
          refine ⟨congrArg (a :: ·) whole, ?_⟩
          intro b isLetter
          rcases List.mem_cons.mp isLetter with rfl | later
          · exact accepted
          · exact others b later
        · obtain ⟨rfl, rfl⟩ := Prod.mk.inj (List.mem_singleton.mp none)
          exact ⟨rfl, by simp⟩
      · obtain ⟨rfl, rfl⟩ := Prod.mk.inj (List.mem_singleton.mp isRun)
        exact ⟨rfl, by simp⟩
    · rintro ⟨whole, all⟩
      cases taken with
      | nil =>
        obtain rfl : left = a :: rest := whole
        split
        · exact List.mem_append_right _ List.mem_cons_self
        · exact List.mem_cons_self
      | cons b taken =>
        obtain ⟨rfl, tail⟩ := List.cons.inj whole
        rw [if_pos (all b List.mem_cons_self)]
        refine List.mem_append_left _ (List.mem_map.mpr ⟨(taken, left), ?_, rfl⟩)
        exact ih.mpr ⟨tail, fun c later => all c (List.mem_cons_of_mem b later)⟩

theorem mem_splits (r : Regex α) : ∀ {text : List α} {m : List α × List α},
    m ∈ r.splits text ↔ m.1 ++ m.2 = text ∧ r.Matches m.1 := by
  induction r with
  | empty =>
    rintro text ⟨taken, left⟩
    simp only [splits, Matches, List.mem_singleton, Prod.mk.injEq]
    constructor
    · rintro ⟨rfl, rfl⟩
      exact ⟨rfl, rfl⟩
    · rintro ⟨rfl, rfl⟩
      exact ⟨rfl, rfl⟩
  | one accepts =>
    rintro text ⟨taken, left⟩
    cases text with
    | nil =>
      simp only [splits, Matches, List.not_mem_nil, false_iff]
      rintro ⟨whole, a, rfl, _⟩
      cases whole
    | cons a rest =>
      simp only [splits, Matches]
      split
      · rename_i accepted
        simp only [List.mem_singleton, Prod.mk.injEq]
        constructor
        · rintro ⟨rfl, rfl⟩
          exact ⟨rfl, a, rfl, accepted⟩
        · rintro ⟨whole, b, rfl, _⟩
          obtain ⟨rfl, rfl⟩ := List.cons.inj whole
          exact ⟨rfl, rfl⟩
      · rename_i refused
        simp only [List.not_mem_nil, false_iff]
        rintro ⟨whole, b, rfl, accepted⟩
        obtain ⟨rfl, rfl⟩ := List.cons.inj whole
        exact refused accepted
  | many accepts => exact mem_runs
  | seq first second ihFirst ihSecond =>
    intro text m
    simp only [splits, Matches, List.mem_flatMap, List.mem_map]
    constructor
    · rintro ⟨m₁, isFirst, m₂, isSecond, rfl⟩
      obtain ⟨whole, firstMatches⟩ := ihFirst.mp isFirst
      obtain ⟨rest, secondMatches⟩ := ihSecond.mp isSecond
      exact ⟨by simp [rest, whole], m₁.1, m₂.1, rfl, firstMatches, secondMatches⟩
    · rintro ⟨whole, x, y, parts, firstMatches, secondMatches⟩
      refine ⟨(x, y ++ m.2), ihFirst.mpr ⟨?_, firstMatches⟩, (y, m.2),
        ihSecond.mpr ⟨rfl, secondMatches⟩, ?_⟩
      · rw [← whole, parts, List.append_assoc]
      · rw [← parts]
  | alt first second ihFirst ihSecond =>
    intro text m
    simp only [splits, Matches, List.mem_append, ihFirst, ihSecond]
    constructor
    · rintro (⟨whole, isFirst⟩ | ⟨whole, isSecond⟩)
      · exact ⟨whole, .inl isFirst⟩
      · exact ⟨whole, .inr isSecond⟩
    · rintro ⟨whole, isFirst | isSecond⟩
      · exact .inl ⟨whole, isFirst⟩
      · exact .inr ⟨whole, isSecond⟩

theorem matches_some {accepts : α → Bool} {text : List α} :
    (some accepts).Matches text ↔ text ≠ [] ∧ ∀ a ∈ text, accepts a = true := by
  constructor
  · rintro ⟨_, rest, rfl, ⟨a, rfl, accepted⟩, others⟩
    refine ⟨by simp, ?_⟩
    intro b isLetter
    rcases List.mem_cons.mp isLetter with rfl | later
    · exact accepted
    · exact others b later
  · rintro ⟨filled, all⟩
    obtain ⟨a, rest, rfl⟩ := List.exists_cons_of_ne_nil filled
    exact ⟨[a], rest, rfl, ⟨a, rfl, all a List.mem_cons_self⟩,
      fun b later => all b (List.mem_cons_of_mem a later)⟩

theorem splits_append (r : Regex α) (text : List α) : ∀ m ∈ r.splits text, m.1 ++ m.2 = text :=
  fun _ isSplit => (mem_splits r |>.mp isSplit).1

theorem some_ne_nil {accepts : α → Bool} {text : List α} :
    ∀ m ∈ (some accepts).splits text, m.1 ≠ [] :=
  fun _ isSplit => (matches_some.mp (mem_splits _ |>.mp isSplit).2).1

/-- All letters of the class, and what follows starts with none: the class takes exactly those. -/
theorem takeWhile_append_stop {accepts : α → Bool} {text rest : List α}
    (all : ∀ a ∈ text, accepts a = true) (stops : ∀ a ∈ rest.head?, accepts a = false) :
    (text ++ rest).takeWhile accepts = text := by
  rw [List.takeWhile_append_of_pos all]
  cases rest with
  | nil => simp
  | cons a rest =>
    have refused : accepts a = false := stops a rfl
    simp [refused]

theorem head?_runs (accepts : α → Bool) (text : List α) :
    (runs accepts text).head? = Option.some (text.takeWhile accepts, text.dropWhile accepts) := by
  induction text with
  | nil => rfl
  | cons a rest ih =>
    rw [runs]
    cases accepted : accepts a with
    | true => simp [accepted, ih]
    | false => simp [accepted]

end Language

section Substitution

def groups : List (Regex α) → List α → Option (List (List α))
  | [], _ => Option.some []
  | r :: rest, text =>
    (r.splits text).findSome? (fun m => (groups rest m.2).map (m.1 :: ·))

theorem groups_cons {r : Regex α} {rest : List (Regex α)} {text : List α}
    {taken : List (List α)} (matched : groups (r :: rest) text = Option.some taken) :
    ∃ m ∈ r.splits text, ∃ others, groups rest m.2 = Option.some others ∧ taken = m.1 :: others := by
  obtain ⟨m, isSplit, found⟩ := List.exists_of_findSome?_eq_some matched
  obtain ⟨others, rest, rfl⟩ := Option.map_eq_some_iff.mp found
  exact ⟨m, isSplit, others, rest, rfl⟩

theorem groups_ne_none {pattern : List (Regex α)} {parts : List (List α)}
    (matched : List.Forall₂ Matches pattern parts) :
    ∀ {text : List α}, parts.flatten <+: text → groups pattern text ≠ none := by
  induction matched with
  | nil =>
    intro text _
    exact Option.some_ne_none _
  | @cons r part pattern parts first _ ih =>
    rintro text ⟨after, whole⟩ missing
    rw [groups, List.findSome?_eq_none_iff] at missing
    have isSplit : (part, parts.flatten ++ after) ∈ r.splits text := by
      refine (mem_splits r).mpr ⟨?_, first⟩
      simpa using whole
    have rest := missing _ isSplit
    exact ih (List.prefix_append _ _) (Option.map_eq_none_iff.mp rest)

theorem groups_some {accepts : α → Bool} {text : List α} {taken : List (List α)}
    (matched : groups [some accepts] text = Option.some taken) :
    taken = [text.takeWhile accepts] ∧ text.takeWhile accepts ≠ [] := by
  cases text with
  | nil => simp [groups, some, splits] at matched
  | cons a rest =>
    have longest := head?_runs accepts rest
    obtain ⟨others, isRuns⟩ := List.head?_eq_some_iff.mp longest
    cases accepted : accepts a with
    | false => simp [groups, some, splits, accepted] at matched
    | true =>
      have first : groups [some accepts] (a :: rest)
          = Option.some [a :: rest.takeWhile accepts] := by
        simp [groups, some, splits, accepted, isRuns]
      rw [first] at matched
      simp [accepted, ← Option.some.inj matched]

theorem groups_some_all {accepts : α → Bool} {text : List α} (filled : text ≠ [])
    (each : ∀ a ∈ text, accepts a = true) : groups [some accepts] text = Option.some [text] := by
  obtain ⟨a, rest, rfl⟩ := List.exists_cons_of_ne_nil filled
  have matched : List.Forall₂ Matches [some accepts] [a :: rest] := by
    refine .cons ⟨[a], rest, rfl, ⟨a, rfl, each a List.mem_cons_self⟩, ?_⟩ .nil
    exact fun b member => each b (List.mem_cons_of_mem a member)
  have found : groups [some accepts] (a :: rest) ≠ none := groups_ne_none matched (by simp)
  obtain ⟨taken, isTaken⟩ := Option.ne_none_iff_exists'.mp found
  have whole : (a :: rest).takeWhile accepts = a :: rest := by
    have taken := @List.takeWhile_append_of_pos α accepts (a :: rest) [] each
    rwa [List.append_nil, List.takeWhile_nil, List.append_nil] at taken
  rw [isTaken, (groups_some isTaken).1, whole]

/-- The matches of a pattern that never matches the empty text, left to right and disjoint, each
replaced. `boundary` looks at the letter before a match and at the text from it on; `skip` counts
the letters of the last match still to pass. -/
def subFrom (boundary : Option α → List α → Bool) (pattern : List (Regex α))
    (replace : List (List α) → List α) : Option α → Nat → List α → List α
  | _, _, [] => []
  | _, skip + 1, a :: rest => subFrom boundary pattern replace (Option.some a) skip rest
  | last, 0, a :: rest =>
    match if boundary last (a :: rest) then groups pattern (a :: rest) else none with
    | none => a :: subFrom boundary pattern replace (Option.some a) 0 rest
    | Option.some taken =>
      replace taken ++
        subFrom boundary pattern replace (Option.some a) (taken.flatten.length - 1) rest

def sub (boundary : Option α → List α → Bool) (pattern : List (Regex α))
    (replace : List (List α) → List α) (text : List α) : List α :=
  subFrom boundary pattern replace none 0 text

/-- `re.finditer`: where each of these matches starts, and its groups. -/
def finditerFrom (boundary : Option α → List α → Bool) (pattern : List (Regex α)) :
    Option α → Nat → Nat → List α → List (Nat × List (List α))
  | _, _, _, [] => []
  | _, skip + 1, start, a :: rest =>
    finditerFrom boundary pattern (Option.some a) skip (start + 1) rest
  | last, 0, start, a :: rest =>
    match if boundary last (a :: rest) then groups pattern (a :: rest) else none with
    | none => finditerFrom boundary pattern (Option.some a) 0 (start + 1) rest
    | Option.some taken =>
      (start, taken) :: finditerFrom boundary pattern (Option.some a) (taken.flatten.length - 1)
        (start + 1) rest

def finditer (boundary : Option α → List α → Bool) (pattern : List (Regex α)) (text : List α) :
    List (Nat × List (List α)) :=
  finditerFrom boundary pattern none 0 0 text

section Steps

variable {boundary : Option α → List α → Bool} {pattern : List (Regex α)}
  {replace : List (List α) → List α}

theorem subFrom_skip {rest : List α} (passed : List α) : ∀ a : α,
    subFrom boundary pattern replace (Option.some a) passed.length (passed ++ rest)
      = subFrom boundary pattern replace (a :: passed).getLast? 0 rest := by
  induction passed with
  | nil =>
    intro a
    rfl
  | cons b passed ih =>
    intro a
    rw [List.length_cons, List.cons_append, subFrom, ih, List.getLast?_cons_cons]

theorem subFrom_keep {last : Option α} {a : α} {rest : List α}
    (missed : boundary last (a :: rest) = true → groups pattern (a :: rest) = none) :
    subFrom boundary pattern replace last 0 (a :: rest)
      = a :: subFrom boundary pattern replace (Option.some a) 0 rest := by
  have none : (if boundary last (a :: rest) then groups pattern (a :: rest) else none) = none := by
    split
    · exact missed ‹_›
    · rfl
  rw [subFrom]
  simp only [none]

theorem subFrom_match {last : Option α} {taken : List (List α)} {rest : List α}
    (here : boundary last (taken.flatten ++ rest) = true)
    (matched : groups pattern (taken.flatten ++ rest) = Option.some taken)
    (filled : taken.flatten ≠ []) :
    subFrom boundary pattern replace last 0 (taken.flatten ++ rest)
      = replace taken ++ subFrom boundary pattern replace taken.flatten.getLast? 0 rest := by
  obtain ⟨a, passed, whole⟩ := List.exists_cons_of_ne_nil filled
  rw [whole, List.cons_append] at here matched ⊢
  rw [subFrom]
  simp only [here, if_true, matched, whole, List.length_cons, Nat.add_sub_cancel, subFrom_skip]

theorem finditerFrom_skip {rest : List α} (passed : List α) : ∀ (a : α) (start : Nat),
    finditerFrom boundary pattern (Option.some a) passed.length start (passed ++ rest)
      = finditerFrom boundary pattern (a :: passed).getLast? 0 (start + passed.length) rest := by
  induction passed with
  | nil =>
    intro a start
    rfl
  | cons b passed ih =>
    intro a start
    have shift : start + 1 + passed.length = start + (passed.length + 1) := by omega
    rw [List.length_cons, List.cons_append, finditerFrom, ih, List.getLast?_cons_cons, shift]

theorem finditerFrom_keep {last : Option α} {start : Nat} {a : α} {rest : List α}
    (missed : boundary last (a :: rest) = true → groups pattern (a :: rest) = none) :
    finditerFrom boundary pattern last 0 start (a :: rest)
      = finditerFrom boundary pattern (Option.some a) 0 (start + 1) rest := by
  have none : (if boundary last (a :: rest) then groups pattern (a :: rest) else none) = none := by
    split
    · exact missed ‹_›
    · rfl
  rw [finditerFrom]
  simp only [none]

theorem finditerFrom_match {last : Option α} {start : Nat} {taken : List (List α)} {rest : List α}
    (here : boundary last (taken.flatten ++ rest) = true)
    (matched : groups pattern (taken.flatten ++ rest) = Option.some taken)
    (filled : taken.flatten ≠ []) :
    finditerFrom boundary pattern last 0 start (taken.flatten ++ rest)
      = (start, taken) :: finditerFrom boundary pattern taken.flatten.getLast? 0
          (start + taken.flatten.length) rest := by
  obtain ⟨a, passed, whole⟩ := List.exists_cons_of_ne_nil filled
  have shift : start + 1 + passed.length = start + (passed.length + 1) := by omega
  rw [whole, List.cons_append] at here matched ⊢
  rw [finditerFrom]
  simp only [here, if_true, matched, whole, List.length_cons, Nat.add_sub_cancel,
    finditerFrom_skip, shift]

end Steps

/-- A replacement that keeps the front of every match and puts the marker for its rest masks the
text. -/
theorem subFrom_masked {boundary : Option α → List α → Bool} {pattern : List (Regex α)}
    {replace : List (List α) → List α} {marker : List α}
    (hides : ∀ text taken, groups pattern text = Option.some taken →
      ∃ kept hidden after, hidden ≠ [] ∧ replace taken = kept ++ marker ∧
        taken.flatten = kept ++ hidden ∧ text = kept ++ hidden ++ after) :
    ∀ text last skip, Masking.Masked marker (text.drop skip)
      (subFrom boundary pattern replace last skip text) := by
  intro text
  induction text with
  | nil =>
    intro last skip
    simpa [subFrom] using Masking.Masked.nil
  | cons a rest ih =>
    intro last skip
    cases skip with
    | succ skip => exact ih (Option.some a) skip
    | zero =>
      rw [subFrom, List.drop_zero]
      split
      · exact .keep a (ih (Option.some a) 0)
      · rename_i taken matched
        have matched : groups pattern (a :: rest) = Option.some taken := by
          split at matched
          · exact matched
          · cases matched
        obtain ⟨kept, hidden, after, someHidden, replaced, whole, parts⟩ := hides _ taken matched
        have passed : rest.drop (taken.flatten.length - 1) = after := by
          have positive : 0 < (kept ++ hidden).length := by
            have := List.length_pos_iff.mpr someHidden
            simp only [List.length_append]
            omega
          have same : rest.drop ((kept ++ hidden).length - 1)
              = (a :: rest).drop (kept ++ hidden).length := by
            obtain ⟨n, isSucc⟩ := Nat.exists_eq_succ_of_ne_zero positive.ne'
            simp [isSucc]
          rw [whole, same, parts, List.drop_left]
        have masks := ih (Option.some a) (taken.flatten.length - 1)
        rw [passed] at masks
        rw [replaced, parts, List.append_assoc, List.append_assoc]
        exact (Masking.Masked.mask hidden masks).keep_all kept

end Substitution

end Regex
