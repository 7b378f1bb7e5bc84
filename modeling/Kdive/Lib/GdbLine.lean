import Mathlib.Data.List.TakeWhile
import Mathlib.Tactic.Common

/-!
How gdb reads a line of its machine interface: an operation and its arguments, each a run without
white space or a string with the escapes of C. A console command stands in such a string; its own
arguments are cut out of the decoded string by `buildargv`, where quotes and backslashes count once
more.
-/
namespace GdbLine

abbrev Text := List Char

def isSpace (c : Char) : Bool := c == ' ' || (9 ≤ c.toNat && c.toNat ≤ 13)

theorem each {p : Char → Prop} [DecidablePred p] {text : Text}
    (all : text.all (fun c => decide (p c)) = true) : ∀ c ∈ text, p c := by simpa using all

section Strings

def octal (c : Char) : Option Nat := if '0' ≤ c ∧ c ≤ '7' then some (c.toNat - '0'.toNat) else none

def control (c : Char) : Char :=
  if c = 'a' then Char.ofNat 7
  else if c = 'b' then Char.ofNat 8
  else if c = 't' then '\t'
  else if c = 'n' then '\n'
  else if c = 'v' then Char.ofNat 11
  else if c = 'f' then Char.ofNat 12
  else if c = 'r' then '\r'
  else c

def octals : Nat → Nat → Text → Nat × Text
  | 0, value, text => (value, text)
  | _ + 1, value, [] => (value, [])
  | more + 1, value, c :: rest =>
    match octal c with
    | some digit => octals more (8 * value + digit) rest
    | none => (value, c :: rest)

def escape : Text → Option (Char × Text)
  | [] => none
  | c :: rest =>
    if c = '\n' then none
    else match octal c with
      | some digit => some (Char.ofNat (octals 2 digit rest).1, (octals 2 digit rest).2)
      | none => some (control c, rest)

theorem octals_suffix (more value : Nat) (text : Text) : (octals more value text).2 <:+ text := by
  induction text generalizing more value with
  | nil => cases more <;> simp [octals]
  | cons c rest ih =>
    cases more with
    | zero => exact List.suffix_refl _
    | succ more =>
      rw [octals]
      split
      · exact (ih _ _).trans (List.suffix_cons _ _)
      · exact List.suffix_refl _

theorem escape_suffix {text rest : Text} {c : Char} (read : escape text = some (c, rest)) :
    ∃ d more, text = d :: more ∧ rest <:+ more := by
  cases text with
  | nil => cases read
  | cons d more =>
    refine ⟨d, more, rfl, ?_⟩
    rw [escape] at read
    split at read
    · cases read
    · split at read
      · rename_i digit _
        obtain ⟨-, rfl⟩ := Prod.mk.inj (Option.some.inj read)
        exact octals_suffix 2 digit more
      · obtain ⟨-, rfl⟩ := Prod.mk.inj (Option.some.inj read)
        exact List.suffix_refl _

theorem escape_length {text rest : Text} {c : Char} (read : escape text = some (c, rest)) :
    rest.length < text.length := by
  obtain ⟨d, more, rfl, ends⟩ := escape_suffix read
  exact Nat.lt_succ_of_le ends.length_le

def string (text : Text) : Option (Text × Text) :=
  match text with
  | [] => none
  | c :: rest =>
    if c = '"' then
      if rest.head?.all isSpace then some ([], rest) else none
    else if c = '\\' then
      match _read : escape rest with
      | none => none
      | some (d, more) => (string more).map (fun taken => (d :: taken.1, taken.2))
    else (string rest).map (fun taken => (c :: taken.1, taken.2))
termination_by text.length
decreasing_by
  · have shorter := escape_length _read
    rw [List.length_cons]
    omega
  · simp

theorem string_closed : string ['"'] = some ([], []) := by
  rw [string]
  simp

theorem string_plain {c : Char} (open' : c ≠ '"') (unescaped : c ≠ '\\') (text : Text) :
    string (c :: text) = (string text).map (fun taken => (c :: taken.1, taken.2)) := by
  rw [string]
  simp [open', unescaped]

theorem string_escaped {c : Char} (other : c ≠ '\n') (plain : octal c = none) (same : control c = c)
    (text : Text) :
    string ('\\' :: c :: text) = (string text).map (fun taken => (c :: taken.1, taken.2)) := by
  have read : escape (c :: text) = some (c, text) := by
    rw [escape, if_neg other, plain, same]
  rw [string]
  simp only [if_neg (show ('\\' : Char) ≠ '"' by decide), if_true]
  split
  · rename_i failed
    rw [read] at failed
    cases failed
  · rename_i d more found
    rw [read, Option.some.injEq, Prod.mk.injEq] at found
    rw [← found.1, ← found.2]

theorem string_unclosed {text : Text} (unclosed : '"' ∉ text) : string text = none := by
  induction text using string.induct with
  | case1 => rw [string]
  | case2 more ends => exact absurd List.mem_cons_self unclosed
  | case3 more ends => exact absurd List.mem_cons_self unclosed
  | case4 more failed other =>
    rw [string]
    simp only [if_neg other, if_true]
    split
    · rfl
    · rename_i found
      rw [failed] at found
      cases found
  | case5 more d left found other ih =>
    obtain ⟨e, rest, rfl, ends⟩ := escape_suffix found
    have inner := ih (fun member => unclosed
      (List.mem_cons_of_mem _ (List.mem_cons_of_mem _ (ends.subset member))))
    rw [string]
    simp only [if_neg other, if_true]
    split
    · rfl
    · rename_i d' left' again
      rw [found, Option.some.injEq, Prod.mk.injEq] at again
      rw [← again.2, inner]
      rfl
  | case6 c more open' unescaped ih =>
    rw [string_plain open' unescaped, ih (fun member => unclosed (List.mem_cons_of_mem _ member))]
    rfl

theorem string_append {run : Text} (plain : ∀ c ∈ run, c ≠ '"' ∧ c ≠ '\\') (text : Text) :
    string (run ++ text) = (string text).map (fun taken => (run ++ taken.1, taken.2)) := by
  induction run with
  | nil => simp
  | cons c run ih =>
    obtain ⟨first, others⟩ := List.forall_mem_cons.mp plain
    rw [List.cons_append, string_plain first.1 first.2, ih others, Option.map_map]
    rfl

end Strings

section Arguments

theorem string_length {text rest taken : Text} (read : string text = some (taken, rest)) :
    rest.length < text.length := by
  induction text using string.induct generalizing taken rest with
  | case1 =>
    rw [string] at read
    cases read
  | case2 more ends =>
    rw [string, if_pos rfl, if_pos ends] at read
    obtain ⟨-, rfl⟩ := Prod.mk.inj (Option.some.inj read)
    exact Nat.lt_succ_self _
  | case3 more ends =>
    rw [string, if_pos rfl, if_neg ends] at read
    cases read
  | case4 more failed other =>
    rw [string] at read
    simp only [if_neg other, if_true] at read
    split at read
    · cases read
    · rename_i found
      rw [failed] at found
      cases found
  | case5 more d left found other ih =>
    rw [string] at read
    simp only [if_neg other, if_true] at read
    split at read
    · cases read
    · rename_i d' left' again
      rw [found, Option.some.injEq, Prod.mk.injEq] at again
      obtain ⟨rfl, rfl⟩ := again
      obtain ⟨inner, within, same⟩ := Option.map_eq_some_iff.mp read
      obtain ⟨-, rfl⟩ := Prod.mk.inj same
      have shorter := escape_length found
      have bound := ih within
      rw [List.length_cons]
      omega
  | case6 c more open' unescaped ih =>
    rw [string, if_neg open', if_neg unescaped] at read
    obtain ⟨inner, within, same⟩ := Option.map_eq_some_iff.mp read
    obtain ⟨-, rfl⟩ := Prod.mk.inj same
    exact Nat.lt_succ_of_lt (ih within)

/-- `mi_parse_argv`. -/
def arguments (text : Text) : Option (List Text) :=
  match _left : text.dropWhile isSpace with
  | [] => some []
  | c :: rest =>
    if c = '"' then
      match _read : string rest with
      | none => none
      | some (taken, more) => (arguments more).map (taken :: ·)
    else
      (arguments (rest.dropWhile (fun c => !isSpace c))).map
        ((c :: rest.takeWhile (fun c => !isSpace c)) :: ·)
termination_by text.length
decreasing_by
  · have shorter := string_length _read
    have bound := (List.dropWhile_sublist isSpace (l := text)).length_le
    rw [_left, List.length_cons] at bound
    omega
  · have shorter := (List.dropWhile_sublist (fun c => !isSpace c) (l := rest)).length_le
    have bound := (List.dropWhile_sublist isSpace (l := text)).length_le
    rw [_left, List.length_cons] at bound
    omega

theorem arguments_nil : arguments [] = some [] := by
  rw [arguments]
  simp

theorem word_ends {rest : Text} (ends : rest = [] ∨ rest.head?.any isSpace = true) :
    rest.takeWhile (fun c => !isSpace c) = [] ∧ rest.dropWhile (fun c => !isSpace c) = rest := by
  rcases ends with rfl | space
  · exact ⟨rfl, rfl⟩
  · cases rest with
    | nil => exact ⟨rfl, rfl⟩
    | cons d more =>
      have isBreak : isSpace d = true := space
      simp [isBreak]

/-- A run of characters that are neither white space nor an opening quote. -/
structure Bare (word : Text) : Prop where
  filled : word ≠ []
  solid : ∀ c ∈ word, isSpace c = false
  unquoted : word.head? ≠ some '"'

theorem arguments_bare {word rest : Text} (bare : Bare word)
    (ends : rest = [] ∨ rest.head?.any isSpace = true) :
    arguments (' ' :: (word ++ rest)) = (arguments rest).map (word :: ·) := by
  obtain ⟨c, others, rfl⟩ := List.exists_cons_of_ne_nil bare.filled
  obtain ⟨first, later⟩ := List.forall_mem_cons.mp bare.solid
  have other : c ≠ '"' := by
    intro same
    exact bare.unquoted (congrArg some same)
  have skipped : (' ' :: (c :: others ++ rest)).dropWhile isSpace = c :: (others ++ rest) := by
    rw [List.dropWhile_cons_of_pos (by decide), List.cons_append, List.dropWhile_cons_of_neg]
    simp [first]
  have run : ∀ x ∈ others, (!isSpace x) = true := fun x member => by simp [later x member]
  obtain ⟨noMore, same⟩ := word_ends ends
  rw [arguments]
  split
  · rename_i empty
    rw [skipped] at empty
    cases empty
  · rename_i d more left
    rw [skipped, List.cons.injEq] at left
    obtain ⟨rfl, rfl⟩ := left
    rw [if_neg other, List.takeWhile_append_of_pos run, List.dropWhile_append_of_pos run, noMore,
      same, List.append_nil]

theorem arguments_quote (body : Text) :
    arguments (' ' :: '"' :: body) =
      (string body).bind (fun found => (arguments found.2).map (found.1 :: ·)) := by
  have skipped : (' ' :: '"' :: body).dropWhile isSpace = '"' :: body := by
    rw [List.dropWhile_cons_of_pos (by decide), List.dropWhile_cons_of_neg (by decide)]
  rw [arguments]
  split
  · rename_i empty
    rw [skipped] at empty
    cases empty
  · rename_i d more left
    rw [skipped, List.cons.injEq] at left
    obtain ⟨rfl, rfl⟩ := left
    rw [if_pos rfl]
    split
    · rename_i failed
      rw [failed, Option.bind_none]
    · rename_i read
      rw [read, Option.bind_some]

theorem arguments_unclosed {body : Text} (failed : string body = none) :
    arguments (' ' :: '"' :: body) = none := by
  rw [arguments_quote, failed, Option.bind_none]

theorem arguments_string {body taken : Text} (read : string body = some (taken, [])) :
    arguments (' ' :: '"' :: body) = some [taken] := by
  rw [arguments_quote, read, Option.bind_some, arguments_nil]
  rfl

theorem arguments_words {words : List Text} (bare : ∀ w ∈ words, Bare w) :
    arguments (words.flatMap (' ' :: ·)) = some words := by
  induction words with
  | nil => exact arguments_nil
  | cons word others ih =>
    have ends : others.flatMap (' ' :: ·) = [] ∨
        (others.flatMap (' ' :: ·)).head?.any isSpace = true := by
      cases others with
      | nil => exact .inl rfl
      | cons _ _ => exact .inr rfl
    obtain ⟨first, later⟩ := List.forall_mem_cons.mp bare
    rw [List.flatMap_cons, List.cons_append, arguments_bare first ends, ih later]
    rfl

end Arguments

section Console

structure Scan where
  quoted : Option Char := none
  escaped : Bool := false
  deriving DecidableEq

def argument : Scan → Text → Text × Text
  | _, [] => ([], [])
  | scan, c :: rest =>
    if isSpace c ∧ scan = {} then ([], c :: rest)
    else if scan.escaped then
      let taken := argument { scan with escaped := false } rest
      (c :: taken.1, taken.2)
    else if c = '\\' then argument { scan with escaped := true } rest
    else if scan.quoted = some c then argument {} rest
    else if scan.quoted = none ∧ (c = '\'' ∨ c = '"') then argument { quoted := some c } rest
    else
      let taken := argument scan rest
      (c :: taken.1, taken.2)

theorem argument_length (scan : Scan) (text : Text) :
    (argument scan text).1.length + (argument scan text).2.length ≤ text.length := by
  induction text generalizing scan with
  | nil => simp [argument]
  | cons c rest ih =>
    rw [argument, List.length_cons]
    have kept (next : Scan) : (c :: (argument next rest).1).length + (argument next rest).2.length ≤
        rest.length + 1 := by
      have := ih next
      rw [List.length_cons]
      omega
    have dropped (next : Scan) : (argument next rest).1.length + (argument next rest).2.length ≤
        rest.length + 1 := Nat.le_succ_of_le (ih next)
    split
    · simp
    split
    · exact kept _
    split
    · exact dropped _
    split
    · exact dropped _
    split
    · exact dropped _
    · exact kept _

theorem argument_rest (scan : Scan) (text : Text) :
    (argument scan text).2 = [] ∨ (argument scan text).2.head?.any isSpace = true := by
  induction text generalizing scan with
  | nil => exact .inl rfl
  | cons c rest ih =>
    rw [argument]
    split
    · rename_i breaks
      exact .inr breaks.1
    split
    · exact ih _
    split
    · exact ih _
    split
    · exact ih _
    split
    · exact ih _
    · exact ih _

def plain (c : Char) : Bool := !isSpace c && c != '\\' && c != '\'' && c != '"'

theorem plain_iff {c : Char} : plain c = true ↔
    isSpace c = false ∧ c ≠ '\\' ∧ c ≠ '\'' ∧ c ≠ '"' := by
  simp [plain, and_assoc]

theorem argument_plain {run : Text} (plain' : ∀ c ∈ run, plain c = true) (text : Text) :
    argument {} (run ++ text) = (run ++ (argument {} text).1, (argument {} text).2) := by
  induction run with
  | nil => rfl
  | cons c run ih =>
    obtain ⟨first, others⟩ := List.forall_mem_cons.mp plain'
    obtain ⟨solid, noBackslash, noQuote, noDouble⟩ := plain_iff.mp first
    rw [List.cons_append, argument, if_neg (by simp [solid]), if_neg nofun, if_neg noBackslash,
      if_neg nofun, if_neg (by simp [noQuote, noDouble]), ih others]
    rfl

theorem argument_special {run text : Text} {c : Char} (plain' : ∀ c ∈ run, plain c = true)
    (special : c = '\\' ∨ c = '\'' ∨ c = '"') :
    (argument {} (run ++ c :: text)).1.length + (argument {} (run ++ c :: text)).2.length + 1 ≤
      (run ++ c :: text).length := by
  have solid : isSpace c = false := by
    rcases special with rfl | rfl | rfl <;> decide
  have next : ∃ scan, argument {} (c :: text) = argument scan text := by
    rw [argument, if_neg (by simp [solid]), if_neg nofun]
    by_cases backslash : c = '\\'
    · exact ⟨_, if_pos backslash⟩
    · rw [if_neg backslash, if_neg nofun, if_pos ⟨rfl, special.resolve_left backslash⟩]
      exact ⟨_, rfl⟩
  obtain ⟨scan, moved⟩ := next
  have bound := argument_length scan text
  rw [argument_plain plain', moved]
  simp only [List.length_append, List.length_cons]
  omega

def argv (text : Text) : List Text :=
  match _left : text.dropWhile isSpace with
  | [] => []
  | c :: rest => (argument {} (c :: rest)).1 :: argv (argument {} (c :: rest)).2
termination_by text.length
decreasing_by
  have bound := (List.dropWhile_sublist isSpace (l := text)).length_le
  rw [_left, List.length_cons] at bound
  have taken := argument_length {} (c :: rest)
  have some' : 0 < (argument {} (c :: rest)).1.length ∨
      (argument {} (c :: rest)).2.length ≤ rest.length := by
    by_cases special : c = '\\' ∨ c = '\'' ∨ c = '"'
    · have := @argument_special [] rest c (by simp) special
      simp only [List.nil_append, List.length_cons] at this
      omega
    · left
      have solid : isSpace c = false := by
        have filled : text.dropWhile isSpace ≠ [] := by simp [_left]
        have stops := List.head_dropWhile_not isSpace filled
        simp only [_left, List.head_cons] at stops
        simpa using stops
      simp only [not_or] at special
      have here := @argument_plain [c] (by simp [plain, solid, special]) rest
      rw [List.singleton_append] at here
      rw [here]
      simp
  rw [List.length_cons] at taken
  omega

theorem argv_nil : argv [] = [] := by
  rw [argv]
  rfl

theorem argv_space {c : Char} (isBreak : isSpace c = true) (text : Text) :
    argv (c :: text) = argv text := by
  have same : (c :: text).dropWhile isSpace = text.dropWhile isSpace := by
    rw [List.dropWhile_cons_of_pos isBreak]
  rw [argv, argv]
  split
  · rename_i empty
    rw [same] at empty
    split
    · rfl
    · rename_i left
      rw [empty] at left
      cases left
  · rename_i d rest left
    rw [same] at left
    split
    · rename_i empty
      rw [left] at empty
      cases empty
    · rename_i d' rest' again
      rw [left, List.cons.injEq] at again
      obtain ⟨rfl, rfl⟩ := again
      rfl

theorem argv_solid {c : Char} (solid : isSpace c = false) (text : Text) :
    argv (c :: text) = (argument {} (c :: text)).1 :: argv (argument {} (c :: text)).2 := by
  have same : (c :: text).dropWhile isSpace = c :: text :=
    List.dropWhile_cons_of_neg (by simp [solid])
  rw [argv]
  split
  · rename_i empty
    rw [same] at empty
    cases empty
  · rename_i d rest left
    rw [same, List.cons.injEq] at left
    obtain ⟨rfl, rfl⟩ := left
    rfl

theorem argv_plain {run rest : Text} (filled : run ≠ []) (plain' : ∀ c ∈ run, plain c = true)
    (ends : rest = [] ∨ rest.head?.any isSpace = true) : argv (run ++ rest) = run :: argv rest := by
  have stops : argument {} rest = ([], rest) := by
    cases rest with
    | nil => rfl
    | cons c more =>
      have isBreak : isSpace c = true := by
        rcases ends with empty | space
        · cases empty
        · exact space
      rw [argument, if_pos ⟨isBreak, rfl⟩]
  have taken := argument_plain plain' rest
  rw [stops, List.append_nil] at taken
  obtain ⟨c, others, rfl⟩ := List.exists_cons_of_ne_nil filled
  rw [List.cons_append] at taken ⊢
  rw [argv_solid (plain_iff.mp (plain' c List.mem_cons_self)).1, taken]

theorem argv_one_length_le {text only : Text} (read : argv text = [only]) :
    only.length ≤ text.length := by
  induction text with
  | nil =>
    rw [argv_nil] at read
    cases read
  | cons c text ih =>
    cases isBreak : isSpace c with
    | true =>
      rw [argv_space isBreak] at read
      exact Nat.le_succ_of_le (ih read)
    | false =>
      rw [argv_solid isBreak, List.cons.injEq] at read
      have bound := argument_length {} (c :: text)
      rw [read.1] at bound
      omega

theorem argv_one_length_lt {text only : Text} (read : argv text = [only])
    (spaced : text = [] ∨ text.head?.any isSpace = true) : only.length + 1 ≤ text.length := by
  rcases spaced with rfl | space
  · rw [argv_nil] at read
    cases read
  · cases text with
    | nil => cases space
    | cons c rest =>
      have isBreak : isSpace c = true := space
      rw [argv_space isBreak] at read
      exact Nat.succ_le_succ (argv_one_length_le read)

/-- What the arguments hold came out of the text, and a space between two of them did not. -/
theorem argv_two_length {text first second : Text} (read : argv text = [first, second]) :
    first.length + second.length + 1 ≤ text.length := by
  induction text with
  | nil =>
    rw [argv_nil] at read
    cases read
  | cons c text ih =>
    cases isBreak : isSpace c with
    | true =>
      rw [argv_space isBreak] at read
      exact Nat.le_succ_of_le (ih read)
    | false =>
      rw [argv_solid isBreak, List.cons.injEq] at read
      have bound := argument_length {} (c :: text)
      have single := argv_one_length_lt read.2 (argument_rest {} (c :: text))
      rw [read.1] at bound
      omega

/-- A text with a backslash or a quote in its first argument holds more than its two arguments. -/
theorem argv_special_length {run text first second : Text} {c : Char}
    (plain' : ∀ c ∈ run, plain c = true) (special : c = '\\' ∨ c = '\'' ∨ c = '"')
    (read : argv (run ++ c :: text) = [first, second]) :
    first.length + second.length + 2 ≤ (run ++ c :: text).length := by
  have bound := @argument_special run text c plain' special
  have starts : ∃ d rest, run ++ c :: text = d :: rest ∧ isSpace d = false := by
    cases run with
    | nil =>
      refine ⟨c, text, rfl, ?_⟩
      rcases special with rfl | rfl | rfl <;> decide
    | cons d run => exact ⟨d, _, rfl, (plain_iff.mp (plain' d List.mem_cons_self)).1⟩
  obtain ⟨d, rest, same, solid⟩ := starts
  rw [same] at read bound ⊢
  rw [argv_solid solid, List.cons.injEq] at read
  have single := argv_one_length_lt read.2 (argument_rest {} (d :: rest))
  rw [read.1] at bound
  omega

/-- Two words are read as they are written exactly when the first means nothing to the console. -/
theorem argv_two_words {word second : Text} (filled : second ≠ [])
    (plain' : ∀ c ∈ second, plain c = true) :
    argv (word ++ ' ' :: second) = [word, second] ↔ word ≠ [] ∧ ∀ c ∈ word, plain c = true := by
  have alone : argv (' ' :: second) = [second] := by
    have only := argv_plain filled plain' (Or.inl rfl)
    rw [List.append_nil, argv_nil] at only
    rw [argv_space (by decide), only]
  constructor
  · intro read
    have split : ∃ run rest, word = run ++ rest ∧ (∀ c ∈ run, plain c = true) ∧
        rest.head?.all (fun c => !plain c) = true := by
      refine ⟨word.takeWhile plain, word.dropWhile plain, List.takeWhile_append_dropWhile.symm,
        fun c member => List.mem_takeWhile_imp member, ?_⟩
      cases left : word.dropWhile plain with
      | nil => rfl
      | cons c rest =>
        have stops := List.head_dropWhile_not plain (by rw [left]; exact List.cons_ne_nil c rest)
        simpa [left] using stops
    obtain ⟨run, rest, rfl, before, stops⟩ := split
    cases rest with
    | nil =>
      rw [List.append_nil] at read ⊢
      refine ⟨?_, before⟩
      rintro rfl
      rw [List.nil_append, alone] at read
      cases read
    | cons c rest =>
      exfalso
      rw [List.append_assoc, List.cons_append] at read
      have unusual : plain c = false := by simpa using stops
      by_cases special : c = '\\' ∨ c = '\'' ∨ c = '"'
      · have bound := argv_special_length before special read
        simp only [List.length_append, List.length_cons] at bound
        omega
      · have isBreak : isSpace c = true := by
          simp only [not_or] at special
          simpa [plain, special] using unusual
        cases run with
        | nil =>
          rw [List.nil_append, argv_space isBreak] at read
          have bound := argv_two_length read
          simp only [List.nil_append, List.length_append, List.length_cons] at bound
          omega
        | cons d run =>
          rw [argv_plain (List.cons_ne_nil d run) before (Or.inr (by simpa using isBreak)),
            List.cons.injEq] at read
          have lengths := congrArg List.length read.1
          simp only [List.length_append, List.length_cons] at lengths
          omega
  · rintro ⟨filled', plain''⟩
    rw [argv_plain filled' plain'' (Or.inr rfl), alone]

def nameChar (c : Char) : Bool := c.isAlphanum || c == '-' || c == '_' || c == '.'

def console (command : Text) : Text × List Text :=
  let text := command.dropWhile isSpace
  (text.takeWhile nameChar, argv (text.dropWhile nameChar))

end Console

section Lines

inductive Reading where
  | mi (operation : Text) (arguments : List Text)
  | console (name : Text) (arguments : List Text)

def interpreterExec : Text := "-interpreter-exec".toList

def interpreted (operation : Text) (found : List Text) : Option Reading :=
  if operation ≠ interpreterExec then some (.mi operation found)
  else match found with
    | [interpreter, command] =>
      if interpreter = "console".toList then
        some (.console (console command).1 (console command).2)
      else none
    | _ => none

def reads (line : Text) : Option Reading :=
  let line := line.takeWhile (· != Char.ofNat 0)
  let operation := line.takeWhile (fun c => !isSpace c)
  let rest := line.dropWhile (fun c => !isSpace c)
  if operation.head? ≠ some '-' ∨ "--".toList.isPrefixOf (rest.dropWhile isSpace) = true then none
  else (arguments rest).bind (interpreted operation)

theorem reads_split {line operation rest : Text} (solid : ∀ c ∈ operation, isSpace c = false)
    (cut : line.takeWhile (· != Char.ofNat 0) = operation ++ rest)
    (ends : rest = [] ∨ rest.head?.any isSpace = true) :
    reads line = if operation.head? ≠ some '-' ∨ "--".toList.isPrefixOf (rest.dropWhile isSpace) = true
      then none else (arguments rest).bind (interpreted operation) := by
  have run : ∀ c ∈ operation, (!isSpace c) = true := fun c member => by simp [solid c member]
  obtain ⟨noMore, same⟩ := word_ends ends
  unfold reads
  dsimp only
  rw [cut, List.takeWhile_append_of_pos run, List.dropWhile_append_of_pos run, noMore, same,
    List.append_nil]

theorem reads_eq {operation rest : Text} (solid : ∀ c ∈ operation, isSpace c = false)
    (whole : Char.ofNat 0 ∉ operation ++ rest) (dash : operation.head? = some '-')
    (ends : rest = [] ∨ rest.head?.any isSpace = true)
    (noOptions : "--".toList.isPrefixOf (rest.dropWhile isSpace) = false) :
    reads (operation ++ rest) = (arguments rest).bind (interpreted operation) := by
  have uncut : (operation ++ rest).takeWhile (· != Char.ofNat 0) = operation ++ rest := by
    rw [List.takeWhile_eq_self_iff]
    intro c member
    exact bne_iff_ne.mpr (fun same => whole (same ▸ member))
  rw [reads_split solid uncut ends, dash, noOptions, if_neg (by simp)]

structure Word (word : Text) : Prop extends Bare word where
  whole : Char.ofNat 0 ∉ word
  undashed : word.head? ≠ some '-'

theorem reads_words {operation : Text} {words : List Text}
    (solid : ∀ c ∈ operation, isSpace c = false) (whole : Char.ofNat 0 ∉ operation)
    (dash : operation.head? = some '-') (other : operation ≠ interpreterExec)
    (each : ∀ w ∈ words, Word w) :
    reads (operation ++ words.flatMap (' ' :: ·)) = some (.mi operation words) := by
  have ends : words.flatMap (' ' :: ·) = [] ∨
      (words.flatMap (' ' :: ·)).head?.any isSpace = true := by
    cases words with
    | nil => exact .inl rfl
    | cons _ _ => exact .inr rfl
  have uncut : Char.ofNat 0 ∉ operation ++ words.flatMap (' ' :: ·) := by
    intro member
    rcases List.mem_append.mp member with inOperation | inWords
    · exact whole inOperation
    · obtain ⟨w, isWord, inWord⟩ := List.mem_flatMap.mp inWords
      rcases List.mem_cons.mp inWord with space | inWord
      · exact absurd space (by decide)
      · exact (each w isWord).whole inWord
  have noOptions : "--".toList.isPrefixOf ((words.flatMap (' ' :: ·)).dropWhile isSpace) = false := by
    cases words with
    | nil => rfl
    | cons word others =>
      have first := each word List.mem_cons_self
      obtain ⟨c, rest, rfl⟩ := List.exists_cons_of_ne_nil first.filled
      have undashed : ('-' == c) = false :=
        beq_eq_false_iff_ne.mpr (fun same => first.undashed (congrArg some same.symm))
      have here : isSpace c = false := first.solid c List.mem_cons_self
      rw [List.flatMap_cons, List.cons_append, List.dropWhile_cons_of_pos (by decide),
        List.cons_append, List.dropWhile_cons_of_neg (by simp [here])]
      change (('-' == c) && _) = false
      rw [undashed]
      rfl
  rw [reads_eq solid uncut dash ends noOptions,
    arguments_words (fun w isWord => (each w isWord).toBare), Option.bind_some]
  exact if_pos other

theorem reads_string {operation body taken : Text} (solid : ∀ c ∈ operation, isSpace c = false)
    (whole : Char.ofNat 0 ∉ operation ++ body) (dash : operation.head? = some '-')
    (other : operation ≠ interpreterExec) (read : string body = some (taken, [])) :
    reads (operation ++ ' ' :: '"' :: body) = some (.mi operation [taken]) := by
  have uncut : Char.ofNat 0 ∉ operation ++ ' ' :: '"' :: body := by
    simp only [List.mem_append, List.mem_cons, not_or] at whole ⊢
    exact ⟨whole.1, by decide, by decide, whole.2⟩
  rw [reads_eq solid uncut dash (.inr rfl) rfl, arguments_string read, Option.bind_some]
  exact if_pos other

def consoleLine (body : Text) : Text := interpreterExec ++ " console \"".toList ++ body

theorem consoleLine_bare : Bare "console".toList := ⟨nofun, each (by decide), by decide⟩

theorem reads_consoleLine {body command : Text} (whole : Char.ofNat 0 ∉ body)
    (read : string body = some (command, [])) :
    reads (consoleLine body) = some (.console (console command).1 (console command).2) := by
  have uncut : Char.ofNat 0 ∉ interpreterExec ++ (" console \"".toList ++ body) := by
    simp only [List.mem_append, not_or]
    exact ⟨by decide, by decide, whole⟩
  have found : arguments (" console \"".toList ++ body) = some ["console".toList, command] := by
    change arguments (' ' :: ("console".toList ++ ' ' :: '"' :: body)) = _
    rw [arguments_bare consoleLine_bare (.inr rfl), arguments_string read]
    rfl
  rw [consoleLine, List.append_assoc, reads_eq (each (by decide)) uncut rfl (.inr rfl) rfl, found,
    Option.bind_some, interpreted, if_neg (not_not_intro rfl)]
  exact if_pos rfl

theorem reads_cut {operation rest more : Text} (solid : ∀ c ∈ operation, isSpace c = false)
    (whole : Char.ofNat 0 ∉ operation ++ rest) (ends : rest = [] ∨ rest.head?.any isSpace = true)
    (failed : arguments rest = none) :
    reads (operation ++ rest ++ Char.ofNat 0 :: more) = none := by
  have cut : (operation ++ rest ++ Char.ofNat 0 :: more).takeWhile (· != Char.ofNat 0) =
      operation ++ rest := by
    rw [List.takeWhile_append_of_pos]
    · simp
    · intro c member
      exact bne_iff_ne.mpr (fun same => whole (same ▸ member))
  rw [reads_split solid cut ends, failed]
  split <;> rfl

theorem reads_consoleLine_cut {body more : Text} (whole : Char.ofNat 0 ∉ body)
    (unclosed : '"' ∉ body) : reads (consoleLine (body ++ Char.ofNat 0 :: more)) = none := by
  have uncut : Char.ofNat 0 ∉ interpreterExec ++ (" console \"".toList ++ body) := by
    simp only [List.mem_append, not_or]
    exact ⟨by decide, by decide, whole⟩
  have failed : arguments (" console \"".toList ++ body) = none := by
    change arguments (' ' :: ("console".toList ++ ' ' :: '"' :: body)) = _
    rw [arguments_bare consoleLine_bare (.inr rfl), arguments_unclosed (string_unclosed unclosed)]
    rfl
  have cut := @reads_cut interpreterExec (" console \"".toList ++ body) more (each (by decide)) uncut
    (.inr rfl) failed
  have same : consoleLine (body ++ Char.ofNat 0 :: more) =
      interpreterExec ++ (" console \"".toList ++ body) ++ Char.ofNat 0 :: more := by
    simp only [consoleLine, List.append_assoc]
  rw [same, cut]

end Lines

end GdbLine
