import Kdive.Lib.JsonText
import Kdive.Lib.Utf8

/-!
The literal search of `artifacts.search_text`. The scan has two ways to stop: a further match does
not fit the size limit, or enough matches were found. Only the first has seen that something is
left out.
-/
namespace Kdive.Artifacts
open JsonText

attribute [local instance] JsonText.lawful

section Program

def maxPatternChars : Nat := 256
def maxTerms : Nat := 16
def maxLineChars : Nat := 512
def maxMatchesJsonChars : Nat := 64 * 1024
def clipped : Str := str "...[clipped]"
def beforeLinesRange : Int × Int := (0, 10)
def afterLinesRange : Int × Int := (0, 20)
def maxMatchesRange : Int × Int := (1, 50)

structure ArtifactSearchInputError where
  message : String
  deriving DecidableEq

structure SearchMatch where
  line : Nat
  text : Str
  before : List Str
  after : List Str
  deriving DecidableEq

structure SearchResult where
  matched : List SearchMatch
  matchCount : Nat
  truncated : Bool
  deriving DecidableEq

def parseLiteralTerms (pattern : Str) : Except ArtifactSearchInputError (List Str) :=
  if pattern = [] ∨ maxPatternChars < pattern.length then
    .error ⟨"pattern must be 1-256 characters"⟩
  else if 0 ∈ pattern then .error ⟨"pattern must not contain NUL"⟩
  else
    let terms := pattern.splitOn 124
    if terms = [] ∨ [] ∈ terms then .error ⟨"pattern contains an empty term"⟩
    else if maxTerms < terms.length then .error ⟨"pattern has too many terms"⟩
    else .ok terms

def clip (text : Str) : Str :=
  if text.length ≤ maxLineChars then text else text.take maxLineChars ++ clipped

def boundedInt (value : Int) (range : Int × Int) (label : String) :
    Except ArtifactSearchInputError Int :=
  if value < range.1 ∨ range.2 < value then .error ⟨s!"{label} out of range"⟩ else .ok value

def lineBreaks : List Nat := [10, 11, 12, 13, 28, 29, 30, 0x85, 0x2028, 0x2029]

/-- `str.splitlines`, with the line that was begun. -/
def splitlinesFrom : Str → Str → List Str
  | line, [] => if line = [] then [] else [line]
  | line, 13 :: 10 :: rest => line :: splitlinesFrom [] rest
  | line, c :: rest =>
    if c ∈ lineBreaks then line :: splitlinesFrom [] rest else splitlinesFrom (line ++ [c]) rest

def splitlines (text : Str) : List Str := splitlinesFrom [] text

def decodedLines (data : List UInt8) : List Str :=
  splitlines ((Utf8.decode data).map Char.toNat)

/-- An element of `json.dumps(…, ensure_ascii=False)`: only quotes, backslashes and controls are
escaped. -/
def escapePlain (c : Nat) : Str :=
  if c = 34 ∨ c = 92 ∨ c < 32 then escape c else [c]

def quotedPlain (s : Str) : Str := [34] ++ s.flatMap escapePlain ++ [34]

def joinedItems : List Str → Str
  | [] => []
  | [item] => item
  | item :: rest => item ++ [44] ++ joinedItems rest

def encodeArray (items : List Str) : Str := [91] ++ joinedItems items ++ [93]

def encodeMatch (m : SearchMatch) : Str :=
  str "\x7b\"line\":" ++ decimal m.line ++ str ",\"text\":" ++ quotedPlain m.text ++
    str ",\"before\":" ++ encodeArray (m.before.map quotedPlain) ++
    str ",\"after\":" ++ encodeArray (m.after.map quotedPlain) ++ str "\x7d"

def matchesJson (matched : List SearchMatch) : Str := encodeArray (matched.map encodeMatch)

def hit (terms : List Str) (line : Str) : Bool := terms.any (fun term => decide (term <:+: line))

def slice (lines : List Str) (start stop : Nat) : List Str := (lines.take stop).drop start

def candidate (lines : List Str) (beforeLines afterLines idx : Nat) (line : Str) : SearchMatch :=
  let start := idx - beforeLines
  let stop := min lines.length (idx + afterLines + 1)
  ⟨idx + 1, clip line, (slice lines start idx).map clip, (slice lines (idx + 1) stop).map clip⟩

def scan (terms : List Str) (lines : List Str) (beforeLines afterLines maxMatches : Nat) :
    List Str → Nat → List SearchMatch → SearchResult
  | [], _, matched => ⟨matched, matched.length, false⟩
  | line :: rest, idx, matched =>
    if hit terms line = false then
      scan terms lines beforeLines afterLines maxMatches rest (idx + 1) matched
    else
      let trial := matched ++ [candidate lines beforeLines afterLines idx line]
      if maxMatchesJsonChars < (matchesJson trial).length then ⟨matched, matched.length, true⟩
      else if maxMatches ≤ trial.length then ⟨trial, trial.length, true⟩
      else scan terms lines beforeLines afterLines maxMatches rest (idx + 1) trial

def searchText (data : List UInt8) (pattern : Str) (beforeLines afterLines maxMatches : Int) :
    Except ArtifactSearchInputError SearchResult := do
  let terms ← parseLiteralTerms pattern
  let beforeLines ← boundedInt beforeLines beforeLinesRange "before_lines"
  let afterLines ← boundedInt afterLines afterLinesRange "after_lines"
  let maxMatches ← boundedInt maxMatches maxMatchesRange "max_matches"
  let lines := decodedLines data
  return scan terms lines beforeLines.toNat afterLines.toNat maxMatches.toNat lines 0 []

end Program

section Encoding

theorem length_joinedItems_le (items more : List Str) :
    (joinedItems items).length ≤ (joinedItems (items ++ more)).length := by
  induction items with
  | nil => simp [joinedItems]
  | cons item rest ih =>
    cases rest with
    | nil =>
      cases more with
      | nil => simp
      | cons next more => simp [joinedItems]
    | cons next rest =>
      simp only [joinedItems, List.cons_append, List.length_append] at ih ⊢
      omega

def Fits (found : List SearchMatch) : Prop := (matchesJson found).length ≤ maxMatchesJsonChars

instance (found : List SearchMatch) : Decidable (Fits found) := inferInstanceAs (Decidable (_ ≤ _))

theorem Fits.of_append {found more : List SearchMatch} (fits : Fits (found ++ more)) :
    Fits found := by
  have longer := length_joinedItems_le (found.map encodeMatch) (more.map encodeMatch)
  simp only [Fits, matchesJson, encodeArray, List.map_append, List.length_append] at fits ⊢
  omega

theorem fits_nil : Fits [] := by decide

end Encoding

section Windows

variable {lines : List Str} {beforeLines afterLines idx : Nat} {line : Str}

structure IsWindow (lines : List Str) (beforeLines afterLines idx : Nat) (m : SearchMatch) :
    Prop where
  line : m.line = idx + 1
  text : (lines[idx]?).map clip = some m.text
  beforeLength : m.before.length = min beforeLines idx
  before : ∀ k < m.before.length,
    m.before[k]? = (lines[idx - m.before.length + k]?).map clip
  afterLength : m.after.length = min afterLines (lines.length - (idx + 1))
  after : ∀ k < m.after.length, m.after[k]? = (lines[idx + 1 + k]?).map clip

theorem getElem?_slice (start stop k : Nat) :
    (slice lines start stop)[k]? = if start + k < stop then lines[start + k]? else none := by
  rw [slice, List.getElem?_drop, List.getElem?_take]

theorem isWindow_candidate (here : lines[idx]? = some line) :
    IsWindow lines beforeLines afterLines idx (candidate lines beforeLines afterLines idx line) := by
  have inside : idx < lines.length := (List.getElem?_eq_some_iff.1 here).1
  have beforeLength : (slice lines (idx - beforeLines) idx).length = min beforeLines idx := by
    simp only [slice, List.length_drop, List.length_take]
    omega
  have afterLength : (slice lines (idx + 1) (min lines.length (idx + afterLines + 1))).length =
      min afterLines (lines.length - (idx + 1)) := by
    simp only [slice, List.length_drop, List.length_take]
    omega
  constructor
  · rfl
  · rw [here]
    rfl
  · simp only [candidate, List.length_map, beforeLength]
  · intro k low
    simp only [candidate, List.length_map, beforeLength] at low ⊢
    rw [List.getElem?_map, getElem?_slice, if_pos (by omega)]
    congr 2
    omega
  · simp only [candidate, List.length_map, afterLength]
  · intro k low
    simp only [candidate, List.length_map, afterLength] at low ⊢
    rw [List.getElem?_map, getElem?_slice, if_pos (by omega)]

end Windows

section Scanning

variable (terms lines : List Str) (beforeLines afterLines maxMatches : Nat)

def windowAt (idx : Nat) : SearchMatch :=
  candidate lines beforeLines afterLines idx (lines[idx]?.getD [])

/-- How a scan ended that had `found` and took `n` of the lines that were still to come. -/
inductive Stopped (found : List SearchMatch) (pending : List Nat) (n : Nat) : Bool → Prop
  | exhausted : n = pending.length → found.length + n < maxMatches →
      Stopped found pending n false
  | full : n < pending.length →
      ¬ Fits (found ++ (pending.take (n + 1)).map (windowAt lines beforeLines afterLines)) →
      Stopped found pending n true
  | enough : n ≤ pending.length → found.length + n = maxMatches → Stopped found pending n true

variable {lines beforeLines afterLines maxMatches} in
theorem Stopped.earlier {found : List SearchMatch} {pending : List Nat} {idx n : Nat} {cut : Bool}
    (stopped : Stopped lines beforeLines afterLines maxMatches
      (found ++ [windowAt lines beforeLines afterLines idx]) pending n cut) :
    Stopped lines beforeLines afterLines maxMatches found (idx :: pending) (n + 1) cut := by
  cases stopped with
  | exhausted all fewer =>
    refine .exhausted (by simp [all]) ?_
    simp only [List.length_append, List.length_singleton] at fewer
    omega
  | full left outside =>
    refine .full (by simpa using left) ?_
    simpa using outside
  | enough within exact =>
    refine .enough (by simpa using within) ?_
    simp only [List.length_append, List.length_singleton] at exact
    omega

variable {lines beforeLines afterLines maxMatches}

theorem Stopped.within {found : List SearchMatch} {pending : List Nat} {n : Nat} {cut : Bool}
    (stopped : Stopped lines beforeLines afterLines maxMatches found pending n cut) :
    n ≤ pending.length := by
  cases stopped with
  | exhausted all _ => exact all.le
  | full left _ => exact left.le
  | enough within _ => exact within

/-- The flag of a scan from the start is right unless it stopped at its last match. -/
theorem Stopped.flag_iff {pending : List Nat} {n : Nat} {cut : Bool}
    (stopped : Stopped lines beforeLines afterLines maxMatches [] pending n cut)
    (taken : Fits ((pending.take n).map (windowAt lines beforeLines afterLines))) :
    (cut = true ↔ n < pending.length) ↔ ¬ (pending.length = maxMatches ∧
      Fits (pending.map (windowAt lines beforeLines afterLines))) := by
  cases stopped with
  | exhausted all fewer =>
    have less : pending.length ≠ maxMatches := by
      simp only [List.length_nil] at fewer
      omega
    simp [all, less]
  | full left outside =>
    refine iff_of_true (by simp [left]) ?_
    rintro ⟨_, fits⟩
    refine outside (@Fits.of_append _ ((pending.drop (n + 1)).map
      (windowAt lines beforeLines afterLines)) ?_)
    rwa [List.nil_append, ← List.map_append, List.take_append_drop]
  | enough within exact =>
    simp only [List.length_nil, Nat.zero_add] at exact
    rcases within.lt_or_eq with left | all
    · exact iff_of_true (by simp [left]) (by omega)
    · rw [all, List.take_length] at taken
      exact iff_of_false (by simp [all]) (not_not.2 ⟨by omega, taken⟩)

variable (lines beforeLines afterLines maxMatches)

theorem scan_stopped (rest : List Str) : ∀ (idx : Nat) (found : List SearchMatch),
    lines.drop idx = rest → found.length < maxMatches → Fits found →
    ∃ n, Stopped lines beforeLines afterLines maxMatches found (rest.findIdxs (hit terms) idx) n
        (scan terms lines beforeLines afterLines maxMatches rest idx found).truncated ∧
      (scan terms lines beforeLines afterLines maxMatches rest idx found).matched =
        found ++ ((rest.findIdxs (hit terms) idx).take n).map
          (windowAt lines beforeLines afterLines) ∧
      (scan terms lines beforeLines afterLines maxMatches rest idx found).matchCount =
        (scan terms lines beforeLines afterLines maxMatches rest idx found).matched.length ∧
      Fits (scan terms lines beforeLines afterLines maxMatches rest idx found).matched := by
  induction rest with
  | nil =>
    intro idx found _ few fits
    exact ⟨0, .exhausted rfl few, by simp [scan], rfl, fits⟩
  | cons line rest ih =>
    intro idx found suffix few fits
    have here : lines[idx]? = some line := by
      rw [← List.head?_drop, suffix]
      rfl
    have onward : lines.drop (idx + 1) = rest := by
      rw [← List.tail_drop, suffix]
      rfl
    have window : candidate lines beforeLines afterLines idx line =
        windowAt lines beforeLines afterLines idx := by
      rw [windowAt, here]
      rfl
    unfold scan
    rw [List.findIdxs_cons]
    cases hits : hit terms line with
    | false =>
      simp only [if_true, Bool.false_eq_true, if_false]
      exact ih (idx + 1) found onward few fits
    | true =>
      simp only [Bool.true_eq_false, if_false, if_true, window]
      split
      · rename_i long
        refine ⟨0, .full (by simp) ?_, by simp, rfl, fits⟩
        simpa [Fits] using long
      · rename_i short
        have fits' : Fits (found ++ [windowAt lines beforeLines afterLines idx]) := not_lt.1 short
        split
        · rename_i enough
          refine ⟨1, .enough (by simp) ?_, by simp, rfl, fits'⟩
          simp only [List.length_append, List.length_singleton] at enough
          omega
        · rename_i fewer
          obtain ⟨n, stopped, taken, count, fitting⟩ := ih (idx + 1) _ onward (not_le.1 fewer) fits'
          exact ⟨n + 1, stopped.earlier, by simpa using taken, count, fitting⟩

end Scanning

section Answers

variable {data : List UInt8} {pattern : Str} {beforeLines afterLines maxMatches : Int}
  {terms : List Str}

def hits (terms : List Str) (data : List UInt8) : List Nat :=
  (decodedLines data).findIdxs (hit terms) 0

/-- The result holds the first lines with a term and their surroundings, within the size limit, and
says whether any was left out. -/
structure Faithful (terms : List Str) (data : List UInt8) (beforeLines afterLines : Nat)
    (result : SearchResult) : Prop where
  count : result.matchCount = result.matched.length
  first : List.Forall₂ (IsWindow (decodedLines data) beforeLines afterLines)
    ((hits terms data).take result.matchCount) result.matched
  sized : Fits result.matched
  truncated : result.truncated = true ↔ result.matchCount < (hits terms data).length

theorem searchText_ok (parsed : parseLiteralTerms pattern = .ok terms)
    (before : 0 ≤ beforeLines ∧ beforeLines ≤ 10) (after : 0 ≤ afterLines ∧ afterLines ≤ 20)
    (most : 1 ≤ maxMatches ∧ maxMatches ≤ 50) :
    searchText data pattern beforeLines afterLines maxMatches =
      .ok (scan terms (decodedLines data) beforeLines.toNat afterLines.toNat maxMatches.toNat
        (decodedLines data) 0 []) := by
  have bounded : ∀ (value : Int) (range : Int × Int) (label : String),
      range.1 ≤ value ∧ value ≤ range.2 → boundedInt value range label = .ok value := by
    intro value range label inside
    exact if_neg (by omega)
  simp only [searchText, parsed, bounded beforeLines beforeLinesRange _ before,
    bounded afterLines afterLinesRange _ after, bounded maxMatches maxMatchesRange _ most,
    bind, Except.bind, pure, Except.pure]

theorem forall₂_windows (lines : List Str) (beforeLines afterLines : Nat) (indices : List Nat)
    (inside : ∀ i ∈ indices, i < lines.length) :
    List.Forall₂ (IsWindow lines beforeLines afterLines) indices
      (indices.map (windowAt lines beforeLines afterLines)) := by
  induction indices with
  | nil => exact .nil
  | cons i rest ih =>
    refine .cons ?_ (ih fun j member => inside j (.tail i member))
    have here : lines[i]? = some (lines[i]?.getD []) := by
      rw [List.getElem?_eq_getElem (inside i (.head rest))]
      rfl
    exact isWindow_candidate here

/-- A search says the truth unless exactly as many lines match as it may return and all of them fit:
it then reports a cut though nothing is left out. -/
theorem search_faithful_iff (parsed : parseLiteralTerms pattern = .ok terms)
    (before : 0 ≤ beforeLines ∧ beforeLines ≤ 10) (after : 0 ≤ afterLines ∧ afterLines ≤ 20)
    (most : 1 ≤ maxMatches ∧ maxMatches ≤ 50) :
    ∃ result, searchText data pattern beforeLines afterLines maxMatches = .ok result ∧
      (Faithful terms data beforeLines.toNat afterLines.toNat result ↔
        ¬ ((hits terms data).length = maxMatches.toNat ∧ Fits ((hits terms data).map
          (windowAt (decodedLines data) beforeLines.toNat afterLines.toNat)))) := by
  refine ⟨_, searchText_ok parsed before after most, ?_⟩
  have inside : ∀ i ∈ hits terms data, i < (decodedLines data).length := fun i member => by
    simpa using List.lt_add_of_mem_findIdxs i member
  obtain ⟨n, stopped, taken, count, fits⟩ := scan_stopped terms (decodedLines data)
    beforeLines.toNat afterLines.toNat maxMatches.toNat (decodedLines data) 0 [] rfl
    (by simp; omega) fits_nil
  generalize scan terms (decodedLines data) beforeLines.toNat afterLines.toNat maxMatches.toNat
    (decodedLines data) 0 [] = result at stopped taken count fits ⊢
  obtain ⟨matched, matchCount, truncated⟩ := result
  change Stopped _ _ _ _ [] (hits terms data) n truncated at stopped
  change matched = [] ++ ((hits terms data).take n).map _ at taken
  dsimp only at count fits
  rw [List.nil_append] at taken
  have within : n ≤ (hits terms data).length := stopped.within
  have counted : matchCount = n := by
    rw [count, taken, List.length_map, List.length_take]
    omega
  subst counted
  have faithful : Faithful terms data beforeLines.toNat afterLines.toNat
      ⟨matched, matchCount, truncated⟩ ↔
      (truncated = true ↔ matchCount < (hits terms data).length) := by
    refine ⟨Faithful.truncated, fun flag => ⟨count, ?_, fits, flag⟩⟩
    dsimp only
    rw [taken]
    exact forall₂_windows _ _ _ _ fun i member => inside i (List.mem_of_mem_take member)
  rw [faithful]
  exact stopped.flag_iff (taken ▸ fits)

def panicLines : List UInt8 := Utf8.encode "boot\npanic\nhalt\npanic\n".toList

theorem one_of_two_panics :
    ∃ result, searchText panicLines (str "panic") 1 1 1 = .ok result ∧
      Faithful [str "panic"] panicLines 1 1 result := by
  obtain ⟨result, answered, faithful⟩ := @search_faithful_iff panicLines (str "panic") 1 1 1
    [str "panic"] (by decide +kernel) (by decide) (by decide) (by decide)
  exact ⟨result, answered, faithful.2 (by decide +kernel)⟩

/-- Both lines are returned, nothing is left out, and the result says that it was cut. -/
theorem two_of_two_panics_cut :
    ∃ result, searchText panicLines (str "panic") 0 0 2 = .ok result ∧
      result.matchCount = 2 ∧ (hits [str "panic"] panicLines).length = 2 ∧
      result.truncated = true ∧ ¬ Faithful [str "panic"] panicLines 0 0 result := by
  refine ⟨⟨[⟨2, str "panic", [], []⟩, ⟨4, str "panic", [], []⟩], 2, true⟩, by decide +kernel,
    rfl, by decide +kernel, rfl, fun faithful => ?_⟩
  have fewer := faithful.truncated.1 rfl
  revert fewer
  decide +kernel

end Answers

end Kdive.Artifacts
