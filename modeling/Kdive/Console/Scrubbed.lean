import Kdive.Console.Redaction
import Kdive.Lib.Find

/-!
What the redactor leaves of a text: the characters outside the registered values and outside the
values of secret keys stay in their order, and the redacted text is a fixed point.
-/
namespace Kdive.Console
open Masking

section KeyValue

/-- A match of the key-value pattern at the front of the text: the value runs up to the next
space. -/
structure Found (text name sep value rest : Text) : Prop where
  whole : text = name ++ (sep ++ (value ++ rest))
  isName : secretName.Matches name
  isSep : separator.Matches sep
  filled : value ≠ []
  unspaced : ∀ c ∈ value, isSpace c = false
  ends : ∀ c ∈ rest.head?, isSpace c = true

theorem nameChar_of_literal {letters : String} {text : Text}
    (plain : letters.toList.all (fun c => decide ('a' ≤ c) && decide (c ≤ 'z')) = true)
    (matched : (literal letters).Matches text) : ∀ c ∈ text, isNameChar c = true := by
  unfold literal at matched
  generalize letters.toList = letters at plain matched
  induction letters generalizing text with
  | nil =>
    obtain rfl : text = [] := matched
    simp
  | cons letter letters ih =>
    obtain ⟨_, rest, rfl, ⟨a, rfl, same⟩, others⟩ := matched
    rw [List.all_cons, Bool.and_eq_true] at plain
    intro c isLetter
    rcases List.mem_cons.mp isLetter with rfl | later
    · have folded : foldCase c = letter := by simpa using same
      simp [isNameChar, folded, plain.1]
    · exact ih plain.2 others c later

theorem nameChar_of_secretWord {text : Text} (matched : secretWord.Matches text) :
    ∀ c ∈ text, isNameChar c = true := by
  rcases matched with found | found | found | ⟨api, _, rfl, isApi, mark, key, rfl, isMark, isKey⟩ |
    found
  · exact nameChar_of_literal (by decide) found
  · exact nameChar_of_literal (by decide) found
  · exact nameChar_of_literal (by decide) found
  · intro c isLetter
    rcases List.mem_append.mp isLetter with inApi | later
    · exact nameChar_of_literal (by decide) isApi c inApi
    rcases List.mem_append.mp later with inMark | inKey
    · rcases isMark with ⟨a, rfl, accepted⟩ | none
      · obtain rfl := List.mem_singleton.mp inMark
        rcases Bool.or_eq_true _ _ ▸ accepted with same | same
        · obtain rfl : c = '_' := by simpa using same
          decide
        · obtain rfl : c = '-' := by simpa using same
          decide
      · obtain rfl : mark = [] := none
        simp at inMark
    · exact nameChar_of_literal (by decide) isKey c inKey
  · exact nameChar_of_literal (by decide) found

theorem nameChar_of_secretName {name : Text} (matched : secretName.Matches name) :
    ∀ c ∈ name, isNameChar c = true := by
  obtain ⟨before, _, rfl, allBefore, word, after, rfl, isWord, allAfter⟩ := matched
  intro c isLetter
  rcases List.mem_append.mp isLetter with inBefore | later
  · exact allBefore c inBefore
  rcases List.mem_append.mp later with inWord | inAfter
  · exact nameChar_of_secretWord isWord c inWord
  · exact allAfter c inAfter

def spaceCodes : List Nat :=
  [9, 10, 11, 12, 13, 28, 29, 30, 31, 32, 0x85, 0xA0, 0x1680, 0x2000, 0x2001, 0x2002, 0x2003,
    0x2004, 0x2005, 0x2006, 0x2007, 0x2008, 0x2009, 0x200A, 0x2028, 0x2029, 0x202F, 0x205F, 0x3000]

theorem toNat_mem_spaceCodes {c : Char} (space : isSpace c = true) : c.toNat ∈ spaceCodes := by
  simp only [isSpace, Bool.or_eq_true, Bool.and_eq_true, decide_eq_true_eq, beq_iff_eq] at space
  simp only [spaceCodes, List.mem_cons, List.not_mem_nil, or_false]
  omega

theorem not_nameChar_of_space {c : Char} (space : isSpace c = true) : isNameChar c = false := by
  have every : ∀ n ∈ spaceCodes, isNameChar (Char.ofNat n) = false := by decide +kernel
  have same : Char.ofNat c.toNat = c := Char.ofNat_toNat c
  rw [← same]
  exact every _ (toNat_mem_spaceCodes space)

theorem separator_parts {sep : Text} (matched : separator.Matches sep) :
    ∃ before mark after, sep = before ++ mark :: after ∧ (∀ c ∈ before, isSpace c = true) ∧
      (mark = '=' ∨ mark = ':') ∧ ∀ c ∈ after, isSpace c = true := by
  obtain ⟨before, _, rfl, allBefore, _, after, rfl, ⟨mark, rfl, isMark⟩, allAfter⟩ := matched
  refine ⟨before, mark, after, rfl, allBefore, ?_, allAfter⟩
  simpa using isMark

theorem mark_facts {mark : Char} (isMark : mark = '=' ∨ mark = ':') :
    isSpace mark = false ∧ isNameChar mark = false ∧ mark ≠ '[' := by
  rcases isMark with rfl | rfl <;> decide

namespace Found

variable {text name sep value rest : Text}

theorem sep_head (found : Found text name sep value rest) :
    ∀ c ∈ (sep ++ (value ++ rest)).head?, isNameChar c = false := by
  obtain ⟨before, mark, after, rfl, allBefore, isMark, _⟩ := separator_parts found.isSep
  cases before with
  | nil =>
    intro c isHead
    obtain rfl : mark = c := by simpa using isHead
    exact (mark_facts isMark).2.1
  | cons a before =>
    intro c isHead
    obtain rfl : a = c := by simpa using isHead
    exact not_nameChar_of_space (allBefore a List.mem_cons_self)

theorem value_head (found : Found text name sep value rest) :
    ∀ c ∈ (value ++ rest).head?, isSpace c = false := by
  obtain ⟨a, value, rfl⟩ := List.exists_cons_of_ne_nil found.filled
  intro c isHead
  obtain rfl : a = c := by simpa using isHead
  exact found.unspaced a List.mem_cons_self

theorem name_eq (found : Found text name sep value rest) : text.takeWhile isNameChar = name := by
  rw [found.whole]
  exact Regex.takeWhile_append_stop (nameChar_of_secretName found.isName) found.sep_head

theorem value_eq (found : Found text name sep value rest) :
    (value ++ rest).takeWhile (fun c => !isSpace c) = value := by
  apply Regex.takeWhile_append_stop
  · intro c isLetter
    simp [found.unspaced c isLetter]
  · intro c isHead
    simp [found.ends c isHead]

theorem unique {name' sep' value' rest' : Text} (found : Found text name sep value rest)
    (other : Found text name' sep' value' rest') :
    name = name' ∧ sep = sep' ∧ value = value' ∧ rest = rest' := by
  have sameName : name = name' := found.name_eq.symm.trans other.name_eq
  subst sameName
  have afterName : sep ++ (value ++ rest) = sep' ++ (value' ++ rest') :=
    List.append_cancel_left (found.whole.symm.trans other.whole)
  obtain ⟨before, mark, after, rfl, allBefore, isMark, allAfter⟩ := separator_parts found.isSep
  obtain ⟨before', mark', after', rfl, allBefore', isMark', allAfter'⟩ :=
    separator_parts other.isSep
  simp only [List.append_assoc, List.cons_append] at afterName
  -- the spaces up to the mark are the run of spaces, and so are those after it
  have sameBefore : before = before' := by
    have left : (before ++ mark :: (after ++ (value ++ rest))).takeWhile isSpace = before :=
      Regex.takeWhile_append_stop allBefore (by simp [(mark_facts isMark).1])
    have right : (before' ++ mark' :: (after' ++ (value' ++ rest'))).takeWhile isSpace = before' :=
      Regex.takeWhile_append_stop allBefore' (by simp [(mark_facts isMark').1])
    rw [← left, afterName, right]
  subst sameBefore
  obtain ⟨rfl, tail⟩ := List.cons.inj (List.append_cancel_left afterName)
  have sameAfter : after = after' := by
    have left := Regex.takeWhile_append_stop allAfter found.value_head
    have right := Regex.takeWhile_append_stop allAfter' other.value_head
    rw [← left, tail, right]
  subst sameAfter
  have values : value ++ rest = value' ++ rest' := List.append_cancel_left tail
  have sameValue : value = value' := by
    rw [← found.value_eq, values, other.value_eq]
  subst sameValue
  exact ⟨rfl, rfl, rfl, List.append_cancel_left values⟩

end Found

theorem found_of_groups {text : Text} {taken : List Text}
    (matched : Regex.groups keyValuePattern text = some taken) :
    ∃ name sep value rest, taken = [name, sep, value] ∧ Found text name sep value rest := by
  obtain ⟨name, isName, _, matchedSep, rfl⟩ := Regex.groups_cons matched
  obtain ⟨sep, isSep, _, matchedValue, rfl⟩ := Regex.groups_cons matchedSep
  obtain ⟨rfl, filled⟩ := Regex.groups_some matchedValue
  obtain ⟨wholeName, nameMatches⟩ := (Regex.mem_splits _).mp isName
  obtain ⟨wholeSep, sepMatches⟩ := (Regex.mem_splits _).mp isSep
  refine ⟨name.1, sep.1, _, sep.2.dropWhile (fun c => !isSpace c), rfl, ?_⟩
  constructor
  · rw [List.takeWhile_append_dropWhile, wholeSep, wholeName]
  · exact nameMatches
  · exact sepMatches
  · exact filled
  · intro c isLetter
    simpa using List.all_eq_true.mp List.all_takeWhile c isLetter
  · intro c isHead
    have stops := List.head?_dropWhile_not (fun c => !isSpace c) sep.2
    rw [Option.mem_def.mp isHead] at stops
    simpa using stops

theorem Found.matched {text name sep value rest : Text} (found : Found text name sep value rest) :
    List.Forall₂ Regex.Matches keyValuePattern [name, sep, value] := by
  refine .cons found.isName (.cons found.isSep (.cons ?_ .nil))
  refine Regex.matches_some.mpr ⟨found.filled, ?_⟩
  intro c isLetter
  simp [found.unspaced c isLetter]

theorem Found.groups {text name sep value rest : Text} (found : Found text name sep value rest) :
    Regex.groups keyValuePattern text = some [name, sep, value] := by
  have lead : [name, sep, value].flatten <+: text := by
    refine ⟨rest, ?_⟩
    simp [found.whole]
  obtain ⟨taken, isTaken⟩ := Option.ne_none_iff_exists'.mp
    (Regex.groups_ne_none found.matched lead)
  obtain ⟨name', sep', value', rest', rfl, other⟩ := found_of_groups isTaken
  obtain ⟨rfl, rfl, rfl, _⟩ := found.unique other
  exact isTaken

theorem length_of_literal {letters : String} {text : Text}
    (matched : (literal letters).Matches text) : text.length = letters.toList.length := by
  unfold literal at matched
  generalize letters.toList = letters at matched
  induction letters generalizing text with
  | nil =>
    obtain rfl : text = [] := matched
    rfl
  | cons letter letters ih =>
    obtain ⟨_, rest, rfl, ⟨a, rfl, _⟩, others⟩ := matched
    simp [ih others]

theorem secretName_ne_nil {name : Text} (matched : secretName.Matches name) : name ≠ [] := by
  obtain ⟨before, _, rfl, _, word, after, rfl, isWord, _⟩ := matched
  rintro empty
  obtain ⟨_, empty⟩ := List.append_eq_nil_iff.mp empty
  obtain ⟨rfl, _⟩ := List.append_eq_nil_iff.mp empty
  rcases isWord with found | found | found | ⟨api, _, none, isApi, _⟩ | found
  · exact absurd (length_of_literal found) (by decide)
  · exact absurd (length_of_literal found) (by decide)
  · exact absurd (length_of_literal found) (by decide)
  · obtain ⟨rfl, _⟩ := List.append_eq_nil_iff.mp none.symm
    exact absurd (length_of_literal isApi) (by decide)
  · exact absurd (length_of_literal found) (by decide)

theorem groups_eq_none_of_head {c : Char} {rest : Text} (other : isNameChar c = false) :
    Regex.groups keyValuePattern (c :: rest) = none := by
  cases matched : Regex.groups keyValuePattern (c :: rest) with
  | none => rfl
  | some taken =>
    obtain ⟨name, _, _, _, _, found⟩ := found_of_groups matched
    have empty : name = [] := by
      rw [← found.name_eq]
      simp [other]
    exact absurd empty (secretName_ne_nil found.isName)

end KeyValue

section Pass

variable {r : Redactor} {last : Option Char} {text shown name sep value rest : Text}

def Redactor.hide (r : Redactor) (last : Option Char) (text : Text) : Text :=
  Regex.subFrom r.wordBoundary keyValuePattern maskValue last 0 text

theorem hide_keep {c : Char} (missed : r.wordBoundary last (c :: rest) = true →
    Regex.groups keyValuePattern (c :: rest) = none) :
    r.hide last (c :: rest) = c :: r.hide (some c) rest :=
  Regex.subFrom_keep missed

namespace Found

theorem whole_flatten (found : Found text name sep value rest) :
    text = [name, sep, value].flatten ++ rest := by
  simp [found.whole]

theorem flatten_ne_nil (found : Found text name sep value rest) :
    [name, sep, value].flatten ≠ [] := by
  simp [secretName_ne_nil found.isName]

theorem getLast?_flatten (found : Found text name sep value rest) :
    [name, sep, value].flatten.getLast? = value.getLast? := by
  rcases List.eq_nil_or_concat' value with empty | ⟨front, z, rfl⟩
  · exact absurd empty found.filled
  · simp [List.getLast?_append]

end Found

theorem hide_found (here : r.wordBoundary last text = true)
    (found : Found text name sep value rest) :
    r.hide last text = name ++ (sep ++ (redaction ++ r.hide value.getLast? rest)) := by
  have matched := found.groups
  rw [found.whole_flatten] at here matched ⊢
  rw [Redactor.hide, Regex.subFrom_match here matched found.flatten_ne_nil, found.getLast?_flatten]
  simp [maskValue, Redactor.hide]

/-- Either there is a match at the front, and it is masked, or the first character stays. -/
theorem hide_cons_cases (r : Redactor) (last : Option Char) (c : Char) (rest : Text) :
    (r.wordBoundary last (c :: rest) = true ∧ ∃ name sep value after,
      Found (c :: rest) name sep value after ∧
        r.hide last (c :: rest) = name ++ (sep ++ (redaction ++ r.hide value.getLast? after))) ∨
    ((r.wordBoundary last (c :: rest) = true → Regex.groups keyValuePattern (c :: rest) = none) ∧
      r.hide last (c :: rest) = c :: r.hide (some c) rest) := by
  by_cases missed : r.wordBoundary last (c :: rest) = true →
      Regex.groups keyValuePattern (c :: rest) = none
  · exact .inr ⟨missed, hide_keep missed⟩
  · obtain ⟨here, matched⟩ := Classical.not_imp.mp missed
    obtain ⟨taken, isTaken⟩ := Option.ne_none_iff_exists'.mp matched
    obtain ⟨name, sep, value, after, _, found⟩ := found_of_groups isTaken
    exact .inl ⟨here, name, sep, value, after, found, hide_found here found⟩

theorem hide_space {c : Char} (space : isSpace c = true) :
    r.hide last (c :: rest) = c :: r.hide (some c) rest :=
  hide_keep (fun _ => groups_eq_none_of_head (not_nameChar_of_space space))

/-- Up to the first masked value the text stays as it is, and that value starts with something
else than a space. -/
def Touched (text shown : Text) : Prop :=
  shown = text ∨ ∃ front c back tail,
    text = front ++ c :: back ∧ shown = front ++ '[' :: tail ∧ isSpace c = false

theorem hide_touched (r : Redactor) (text : Text) : ∀ last, Touched text (r.hide last text) := by
  induction text with
  | nil =>
    intro last
    exact .inl rfl
  | cons c rest ih =>
    intro last
    rcases hide_cons_cases r last c rest with ⟨_, name, sep, value, after, found, masked⟩ | ⟨_, kept⟩
    · obtain ⟨a, others, rfl⟩ := List.exists_cons_of_ne_nil found.filled
      refine .inr ⟨name ++ sep, a, others ++ after,
        redacted ++ ']' :: r.hide (a :: others).getLast? after, ?_, ?_, found.unspaced a List.mem_cons_self⟩
      · simp [found.whole]
      · rw [masked]
        simp [redaction]
    · rw [kept]
      rcases ih (some c) with same | ⟨front, a, back, tail, whole, changed, unspaced⟩
      · exact .inl (congrArg (c :: ·) same)
      · exact .inr ⟨c :: front, a, back, tail, congrArg (c :: ·) whole,
          congrArg (c :: ·) changed, unspaced⟩

theorem opening_not_mem_name (isName : secretName.Matches name) : '[' ∉ name := by
  intro bad
  exact absurd (nameChar_of_secretName isName '[' bad) (by decide)

theorem opening_not_mem_sep (isSep : separator.Matches sep) : '[' ∉ sep := by
  obtain ⟨before, mark, after, rfl, allBefore, isMark, allAfter⟩ := separator_parts isSep
  intro bad
  rcases List.mem_append.mp bad with inBefore | later
  · exact absurd (allBefore '[' inBefore) (by decide)
  rcases List.mem_cons.mp later with same | inAfter
  · exact (mark_facts isMark).2.2 same.symm
  · exact absurd (allAfter '[' inAfter) (by decide)

theorem Touched.groups_ne_none (touched : Touched text shown)
    (found : Found shown name sep value rest) : Regex.groups keyValuePattern text ≠ none := by
  rcases touched with rfl | ⟨front, c, back, tail, rfl, changed, unspaced⟩
  · rw [found.groups]
    exact Option.some_ne_none _
  have without : '[' ∉ name ++ sep := by
    intro bad
    rcases List.mem_append.mp bad with inName | inSep
    · exact opening_not_mem_name found.isName inName
    · exact opening_not_mem_sep found.isSep inSep
  have whole : (name ++ sep) ++ (value ++ rest) = front ++ '[' :: tail := by
    rw [← changed, found.whole, List.append_assoc]
  -- name and separator end before the bracket
  obtain ⟨gap, rfl, following⟩ : ∃ gap, front = (name ++ sep) ++ gap ∧
      value ++ rest = gap ++ '[' :: tail := by
    rcases List.append_eq_append_iff.mp whole with ⟨gap, rfl, following⟩ | ⟨gap, beyond, others⟩
    · exact ⟨gap, rfl, following⟩
    · cases gap with
      | nil => exact ⟨[], by simpa using beyond.symm, by simpa using others.symm⟩
      | cons a gap =>
        obtain ⟨rfl, _⟩ := List.cons.inj others
        exact absurd (by simp [beyond]) without
  obtain ⟨a, after, next, unspacedNext⟩ : ∃ a after, gap ++ c :: back = a :: after ∧
      isSpace a = false := by
    cases gap with
    | nil => exact ⟨c, back, rfl, unspaced⟩
    | cons a gap =>
      refine ⟨a, gap ++ c :: back, rfl, found.value_head a ?_⟩
      rw [following]
      rfl
  have matched : List.Forall₂ Regex.Matches keyValuePattern [name, sep, [a]] := by
    refine .cons found.isName (.cons found.isSep (.cons ?_ .nil))
    refine Regex.matches_some.mpr ⟨by simp, ?_⟩
    intro b isLetter
    obtain rfl := List.mem_singleton.mp isLetter
    simp [unspacedNext]
  refine Regex.groups_ne_none matched ⟨after, ?_⟩
  simp [next]

theorem wordBoundary_append (r : Redactor) (last : Option Char) (filled : name ≠ []) (after : Text) :
    r.wordBoundary last (name ++ after) = r.wordBoundary last name := by
  obtain ⟨a, others, rfl⟩ := List.exists_cons_of_ne_nil filled
  rfl

/-- A text that is empty or starts with a space is passed over alike whatever stands before it. -/
theorem hide_stopped (r : Redactor) (ends : ∀ c ∈ text.head?, isSpace c = true)
    (before last : Option Char) : r.hide before text = r.hide last text := by
  cases text with
  | nil => rfl
  | cons c rest =>
    have space : isSpace c = true := ends c rfl
    rw [hide_space space, hide_space space]

theorem hide_stops (r : Redactor) (ends : ∀ c ∈ text.head?, isSpace c = true)
    (last : Option Char) : ∀ c ∈ (r.hide last text).head?, isSpace c = true := by
  cases text with
  | nil => simp [Redactor.hide, Regex.subFrom]
  | cons c rest =>
    have space : isSpace c = true := ends c rfl
    intro a isHead
    rw [hide_space space] at isHead
    obtain rfl : c = a := by simpa using isHead
    exact space

theorem Found.marker (found : Found text name sep value rest) {after : Text}
    (whole : shown = name ++ (sep ++ (redaction ++ after)))
    (ends : ∀ c ∈ after.head?, isSpace c = true) : Found shown name sep redaction after := by
  have every : redaction.all (fun c => !isSpace c) = true := by decide +kernel
  have unspaced : ∀ c ∈ redaction, isSpace c = false := by
    intro c isMarker
    simpa using List.all_eq_true.mp every c isMarker
  exact ⟨whole, found.isName, found.isSep, List.cons_ne_nil _ _, unspaced, ends⟩

theorem hide_hide (r : Redactor) : ∀ (n : Nat) (text : Text), text.length ≤ n → ∀ last,
    r.hide last (r.hide last text) = r.hide last text := by
  intro n
  induction n with
  | zero =>
    intro text bound last
    obtain rfl : text = [] := List.length_eq_zero_iff.mp (Nat.le_zero.mp bound)
    rfl
  | succ n ih =>
    intro text bound last
    cases text with
    | nil => rfl
    | cons c rest =>
      rcases hide_cons_cases r last c rest with
        ⟨here, name, sep, value, after, found, masked⟩ | ⟨missed, kept⟩
      · have filled := secretName_ne_nil found.isName
        have shorter : after.length ≤ n := by
          have size := congrArg List.length found.whole
          have positive : 0 < name.length := List.length_pos_iff.mpr filled
          simp only [List.length_append, List.length_cons] at size bound
          omega
        have stops := hide_stops r found.ends value.getLast?
        -- the marker is ended by what ended the old value
        have again := found.marker masked stops
        have hereAgain : r.wordBoundary last (r.hide last (c :: rest)) = true := by
          rw [found.whole, wordBoundary_append r last filled] at here
          rw [masked, wordBoundary_append r last filled]
          exact here
        rw [hide_found hereAgain again, hide_stopped r stops _ value.getLast?, ih after shorter,
          masked]
      · have missedAgain : r.wordBoundary last (c :: r.hide (some c) rest) = true →
            Regex.groups keyValuePattern (c :: r.hide (some c) rest) = none := by
          intro here
          cases matched : Regex.groups keyValuePattern (c :: r.hide (some c) rest) with
          | none => rfl
          | some taken =>
            obtain ⟨name, sep, value, after, _, found⟩ := found_of_groups matched
            have touched := hide_touched r (c :: rest) last
            rw [kept] at touched
            exact absurd (missed here) (touched.groups_ne_none found)
        have shorter : rest.length ≤ n := by simpa using bound
        rw [kept, hide_keep missedAgain, ih rest shorter]

end Pass

section Places

def place : Nat → List Span → Nat → Nat
  | cursor, [], i => i - cursor
  | cursor, span :: rest, i =>
    if i < span.1 then i - cursor
    else span.1 - cursor + (redaction.length + place span.2 rest i)

def Inside (spans : List Span) (i : Nat) : Prop := ∃ span ∈ spans, span.1 ≤ i ∧ i < span.2

theorem inside_cons {span : Span} {spans : List Span} {i : Nat} :
    Inside (span :: spans) i ↔ (span.1 ≤ i ∧ i < span.2) ∨ Inside spans i := by
  simp [Inside]

theorem Apart.tail {span : Span} {spans : List Span} (apart : Apart (span :: spans)) :
    Apart spans ∧ ∀ later ∈ spans, span.2 ≤ later.1 :=
  ⟨⟨fun s isLater => apart.ordered s (List.mem_cons_of_mem span isLater),
    (List.pairwise_cons.mp apart.apart).2⟩, (List.pairwise_cons.mp apart.apart).1⟩

theorem getElem?_maskFrom {text : Text} : ∀ {spans : List Span} {cursor i : Nat}, Apart spans →
    (∀ span ∈ spans, cursor ≤ span.1) → cursor ≤ i → i < text.length → ¬ Inside spans i →
    (maskFrom text cursor spans)[place cursor spans i]? = text[i]? := by
  intro spans
  induction spans with
  | nil =>
    intro cursor i _ _ reached _ _
    rw [maskFrom, place, List.getElem?_drop, Nat.add_sub_cancel' reached]
  | cons span rest ih =>
    intro cursor i apart after reached bound outside
    have starts : cursor ≤ span.1 := after span List.mem_cons_self
    rw [inside_cons, not_or] at outside
    rw [maskFrom, place]
    by_cases early : i < span.1
    · have inFront : i - cursor < ((text.take span.1).drop cursor).length := by
        rw [List.length_drop, List.length_take]
        omega
      rw [if_pos early, List.append_assoc, List.getElem?_append_left inFront, List.getElem?_drop,
        Nat.add_sub_cancel' reached, List.getElem?_take_of_lt early]
    · have beyond : span.2 ≤ i := by
        by_contra inside
        exact outside.1 ⟨Nat.le_of_not_lt early, Nat.lt_of_not_le inside⟩
      have size : ((text.take span.1).drop cursor).length = span.1 - cursor := by
        rw [List.length_drop, List.length_take]
        omega
      rw [if_neg early, List.append_assoc, ← size, List.getElem?_append_right (by omega),
        Nat.add_sub_cancel_left, List.getElem?_append_right (by omega), Nat.add_sub_cancel_left]
      exact ih apart.tail.1 apart.tail.2 beyond bound outside.2

theorem place_lt_place : ∀ {spans : List Span} {cursor i j : Nat}, Apart spans →
    (∀ span ∈ spans, cursor ≤ span.1) → cursor ≤ i → i < j → ¬ Inside spans i → ¬ Inside spans j →
    place cursor spans i < place cursor spans j := by
  intro spans
  induction spans with
  | nil =>
    intro cursor i j _ _ reached less _ _
    rw [place, place]
    omega
  | cons span rest ih =>
    intro cursor i j apart after reached less outside outside'
    have starts : cursor ≤ span.1 := after span List.mem_cons_self
    rw [inside_cons, not_or] at outside outside'
    rw [place, place]
    by_cases early : i < span.1
    · rw [if_pos early]
      split
      · omega
      · omega
    · have beyond : span.2 ≤ i := by
        by_contra inside
        exact outside.1 ⟨Nat.le_of_not_lt early, Nat.lt_of_not_le inside⟩
      have later : ¬ j < span.1 := by omega
      rw [if_neg early, if_neg later]
      have := ih apart.tail.1 apart.tail.2 beyond less outside.2 outside'.2
      omega

theorem inside_mergeSpan {merged : List Span} {span : Span} {i : Nat}
    (inside : Inside (mergeSpan merged span) i) :
    Inside merged i ∨ (span.1 ≤ i ∧ i < span.2) := by
  cases merged with
  | nil => simpa [mergeSpan, Inside] using inside
  | cons last merged =>
    rw [mergeSpan] at inside
    split at inside
    · rcases inside_cons.mp inside with wide | earlier
      · dsimp only at wide
        by_cases old : i < last.2
        · exact .inl (inside_cons.mpr (.inl ⟨wide.1, old⟩))
        · exact .inr ⟨by omega, by omega⟩
      · exact .inl (inside_cons.mpr (.inr earlier))
    · rcases inside_cons.mp inside with here | old
      · exact .inr here
      · exact .inl old

theorem inside_mergeSpans {spans : List Span} {i : Nat} (inside : Inside (mergeSpans spans) i) :
    Inside spans i := by
  have fold : ∀ (spans merged : List Span), Inside (spans.foldl mergeSpan merged) i →
      Inside merged i ∨ Inside spans i := by
    intro spans
    induction spans with
    | nil =>
      intro merged here
      exact .inl here
    | cons span rest ih =>
      intro merged here
      rcases ih (mergeSpan merged span) here with early | later
      · rcases inside_mergeSpan early with old | new
        · exact .inl old
        · exact .inr (inside_cons.mpr (.inl new))
      · exact .inr (inside_cons.mpr (.inr later))
  obtain ⟨span, isMerged, covers⟩ := inside
  rcases fold _ [] ⟨span, List.mem_reverse.mp isMerged, covers⟩ with ⟨_, none, _⟩ | ⟨s, isSpan, here⟩
  · exact absurd none List.not_mem_nil
  · exact ⟨s, (List.perm_insertionSort Span.le spans).mem_iff.mp isSpan, here⟩

theorem exists_of_mem_spansFrom {value : Text} : ∀ {text : Text} {start : Nat} {span : Span},
    span ∈ spansFrom value start text →
    ∃ i, span = (start + i, start + i + value.length) ∧ Find.Occurs value text i := by
  intro text
  induction text with
  | nil => simp [spansFrom]
  | cons c rest ih =>
    intro start span isSpan
    have later : span ∈ spansFrom value (start + 1) rest →
        ∃ i, span = (start + i, start + i + value.length) ∧ Find.Occurs value (c :: rest) i := by
      intro isLater
      obtain ⟨i, rfl, inside, lead⟩ := ih isLater
      refine ⟨i + 1, ?_, ?_, by simpa using lead⟩
      · rw [Nat.add_assoc, Nat.add_comm 1 i]
      · rw [List.length_cons]
        omega
    rw [spansFrom] at isSpan
    split at isSpan
    · rename_i lead
      rcases List.mem_cons.mp isSpan with rfl | isLater
      · exact ⟨0, rfl, by simpa using lead.length_le, by simpa using lead⟩
      · exact later isLater
    · exact later isSpan

end Places

section Values

variable {text : Text}

def valueSpan (found : Nat × List Text) : Span :=
  (found.1 + (found.2.take 2).flatten.length, found.1 + found.2.flatten.length)

def Redactor.valueSpans (r : Redactor) (text : Text) : List Span :=
  (Regex.finditer r.wordBoundary keyValuePattern text).map valueSpan

def Redactor.valueSpansFrom (r : Redactor) (last : Option Char) (start : Nat) (text : Text) :
    List Span :=
  (Regex.finditerFrom r.wordBoundary keyValuePattern last 0 start text).map valueSpan

theorem maskFrom_step {start : Nat} {c : Char} {rest : Text} {spans : List Span}
    (here : text.drop start = c :: rest) (later : ∀ span ∈ spans, start + 1 ≤ span.1) :
    maskFrom text start spans = c :: maskFrom text (start + 1) spans := by
  have next : text.drop (start + 1) = rest := by
    rw [← List.drop_drop, here, List.drop_one, List.tail_cons]
  cases spans with
  | nil => rw [maskFrom, maskFrom, here, next]
  | cons span spans =>
    have bound : start + 1 ≤ span.1 := later span List.mem_cons_self
    have first : (text.take span.1).drop start = c :: (text.take span.1).drop (start + 1) := by
      obtain ⟨k, size⟩ : ∃ k, span.1 - start = k + 1 := ⟨span.1 - start - 1, by omega⟩
      have shorter : span.1 - (start + 1) = k := by omega
      rw [List.drop_take, here, size, List.take_succ_cons, List.drop_take, next, shorter]
    rw [maskFrom, maskFrom, first, List.cons_append, List.cons_append]

theorem valueSpansFrom_found {r : Redactor} {last : Option Char} {start : Nat}
    {name sep value rest : Text} (here : r.wordBoundary last text = true)
    (found : Found text name sep value rest) :
    r.valueSpansFrom last start text
      = (start + (name ++ sep).length, start + (name ++ (sep ++ value)).length) ::
        r.valueSpansFrom value.getLast? (start + (name ++ (sep ++ value)).length) rest := by
  have matched := found.groups
  have size : [name, sep, value].flatten.length = (name ++ (sep ++ value)).length := by simp
  rw [found.whole_flatten] at here matched ⊢
  rw [Redactor.valueSpansFrom, Regex.finditerFrom_match here matched found.flatten_ne_nil,
    found.getLast?_flatten, size]
  simp [valueSpan, Redactor.valueSpansFrom]

structure Passed (r : Redactor) (text : Text) (last : Option Char) (start : Nat)
    (spans : List Span) : Prop where
  masks : r.hide last (text.drop start) = maskFrom text start spans
  apart : Apart spans
  after : ∀ span ∈ spans, start ≤ span.1

theorem hide_passed (r : Redactor) (text : Text) : ∀ (n start : Nat), text.length ≤ start + n →
    ∀ last, Passed r text last start (r.valueSpansFrom last start (text.drop start)) := by
  intro n
  induction n with
  | zero =>
    intro start bound last
    have done : text.drop start = [] := List.drop_eq_nil_of_le bound
    have none : r.valueSpansFrom last start [] = [] := rfl
    rw [done, none]
    refine ⟨?_, ⟨by simp, .nil⟩, by simp⟩
    rw [done, maskFrom, done]
    rfl
  | succ n ih =>
    intro start bound last
    cases here : text.drop start with
    | nil =>
      have done := ih start (by have := List.drop_eq_nil_iff.mp here; omega) last
      rwa [here] at done
    | cons c rest =>
      have next : text.drop (start + 1) = rest := by
        rw [← List.drop_drop, here, List.drop_one, List.tail_cons]
      rcases hide_cons_cases r last c rest with
        ⟨boundary, name, sep, value, after, found, masked⟩ | ⟨missed, kept⟩
      · rw [valueSpansFrom_found boundary found]
        generalize ended : start + (name ++ (sep ++ value)).length = stop
        generalize begun : start + (name ++ sep).length = front
        simp only [List.length_append] at ended begun
        have positive : 0 < name.length := List.length_pos_iff.mpr (secretName_ne_nil found.isName)
        have rest : text.drop stop = after := by
          rw [← ended, ← List.drop_drop, here, found.whole]
          simp
        have kept : (text.take front).drop start = name ++ sep := by
          have size : front - start = (name ++ sep).length := by
            rw [List.length_append]
            omega
          rw [List.drop_take, here, found.whole, size, ← List.append_assoc, List.take_left]
        have others := ih stop (by omega) value.getLast?
        rw [rest] at others
        refine ⟨?_, ⟨?_, List.pairwise_cons.mpr ⟨others.after, others.apart.apart⟩⟩, ?_⟩
        · rw [here, masked, maskFrom, kept, ← others.masks, rest]
          simp
        · intro span isSpan
          rcases List.mem_cons.mp isSpan with rfl | later
          · dsimp only
            omega
          · exact others.apart.ordered span later
        · intro span isSpan
          rcases List.mem_cons.mp isSpan with rfl | later
          · dsimp only
            omega
          · have := others.after span later
            omega
      · have others := ih (start + 1) (by omega) (some c)
        rw [next] at others
        have same : r.valueSpansFrom last start (c :: rest)
            = r.valueSpansFrom (some c) (start + 1) rest := by
          rw [Redactor.valueSpansFrom, Regex.finditerFrom_keep missed]
          rfl
        rw [same]
        refine ⟨?_, others.apart, fun span isSpan => Nat.le_of_succ_le (others.after span isSpan)⟩
        rw [here, kept, maskFrom_step here others.after, ← others.masks, next]

end Values

namespace Redactor

variable (r : Redactor) (text : Text)

def InSecret (i : Nat) : Prop :=
  ∃ value ∈ r.secretValues, ∃ start, Find.Occurs value text start ∧
    start ≤ i ∧ i < start + value.length

def InValue (i : Nat) : Prop := Inside (r.valueSpans text) i

/-- Where a character outside the registered values stands in the text the key-value pass reads. -/
def maskedPlace (i : Nat) : Nat := place 0 (mergeSpans (r.spans text)) i

def Kept (i : Nat) : Prop :=
  i < text.length ∧ ¬ r.InSecret text i ∧ ¬ r.InValue (r.maskSecrets text) (r.maskedPlace text i)

def Survive (shown : Text) (kept : Nat → Prop) : Prop :=
  ∃ seat : Nat → Nat, StrictMonoOn seat {i | kept i} ∧ ∀ i, kept i → shown[seat i]? = text[i]?

variable {r text}

theorem inSecret_of_inside {i : Nat} (inside : Inside (mergeSpans (r.spans text)) i) :
    r.InSecret text i := by
  obtain ⟨span, isSpan, starts, ends⟩ := inside_mergeSpans inside
  obtain ⟨value, registered, found⟩ := List.mem_flatMap.mp isSpan
  obtain ⟨start, rfl, occurs⟩ := exists_of_mem_spansFrom found
  dsimp only at starts ends
  exact ⟨value, registered, start, occurs, by omega, by omega⟩

theorem getElem?_maskSecrets {i : Nat} (bound : i < text.length) (clear : ¬ r.InSecret text i) :
    (r.maskSecrets text)[r.maskedPlace text i]? = text[i]? :=
  getElem?_maskFrom (mergeSpans_spec (r.spans_proper text)).1 (fun _ _ => Nat.zero_le _)
    (Nat.zero_le i) bound (fun inside => clear (inSecret_of_inside inside))

theorem maskedPlace_lt {i j : Nat} (less : i < j) (clear : ¬ r.InSecret text i)
    (clear' : ¬ r.InSecret text j) : r.maskedPlace text i < r.maskedPlace text j :=
  place_lt_place (mergeSpans_spec (r.spans_proper text)).1 (fun _ _ => Nat.zero_le _)
    (Nat.zero_le i) less (fun inside => clear (inSecret_of_inside inside))
    (fun inside => clear' (inSecret_of_inside inside))

variable (r text)

theorem valueSpans_passed : Passed r text none 0 (r.valueSpans text) :=
  hide_passed r text text.length 0 (by omega) none

theorem redactText_survive : Survive text (r.redactText text) (r.Kept text) := by
  have passed := r.valueSpans_passed (r.maskSecrets text)
  refine ⟨fun i => place 0 (r.valueSpans (r.maskSecrets text)) (r.maskedPlace text i), ?_, ?_⟩
  · intro i kept j kept' less
    exact place_lt_place passed.apart passed.after (Nat.zero_le _)
      (maskedPlace_lt less kept.2.1 kept'.2.1) kept.2.2 kept'.2.2
  · rintro i ⟨bound, clear, outside⟩
    have shown := getElem?_maskSecrets bound clear
    have inMasked : r.maskedPlace text i < (r.maskSecrets text).length := by
      rw [List.getElem?_eq_getElem bound] at shown
      exact (List.getElem?_eq_some_iff.mp shown).1
    have again := getElem?_maskFrom passed.apart passed.after (Nat.zero_le _) inMasked outside
    rw [← passed.masks, shown] at again
    exact again

theorem maskSecrets_eq_self (clean : ∀ value ∈ r.secretValues, ¬ value <:+: text) :
    r.maskSecrets text = text := by
  have none : r.spans text = [] := by
    rw [spans, List.flatMap_eq_nil_iff]
    intro value registered
    rw [List.eq_nil_iff_forall_not_mem]
    intro span isSpan
    obtain ⟨i, _, occurs⟩ := exists_of_mem_spansFrom isSpan
    exact clean value registered occurs.infix
  rw [maskSecrets, none]
  rfl

theorem redactText_redactText (unmarked : ∀ value ∈ r.secretValues, Unmarked value) :
    r.redactText (r.redactText text) = r.redactText text := by
  have clean : ∀ value ∈ r.secretValues, ¬ value <:+: r.redactText text :=
    fun value registered => r.not_infix_redactText text registered (unmarked value registered)
  have masked := r.maskSecrets_eq_self _ clean
  rw [redactText, masked]
  exact hide_hide r _ (r.maskSecrets text) le_rfl none

theorem redactText_scrubs (unmarked : ∀ value ∈ r.secretValues, Unmarked value) :
    (∀ value ∈ r.secretValues, ¬ value <:+: r.redactText text) ∧
      Survive text (r.redactText text) (r.Kept text) ∧
      r.redactText (r.redactText text) = r.redactText text :=
  ⟨fun value registered => r.not_infix_redactText text registered (unmarked value registered),
    r.redactText_survive text, r.redactText_redactText text unmarked⟩

end Redactor

section Spaced

def spacedSecret : Redactor where
  isAlnum := Char.isAlphanum
  secretValues := ["abc def".toList]
  nonempty := by simp

theorem unmarked_spacedSecret : ∀ value ∈ spacedSecret.secretValues, Unmarked value := by
  intro value registered
  obtain rfl := List.mem_singleton.mp registered
  constructor <;> decide +kernel

theorem redactText_scrubs_spaced :
    (∀ value ∈ spacedSecret.secretValues, Unmarked value) ∧
      (∀ value ∈ spacedSecret.secretValues,
        ¬ value <:+: spacedSecret.redactText "token=abc def-xyz".toList) ∧
      Redactor.Survive "token=abc def-xyz".toList
        (spacedSecret.redactText "token=abc def-xyz".toList)
        (spacedSecret.Kept "token=abc def-xyz".toList) ∧
      spacedSecret.redactText (spacedSecret.redactText "token=abc def-xyz".toList)
        = spacedSecret.redactText "token=abc def-xyz".toList :=
  ⟨unmarked_spacedSecret, spacedSecret.redactText_scrubs _ unmarked_spacedSecret⟩

/-- The marker of a value with a space joins the key to what follows the value: `-xyz` is in no
occurrence of it, and the key's value in the text is `abc`, but it is masked. -/
theorem spaced_secret_hides_more :
    (∀ value ∈ spacedSecret.secretValues, Unmarked value) ∧
      ¬ Redactor.Survive "token=abc def-xyz".toList
        (spacedSecret.redactText "token=abc def-xyz".toList)
        (fun i => i < "token=abc def-xyz".toList.length ∧
          ¬ spacedSecret.InSecret "token=abc def-xyz".toList i ∧
          ¬ spacedSecret.InValue "token=abc def-xyz".toList i) := by
  refine ⟨unmarked_spacedSecret, ?_⟩
  rintro ⟨seat, _, same⟩
  have shown : spacedSecret.redactText "token=abc def-xyz".toList = "token=[REDACTED]".toList := by
    decide +kernel
  have values : spacedSecret.valueSpans "token=abc def-xyz".toList = [(6, 9)] := by decide +kernel
  have clear : ¬ spacedSecret.InSecret "token=abc def-xyz".toList 13 := by
    rintro ⟨value, registered, start, occurs, starts, ends⟩
    obtain rfl := List.mem_singleton.mp registered
    have nowhere : ∀ start ≤ 13, 13 < start + 7 →
        ¬ Find.Occurs "abc def".toList "token=abc def-xyz".toList start := by decide +kernel
    exact nowhere start starts ends occurs
  have outside : ¬ spacedSecret.InValue "token=abc def-xyz".toList 13 := by
    rw [Redactor.InValue, values]
    simp [Inside]
  have lost := same 13 ⟨by decide, clear, outside⟩
  rw [shown] at lost
  have dash : "token=abc def-xyz".toList[13]? = some '-' := by decide +kernel
  rw [dash] at lost
  have found := List.mem_of_getElem? lost
  exact absurd found (by decide +kernel)

end Spaced

end Kdive.Console
