import Kdive.Lib.Regex
import Kdive.Lib.Utf8
import Mathlib.Data.List.Sort

/-!
The redactor of the persistence paths: every occurrence of a registered value is masked, overlapping
occurrences together, and then the value of every `key=value` whose key names a secret.
-/
namespace Kdive.Console
open Masking

abbrev Text := List Char
abbrev Bytes := List UInt8

def redacted : Text := "REDACTED".toList

def redaction : Text := '[' :: (redacted ++ [']'])

/-- The values of the registry snapshot and the explicit ones, without the empty ones. `isAlnum`
is `str.isalnum` of the interpreter's Unicode tables, which a word boundary looks up. -/
structure Redactor where
  isAlnum : Char → Bool
  secretValues : List Text
  nonempty : ∀ value ∈ secretValues, value ≠ []

def Redactor.new (isAlnum : Char → Bool) (snapshot secretValues : List Text) : Redactor where
  isAlnum := isAlnum
  secretValues := (snapshot ++ secretValues).filter (fun value => !value.isEmpty)
  nonempty := by
    intro value kept
    simpa using (List.mem_filter.mp kept).2

section KeyValue

/-- The letters a case-insensitive Unicode pattern identifies: the ASCII cases, and the four
further letters whose case variant is ASCII. -/
def foldCase (c : Char) : Char :=
  if c = Char.ofNat 0x130 ∨ c = Char.ofNat 0x131 then 'i'
  else if c = Char.ofNat 0x17F then 's'
  else if c = Char.ofNat 0x212A then 'k'
  else c.toLower

def isNameChar (c : Char) : Bool :=
  let c := foldCase c
  (decide ('a' ≤ c) && decide (c ≤ 'z')) || c.isDigit || c == '_' || c == '-'

def isSpace (c : Char) : Bool :=
  let n := c.toNat
  (9 ≤ n && n ≤ 13) || (28 ≤ n && n ≤ 32) || n == 0x85 || n == 0xA0 || n == 0x1680 ||
    (0x2000 ≤ n && n ≤ 0x200A) || n == 0x2028 || n == 0x2029 || n == 0x202F || n == 0x205F ||
    n == 0x3000

def Redactor.isWord (r : Redactor) (c : Char) : Bool := r.isAlnum c || c == '_'

def Redactor.wordBoundary (r : Redactor) (last : Option Char) (text : Text) : Bool :=
  last.any r.isWord != text.head?.any r.isWord

def literal (letters : String) : Regex Char :=
  Regex.word (fun c found => foldCase found == c) letters.toList

def secretWord : Regex Char :=
  let apiKey := Regex.seq (literal "api")
    (.seq (.optional (.one (fun c => c == '_' || c == '-'))) (literal "key"))
  .alt (literal "password") (.alt (literal "passwd") (.alt (literal "token")
    (.alt apiKey (literal "secret"))))

def secretName : Regex Char := .seq (.many isNameChar) (.seq secretWord (.many isNameChar))

def separator : Regex Char :=
  .seq (.many isSpace) (.seq (.one (fun c => c == '=' || c == ':')) (.many isSpace))

def secretValue : Regex Char := .some (fun c => !isSpace c)

def keyValuePattern : List (Regex Char) := [secretName, separator, secretValue]

def maskValue : List Text → Text
  | [name, sep, _] => name ++ sep ++ redaction
  | taken => taken.flatten

end KeyValue

section Spans

abbrev Span := Nat × Nat

def spansFrom (value : Text) : Nat → Text → List Span
  | _, [] => []
  | start, c :: rest =>
    if value <+: c :: rest then
      (start, start + value.length) :: spansFrom value (start + 1) rest
    else spansFrom value (start + 1) rest

def Redactor.spans (r : Redactor) (text : Text) : List Span :=
  r.secretValues.flatMap (fun value => spansFrom value 0 text)

def Span.le (a b : Span) : Prop := a.1 < b.1 ∨ a.1 = b.1 ∧ a.2 ≤ b.2

instance : DecidableRel Span.le := fun a b =>
  inferInstanceAs (Decidable (a.1 < b.1 ∨ a.1 = b.1 ∧ a.2 ≤ b.2))

def mergeSpan : List Span → Span → List Span
  | [], span => [span]
  | last :: merged, span =>
    if span.1 < last.2 then (last.1, max last.2 span.2) :: merged else span :: last :: merged

def mergeSpans (spans : List Span) : List Span :=
  ((spans.insertionSort Span.le).foldl mergeSpan []).reverse

def maskFrom (text : Text) : Nat → List Span → Text
  | cursor, [] => text.drop cursor
  | cursor, span :: rest =>
    (text.take span.1).drop cursor ++ redaction ++ maskFrom text span.2 rest

end Spans

def Redactor.maskSecrets (r : Redactor) (text : Text) : Text :=
  maskFrom text 0 (mergeSpans (r.spans text))

def Redactor.redactText (r : Redactor) (text : Text) : Text :=
  Regex.sub r.wordBoundary keyValuePattern maskValue (r.maskSecrets text)

def Redactor.redact (r : Redactor) (data : Bytes) : Bytes :=
  Utf8.encode (r.redactText (Utf8.decode data))

section Merging

structure Apart (spans : List Span) : Prop where
  ordered : ∀ span ∈ spans, span.1 ≤ span.2
  apart : spans.Pairwise (fun earlier later => earlier.2 ≤ later.1)

def Covered (span : Span) (merged : List Span) : Prop :=
  ∃ wide ∈ merged, wide.1 ≤ span.1 ∧ span.2 ≤ wide.2

/-- What merging knows of the spans merged so far: the next ones start no earlier than the last
of them. -/
structure Merged (merged : List Span) (next : Nat) : Prop where
  ordered : ∀ span ∈ merged, span.1 ≤ span.2
  apart : merged.Pairwise (fun later earlier => earlier.2 ≤ later.1)
  starts : ∀ span ∈ merged, span.1 ≤ next

theorem mergeSpan_merged {merged : List Span} {span : Span} (known : Merged merged span.1)
    (proper : span.1 ≤ span.2) : Merged (mergeSpan merged span) span.1 := by
  cases merged with
  | nil => exact ⟨by simpa [mergeSpan] using proper, by simp [mergeSpan], by simp [mergeSpan]⟩
  | cons last merged =>
    have lastOrdered : last.1 ≤ last.2 := known.ordered last List.mem_cons_self
    have lastStarts : last.1 ≤ span.1 := known.starts last List.mem_cons_self
    have before : ∀ earlier ∈ merged, earlier.2 ≤ last.1 := (List.pairwise_cons.mp known.apart).1
    have others : merged.Pairwise (fun later earlier => earlier.2 ≤ later.1) :=
      (List.pairwise_cons.mp known.apart).2
    rw [mergeSpan]
    split
    · constructor
      · intro s isMerged
        rcases List.mem_cons.mp isMerged with rfl | old
        · exact lastOrdered.trans (le_max_left _ _)
        · exact known.ordered s (List.mem_cons_of_mem last old)
      · exact List.pairwise_cons.mpr ⟨before, others⟩
      · intro s isMerged
        rcases List.mem_cons.mp isMerged with rfl | old
        · exact lastStarts
        · exact known.starts s (List.mem_cons_of_mem last old)
    · rename_i beyond
      constructor
      · intro s isMerged
        rcases List.mem_cons.mp isMerged with rfl | old
        · exact proper
        · exact known.ordered s old
      · refine List.pairwise_cons.mpr ⟨?_, known.apart⟩
        intro earlier isOld
        rcases List.mem_cons.mp isOld with rfl | old
        · exact Nat.le_of_not_lt beyond
        · have := before earlier old
          omega
      · intro s isMerged
        rcases List.mem_cons.mp isMerged with rfl | old
        · exact le_rfl
        · exact known.starts s old

theorem covered_mergeSpan {merged : List Span} {span : Span} (known : Merged merged span.1) :
    Covered span (mergeSpan merged span) ∧
      ∀ old, Covered old merged → Covered old (mergeSpan merged span) := by
  cases merged with
  | nil => exact ⟨⟨span, by simp [mergeSpan]⟩, fun old ⟨_, isOld, _⟩ => absurd isOld (by simp)⟩
  | cons last merged =>
    have lastStarts : last.1 ≤ span.1 := known.starts last List.mem_cons_self
    rw [mergeSpan]
    split
    · constructor
      · exact ⟨_, List.mem_cons_self, lastStarts, le_max_right _ _⟩
      · rintro old ⟨wide, isOld, starts, ends⟩
        rcases List.mem_cons.mp isOld with rfl | earlier
        · exact ⟨_, List.mem_cons_self, starts, ends.trans (le_max_left _ _)⟩
        · exact ⟨wide, List.mem_cons_of_mem _ earlier, starts, ends⟩
    · constructor
      · exact ⟨span, List.mem_cons_self, le_rfl, le_rfl⟩
      · rintro old ⟨wide, isOld, starts, ends⟩
        exact ⟨wide, List.mem_cons_of_mem _ isOld, starts, ends⟩

theorem foldl_mergeSpan {spans : List Span} (proper : ∀ span ∈ spans, span.1 ≤ span.2)
    (sorted : spans.Pairwise Span.le) :
    ∀ merged, (∀ span ∈ spans, Merged merged span.1) → (spans = [] → ∃ n, Merged merged n) →
      (∃ n, Merged (spans.foldl mergeSpan merged) n) ∧
      (∀ span, span ∈ spans ∨ Covered span merged → Covered span (spans.foldl mergeSpan merged)) := by
  induction spans with
  | nil =>
    intro merged _ known
    exact ⟨known rfl, fun span either => either.elim (fun bad => absurd bad (by simp)) id⟩
  | cons first rest ih =>
    intro merged known _
    have isKnown : Merged merged first.1 := known first List.mem_cons_self
    have step : Merged (mergeSpan merged first) first.1 :=
      mergeSpan_merged isKnown (proper first List.mem_cons_self)
    have later : ∀ span ∈ rest, Merged (mergeSpan merged first) span.1 := by
      intro span isLater
      have after : first.1 ≤ span.1 := by
        rcases (List.pairwise_cons.mp sorted).1 span isLater with less | ⟨same, _⟩ <;> omega
      exact ⟨step.ordered, step.apart, fun s isMerged => (step.starts s isMerged).trans after⟩
    obtain ⟨result, covers⟩ := ih (fun span isLater => proper span (List.mem_cons_of_mem first isLater))
      (List.pairwise_cons.mp sorted).2 (mergeSpan merged first) later (fun _ => ⟨_, step⟩)
    have covered := covered_mergeSpan isKnown
    refine ⟨result, ?_⟩
    rintro span (isSpan | old)
    · rcases List.mem_cons.mp isSpan with rfl | isLater
      · exact covers span (.inr covered.1)
      · exact covers span (.inl isLater)
    · exact covers span (.inr (covered.2 span old))

theorem mergeSpans_spec {spans : List Span} (proper : ∀ span ∈ spans, span.1 ≤ span.2) :
    Apart (mergeSpans spans) ∧ ∀ span ∈ spans, Covered span (mergeSpans spans) := by
  have : Std.Total Span.le := ⟨fun a b => by unfold Span.le; omega⟩
  have : IsTrans Span Span.le := ⟨fun a b c => by unfold Span.le; omega⟩
  have isPerm := List.perm_insertionSort Span.le spans
  have empty : ∀ n, Merged [] n := fun n => ⟨by simp, by simp, by simp⟩
  obtain ⟨⟨n, known⟩, covers⟩ := foldl_mergeSpan
    (fun span isSpan => proper span (isPerm.mem_iff.mp isSpan))
    (List.pairwise_insertionSort Span.le spans) [] (fun span _ => empty span.1) (fun _ => ⟨0, empty 0⟩)
  constructor
  · constructor
    · intro span isMerged
      exact known.ordered span (List.mem_reverse.mp isMerged)
    · exact List.pairwise_reverse.mpr known.apart
  · intro span isSpan
    obtain ⟨wide, isWide, inside⟩ := covers span (.inl (isPerm.mem_iff.mpr isSpan))
    exact ⟨wide, List.mem_reverse.mpr isWide, inside⟩

theorem mem_spansFrom {value : Text} (someValue : value ≠ []) :
    ∀ (text : Text) (start i : Nat), value <+: text.drop i →
      (start + i, start + i + value.length) ∈ spansFrom value start text := by
  intro text
  induction text with
  | nil =>
    intro start i lead
    exact absurd (by simpa using lead) someValue
  | cons c rest ih =>
    intro start i lead
    rw [spansFrom]
    cases i with
    | zero =>
      rw [if_pos (by simpa using lead)]
      exact List.mem_cons_self
    | succ i =>
      have later := ih (start + 1) i (by simpa using lead)
      have shift : start + 1 + i = start + (i + 1) := by omega
      rw [shift] at later
      split
      · exact List.mem_cons_of_mem _ later
      · exact later

theorem le_of_mem_spansFrom {value text : Text} :
    ∀ {start : Nat}, ∀ span ∈ spansFrom value start text, span.1 ≤ span.2 := by
  induction text with
  | nil => simp [spansFrom]
  | cons c rest ih =>
    intro start span isSpan
    rw [spansFrom] at isSpan
    split at isSpan
    · rcases List.mem_cons.mp isSpan with rfl | later
      · exact Nat.le_add_right start value.length
      · exact ih span later
    · exact ih span isSpan

end Merging

section Masking

variable {text : Text}

theorem maskFrom_masked : ∀ {spans : List Span} {cursor : Nat}, Apart spans →
    (∀ span ∈ spans, cursor ≤ span.1) →
    Masked redaction (text.drop cursor) (maskFrom text cursor spans) := by
  intro spans
  induction spans with
  | nil =>
    intro cursor _ _
    exact Masked.refl _
  | cons span rest ih =>
    intro cursor apart after
    have starts : cursor ≤ span.1 := after span List.mem_cons_self
    have proper : span.1 ≤ span.2 := apart.ordered span List.mem_cons_self
    have others := ih
      ⟨fun s isLater => apart.ordered s (List.mem_cons_of_mem span isLater),
        (List.pairwise_cons.mp apart.apart).2⟩ (List.pairwise_cons.mp apart.apart).1
    have split : text.drop cursor = (text.take span.1).drop cursor ++
        ((text.drop span.1).take (span.2 - span.1) ++ text.drop span.2) := by
      have inner : (text.drop span.1).take (span.2 - span.1) ++ text.drop span.2
          = text.drop span.1 := by
        have ends : text.drop span.2 = (text.drop span.1).drop (span.2 - span.1) := by
          rw [List.drop_drop, Nat.add_sub_cancel' proper]
        rw [ends, List.take_append_drop]
      have drops : text.drop span.1 = (text.drop cursor).drop (span.1 - cursor) := by
        rw [List.drop_drop, Nat.add_sub_cancel' starts]
      rw [inner, List.drop_take, drops, List.take_append_drop]
    rw [split, maskFrom, List.append_assoc]
    exact (Masked.mask _ others).keep_all _

/-- A string that can be read off the masked text was in the text, outside every span. -/
theorem exists_outside_of_maskFrom {s : Text} (noOpening : '[' ∉ s) (noClosing : ']' ∉ s)
    (notMarker : ¬ s <:+: redacted) : ∀ {spans : List Span} {cursor : Nat}, Apart spans →
    (∀ span ∈ spans, cursor ≤ span.1) → s <:+: maskFrom text cursor spans →
    ∃ i, cursor ≤ i ∧ s <+: text.drop i ∧ ∀ span ∈ spans, i + s.length ≤ span.1 ∨ span.2 ≤ i := by
  intro spans
  induction spans with
  | nil =>
    rintro cursor _ _ ⟨before, after, whole⟩
    refine ⟨cursor + before.length, by omega, ⟨after, ?_⟩, by simp⟩
    rw [maskFrom] at whole
    rw [← List.drop_drop, ← whole, List.append_assoc, List.drop_left]
  | cons span rest ih =>
    intro cursor apart after found
    have starts : cursor ≤ span.1 := after span List.mem_cons_self
    have later : ∀ s ∈ rest, span.2 ≤ s.1 := (List.pairwise_cons.mp apart.apart).1
    have proper : span.1 ≤ span.2 := apart.ordered span List.mem_cons_self
    have split : s <:+: (text.take span.1).drop cursor ++
        '[' :: (redacted ++ ']' :: maskFrom text span.2 rest) := by
      simpa [maskFrom, redaction] using found
    rcases infix_append_cons noOpening split with gap | afterOpening
    · obtain ⟨before, behind, whole⟩ := gap
      have fits : cursor + before.length + s.length ≤ span.1 ∨ s = [] := by
        have size := congrArg List.length whole
        simp only [List.length_append, List.length_drop, List.length_take] at size
        rcases Nat.eq_zero_or_pos s.length with none | some
        · exact .inr (List.length_eq_zero_iff.mp none)
        · left
          omega
      rcases fits with fits | rfl
      · refine ⟨cursor + before.length, by omega, ?_, ?_⟩
        · have here : s ++ behind = ((text.take span.1).drop cursor).drop before.length := by
            rw [← whole, List.append_assoc, List.drop_left]
          have lead : s ++ behind <+: text.drop (cursor + before.length) := by
            rw [here, ← List.drop_drop]
            exact ((List.take_prefix span.1 text).drop cursor).drop before.length
          exact (List.prefix_append s behind).trans lead
        · intro other isSpan
          rcases List.mem_cons.mp isSpan with rfl | isLater
          · exact .inl fits
          · have := later other isLater
            left
            omega
      · exact absurd List.nil_infix notMarker
    · rcases infix_append_cons noClosing afterOpening with inMarker | beyond
      · exact absurd inMarker notMarker
      · obtain ⟨i, past, lead, outside⟩ := ih
          ⟨fun s isLater => apart.ordered s (List.mem_cons_of_mem span isLater),
            (List.pairwise_cons.mp apart.apart).2⟩ later beyond
        refine ⟨i, by omega, lead, ?_⟩
        intro other isSpan
        rcases List.mem_cons.mp isSpan with rfl | isLater
        · exact .inr past
        · exact outside other isLater

theorem keyValue_hides (taken : List Text)
    (matched : Regex.groups keyValuePattern text = some taken) :
    ∃ kept hidden after, hidden ≠ [] ∧ maskValue taken = kept ++ redaction ∧
      taken.flatten = kept ++ hidden ∧ text = kept ++ hidden ++ after := by
  obtain ⟨name, isName, _, matchedSep, rfl⟩ := Regex.groups_cons matched
  obtain ⟨sep, isSep, _, matchedValue, rfl⟩ := Regex.groups_cons matchedSep
  obtain ⟨value, isValue, _, done, rfl⟩ := Regex.groups_cons matchedValue
  obtain rfl := Option.some.inj done
  refine ⟨name.1 ++ sep.1, value.1, value.2, Regex.some_ne_nil value isValue, rfl, by simp, ?_⟩
  have whole := Regex.splits_append secretName text name isName
  have afterName := Regex.splits_append separator name.2 sep isSep
  have afterSep := Regex.splits_append secretValue sep.2 value isValue
  rw [List.append_assoc, afterSep, List.append_assoc, afterName, whole]

end Masking

/-- A secret that cannot be read off the marker or off text next to one. -/
structure Unmarked (secret : Text) : Prop where
  noOpening : '[' ∉ secret
  noClosing : ']' ∉ secret
  notMarker : ¬ secret <:+: redacted

namespace Redactor

variable (r : Redactor) (text : Text)

theorem spans_proper : ∀ span ∈ r.spans text, span.1 ≤ span.2 := by
  intro span isSpan
  obtain ⟨value, _, found⟩ := List.mem_flatMap.mp isSpan
  exact le_of_mem_spansFrom span found

theorem maskSecrets_masked : Masked redaction text (r.maskSecrets text) :=
  maskFrom_masked (mergeSpans_spec (r.spans_proper text)).1 (fun _ _ => Nat.zero_le _)

theorem sub_masked :
    Masked redaction text (Regex.sub r.wordBoundary keyValuePattern maskValue text) :=
  Regex.subFrom_masked (fun _ taken matched => keyValue_hides taken matched) text none 0

theorem redactText_conceals : Conceals '[' ']' redacted text (r.redactText text) :=
  (r.maskSecrets_masked text).conceals.trans (r.sub_masked (r.maskSecrets text)).conceals

theorem mem_redactText {c : Char} (found : c ∈ r.redactText text) : c ∈ text ∨ c ∈ redaction := by
  rcases (r.sub_masked (r.maskSecrets text)).mem_of_mem found with kept | marker
  · exact (r.maskSecrets_masked text).mem_of_mem kept
  · exact .inr marker

/-- A secret the marker does not spell out is never read off the redacted text. -/
theorem not_infix_redactText {secret : Text} (registered : secret ∈ r.secretValues)
    (unmarked : Unmarked secret) : ¬ secret <:+: r.redactText text := by
  intro found
  have masked : secret <:+: r.maskSecrets text :=
    (r.sub_masked (r.maskSecrets text)).conceals.inner secret unmarked.noOpening
      unmarked.noClosing unmarked.notMarker found
  have merged := mergeSpans_spec (r.spans_proper text)
  obtain ⟨i, _, lead, outside⟩ := exists_outside_of_maskFrom unmarked.noOpening
    unmarked.noClosing unmarked.notMarker merged.1 (fun _ _ => Nat.zero_le _) masked
  have isSpan : (i, i + secret.length) ∈ r.spans text := by
    have here := mem_spansFrom (r.nonempty secret registered) text 0 i lead
    exact List.mem_flatMap.mpr ⟨secret, registered, by simpa using here⟩
  obtain ⟨wide, isWide, starts, ends⟩ := merged.2 _ isSpan
  have positive : 0 < secret.length := List.length_pos_iff.mpr (r.nonempty secret registered)
  dsimp only at starts ends
  rcases outside wide isWide with before | after <;> omega

theorem not_infix_redact {secret : Text} (registered : secret ∈ r.secretValues)
    (unmarked : Unmarked secret) (data : Bytes) : ¬ Utf8.encode secret <:+: r.redact data :=
  fun found => r.not_infix_redactText _ registered unmarked (Utf8.infix_of_encode found)

theorem toNat_lt_of_mem_redaction : ∀ c ∈ redaction, c.toNat < 128 := by
  have every : redaction.all (fun c => decide (c.toNat < 128)) = true := by decide +kernel
  intro c isMarker
  exact of_decide_eq_true (List.all_eq_true.mp every c isMarker)

section Ascii

variable {data : Bytes}

theorem redactText_ascii (ascii : Utf8.Ascii data) :
    ∀ c ∈ r.redactText (Utf8.decode data), c.toNat < 128 := by
  intro c found
  rcases r.mem_redactText _ found with kept | marker
  · rw [Utf8.decode_ascii ascii] at kept
    obtain ⟨b, isByte, rfl⟩ := List.mem_map.mp kept
    rw [Utf8.toNat_toChar (ascii b isByte)]
    exact ascii b isByte
  · exact toNat_lt_of_mem_redaction c marker

theorem redact_eq_map (ascii : Utf8.Ascii data) :
    r.redact data = (r.redactText (Utf8.decode data)).map Utf8.toByte :=
  Utf8.encode_ascii (r.redactText_ascii ascii)

theorem redact_ascii (ascii : Utf8.Ascii data) : Utf8.Ascii (r.redact data) := by
  intro b found
  rw [r.redact_eq_map ascii] at found
  obtain ⟨c, isChar, rfl⟩ := List.mem_map.mp found
  exact Utf8.toByte_lt (r.redactText_ascii ascii c isChar)

theorem redact_conceals (ascii : Utf8.Ascii data) :
    Conceals (Utf8.toByte '[') (Utf8.toByte ']') (redacted.map Utf8.toByte) data
      (r.redact data) := by
  have same : (Utf8.decode data).map Utf8.toByte = data := by
    rw [Utf8.decode_ascii ascii, Utf8.map_toByte_toChar ascii]
  rw [r.redact_eq_map ascii]
  have first := (r.maskSecrets_masked (Utf8.decode data)).map Utf8.toByte
  have second := (r.sub_masked (r.maskSecrets (Utf8.decode data))).map Utf8.toByte
  rw [same] at first
  have shape : redaction.map Utf8.toByte
      = Utf8.toByte '[' :: (redacted.map Utf8.toByte ++ [Utf8.toByte ']']) := by
    simp [redaction]
  rw [shape] at first second
  exact first.conceals.trans second.conceals

end Ascii

end Redactor

end Kdive.Console
