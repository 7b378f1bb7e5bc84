import Kdive.Console.Scrubbed

/-!
Redacting a stream in pieces. The pieces of a cut stream are redacted as the whole is if no cut falls in
a character, in an occurrence of a registered value, or in a key with its value; only the second piece's
first character is read without what stands before it.
-/
namespace Kdive.Console
open Masking

section Masks

variable {left right : Text}

def Span.shift (n : Nat) (span : Span) : Span := (n + span.1, n + span.2)

theorem spansFrom_shift (value text : Text) (n start : Nat) :
    spansFrom value (n + start) text = (spansFrom value start text).map (Span.shift n) := by
  induction text generalizing start with
  | nil => rfl
  | cons c rest ih =>
    have later := ih (start + 1)
    rw [← Nat.add_assoc] at later
    rw [spansFrom, spansFrom, later]
    split
    · rw [List.map_cons, Nat.add_assoc]
      rfl
    · rfl

theorem prefix_append_iff {value : Text} (uncut : ¬ Crosses value [left, right]) (filled : left ≠ []) :
    value <+: left ++ right ↔ value <+: left := by
  refine ⟨fun found => ?_, fun found => found.trans (List.prefix_append _ _)⟩
  rcases List.prefix_or_prefix_of_prefix found (List.prefix_append left right) with within | beyond
  · exact within
  · obtain ⟨v, rfl⟩ := beyond
    by_cases empty : v = []
    · rw [empty, List.append_nil]
    · refine absurd (crosses_pair.mpr ⟨left, v, filled, empty, rfl, List.suffix_refl _, ?_⟩) uncut
      exact (List.prefix_append_right_inj left).mp found

theorem spansFrom_append {value : Text} (uncut : ¬ Crosses value [left, right]) (start : Nat) :
    spansFrom value start (left ++ right) =
      spansFrom value start left ++ spansFrom value (start + left.length) right := by
  induction left generalizing start with
  | nil => rfl
  | cons c rest ih =>
    have inner : ¬ Crosses value [rest, right] := by
      intro crosses
      obtain ⟨u, v, someU, someV, parts, trail, lead⟩ := crosses_pair.mp crosses
      exact uncut (crosses_pair.mpr
        ⟨u, v, someU, someV, parts, trail.trans (List.suffix_cons c rest), lead⟩)
    have same := prefix_append_iff uncut (List.cons_ne_nil c rest)
    rw [List.cons_append] at same
    have count : start + 1 + rest.length = start + (c :: rest).length := by
      rw [List.length_cons]
      omega
    rw [List.cons_append, spansFrom, spansFrom, ih inner, count]
    by_cases found : value <+: c :: rest
    · rw [if_pos found, if_pos (same.mpr found), List.cons_append]
    · rw [if_neg found, if_neg (fun other => found (same.mp other))]

theorem spans_append {r : Redactor} (uncut : ∀ value ∈ r.secretValues, ¬ Crosses value [left, right]) :
    (r.spans (left ++ right)).Perm (r.spans left ++ (r.spans right).map (Span.shift left.length)) := by
  unfold Redactor.spans
  generalize r.secretValues = values at uncut
  induction values with
  | nil => exact .nil
  | cons value values ih =>
    have here := spansFrom_append (uncut value List.mem_cons_self) 0
    have shifted := spansFrom_shift value right left.length 0
    rw [Nat.zero_add] at here
    rw [Nat.add_zero] at shifted
    have others := ih (fun value member => uncut value (List.mem_cons_of_mem _ member))
    rw [List.flatMap_cons, List.flatMap_cons, List.flatMap_cons, List.map_append, here, shifted]
    refine ((List.Perm.refl _).append others).trans ?_
    rw [List.append_assoc, List.append_assoc]
    refine (List.Perm.refl _).append ?_
    rw [← List.append_assoc, ← List.append_assoc]
    exact List.perm_append_comm.append_right _

theorem bounds_of_mem_spans {r : Redactor} {text : Text} {span : Span} (isSpan : span ∈ r.spans text) :
    span.1 < text.length ∧ span.2 ≤ text.length := by
  obtain ⟨value, registered, found⟩ := List.mem_flatMap.mp isSpan
  have some := List.length_pos_iff.mpr (r.nonempty value registered)
  obtain ⟨i, rfl, inside, -⟩ := exists_of_mem_spansFrom found
  dsimp only
  omega

instance : Std.Total Span.le := ⟨fun a b => by unfold Span.le; omega⟩

instance : IsTrans Span Span.le := ⟨fun a b c => by unfold Span.le; omega⟩

instance : Std.Antisymm Span.le := ⟨fun a b first second => by
  unfold Span.le at first second
  exact Prod.ext (by omega) (by omega)⟩

theorem insertionSort_eq {spans sorted : List Span} (same : spans.Perm sorted)
    (ordered : sorted.Pairwise Span.le) : spans.insertionSort Span.le = sorted :=
  List.Perm.eq_of_pairwise' (List.pairwise_insertionSort Span.le spans) ordered
    ((List.perm_insertionSort Span.le spans).trans same)

theorem insertionSort_shift (n : Nat) (spans : List Span) :
    (spans.map (Span.shift n)).insertionSort Span.le =
      (spans.insertionSort Span.le).map (Span.shift n) := by
  refine insertionSort_eq ((List.perm_insertionSort Span.le spans).symm.map _) ?_
  refine List.pairwise_map.mpr ((List.pairwise_insertionSort Span.le spans).imp ?_)
  intro a b le
  unfold Span.le Span.shift at *
  dsimp only
  omega

theorem mergeSpan_append {merged base : List Span} {span : Span}
    (after : ∀ earlier ∈ base, earlier.2 ≤ span.1) :
    mergeSpan (merged ++ base) span = mergeSpan merged span ++ base := by
  cases merged with
  | cons last merged =>
    rw [List.cons_append, mergeSpan, mergeSpan]
    split
    · rfl
    · rfl
  | nil =>
    cases base with
    | nil => rfl
    | cons last base =>
      have beyond := after last List.mem_cons_self
      simp only [List.nil_append, mergeSpan, if_neg (Nat.not_lt.mpr beyond)]
      rfl

theorem foldl_mergeSpan_append {spans base : List Span}
    (after : ∀ span ∈ spans, ∀ earlier ∈ base, earlier.2 ≤ span.1) (merged : List Span) :
    spans.foldl mergeSpan (merged ++ base) = spans.foldl mergeSpan merged ++ base := by
  induction spans generalizing merged with
  | nil => rfl
  | cons span rest ih =>
    rw [List.foldl_cons, List.foldl_cons, mergeSpan_append (after span List.mem_cons_self)]
    exact ih (fun span member => after span (List.mem_cons_of_mem _ member)) _

theorem foldl_mergeSpan_shift (n : Nat) (spans merged : List Span) :
    (spans.map (Span.shift n)).foldl mergeSpan (merged.map (Span.shift n)) =
      (spans.foldl mergeSpan merged).map (Span.shift n) := by
  induction spans generalizing merged with
  | nil => rfl
  | cons span rest ih =>
    have step : mergeSpan (merged.map (Span.shift n)) (span.shift n) =
        (mergeSpan merged span).map (Span.shift n) := by
      cases merged with
      | nil => rfl
      | cons last merged =>
        rw [List.map_cons, mergeSpan, mergeSpan]
        simp only [Span.shift, Nat.add_lt_add_iff_left]
        split
        · simp [Span.shift, Nat.add_max_add_left]
        · rfl
    rw [List.map_cons, List.foldl_cons, List.foldl_cons, step, ih]

theorem foldl_mergeSpan_le {n : Nat} {spans merged : List Span} (inside : ∀ span ∈ spans, span.2 ≤ n)
    (before : ∀ span ∈ merged, span.2 ≤ n) : ∀ span ∈ spans.foldl mergeSpan merged, span.2 ≤ n := by
  induction spans generalizing merged with
  | nil => exact before
  | cons span rest ih =>
    refine ih (fun span member => inside span (List.mem_cons_of_mem _ member)) ?_
    have own := inside span List.mem_cons_self
    intro wide member
    cases merged with
    | nil =>
      rw [mergeSpan, List.mem_singleton] at member
      rw [member]
      exact own
    | cons last merged =>
      rw [mergeSpan] at member
      split at member
      · rcases List.mem_cons.mp member with rfl | old
        · exact max_le (before last List.mem_cons_self) own
        · exact before wide (List.mem_cons_of_mem _ old)
      · rcases List.mem_cons.mp member with rfl | old
        · exact own
        · exact before wide old

theorem mergeSpans_append {n : Nat} {spans first second : List Span}
    (same : spans.Perm (first ++ second.map (Span.shift n)))
    (inside : ∀ span ∈ first, span.1 < n ∧ span.2 ≤ n) :
    mergeSpans spans = mergeSpans first ++ (mergeSpans second).map (Span.shift n) := by
  have firstSorted := List.perm_insertionSort Span.le first
  have sorted : spans.insertionSort Span.le = first.insertionSort Span.le ++
      (second.insertionSort Span.le).map (Span.shift n) := by
    refine insertionSort_eq (same.trans ?_) ?_
    · exact firstSorted.symm.append ((List.perm_insertionSort Span.le second).symm.map _)
    · rw [← insertionSort_shift]
      refine List.pairwise_append.mpr ⟨List.pairwise_insertionSort Span.le _,
        List.pairwise_insertionSort Span.le _, fun a isFirst b isSecond => .inl ?_⟩
      have below := (inside a (firstSorted.mem_iff.mp isFirst)).1
      rw [(List.perm_insertionSort Span.le _).mem_iff] at isSecond
      obtain ⟨later, -, rfl⟩ := List.mem_map.mp isSecond
      exact below.trans_le (Nat.le_add_right n _)
  have apart : ∀ span ∈ (second.insertionSort Span.le).map (Span.shift n),
      ∀ earlier ∈ (first.insertionSort Span.le).foldl mergeSpan [], earlier.2 ≤ span.1 := by
    intro span isSpan earlier isEarlier
    obtain ⟨later, -, rfl⟩ := List.mem_map.mp isSpan
    refine le_trans ?_ (Nat.le_add_right n later.1)
    refine foldl_mergeSpan_le (fun span member => ?_) (fun _ none => (by cases none)) earlier isEarlier
    exact (inside span (firstSorted.mem_iff.mp member)).2
  have merged := foldl_mergeSpan_append apart []
  have shifted := foldl_mergeSpan_shift n (second.insertionSort Span.le) []
  rw [List.map_nil] at shifted
  rw [List.nil_append, shifted] at merged
  rw [mergeSpans, sorted, List.foldl_append, merged, List.reverse_append, mergeSpans, mergeSpans,
    List.map_reverse]

theorem maskFrom_shift (left right : Text) (cursor : Nat) (spans : List Span) :
    maskFrom (left ++ right) (left.length + cursor) (spans.map (Span.shift left.length)) =
      maskFrom right cursor spans := by
  induction spans generalizing cursor with
  | nil =>
    rw [List.map_nil, maskFrom, maskFrom, ← List.drop_drop, List.drop_left]
  | cons span rest ih =>
    rw [List.map_cons, maskFrom, maskFrom, Span.shift]
    dsimp only
    rw [ih, List.take_length_add_append, ← List.drop_drop, List.drop_left]

theorem maskFrom_after {cursor : Nat} (inside : cursor ≤ left.length) (right : Text) (spans : List Span) :
    maskFrom (left ++ right) cursor (spans.map (Span.shift left.length)) =
      left.drop cursor ++ maskFrom right 0 spans := by
  cases spans with
  | nil => rw [List.map_nil, maskFrom, maskFrom, List.drop_append_of_le_length inside, List.drop_zero]
  | cons span rest =>
    rw [List.map_cons, maskFrom, maskFrom, Span.shift]
    dsimp only
    rw [maskFrom_shift, List.take_length_add_append, List.drop_append_of_le_length inside, List.drop_zero,
      List.append_assoc, List.append_assoc, List.append_assoc]

theorem maskFrom_append {first : List Span} (right : Text) (second : List Span)
    (bounds : ∀ span ∈ first, span.1 ≤ left.length ∧ span.2 ≤ left.length) {cursor : Nat}
    (inside : cursor ≤ left.length) :
    maskFrom (left ++ right) cursor (first ++ second.map (Span.shift left.length)) =
      maskFrom left cursor first ++ maskFrom right 0 second := by
  induction first generalizing cursor with
  | nil => exact maskFrom_after inside right second
  | cons span rest ih =>
    obtain ⟨starts, ends⟩ := bounds span List.mem_cons_self
    rw [List.cons_append, maskFrom, maskFrom,
      ih (fun span member => bounds span (List.mem_cons_of_mem _ member)) ends,
      List.take_append_of_le_length starts, List.append_assoc, List.append_assoc, List.append_assoc]

theorem maskSecrets_append {r : Redactor}
    (uncut : ∀ value ∈ r.secretValues, ¬ Crosses value [left, right]) :
    r.maskSecrets (left ++ right) = r.maskSecrets left ++ r.maskSecrets right := by
  have inside : ∀ span ∈ r.spans left, span.1 < left.length ∧ span.2 ≤ left.length :=
    fun span isSpan => bounds_of_mem_spans isSpan
  rw [Redactor.maskSecrets, mergeSpans_append (spans_append uncut) inside]
  refine maskFrom_append right _ (fun span isMerged => ?_) (Nat.zero_le _)
  have ends : span.2 ≤ left.length := by
    rw [mergeSpans, List.mem_reverse] at isMerged
    refine foldl_mergeSpan_le (fun span member => ?_) (fun _ none => (by cases none)) span isMerged
    exact (inside span ((List.perm_insertionSort Span.le _).mem_iff.mp member)).2
  have ordered := (mergeSpans_spec (r.spans_proper left)).1.ordered span isMerged
  exact ⟨ordered.trans ends, ends⟩

end Masks

section Keys

variable {r : Redactor} {left right : Text}

/-- No match that begins in the first text, with the other behind it, takes characters of the other. -/
def Redactor.KeysWithin (r : Redactor) : Option Char → Text → Text → Prop
  | _, [], _ => True
  | last, c :: rest, right =>
    (r.wordBoundary last (c :: rest) = true →
      (Regex.groups keyValuePattern (c :: rest ++ right)).all
        (fun taken => decide (taken.flatten.length ≤ (c :: rest).length)) = true) ∧
      r.KeysWithin (some c) rest right

instance decidableKeysWithin (r : Redactor) : ∀ (last : Option Char) (left right : Text),
    Decidable (r.KeysWithin last left right)
  | _, [], _ => isTrue trivial
  | _, _ :: rest, right => @instDecidableAnd _ _ _ (decidableKeysWithin r _ rest right)

theorem hide_last {last last' : Option Char} {text : Text}
    (same : r.wordBoundary last text = r.wordBoundary last' text) : r.hide last text = r.hide last' text := by
  cases text with
  | nil => rfl
  | cons c rest => rw [Redactor.hide, Redactor.hide, Regex.subFrom, Regex.subFrom, same]

theorem Found.within {text name sep value rest : Text} (found : Found (text ++ right) name sep value rest)
    (short : [name, sep, value].flatten.length ≤ text.length) :
    ∃ after, Found text name sep value after ∧ rest = after ++ right := by
  have taken : [name, sep, value].flatten <+: text :=
    List.prefix_of_prefix_length_le ⟨rest, found.whole_flatten.symm⟩ (List.prefix_append text right) short
  obtain ⟨after, split⟩ := taken
  have tail : rest = after ++ right := by
    have whole := found.whole_flatten
    rw [← split, List.append_assoc] at whole
    exact (List.append_cancel_left whole).symm
  refine ⟨after, ⟨?_, found.isName, found.isSep, found.filled, found.unspaced, ?_⟩, tail⟩
  · rw [← split]
    simp
  · intro c isHead
    refine found.ends c ?_
    rw [tail]
    exact List.mem_head?_append_of_mem_head? isHead

theorem groups_of_append (none : Regex.groups keyValuePattern (left ++ right) = none) :
    Regex.groups keyValuePattern left = .none := by
  cases matched : Regex.groups keyValuePattern left with
  | none => rfl
  | some taken =>
    obtain ⟨name, sep, value, rest, -, found⟩ := found_of_groups matched
    refine absurd none (Regex.groups_ne_none found.matched ?_)
    exact List.IsPrefix.trans ⟨rest, found.whole_flatten.symm⟩ (List.prefix_append left right)

theorem keysWithin_drop {passed rest : Text} : ∀ {last : Option Char},
    r.KeysWithin last (passed ++ rest) right → passed ≠ [] → r.KeysWithin passed.getLast? rest right := by
  induction passed with
  | nil => exact fun _ filled => absurd rfl filled
  | cons c passed ih =>
    intro last within _
    cases passed with
    | nil => exact within.2
    | cons d passed =>
      rw [List.getLast?_cons_cons]
      exact ih within.2 (List.cons_ne_nil d passed)

def Redactor.StartsApart (r : Redactor) (left right : Text) : Prop :=
  left.getLast?.any r.isWord = true → Regex.groups keyValuePattern right = none

instance (r : Redactor) (left right : Text) : Decidable (r.StartsApart left right) :=
  inferInstanceAs (Decidable (_ → _))

theorem hide_startsApart (apart : r.StartsApart left right) : r.hide left.getLast? right = r.hide none right := by
  cases right with
  | nil => rfl
  | cons c rest =>
    cases word : left.getLast?.any r.isWord with
    | true =>
      have missed := apart word
      rw [hide_keep (fun _ => missed), hide_keep (fun _ => missed)]
    | false =>
      refine hide_last ?_
      rw [Redactor.wordBoundary, Redactor.wordBoundary, word]
      rfl

/-- Masking the values of a text is masking those of its two parts, if no match reaches over the cut
and the second part begins none that the first rules out. -/
theorem hide_append (apart : r.StartsApart left right) :
    ∀ (n : Nat) (front back : Text), back.length ≤ n → left = front ++ back →
      r.KeysWithin front.getLast? back right →
      r.hide front.getLast? (back ++ right) = r.hide front.getLast? back ++ r.hide none right := by
  intro n
  induction n with
  | zero =>
    intro front back short whole _
    obtain rfl := List.eq_nil_of_length_eq_zero (Nat.le_zero.mp short)
    rw [List.append_nil] at whole
    rw [← whole]
    exact hide_startsApart apart
  | succ n ih =>
    intro front back short whole within
    cases back with
    | nil =>
      rw [List.append_nil] at whole
      rw [← whole]
      exact hide_startsApart apart
    | cons c rest =>
      have boundary : r.wordBoundary front.getLast? (c :: (rest ++ right)) =
          r.wordBoundary front.getLast? (c :: rest) := rfl
      rcases hide_cons_cases r front.getLast? c (rest ++ right) with
        ⟨here, name, sep, value, after, found, masked⟩ | ⟨missed, kept⟩
      · have reach : [name, sep, value].flatten.length ≤ (c :: rest).length := by
          have all := within.1 (boundary.symm.trans here)
          rw [List.cons_append, found.groups] at all
          exact of_decide_eq_true all
        have joined : Found ((c :: rest) ++ right) name sep value after := found
        obtain ⟨tail, inner, rfl⟩ := joined.within reach
        have parts : c :: rest = [name, sep, value].flatten ++ tail := inner.whole_flatten
        have last : (front ++ [name, sep, value].flatten).getLast? = value.getLast? := by
          rw [List.getLast?_append, inner.getLast?_flatten]
          cases ends : value.getLast? with
          | none => exact absurd (List.getLast?_eq_none_iff.mp ends) inner.filled
          | some last => rfl
        have size : tail.length ≤ n := by
          have length := congrArg List.length parts
          have some := List.length_pos_iff.mpr inner.flatten_ne_nil
          rw [List.length_append] at length
          omega
        have later : r.KeysWithin value.getLast? tail right := by
          rw [parts] at within
          rw [← inner.getLast?_flatten]
          exact keysWithin_drop within inner.flatten_ne_nil
        have next := ih (front ++ [name, sep, value].flatten) tail size
          (by rw [whole, parts, List.append_assoc]) (last ▸ later)
        rw [last] at next
        rw [List.cons_append, masked, hide_found (boundary.symm.trans here) inner, next]
        simp only [List.append_assoc]
      · have next := ih (front ++ [c]) rest (by simpa using short) (by rw [whole]; simp)
          (by rw [List.getLast?_concat]; exact within.2)
        rw [List.getLast?_concat] at next
        have alone : r.wordBoundary front.getLast? (c :: rest) = true →
            Regex.groups keyValuePattern (c :: rest) = none :=
          fun here => groups_of_append (missed (boundary.trans here))
        rw [List.cons_append, kept, hide_keep alone, next, List.cons_append]

/-- A cut that falls in no character, in no occurrence of a registered value, and in no key with its
value. -/
structure Redactor.ClearCut (r : Redactor) (first second : Bytes) : Prop where
  characters : Utf8.Uncut first second
  secrets : ∀ value ∈ r.secretValues, ¬ Crosses value [Utf8.decode first, Utf8.decode second]
  keys : r.KeysWithin none (r.maskSecrets (Utf8.decode first)) (r.maskSecrets (Utf8.decode second))
  starts : r.StartsApart (r.maskSecrets (Utf8.decode first)) (r.maskSecrets (Utf8.decode second))

instance (r : Redactor) (first second : Bytes) : Decidable (r.ClearCut first second) :=
  decidable_of_iff
    (Utf8.Uncut first second ∧
      (∀ value ∈ r.secretValues, ¬ Crosses value [Utf8.decode first, Utf8.decode second]) ∧
      r.KeysWithin none (r.maskSecrets (Utf8.decode first)) (r.maskSecrets (Utf8.decode second)) ∧
      r.StartsApart (r.maskSecrets (Utf8.decode first)) (r.maskSecrets (Utf8.decode second)))
    ⟨fun parts => ⟨parts.1, parts.2.1, parts.2.2.1, parts.2.2.2⟩,
      fun clear => ⟨clear.characters, clear.secrets, clear.keys, clear.starts⟩⟩

theorem redact_append {first second : Bytes} (clear : r.ClearCut first second) :
    r.redact (first ++ second) = r.redact first ++ r.redact second := by
  have hidden := hide_append clear.starts _ [] (r.maskSecrets (Utf8.decode first)) le_rfl rfl clear.keys
  rw [Redactor.redact, Utf8.decode_append clear.characters, Redactor.redactText,
    maskSecrets_append clear.secrets]
  change Utf8.encode (r.hide none _) = _
  rw [List.getLast?_nil] at hidden
  rw [hidden, Utf8.encode_append]
  rfl

/-- The cuts of a stream, each after so many bytes more, are all clear. -/
def Redactor.ClearCuts (r : Redactor) : List Nat → Bytes → Prop
  | [], _ => True
  | size :: sizes, data => r.ClearCut (data.take size) (data.drop size) ∧ r.ClearCuts sizes (data.drop size)

instance decidableClearCuts (r : Redactor) : ∀ (sizes : List Nat) (data : Bytes),
    Decidable (r.ClearCuts sizes data)
  | [], _ => isTrue trivial
  | _ :: sizes, _ => @instDecidableAnd _ _ _ (decidableClearCuts r sizes _)

/-- What is cut only at clear places is redacted piece by piece. -/
theorem redact_pieces {pieces : List Bytes} {rest : Bytes}
    (clear : r.ClearCuts (pieces.map List.length) (pieces.flatten ++ rest)) :
    r.redact (pieces.flatten ++ rest) = (pieces.map r.redact).flatten ++ r.redact rest := by
  induction pieces with
  | nil => rfl
  | cons piece pieces ih =>
    rw [List.map_cons, List.flatten_cons, List.append_assoc] at clear
    obtain ⟨first, others⟩ := clear
    rw [List.take_left, List.drop_left] at first
    rw [List.drop_left] at others
    rw [List.flatten_cons, List.append_assoc, redact_append first, ih others, List.map_cons,
      List.flatten_cons, List.append_assoc]

end Keys

end Kdive.Console
