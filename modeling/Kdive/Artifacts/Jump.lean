import Kdive.Lib.Find
import Kdive.Lib.Utf8

/-!
The literal search of `artifacts.get(find=...)`: the nearest match in a direction, the window around
it and the offset to go on from. Following the offsets visits the lines with a match one after the
other, except that a backward search which is sent to offset zero starts again at the end.
-/
namespace Kdive.Artifacts

abbrev Text := List Char
abbrev Bytes := List UInt8

def newline : UInt8 := 10

inductive JumpDirection where
  | forward | backward
  deriving DecidableEq

structure JumpHit where
  matchOffset : Nat
  matchLine : Nat
  windowStart : Nat
  content : Bytes
  nextOffset : Option Nat

def resolveAnchor (size : Nat) (direction : JumpDirection) (byteOffset : Int) : Nat :=
  match direction with
  | .forward => byteOffset.toNat
  | .backward => if byteOffset ≤ 0 then size else min byteOffset.toNat size

def keepBetter (better : Nat → Nat → Bool) : Option Nat → Option Nat → Option Nat
  | best, none => best
  | none, some i => some i
  | some b, some i => if better i b then some i else some b

def bestMatch (better : Nat → Nat → Bool) (found : List (Option Nat)) : Option Nat :=
  found.foldl (keepBetter better) none

def firstMatchAtOrAfter (body : Bytes) (terms : List Bytes) (start : Nat) : Option Nat :=
  bestMatch (fun i best => i < best) (terms.map (fun term => Find.find body term start))

def lastMatchAtOrBefore (body : Bytes) (terms : List Bytes) (stop : Nat) : Option Nat :=
  bestMatch (fun i best => best < i) (terms.map (fun term => Find.rfind body term (stop + 1)))

def lineBounds (body : Bytes) (offset : Nat) : Nat × Nat :=
  (((Find.rfind body [newline] offset).map (· + 1)).getD 0,
    (Find.find body [newline] offset).getD body.length)

def hitAt (body : Bytes) (direction : JumpDirection) (maxBytes found : Nat) : JumpHit :=
  let size := body.length
  let (lineStart, lineEnd) := lineBounds body found
  let matchLine := (body.take found).count newline + 1
  match direction with
  | .forward =>
    let windowStart := if found - lineStart < maxBytes then lineStart else found
    let windowEnd := min size (windowStart + maxBytes)
    ⟨found, matchLine, windowStart, (body.take windowEnd).drop windowStart,
      if lineEnd < size then some (lineEnd + 1) else none⟩
  | .backward =>
    -- a long line can push the match out of the window
    let pushed := decide (found < lineEnd - maxBytes)
    let windowStart := if pushed then found else lineEnd - maxBytes
    let windowEnd := if pushed then min size (found + maxBytes) else lineEnd
    ⟨found, matchLine, windowStart, (body.take windowEnd).drop windowStart,
      if 0 < lineStart then some (lineStart - 1) else none⟩

def jumpFind (body : Bytes) (terms : List Text) (direction : JumpDirection) (byteOffset : Int)
    (maxBytes : Nat) : Option JumpHit :=
  let anchor := resolveAnchor body.length direction byteOffset
  let encoded := terms.map Utf8.encode
  let found := match direction with
    | .forward => firstMatchAtOrAfter body encoded anchor
    | .backward => lastMatchAtOrBefore body encoded anchor
  found.map (hitAt body direction maxBytes)

section Best

def Best (worse : Nat → Nat → Prop) (places : Nat → Prop) : Option Nat → Prop
  | none => ∀ j, ¬ places j
  | some i => places i ∧ ∀ j, places j → worse i j

variable {better : Nat → Nat → Bool} {worse : Nat → Nat → Prop}

theorem best_keepBetter (yes : ∀ i b, better i b = true → worse i b)
    (no : ∀ i b, better i b = false → worse b i) (trans : ∀ i j k, worse i j → worse j k → worse i k)
    {known places : Nat → Prop} {best place : Option Nat} (isBest : Best worse known best)
    (isPlace : Best worse places place) :
    Best worse (fun j => known j ∨ places j) (keepBetter better best place) := by
  cases place with
  | none =>
    cases best with
    | none => exact fun j either => either.elim (isBest j) (isPlace j)
    | some b =>
      refine ⟨.inl isBest.1, ?_⟩
      rintro j (old | new)
      · exact isBest.2 j old
      · exact absurd new (isPlace j)
  | some i =>
    cases best with
    | none =>
      refine ⟨.inr isPlace.1, ?_⟩
      rintro j (old | new)
      · exact absurd old (isBest j)
      · exact isPlace.2 j new
    | some b =>
      rw [keepBetter]
      split
      · rename_i isBetter
        refine ⟨.inr isPlace.1, ?_⟩
        rintro j (old | new)
        · exact trans i b j (yes i b isBetter) (isBest.2 j old)
        · exact isPlace.2 j new
      · rename_i notBetter
        refine ⟨.inl isBest.1, ?_⟩
        rintro j (old | new)
        · exact isBest.2 j old
        · exact trans b i j (no i b (by simpa using notBetter)) (isPlace.2 j new)

theorem best_bestMatch (worse : Nat → Nat → Prop) (yes : ∀ i b, better i b = true → worse i b)
    (no : ∀ i b, better i b = false → worse b i) (trans : ∀ i j k, worse i j → worse j k → worse i k)
    (places : Bytes → Nat → Prop) (search : Bytes → Option Nat)
    (isBest : ∀ term, Best worse (places term) (search term)) (terms : List Bytes) :
    Best worse (fun j => ∃ term ∈ terms, places term j) (bestMatch better (terms.map search)) := by
  have along : ∀ (terms : List Bytes) (known : Nat → Prop) (best : Option Nat),
      Best worse known best → Best worse (fun j => known j ∨ ∃ term ∈ terms, places term j)
        ((terms.map search).foldl (keepBetter better) best) := by
    intro terms
    induction terms with
    | nil =>
      intro known best known_best
      simpa using known_best
    | cons term terms ih =>
      intro known best known_best
      have rest := ih _ _ (best_keepBetter yes no trans known_best (isBest term))
      simpa [or_assoc] using rest
  have nowhere : Best worse (fun _ => False) none := fun _ => id
  simpa [bestMatch] using along terms _ _ nowhere

theorem first_best (body : Bytes) (terms : List Bytes) (start : Nat) :
    Best (· ≤ ·) (fun j => ∃ term ∈ terms, start ≤ j ∧ Find.Occurs term body j)
      (firstMatchAtOrAfter body terms start) := by
  refine best_bestMatch (· ≤ ·) ?_ ?_ (fun _ _ _ => Nat.le_trans)
    (fun term j => start ≤ j ∧ Find.Occurs term body j) _ ?_ terms
  · intro i b earlier
    exact Nat.le_of_lt (of_decide_eq_true earlier)
  · intro i b later
    exact Nat.le_of_not_lt (of_decide_eq_false later)
  · intro term
    cases found : Find.find body term start with
    | none => exact fun j both => Find.find_eq_none.mp found j both.1 both.2
    | some i =>
      obtain ⟨here, least⟩ := Find.find_eq_some.mp found
      exact ⟨here, fun j other => least other⟩

theorem last_best (body : Bytes) (terms : List Bytes) (stop : Nat) :
    Best (· ≥ ·)
      (fun j => ∃ term ∈ terms, j + term.length ≤ stop + 1 ∧ Find.Occurs term body j)
      (lastMatchAtOrBefore body terms stop) := by
  refine best_bestMatch (· ≥ ·) ?_ ?_ (fun _ _ _ first second => Nat.le_trans second first)
    (fun term j => j + term.length ≤ stop + 1 ∧ Find.Occurs term body j) _ ?_ terms
  · intro i b later
    exact Nat.le_of_lt (of_decide_eq_true later)
  · intro i b earlier
    exact Nat.le_of_not_lt (of_decide_eq_false earlier)
  · intro term
    cases found : Find.rfind body term (stop + 1) with
    | none => exact fun j both => Find.rfind_eq_none.mp found j both.1 both.2
    | some i =>
      obtain ⟨here, greatest⟩ := Find.rfind_eq_some.mp found
      exact ⟨here, fun j other => greatest other⟩

theorem Best.congr {worse : Nat → Nat → Prop} (antisymm : ∀ i j, worse i j → worse j i → i = j)
    {places places' : Nat → Prop} {best best' : Option Nat} (same : ∀ j, places j ↔ places' j)
    (isBest : Best worse places best) (isBest' : Best worse places' best') : best = best' := by
  cases best with
  | none =>
    cases best' with
    | none => rfl
    | some i => exact absurd ((same i).mpr isBest'.1) (isBest i)
  | some i =>
    cases best' with
    | none => exact absurd ((same i).mp isBest.1) (isBest' i)
    | some j =>
      have first := isBest.2 j ((same j).mpr isBest'.1)
      have second := isBest'.2 i ((same i).mp isBest.1)
      rw [antisymm i j first second]

end Best

section Lines

variable {front line back : Bytes} {found : Nat}

def Starts (front : Bytes) : Prop := front = [] ∨ ∃ earlier, front = earlier ++ [newline]

def Ends (back : Bytes) : Prop := back = [] ∨ ∃ later, back = newline :: later

theorem occurs_newline {text : Bytes} {i : Nat} :
    Find.Occurs [newline] text i ↔ text[i]? = some newline := by
  rw [Find.occurs_iff]
  constructor
  · rintro ⟨before, after, rfl, rfl⟩
    simp
  · intro here
    obtain ⟨inside, value⟩ := List.getElem?_eq_some_iff.mp here
    refine ⟨text.take i, text.drop (i + 1), ?_, by simp; omega⟩
    rw [List.append_assoc, List.singleton_append, ← value, ← List.drop_eq_getElem_cons inside,
      List.take_append_drop]

theorem lineBounds_eq (starts : Starts front) (ends : Ends back) (single : newline ∉ line)
    (after : front.length ≤ found) (before : found ≤ front.length + line.length) :
    lineBounds (front ++ line ++ back) found = (front.length, front.length + line.length) := by
  have inside (j : Nat) (low : front.length ≤ j) (high : j < front.length + line.length) :
      ¬ Find.Occurs [newline] (front ++ line ++ back) j := by
    rw [occurs_newline, List.append_assoc, List.getElem?_append_right low,
      List.getElem?_append_left (by omega)]
    intro here
    exact single (List.mem_of_getElem? here)
  have lower : ((Find.rfind (front ++ line ++ back) [newline] found).map (· + 1)).getD 0
      = front.length := by
    rcases starts with rfl | ⟨earlier, rfl⟩
    · have none : Find.rfind ([] ++ line ++ back) [newline] found = none := by
        rw [Find.rfind_eq_none]
        intro j below
        simp only [List.length_singleton] at below
        exact inside j (by simp) (by simp at before ⊢; omega)
      rw [none]
      rfl
    · have last : Find.rfind (earlier ++ [newline] ++ line ++ back) [newline] found
          = some earlier.length := by
        rw [Find.rfind_eq_some]
        simp only [List.length_append, List.length_singleton] at after before inside
        constructor
        · refine ⟨by simpa using after, ?_⟩
          rw [occurs_newline]
          simp
        · rintro j ⟨below, occurs⟩
          simp only [List.length_singleton] at below
          by_contra later
          exact inside j (by omega) (by omega) occurs
      rw [last]
      simp
  have upper : (Find.find (front ++ line ++ back) [newline] found).getD (front ++ line ++ back).length
      = front.length + line.length := by
    rcases ends with rfl | ⟨later, rfl⟩
    · have none : Find.find (front ++ line ++ []) [newline] found = none := by
        rw [Find.find_eq_none]
        intro j low occurs
        have bound := occurs.1
        simp only [List.length_append, List.length_singleton, List.length_nil] at bound
        exact inside j (by omega) (by omega) occurs
      rw [none]
      simp
    · have next : Find.find (front ++ line ++ newline :: later) [newline] found
          = some (front.length + line.length) := by
        rw [Find.find_eq_some]
        constructor
        · refine ⟨before, ?_⟩
          rw [occurs_newline, ← List.length_append]
          simp
        · rintro j ⟨low, occurs⟩
          by_contra earlier
          exact inside j (by omega) (by omega) occurs
      rw [next]
      rfl
  rw [lineBounds, lower, upper]

theorem count_take (single : newline ∉ line) (after : front.length ≤ found)
    (before : found ≤ front.length + line.length) :
    ((front ++ line ++ back).take found).count newline = front.count newline := by
  have split : (front ++ line ++ back).take found = front ++ line.take (found - front.length) := by
    rw [List.append_assoc, List.take_append, List.take_of_length_le after,
      List.take_append_of_le_length (by omega)]
  have none : (line.take (found - front.length)).count newline = 0 :=
    List.count_eq_zero_of_not_mem (fun bad => single (List.mem_of_mem_take bad))
  rw [split, List.count_append, none, Nat.add_zero]

end Lines

section Walk

/-- The hits of a caller that starts at the offset and goes on from every offset it is given, until
there is no match or no offset to go on from. -/
inductive Visits (body : Bytes) (terms : List Text) (direction : JumpDirection) (maxBytes : Nat) :
    Int → List JumpHit → Prop where
  | stop {offset : Int} (none : jumpFind body terms direction offset maxBytes = none) :
      Visits body terms direction maxBytes offset []
  | last {offset : Int} {hit : JumpHit}
      (found : jumpFind body terms direction offset maxBytes = some hit)
      (ends : hit.nextOffset = none) : Visits body terms direction maxBytes offset [hit]
  | more {offset : Int} {hit : JumpHit} {next : Nat} {hits : List JumpHit}
      (found : jumpFind body terms direction offset maxBytes = some hit)
      (goes : hit.nextOffset = some next) (rest : Visits body terms direction maxBytes next hits) :
      Visits body terms direction maxBytes offset (hit :: hits)

def Contains (terms : List Text) (line : Bytes) : Prop := ∃ term ∈ terms, Utf8.encode term <:+: line

instance (terms : List Text) (line : Bytes) : Decidable (Contains terms line) :=
  inferInstanceAs (Decidable (∃ term ∈ terms, _))

def matchingFrom (terms : List Text) : Nat → List Bytes → List Nat
  | _, [] => []
  | n, line :: lines =>
    if Contains terms line then n :: matchingFrom terms (n + 1) lines
    else matchingFrom terms (n + 1) lines

def matchingLines (body : Bytes) (terms : List Text) : List Nat :=
  matchingFrom terms 1 (body.splitOn newline)

def JumpDirection.edge (body : Bytes) : JumpDirection → Int
  | .forward => 0
  | .backward => body.length

def JumpDirection.order : JumpDirection → List Nat → List Nat
  | .forward, lines => lines
  | .backward, lines => lines.reverse

structure Literal (terms : List Text) : Prop where
  filled : ∀ term ∈ terms, term ≠ []
  single : ∀ term ∈ terms, '\n' ∉ term

variable {body : Bytes} {terms : List Text} {direction : JumpDirection} {maxBytes : Nat}

theorem Visits.congr {offset offset' : Int} {hits : List JumpHit}
    (same : jumpFind body terms direction offset maxBytes
      = jumpFind body terms direction offset' maxBytes)
    (visits : Visits body terms direction maxBytes offset hits) :
    Visits body terms direction maxBytes offset' hits := by
  cases visits with
  | stop none => exact .stop (same ▸ none)
  | last found ends => exact .last (same ▸ found) ends
  | more found goes rest => exact .more (same ▸ found) goes rest

theorem matchingFrom_append (before after : List Bytes) : ∀ n, matchingFrom terms n (before ++ after)
    = matchingFrom terms n before ++ matchingFrom terms (n + before.length) after := by
  induction before with
  | nil =>
    intro n
    rfl
  | cons line before ih =>
    intro n
    simp only [List.cons_append, matchingFrom, ih, List.length_cons]
    rw [show n + 1 + before.length = n + (before.length + 1) by omega]
    split <;> rfl

theorem encode_ne_nil {term : Text} (filled : term ≠ []) : Utf8.encode term ≠ [] := by
  intro empty
  have lead : Utf8.encode term <+: Utf8.encode [] := by simp [empty]
  exact filled (List.prefix_nil.mp (Utf8.prefix_of_encode lead))

theorem newline_not_mem {term : Text} (single : '\n' ∉ term) : newline ∉ Utf8.encode term :=
  fun found => single (Utf8.mem_of_mem_encode (by decide +kernel) found)

theorem Literal.term {term : Bytes} (literal : Literal terms) (isTerm : term ∈ terms.map Utf8.encode) :
    term ≠ [] ∧ newline ∉ term := by
  obtain ⟨text, isText, rfl⟩ := List.mem_map.mp isTerm
  exact ⟨encode_ne_nil (literal.filled text isText), newline_not_mem (literal.single text isText)⟩

theorem contains_iff {line : Bytes} :
    Contains terms line ↔ ∃ term ∈ terms.map Utf8.encode, ∃ i, Find.Occurs term line i := by
  constructor
  · rintro ⟨text, isText, inside⟩
    exact ⟨_, List.mem_map_of_mem isText, Find.occurs_of_infix inside⟩
  · rintro ⟨term, isTerm, i, occurs⟩
    obtain ⟨text, isText, rfl⟩ := List.mem_map.mp isTerm
    exact ⟨text, isText, occurs.infix⟩

theorem occurs_append_left (front text term : Bytes) (k : Nat) :
    Find.Occurs term (front ++ text) (front.length + k) ↔ Find.Occurs term text k := by
  have gone : (front ++ text).drop (front.length + k) = text.drop k := by
    rw [← List.drop_drop, List.drop_left]
  unfold Find.Occurs
  rw [gone, List.length_append]
  constructor
  · rintro ⟨inside, lead⟩
    exact ⟨by omega, lead⟩
  · rintro ⟨inside, lead⟩
    exact ⟨by omega, lead⟩

section Forward

variable {front line back : Bytes}

theorem occurs_in_line {term : Bytes} (plain : term ≠ [] ∧ newline ∉ term) (ends : Ends back) {k : Nat} :
    Find.Occurs term (line ++ back) k → Find.Occurs term line k ∨ line.length < k := by
  intro occurs
  rcases ends with rfl | ⟨later, rfl⟩
  · rw [List.append_nil] at occurs
    exact .inl occurs
  · rcases (Find.occurs_append_cons plain.1 plain.2).mp occurs with inside | ⟨j, rfl, _⟩
    · exact .inl inside
    · right
      omega

theorem forward_hit (maxBytes : Nat) (starts : Starts front) (ends : Ends back)
    (single : newline ∉ line) (contains : Contains terms line) :
    ∃ hit, jumpFind (front ++ line ++ back) terms .forward front.length maxBytes = some hit ∧
      hit.matchLine = front.count newline + 1 ∧
      hit.nextOffset = if back = [] then none else some (front.length + line.length + 1) := by
  obtain ⟨term, isTerm, k, occurs⟩ := contains_iff.mp contains
  have best := first_best (front ++ line ++ back) (terms.map Utf8.encode) front.length
  have whole : Find.Occurs term (front ++ line ++ back) (front.length + k) := by
    rw [List.append_assoc, occurs_append_left]
    obtain ⟨before, after, rfl, rfl⟩ := Find.occurs_iff.mp occurs
    exact Find.occurs_iff.mpr ⟨before, after ++ back, by simp, rfl⟩
  cases found : firstMatchAtOrAfter (front ++ line ++ back) (terms.map Utf8.encode) front.length with
  | none =>
    rw [found] at best
    exact absurd ⟨term, isTerm, by omega, whole⟩ (best (front.length + k))
  | some i =>
    rw [found] at best
    obtain ⟨⟨other, isOther, after, here⟩, least⟩ := best
    have early : i ≤ front.length + k := least _ ⟨term, isTerm, by omega, whole⟩
    have inside : k + term.length ≤ line.length := occurs.1
    have isLine : i ≤ front.length + line.length := by omega
    refine ⟨hitAt (front ++ line ++ back) .forward maxBytes i, ?_, ?_, ?_⟩
    · simp only [jumpFind, resolveAnchor, Int.toNat_natCast, found, Option.map_some]
    · simp only [hitAt, lineBounds_eq starts ends single after isLine,
        count_take single after isLine]
    · simp only [hitAt, lineBounds_eq starts ends single after isLine]
      rcases ends with rfl | ⟨later, rfl⟩
      · simp
      · simp

theorem forward_skip (literal : Literal terms) {later : Bytes} (missing : ¬ Contains terms line) :
    jumpFind (front ++ line ++ newline :: later) terms .forward front.length maxBytes
      = jumpFind (front ++ line ++ newline :: later) terms .forward
        ((front ++ line ++ [newline]).length : Nat) maxBytes := by
  have same : firstMatchAtOrAfter (front ++ line ++ newline :: later) (terms.map Utf8.encode)
      front.length = firstMatchAtOrAfter (front ++ line ++ newline :: later)
        (terms.map Utf8.encode) (front ++ line ++ [newline]).length := by
    refine Best.congr (fun _ _ => Nat.le_antisymm) ?_ (first_best _ _ _) (first_best _ _ _)
    intro j
    constructor
    · rintro ⟨term, isTerm, after, occurs⟩
      refine ⟨term, isTerm, ?_, occurs⟩
      obtain ⟨k, rfl⟩ := Nat.exists_eq_add_of_le after
      rw [List.append_assoc, occurs_append_left] at occurs
      rcases occurs_in_line (literal.term isTerm) (.inr ⟨later, rfl⟩) occurs with inside | beyond
      · exact absurd (contains_iff.mpr ⟨term, isTerm, k, inside⟩) missing
      · simp only [List.length_append, List.length_singleton]
        omega
    · rintro ⟨term, isTerm, after, occurs⟩
      simp only [List.length_append, List.length_singleton] at after
      exact ⟨term, isTerm, by omega, occurs⟩
  simp only [jumpFind, resolveAnchor, Int.toNat_natCast, same]

theorem forward_last (starts : Starts front) (single : newline ∉ line) : ∃ hits,
    Visits (front ++ line) terms .forward maxBytes front.length hits ∧
    hits.map (·.matchLine) = matchingFrom terms (front.count newline + 1) [line] := by
  by_cases contains : Contains terms line
  · obtain ⟨hit, found, isLine, next⟩ := forward_hit maxBytes starts (.inl rfl) single contains
    rw [List.append_nil] at found
    refine ⟨[hit], .last found (by simpa using next), ?_⟩
    simp [matchingFrom, contains, isLine]
  · refine ⟨[], .stop ?_, by simp [matchingFrom, contains]⟩
    have best := first_best (front ++ line) (terms.map Utf8.encode) front.length
    cases found : firstMatchAtOrAfter (front ++ line) (terms.map Utf8.encode) front.length with
    | none => simp only [jumpFind, resolveAnchor, Int.toNat_natCast, found, Option.map_none]
    | some i =>
      rw [found] at best
      obtain ⟨⟨term, isTerm, after, occurs⟩, _⟩ := best
      obtain ⟨k, rfl⟩ := Nat.exists_eq_add_of_le after
      rw [occurs_append_left] at occurs
      exact absurd (contains_iff.mpr ⟨term, isTerm, k, occurs⟩) contains

theorem forward_visits (maxBytes : Nat) (literal : Literal terms) : ∀ (n : Nat) (front rest : Bytes),
    rest.length ≤ n → Starts front → ∃ hits,
      Visits (front ++ rest) terms .forward maxBytes front.length hits ∧
      hits.map (·.matchLine) = matchingFrom terms (front.count newline + 1) (rest.splitOn newline) := by
  intro n
  induction n with
  | zero =>
    intro front rest short starts
    obtain rfl := List.eq_nil_of_length_eq_zero (Nat.le_zero.mp short)
    exact forward_last starts (by simp)
  | succ n ih =>
    intro front rest short starts
    by_cases more : newline ∈ rest
    · obtain ⟨line, later, rfl, single⟩ := List.eq_append_cons_of_mem more
      have starts' : Starts (front ++ line ++ [newline]) := .inr ⟨_, rfl⟩
      have smaller : later.length ≤ n := by
        simp only [List.length_append, List.length_cons] at short
        omega
      have parts : front ++ line ++ [newline] ++ later = front ++ line ++ newline :: later := by simp
      have number : (front ++ line ++ [newline]).count newline = front.count newline + 1 := by
        simp [List.count_eq_zero_of_not_mem single]
      obtain ⟨hits, visits, lines⟩ := ih (front ++ line ++ [newline]) later smaller starts'
      rw [parts] at visits
      rw [number] at lines
      rw [← List.append_assoc, List.splitOn_append_cons_self_of_not_mem single]
      by_cases contains : Contains terms line
      · obtain ⟨hit, found, isLine, next⟩ := forward_hit maxBytes starts
          (.inr ⟨later, rfl⟩) single contains
        rw [if_neg (by simp)] at next
        have goes : front.length + line.length + 1 = (front ++ line ++ [newline]).length := by
          simp only [List.length_append, List.length_singleton]
        rw [goes] at next
        refine ⟨hit :: hits, .more found next visits, ?_⟩
        rw [List.map_cons, matchingFrom, if_pos contains, isLine, lines]
      · refine ⟨hits, visits.congr (forward_skip literal contains).symm, ?_⟩
        rw [matchingFrom, if_neg contains, lines]
    · rw [List.splitOn_eq_singleton more]
      exact forward_last starts more

end Forward

section Backward

variable {front line back : Bytes}

theorem occurs_before {before term : Bytes} (plain : term ≠ [] ∧ newline ∉ term) (ends : Ends back)
    (j : Nat) : j + term.length ≤ before.length + 1 ∧ Find.Occurs term (before ++ back) j ↔
      Find.Occurs term before j := by
  have positive := List.length_pos_iff.mpr plain.1
  constructor
  · rintro ⟨bound, occurs⟩
    rcases occurs_in_line plain ends occurs with inside | beyond
    · exact inside
    · omega
  · intro occurs
    have bound := occurs.1
    obtain ⟨left, right, rfl, rfl⟩ := Find.occurs_iff.mp occurs
    exact ⟨by omega, Find.occurs_iff.mpr ⟨left, right ++ back, by simp, rfl⟩⟩

theorem backward_best (literal : Literal terms) (ends : Ends back) (before : Bytes) :
    Best (· ≥ ·) (fun j => ∃ term ∈ terms.map Utf8.encode, Find.Occurs term before j)
      (lastMatchAtOrBefore (before ++ back) (terms.map Utf8.encode) before.length) := by
  have best := last_best (before ++ back) (terms.map Utf8.encode) before.length
  have same : (fun j => ∃ term ∈ terms.map Utf8.encode,
      j + term.length ≤ before.length + 1 ∧ Find.Occurs term (before ++ back) j)
      = fun j => ∃ term ∈ terms.map Utf8.encode, Find.Occurs term before j := by
    funext j
    refine propext (exists_congr ?_)
    intro term
    exact and_congr_right fun isTerm => occurs_before (literal.term isTerm) ends j
  rw [same] at best
  exact best

theorem backward_hit (maxBytes : Nat) (literal : Literal terms) (starts : Starts front)
    (ends : Ends back) (single : newline ∉ line) (contains : Contains terms line) {offset : Int}
    (anchor : resolveAnchor (front ++ line ++ back).length .backward offset = (front ++ line).length) :
    ∃ hit, jumpFind (front ++ line ++ back) terms .backward offset maxBytes = some hit ∧
      hit.matchLine = front.count newline + 1 ∧
      hit.nextOffset = if front = [] then none else some (front.length - 1) := by
  obtain ⟨term, isTerm, k, occurs⟩ := contains_iff.mp contains
  have best := backward_best literal ends (front ++ line)
  have here : Find.Occurs term (front ++ line) (front.length + k) :=
    (occurs_append_left front line term k).mpr occurs
  cases found : lastMatchAtOrBefore (front ++ line ++ back) (terms.map Utf8.encode)
      (front ++ line).length with
  | none =>
    rw [found] at best
    exact absurd ⟨term, isTerm, here⟩ (best (front.length + k))
  | some i =>
    rw [found] at best
    obtain ⟨⟨other, _, isOther⟩, last⟩ := best
    have late : front.length + k ≤ i := last _ ⟨term, isTerm, here⟩
    have bound : i + other.length ≤ front.length + line.length := by
      simpa using isOther.1
    have after : front.length ≤ i := by omega
    have isLine : i ≤ front.length + line.length := by omega
    refine ⟨hitAt (front ++ line ++ back) .backward maxBytes i, ?_, ?_, ?_⟩
    · simp only [jumpFind, anchor, found, Option.map_some]
    · simp only [hitAt, lineBounds_eq starts ends single after isLine,
        count_take single after isLine]
    · simp only [hitAt, lineBounds_eq starts ends single after isLine, List.length_pos_iff]
      by_cases empty : front = []
      · simp [empty]
      · simp [empty]

theorem backward_skip (literal : Literal terms) (ends : Ends back) (earlier : Bytes)
    (missing : ¬ Contains terms line) :
    lastMatchAtOrBefore (earlier ++ newline :: line ++ back) (terms.map Utf8.encode)
        (earlier ++ newline :: line).length
      = lastMatchAtOrBefore (earlier ++ newline :: line ++ back) (terms.map Utf8.encode)
        earlier.length := by
  have lower := backward_best literal (.inr ⟨line ++ back, rfl⟩) earlier
  have upper := backward_best literal ends (earlier ++ newline :: line)
  have parts : earlier ++ newline :: line ++ back = earlier ++ newline :: (line ++ back) := by simp
  rw [← parts] at lower
  refine Best.congr (fun _ _ first second => Nat.le_antisymm second first) ?_ upper lower
  intro j
  refine exists_congr ?_
  intro term
  refine and_congr_right ?_
  intro isTerm
  have plain := literal.term isTerm
  rw [Find.occurs_append_cons plain.1 plain.2]
  constructor
  · rintro (inside | ⟨k, _, inLine⟩)
    · exact inside
    · exact absurd (contains_iff.mpr ⟨term, isTerm, k, inLine⟩) missing
  · exact .inl

def Trapped (terms : List Text) (body : Bytes) : Prop :=
  ∃ second others, body.splitOn newline = [] :: second :: others ∧ Contains terms second

theorem resolveAnchor_inside {before : Bytes} (filled : before ≠ []) (back : Bytes) :
    resolveAnchor (before ++ back).length .backward (before.length : Nat) = before.length := by
  have positive := List.length_pos_iff.mpr filled
  simp only [resolveAnchor, List.length_append]
  rw [if_neg (by omega)]
  omega

theorem Trapped.append {earlier : Bytes} (trapped : Trapped terms earlier) :
    Trapped terms (earlier ++ newline :: line) := by
  obtain ⟨second, others, lines, contains⟩ := trapped
  refine ⟨second, others ++ line.splitOn newline, ?_, contains⟩
  rw [List.splitOn_append_cons_self, lines]
  rfl

theorem trapped_of_append {earlier : Bytes} (single : newline ∉ line) (filled : earlier ≠ [])
    (trapped : Trapped terms (earlier ++ newline :: line)) : Trapped terms earlier := by
  obtain ⟨second, others, lines, contains⟩ := trapped
  rw [List.splitOn_append_cons_self, List.splitOn_eq_singleton single] at lines
  have joined : [newline].intercalate (earlier.splitOn newline) = earlier :=
    List.intercalate_splitOn newline
  cases split : earlier.splitOn newline with
  | nil => exact absurd split (List.splitOn_ne_nil newline earlier)
  | cons first tail =>
    rw [split, List.cons_append, List.cons.injEq] at lines
    obtain ⟨rfl, lines⟩ := lines
    cases tail with
    | nil =>
      rw [split] at joined
      exact absurd (by simpa using joined.symm) filled
    | cons other tail =>
      obtain ⟨rfl, _⟩ : other = second ∧ tail ++ [line] = others := by simpa using lines
      exact ⟨other, tail, split, contains⟩

theorem trapped_second (single : newline ∉ line) :
    Trapped terms ([] ++ newline :: line) ↔ Contains terms line := by
  have lines : ([] ++ newline :: line).splitOn newline = [[], line] := by
    rw [List.splitOn_append_cons_self, List.splitOn_nil, List.splitOn_eq_singleton single]
    rfl
  rw [Trapped, lines]
  simp

theorem backward_first (literal : Literal terms) (ends : Ends back) (single : newline ∉ line)
    {offset : Int} (anchor : resolveAnchor (line ++ back).length .backward offset = line.length) :
    ∃ hits, Visits (line ++ back) terms .backward maxBytes offset hits ∧
      hits.map (·.matchLine) = (matchingFrom terms 1 [line]).reverse := by
  by_cases contains : Contains terms line
  · obtain ⟨hit, found, isLine, next⟩ := backward_hit maxBytes literal (.inl rfl) ends single
      contains anchor
    refine ⟨[hit], .last found (by simpa using next), ?_⟩
    simp [matchingFrom, contains, isLine]
  · refine ⟨[], .stop ?_, by simp [matchingFrom, contains]⟩
    have best := backward_best literal ends line
    cases found : lastMatchAtOrBefore (line ++ back) (terms.map Utf8.encode) line.length with
    | none => simp only [jumpFind, anchor, found, Option.map_none]
    | some i =>
      rw [found] at best
      obtain ⟨⟨term, isTerm, occurs⟩, _⟩ := best
      exact absurd (contains_iff.mpr ⟨term, isTerm, i, occurs⟩) contains

theorem not_contains_nil (literal : Literal terms) : ¬ Contains terms [] := by
  rintro ⟨term, isTerm, empty⟩
  exact encode_ne_nil (literal.filled term isTerm) (List.infix_nil.mp empty)

theorem length_splitOn (text : Bytes) :
    (text.splitOn newline).length = text.count newline + 1 := by
  induction text with
  | nil => rfl
  | cons b text ih =>
    rw [List.splitOn_cons_eq_if_modifyHead, List.count_cons]
    split
    · rw [List.length_cons, ih]
    · rw [List.length_modifyHead, ih]

section Step

variable {earlier : Bytes} {offset : Int}

theorem backward_found (maxBytes : Nat) (literal : Literal terms) (ends : Ends back)
    (single : newline ∉ line) (contains : Contains terms line)
    (anchor : resolveAnchor (earlier ++ newline :: line ++ back).length .backward offset
      = (earlier ++ newline :: line).length) :
    ∃ hit, jumpFind (earlier ++ newline :: line ++ back) terms .backward offset maxBytes = some hit ∧
      hit.matchLine = 1 + (earlier.splitOn newline).length ∧
      hit.nextOffset = some earlier.length := by
  have parts : earlier ++ [newline] ++ line = earlier ++ newline :: line := by simp
  rw [← parts] at anchor ⊢
  obtain ⟨hit, found, isLine, next⟩ := backward_hit maxBytes literal (.inr ⟨earlier, rfl⟩) ends
    single contains anchor
  refine ⟨hit, found, ?_, ?_⟩
  · rw [isLine, length_splitOn, List.count_append]
    simp
    omega
  · rw [next, if_neg (by simp)]
    simp

theorem backward_passed (maxBytes : Nat) (literal : Literal terms) (ends : Ends back)
    (missing : ¬ Contains terms line) (filled : earlier ≠ [])
    (anchor : resolveAnchor (earlier ++ newline :: line ++ back).length .backward offset
      = (earlier ++ newline :: line).length) :
    jumpFind (earlier ++ newline :: line ++ back) terms .backward offset maxBytes
      = jumpFind (earlier ++ newline :: line ++ back) terms .backward (earlier.length : Nat)
        maxBytes := by
  have parts : earlier ++ newline :: line ++ back = earlier ++ newline :: (line ++ back) := by simp
  have inside : resolveAnchor (earlier ++ newline :: line ++ back).length .backward
      (earlier.length : Nat) = earlier.length := by
    rw [parts]
    exact resolveAnchor_inside filled _
  simp only [jumpFind, anchor, inside, backward_skip literal ends earlier missing]

end Step

theorem backward_visits (maxBytes : Nat) (literal : Literal terms) : ∀ (n : Nat) (before back : Bytes) (offset : Int),
    before.length ≤ n → Ends back →
    resolveAnchor (before ++ back).length .backward offset = before.length →
    ¬ Trapped terms before → ∃ hits, Visits (before ++ back) terms .backward maxBytes offset hits ∧
      hits.map (·.matchLine) = (matchingFrom terms 1 (before.splitOn newline)).reverse := by
  intro n
  induction n with
  | zero =>
    intro before back offset short ends anchor _
    obtain rfl := List.eq_nil_of_length_eq_zero (Nat.le_zero.mp short)
    exact backward_first literal ends (by simp) anchor
  | succ n ih =>
    intro before back offset short ends anchor free
    by_cases more : newline ∈ before
    · obtain ⟨earlier, line, rfl, single⟩ := Find.exists_last_sep more
      have smaller : earlier.length ≤ n := by
        simp only [List.length_append, List.length_cons] at short
        omega
      have parts : earlier ++ newline :: line ++ back = earlier ++ newline :: (line ++ back) := by
        simp
      have lines : matchingFrom terms 1 ((earlier ++ newline :: line).splitOn newline)
          = matchingFrom terms 1 (earlier.splitOn newline)
            ++ matchingFrom terms (1 + (earlier.splitOn newline).length) [line] := by
        rw [List.splitOn_append_cons_self, List.splitOn_eq_singleton single, matchingFrom_append]
      rw [lines, List.reverse_append]
      by_cases filled : earlier = []
      · -- only an empty line is left, and the search is not sent there
        subst filled
        have missing : ¬ Contains terms line := fun contains => free ((trapped_second single).mpr contains)
        have skip := backward_skip literal ends [] missing
        refine ⟨[], .stop ?_, by simp [matchingFrom, missing, not_contains_nil literal]⟩
        have later : Ends (newline :: line ++ back) := .inr ⟨line ++ back, rfl⟩
        have best := backward_best literal later []
        simp only [List.nil_append] at best skip anchor ⊢
        simp only [jumpFind, anchor, skip]
        cases found : lastMatchAtOrBefore (newline :: line ++ back) (terms.map Utf8.encode)
            ([] : Bytes).length with
        | none => rfl
        | some i =>
          rw [found] at best
          obtain ⟨⟨term, isTerm, occurs⟩, _⟩ := best
          exact absurd (contains_iff.mpr ⟨term, isTerm, i, occurs⟩) (not_contains_nil literal)
      · have inside : resolveAnchor (earlier ++ newline :: (line ++ back)).length .backward
            (earlier.length : Nat) = earlier.length := resolveAnchor_inside filled _
        obtain ⟨hits, visits, rest⟩ := ih earlier (newline :: (line ++ back)) earlier.length smaller
          (.inr ⟨_, rfl⟩) inside (fun trapped => free trapped.append)
        rw [← parts] at visits
        by_cases contains : Contains terms line
        · obtain ⟨hit, found, isLine, next⟩ := backward_found maxBytes literal ends single contains
            anchor
          refine ⟨hit :: hits, .more found next visits, ?_⟩
          rw [List.map_cons, isLine, rest]
          simp [matchingFrom, contains]
        · refine ⟨hits, visits.congr (backward_passed maxBytes literal ends contains filled
            anchor).symm, ?_⟩
          rw [rest]
          simp [matchingFrom, contains]
    · rw [List.splitOn_eq_singleton more]
      exact backward_first literal ends more anchor

theorem visits_zero (maxBytes : Nat) (literal : Literal terms) : ∀ (n : Nat) (before back : Bytes) (offset : Int)
    (hits : List JumpHit), before.length ≤ n → Ends back →
    resolveAnchor (before ++ back).length .backward offset = before.length →
    Trapped terms before → Visits (before ++ back) terms .backward maxBytes offset hits →
    ∃ fewer, Visits (before ++ back) terms .backward maxBytes 0 fewer ∧ fewer.length < hits.length := by
  intro n
  induction n with
  | zero =>
    intro before back offset hits short ends anchor trapped
    obtain rfl := List.eq_nil_of_length_eq_zero (Nat.le_zero.mp short)
    obtain ⟨_, _, lines, _⟩ := trapped
    simp at lines
  | succ n ih =>
    intro before back offset hits short ends anchor trapped visits
    by_cases more : newline ∈ before
    · obtain ⟨earlier, line, rfl, single⟩ := Find.exists_last_sep more
      have smaller : earlier.length ≤ n := by
        simp only [List.length_append, List.length_cons] at short
        omega
      have parts : earlier ++ newline :: line ++ back = earlier ++ newline :: (line ++ back) := by
        simp
      by_cases contains : Contains terms line
      · obtain ⟨hit, found, _, next⟩ := backward_found maxBytes literal ends single contains anchor
        cases visits with
        | stop none =>
          rw [found] at none
          cases none
        | last isHit ends' =>
          rw [found] at isHit
          obtain rfl := Option.some.inj isHit
          simp [next] at ends'
        | @more _ _ goal rest isHit goes visits =>
          rw [found] at isHit
          obtain rfl := Option.some.inj isHit
          obtain rfl : earlier.length = goal := Option.some.inj (next.symm.trans goes)
          by_cases filled : earlier = []
          · subst filled
            exact ⟨rest, visits, by simp⟩
          · have inside : resolveAnchor (earlier ++ newline :: (line ++ back)).length .backward
                (earlier.length : Nat) = earlier.length := resolveAnchor_inside filled _
            rw [parts] at visits ⊢
            obtain ⟨fewer, again, less⟩ := ih earlier _ _ rest smaller (.inr ⟨_, rfl⟩) inside
              (trapped_of_append single filled trapped) visits
            exact ⟨fewer, again, Nat.lt_succ_of_lt less⟩
      · have filled : earlier ≠ [] := by
          rintro rfl
          exact contains ((trapped_second single).mp trapped)
        have inside : resolveAnchor (earlier ++ newline :: (line ++ back)).length .backward
            (earlier.length : Nat) = earlier.length := resolveAnchor_inside filled _
        have moved := visits.congr (backward_passed maxBytes literal ends contains filled anchor)
        rw [parts] at moved ⊢
        exact ih earlier _ _ hits smaller (.inr ⟨_, rfl⟩) inside
          (trapped_of_append single filled trapped) moved
    · obtain ⟨_, _, lines, _⟩ := trapped
      rw [List.splitOn_eq_singleton more] at lines
      simp at lines

end Backward

theorem resolveAnchor_end (body : Bytes) :
    resolveAnchor body.length .backward (body.length : Nat) = body.length := by
  simp only [resolveAnchor]
  split
  · rfl
  · omega

theorem trapped_never_stops (maxBytes : Nat) (literal : Literal terms) (trapped : Trapped terms body) :
    ∀ hits, ¬ Visits body terms .backward maxBytes (body.length : Nat) hits := by
  have anchor : resolveAnchor (body ++ []).length .backward (body.length : Nat) = body.length := by
    rw [List.append_nil]
    exact resolveAnchor_end body
  have restart (hits : List JumpHit) (again : Visits body terms .backward maxBytes 0 hits) :
      Visits body terms .backward maxBytes (body.length : Nat) hits := by
    have zero : resolveAnchor body.length .backward 0 = body.length := rfl
    refine again.congr ?_
    simp only [jumpFind, resolveAnchor_end, zero]
  -- each round would leave fewer hits
  have never : ∀ (n : Nat) (hits : List JumpHit), hits.length < n →
      ¬ Visits body terms .backward maxBytes (body.length : Nat) hits := by
    intro n
    induction n with
    | zero =>
      intro hits short
      omega
    | succ n ih =>
      intro hits short visits
      obtain ⟨fewer, again, less⟩ := visits_zero maxBytes literal body.length body [] _ hits le_rfl
        (.inl rfl) anchor trapped (by simpa using visits)
      rw [List.append_nil] at again
      exact ih fewer (by omega) (restart fewer again)
  intro hits
  exact never (hits.length + 1) hits (Nat.lt_succ_self _)

/-- Following the offsets from the edge visits the lines with a term in order and stops, unless the
search runs backward, the first line is empty and the second has a term. -/
theorem jump_visits_iff (literal : Literal terms) (direction : JumpDirection) (maxBytes : Nat) :
    (∃ hits, Visits body terms direction maxBytes (direction.edge body) hits ∧
      hits.map (·.matchLine) = direction.order (matchingLines body terms)) ↔
      ¬ (direction = .backward ∧ Trapped terms body) := by
  cases direction with
  | forward =>
    obtain ⟨hits, visits, lines⟩ := forward_visits maxBytes literal body.length [] body le_rfl
      (.inl rfl)
    have reached : ∃ hits, Visits body terms .forward maxBytes (JumpDirection.forward.edge body) hits ∧
        hits.map (·.matchLine) = JumpDirection.forward.order (matchingLines body terms) :=
      ⟨hits, visits, lines⟩
    simp [reached]
  | backward =>
    constructor
    · rintro ⟨hits, visits, _⟩ ⟨_, trapped⟩
      exact trapped_never_stops maxBytes literal trapped hits visits
    · intro free
      have anchor : resolveAnchor (body ++ []).length .backward (body.length : Nat) = body.length := by
        rw [List.append_nil]
        exact resolveAnchor_end body
      obtain ⟨hits, visits, lines⟩ := backward_visits maxBytes literal body.length body [] _ le_rfl
        (.inl rfl) anchor (fun trapped => free ⟨rfl, trapped⟩)
      rw [List.append_nil] at visits
      exact ⟨hits, visits, lines⟩

theorem jump_visits_second_line : ∃ hits,
    Visits (Utf8.encode "a\nfoo\nb".toList) ["foo".toList] .backward 16
      (JumpDirection.backward.edge (Utf8.encode "a\nfoo\nb".toList)) hits ∧
    hits.map (·.matchLine) = [2] := by
  have literal : Literal ["foo".toList] := ⟨by decide, by decide⟩
  have free : ¬ (JumpDirection.backward = .backward ∧
      Trapped ["foo".toList] (Utf8.encode "a\nfoo\nb".toList)) := by
    rintro ⟨_, second, others, lines, _⟩
    have first : (Utf8.encode "a\nfoo\nb".toList).splitOn newline
        = [[97], [102, 111, 111], [98]] := by decide +kernel
    rw [first] at lines
    simp at lines
  obtain ⟨hits, visits, lines⟩ := (jump_visits_iff literal .backward 16).mpr free
  have number : JumpDirection.backward.order
      (matchingLines (Utf8.encode "a\nfoo\nb".toList) ["foo".toList]) = [2] := by decide +kernel
  exact ⟨hits, visits, lines.trans number⟩

/-- The match on the second line is found again and again. -/
theorem empty_first_line_never_stops : ¬ ∃ hits,
    Visits (Utf8.encode "\nfoo".toList) ["foo".toList] .backward 16
      (JumpDirection.backward.edge (Utf8.encode "\nfoo".toList)) hits ∧
    hits.map (·.matchLine) = JumpDirection.backward.order
      (matchingLines (Utf8.encode "\nfoo".toList) ["foo".toList]) := by
  have literal : Literal ["foo".toList] := ⟨by decide, by decide⟩
  have lines : (Utf8.encode "\nfoo".toList).splitOn newline = [[], [102, 111, 111]] := by
    decide +kernel
  rintro ⟨hits, visits, _⟩
  exact trapped_never_stops 16 literal ⟨_, [], lines, by decide +kernel⟩ hits visits

end Walk

end Kdive.Artifacts
