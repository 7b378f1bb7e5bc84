import Kdive.Console.Rotation
import Kdive.Console.Scrubbed

/-!
A console file rotated snapshot by snapshot with the redactor of the job. The redaction reads the
pending bytes as text, so the parts and the carry are the bytes of the file exactly as long as every
pending region starts and ends between two characters and no key name comes to stand at its start.
-/
namespace Kdive.Console

section Runs

structure Rotated where
  parts : List SealedPart
  state : RotationState

def Rotated.sealed (p : Rotated) : Bytes := (p.parts.map SealedPart.redacted).flatten

def Rotated.bytes (p : Rotated) : Bytes := p.sealed ++ p.state.carry

def Rotated.advance (turn : RotationState → Bytes → RotationResult) (p : Rotated)
    (snapshot : Bytes) : Rotated :=
  ⟨p.parts ++ (turn p.state snapshot).parts, (turn p.state snapshot).nextState⟩

theorem map_redacted_numberParts (gen : Nat) (blobs : List Bytes) : ∀ index,
    (numberParts gen index blobs).map SealedPart.redacted = blobs := by
  induction blobs with
  | nil =>
    intro index
    rfl
  | cons blob blobs ih =>
    intro index
    simp [numberParts, ih]

def seam (state : RotationState) (snapshot : Bytes) (bootId : String) : Nat :=
  (detectNewBoot state snapshot bootId).2.1 - (detectNewBoot state snapshot bootId).2.2.1.length

/-- The sealed bytes and the carry the next rotation starts with are what it has consumed. -/
structure Ready (file : Bytes) (bootId : String) (p : Rotated) (n : Nat) : Prop where
  consumed : p.sealed ++ (detectNewBoot p.state (file.take n) bootId).2.2.1
    = file.take (detectNewBoot p.state (file.take n) bootId).2.1
  grown : (detectNewBoot p.state (file.take n) bootId).2.1 ≤ n
  inside : n ≤ file.length

theorem detectNewBoot_fresh {state : RotationState} {bootId : String}
    (fresh : state.bootId ≠ some bootId) (snapshot : Bytes) :
    (detectNewBoot state snapshot bootId).2 = (0, [], 0) := by
  rw [detectNewBoot, if_pos (.inl (Ne.symm fresh))]

theorem detectNewBoot_same {state : RotationState} {bootId : String} {snapshot : Bytes}
    (same : state.bootId = some bootId) (grown : state.plaintextOffset ≤ snapshot.length) :
    detectNewBoot state snapshot bootId
      = (state.bootGen, state.plaintextOffset, state.carry, state.nextIndex) := by
  rw [detectNewBoot, if_neg]
  rw [not_or, Ne, not_not, Nat.not_lt]
  exact ⟨same.symm, grown⟩

namespace Ready

variable {file : Bytes} {bootId : String} {p : Rotated} {n : Nat}

theorem length_sealed (ready : Ready file bootId p n) :
    p.sealed.length = seam p.state (file.take n) bootId ∧ p.sealed.length ≤ n := by
  have size := congrArg List.length ready.consumed
  have := ready.grown
  have := ready.inside
  rw [List.length_append, List.length_take] at size
  rw [seam]
  omega

theorem whole (ready : Ready file bootId p n) :
    p.sealed ++ ((detectNewBoot p.state (file.take n) bootId).2.2.1
      ++ (file.take n).drop (detectNewBoot p.state (file.take n) bootId).2.1) = file.take n := by
  have shorter : file.take (detectNewBoot p.state (file.take n) bootId).2.1
      = (file.take n).take (detectNewBoot p.state (file.take n) bootId).2.1 := by
    rw [List.take_take, Nat.min_eq_left ready.grown]
  rw [← List.append_assoc, ready.consumed, shorter, List.take_append_drop]

theorem pending (ready : Ready file bootId p n) :
    (detectNewBoot p.state (file.take n) bootId).2.2.1
        ++ (file.take n).drop (detectNewBoot p.state (file.take n) bootId).2.1
      = (file.take n).drop p.sealed.length := by
  have dropped := congrArg (List.drop p.sealed.length) ready.whole
  rwa [List.drop_left] at dropped

theorem sealed_append (ready : Ready file bootId p n) :
    p.sealed ++ (file.take n).drop p.sealed.length = file.take n := by
  rw [← ready.pending, ready.whole]

theorem bytes_advance (ready : Ready file bootId p n) (redact : Bytes → Bytes) :
    (p.advance (fun state snapshot => rotate state snapshot bootId redact) (file.take n)).bytes
      = p.sealed ++ redact ((file.take n).drop p.sealed.length) := by
  have drained := drainParts_append redact rotationThreshold seamOverlap
    ((detectNewBoot p.state (file.take n) bootId).2.2.1
      ++ (file.take n).drop (detectNewBoot p.state (file.take n) bootId).2.1)
  rw [← ready.pending, ← drained]
  simp [Rotated.bytes, Rotated.sealed, Rotated.advance, rotate, map_redacted_numberParts]

end Ready

end Runs

section Slices

variable {r : Redactor} {text piece : Text}

def Redactor.Unkeyed (r : Redactor) (text : Text) : Prop :=
  ∀ front back, text = front ++ back → r.wordBoundary front.getLast? back = true →
    Regex.groups keyValuePattern back = none

/-- The text carries no key at its start when nothing stands before it, or one whose value is
the marker already. -/
def Redactor.StartsClear (r : Redactor) (piece : Text) : Prop :=
  r.wordBoundary none piece = true →
    ∀ name sep value rest, Found piece name sep value rest → value = redaction

theorem hide_eq_self (r : Redactor) (text : Text) : ∀ last : Option Char,
    (∀ front back, text = front ++ back →
      r.wordBoundary (front.getLast?.or last) back = true →
        Regex.groups keyValuePattern back = none) →
    r.hide last text = text := by
  induction text with
  | nil =>
    intro last _
    rfl
  | cons c rest ih =>
    intro last clear
    have kept : r.hide last (c :: rest) = c :: r.hide (some c) rest :=
      hide_keep (clear [] (c :: rest) rfl)
    rw [kept, ih (some c)]
    intro front back whole here
    refine clear (c :: front) back (congrArg (c :: ·) whole) ?_
    cases front with
    | nil => exact here
    | cons a front =>
      obtain ⟨z, isLast⟩ : ∃ z, (a :: front).getLast? = some z := by simp [List.getLast?_cons]
      rw [List.getLast?_cons_cons, isLast]
      rw [isLast] at here
      exact here

theorem groups_inner {front back before after : Text}
    (unkeyed : r.Unkeyed (front ++ (piece ++ back))) (parts : piece = before ++ after)
    (inner : before ≠ []) (here : r.wordBoundary before.getLast? after = true) :
    Regex.groups keyValuePattern after = none := by
  subst parts
  by_contra some
  obtain ⟨taken, isTaken⟩ := Option.ne_none_iff_exists'.mp some
  obtain ⟨name, sep, value, rest, rfl, found⟩ := found_of_groups isTaken
  have lead : [name, sep, value].flatten <+: after ++ back := by
    rw [found.whole_flatten, List.append_assoc]
    exact List.prefix_append _ _
  have filled : after ≠ [] := by
    rw [found.whole]
    simp [secretName_ne_nil found.isName]
  have last : (front ++ before).getLast? = before.getLast? := by
    rcases List.eq_nil_or_concat' before with empty | ⟨start, z, rfl⟩
    · exact absurd empty inner
    · simp [List.getLast?_append]
  refine Regex.groups_ne_none found.matched lead ?_
  refine unkeyed (front ++ before) (after ++ back) (by simp) ?_
  rw [last, wordBoundary_append r _ filled]
  exact here

theorem hide_piece_iff {front back : Text} (unkeyed : r.Unkeyed (front ++ (piece ++ back))) :
    r.hide none piece = piece ↔ r.StartsClear piece := by
  constructor
  · intro same here name sep value rest found
    have masked := hide_found here found
    rw [same] at masked
    have shown := found.marker masked (hide_stops r found.ends _)
    exact (found.unique shown).2.2.1
  · intro clear
    by_cases marked : r.wordBoundary none piece = true ∧
        ∃ name sep value rest, Found piece name sep value rest
    · obtain ⟨here, name, sep, value, rest, found⟩ := marked
      obtain rfl := clear here name sep value rest found
      have others : r.hide redaction.getLast? rest = rest := by
        apply hide_eq_self
        intro before after parts here
        have inner : piece = (name ++ (sep ++ (redaction ++ before))) ++ after := by
          conv_lhs => rw [found.whole, parts]
          simp
        refine groups_inner unkeyed inner (by simp [secretName_ne_nil found.isName]) ?_
        have closing : redaction.getLast? = some ']' := by decide
        have last : (name ++ (sep ++ (redaction ++ before))).getLast?
            = before.getLast?.or redaction.getLast? := by
          simp [List.getLast?_append, closing]
        rw [last]
        exact here
      rw [hide_found here found, others, ← found.whole]
    · apply hide_eq_self
      intro before after parts here
      cases before with
      | nil =>
        cases matched : Regex.groups keyValuePattern after with
        | none => rfl
        | some taken =>
          obtain ⟨name, sep, value, rest, _, found⟩ := found_of_groups matched
          obtain rfl : piece = after := parts
          exact absurd ⟨here, name, sep, value, rest, found⟩ marked
      | cons c before =>
        refine groups_inner unkeyed parts (by simp) ?_
        have isLast : ∃ z, (c :: before).getLast? = some z := by simp [List.getLast?_cons]
        obtain ⟨z, isLast⟩ := isLast
        rw [isLast] at here ⊢
        exact here

theorem redactText_clean (clean : ∀ value ∈ r.secretValues, ¬ value <:+: text) :
    r.redactText text = r.hide none text := by
  rw [Redactor.redactText, r.maskSecrets_eq_self text clean]
  rfl

theorem startsClear_nil (r : Redactor) : r.StartsClear [] := by
  intro _ name sep value rest found
  obtain ⟨empty, _⟩ := List.append_eq_nil_iff.mp found.whole.symm
  exact absurd empty (secretName_ne_nil found.isName)

/-- The bytes of the encoded text from `i` up to `j` are whole characters, and no key comes to
stand at their start. -/
def Redactor.Undisturbed (r : Redactor) (text : Text) (i j : Nat) : Prop :=
  Utf8.Boundary text i ∧ Utf8.Boundary text j ∧
    ∀ front piece back, text = front ++ (piece ++ back) → (Utf8.encode front).length = i →
      (Utf8.encode front).length + (Utf8.encode piece).length = j → r.StartsClear piece

theorem slice_encode (front piece back : Text) :
    ((Utf8.encode (front ++ (piece ++ back))).take
      ((Utf8.encode front).length + (Utf8.encode piece).length)).drop (Utf8.encode front).length
      = Utf8.encode piece := by
  rw [Utf8.encode_append, Utf8.encode_append, List.take_length_add_append, List.take_left,
    List.drop_left]

theorem slice_unique {front piece back front' piece' back' : Text}
    (whole : front ++ (piece ++ back) = front' ++ (piece' ++ back'))
    (starts : (Utf8.encode front).length = (Utf8.encode front').length)
    (sizes : (Utf8.encode piece).length = (Utf8.encode piece').length) : piece = piece' := by
  have bytes := congrArg Utf8.encode whole
  rw [Utf8.encode_append, Utf8.encode_append, Utf8.encode_append, Utf8.encode_append] at bytes
  have rest := (List.append_inj bytes starts).2
  have same := (List.append_inj rest sizes).1
  rw [← Utf8.decode_encode piece, same, Utf8.decode_encode]

/-- Redacting a slice of a file without secrets leaves it alone exactly then. -/
theorem redact_slice_iff {i j : Nat} (clean : ∀ value ∈ r.secretValues, ¬ value <:+: text)
    (unkeyed : r.Unkeyed text) (ordered : i ≤ j) (inside : j ≤ (Utf8.encode text).length)
    (empty : i = j → Utf8.Boundary text i) :
    r.redact (((Utf8.encode text).take j).drop i) = ((Utf8.encode text).take j).drop i ↔
      r.Undisturbed text i j := by
  constructor
  · intro same
    generalize shown : r.redactText (Utf8.decode (((Utf8.encode text).take j).drop i)) = piece
    have slice : ((Utf8.encode text).take j).drop i = Utf8.encode piece := by
      rw [← same, Redactor.redact, shown]
    have size : (Utf8.encode piece).length = j - i := by
      rw [← slice, List.length_drop, List.length_take]
      omega
    rw [slice, Utf8.decode_encode] at shown
    by_cases filled : piece = []
    · subst filled
      have stands : i = j := by
        rw [Utf8.encode_nil, List.length_nil] at size
        omega
      refine ⟨empty stands, stands ▸ empty stands, ?_⟩
      rintro front piece back - rfl width
      rw [Utf8.eq_nil_of_length_encode (show (Utf8.encode piece).length = 0 by omega)]
      exact startsClear_nil r
    · have whole : Utf8.encode text = (Utf8.encode text).take i
          ++ (Utf8.encode piece ++ (Utf8.encode text).drop j) := by
        have front : (Utf8.encode text).take i = ((Utf8.encode text).take j).take i := by
          rw [List.take_take, Nat.min_eq_left ordered]
        rw [← slice, ← List.append_assoc, front, List.take_append_drop, List.take_append_drop]
      obtain ⟨front, back, rfl, isFront, _⟩ := Utf8.split_of_encode filled whole
      have start : (Utf8.encode front).length = i := by
        rw [isFront, List.length_take]
        omega
      have cleanPiece : ∀ value ∈ r.secretValues, ¬ value <:+: piece := by
        intro value registered found
        exact clean value registered (found.trans ⟨front, back, by simp⟩)
      rw [redactText_clean cleanPiece] at shown
      refine ⟨⟨front, _, rfl, start⟩, ⟨front ++ piece, back, by simp, ?_⟩, ?_⟩
      · rw [Utf8.encode_append, List.length_append]
        omega
      · intro front' piece' back' parts starts width
        have samePiece : piece = piece' := slice_unique parts (by omega) (by omega)
        rw [← samePiece]
        exact (hide_piece_iff unkeyed).mp shown
  · rintro ⟨first, second, clear⟩
    obtain ⟨front, piece, back, rfl, rfl, rfl⟩ := first.split second ordered
    have cleanPiece : ∀ value ∈ r.secretValues, ¬ value <:+: piece := by
      intro value registered found
      exact clean value registered (found.trans ⟨front, back, by simp⟩)
    have kept := (hide_piece_iff unkeyed).mpr (clear front piece back rfl rfl rfl)
    rw [slice_encode, Redactor.redact, Utf8.decode_encode, redactText_clean cleanPiece, kept]

end Slices

namespace Redactor

variable (r : Redactor) (bootId : String)

def turn (state : RotationState) (snapshot : Bytes) : RotationResult :=
  rotate state snapshot bootId r.redact

def Faithful (file : Bytes) : Rotated → List Nat → Prop
  | _, [] => True
  | p, n :: lengths =>
    (p.advance (r.turn bootId) (file.take n)).bytes = file.take n ∧
      Faithful file (p.advance (r.turn bootId) (file.take n)) lengths

def Clear (text : Text) : Rotated → List Nat → Prop
  | _, [] => True
  | p, n :: lengths =>
    r.Undisturbed text (seam p.state ((Utf8.encode text).take n) bootId) n ∧
      Clear text (p.advance (r.turn bootId) ((Utf8.encode text).take n)) lengths

def after (file : Bytes) (p : Rotated) (lengths : List Nat) : Rotated :=
  lengths.foldl (fun p n => p.advance (r.turn bootId) (file.take n)) p

def Poised (text : Text) (p : Rotated) (lengths : List Nat) : Prop :=
  ∀ n ∈ lengths, Ready (Utf8.encode text) bootId p n ∧
    (p.sealed.length = n → Utf8.Boundary text n)

variable {r bootId} {text : Text} {p : Rotated}

theorem faithful_after {file : Bytes} : ∀ {lengths : List Nat} {p : Rotated},
    r.Faithful bootId file p lengths → ∀ n ∈ lengths.getLast?,
      (r.after bootId file p lengths).bytes = file.take n := by
  intro lengths
  induction lengths with
  | nil => simp
  | cons m lengths ih =>
    rintro p ⟨here, rest⟩ n isLast
    cases lengths with
    | nil =>
      obtain rfl : m = n := by simpa using isLast
      exact here
    | cons k lengths =>
      rw [List.getLast?_cons_cons] at isLast
      exact ih rest n isLast

theorem step_iff {n : Nat} (clean : ∀ value ∈ r.secretValues, ¬ value <:+: text)
    (unkeyed : r.Unkeyed text) (ready : Ready (Utf8.encode text) bootId p n)
    (stands : p.sealed.length = n → Utf8.Boundary text n) :
    (p.advance (r.turn bootId) ((Utf8.encode text).take n)).bytes = (Utf8.encode text).take n ↔
      r.Undisturbed text (seam p.state ((Utf8.encode text).take n) bootId) n := by
  have sizes := ready.length_sealed
  have slice := redact_slice_iff clean unkeyed sizes.2 ready.inside (fun same => same ▸ stands same)
  rw [← sizes.1, ← slice]
  have bytes := ready.bytes_advance r.redact
  unfold turn
  rw [bytes]
  conv_lhs => rhs; rw [← ready.sealed_append]
  exact List.append_right_inj _

theorem poised_start {start : RotationState} (fresh : start.bootId ≠ some bootId)
    {lengths : List Nat} (inside : ∀ n ∈ lengths, n ≤ (Utf8.encode text).length) :
    Poised bootId text ⟨[], start⟩ lengths := by
  intro n isLength
  have reset := detectNewBoot_fresh fresh ((Utf8.encode text).take n)
  refine ⟨⟨?_, ?_, inside n isLength⟩, ?_⟩
  · simp [reset, Rotated.sealed]
  · simp [reset]
  · rintro rfl
    exact ⟨[], text, rfl, rfl⟩

theorem poised_advance {n : Nat} {lengths : List Nat}
    (bytes : (p.advance (r.turn bootId) ((Utf8.encode text).take n)).bytes
      = (Utf8.encode text).take n) (between : Utf8.Boundary text n)
    (growing : ∀ m ∈ lengths, n ≤ m)
    (inside : ∀ m ∈ n :: lengths, m ≤ (Utf8.encode text).length) :
    Poised bootId text (p.advance (r.turn bootId) ((Utf8.encode text).take n)) lengths := by
  intro m isLength
  have bound : n ≤ (Utf8.encode text).length := inside n List.mem_cons_self
  have later : m ≤ (Utf8.encode text).length := inside m (List.mem_cons_of_mem n isLength)
  generalize isNext : p.advance (r.turn bootId) ((Utf8.encode text).take n) = next at bytes ⊢
  have boot : next.state.bootId = some bootId := by
    rw [← isNext]
    rfl
  have offset : next.state.plaintextOffset = n := by
    rw [← isNext]
    simp only [Rotated.advance, turn, rotate, List.length_take]
    omega
  have grown : next.state.plaintextOffset ≤ ((Utf8.encode text).take m).length := by
    have := growing m isLength
    rw [List.length_take]
    omega
  have cursor := detectNewBoot_same boot grown
  refine ⟨⟨?_, ?_, later⟩, ?_⟩
  · rw [cursor, offset]
    exact bytes
  · rw [cursor, offset]
    exact growing m isLength
  · intro all
    have size := congrArg List.length bytes
    have := growing m isLength
    rw [Rotated.bytes, List.length_append, List.length_take] at size
    have same : n = m := by omega
    rw [← same]
    exact between

theorem faithful_iff_clear (clean : ∀ value ∈ r.secretValues, ¬ value <:+: text)
    (unkeyed : r.Unkeyed text) : ∀ {lengths : List Nat} {p : Rotated},
    Poised bootId text p lengths → lengths.Pairwise (· ≤ ·) →
    (∀ n ∈ lengths, n ≤ (Utf8.encode text).length) →
    (r.Faithful bootId (Utf8.encode text) p lengths ↔ r.Clear bootId text p lengths) := by
  intro lengths
  induction lengths with
  | nil =>
    intro p _ _ _
    exact Iff.rfl
  | cons n lengths ih =>
    intro p poised growing inside
    obtain ⟨ready, stands⟩ := poised n List.mem_cons_self
    have step := step_iff clean unkeyed ready stands
    obtain ⟨after, others⟩ := List.pairwise_cons.mp growing
    have rest (bytes : (p.advance (r.turn bootId) ((Utf8.encode text).take n)).bytes
        = (Utf8.encode text).take n) :=
      ih (poised_advance bytes (step.mp bytes).2.1 after inside) others
        (fun m isLength => inside m (List.mem_cons_of_mem n isLength))
    constructor
    · rintro ⟨here, later⟩
      exact ⟨step.mp here, (rest here).mp later⟩
    · rintro ⟨here, later⟩
      exact ⟨step.mpr here, (rest (step.mpr here)).mpr later⟩

theorem whole_bytes (clean : ∀ value ∈ r.secretValues, ¬ value <:+: text)
    (unkeyed : r.Unkeyed text) {start : RotationState} (fresh : start.bootId ≠ some bootId) :
    (Rotated.advance (r.turn bootId) ⟨[], start⟩ (Utf8.encode text)).bytes
      = Utf8.encode text := by
  have poised : Poised bootId text ⟨[], start⟩ [(Utf8.encode text).length] :=
    poised_start fresh (by simp)
  obtain ⟨ready, stands⟩ := poised _ List.mem_cons_self
  have step := (step_iff clean unkeyed ready stands).mpr
  rw [List.take_length] at step
  apply step
  have reset := detectNewBoot_fresh fresh (Utf8.encode text)
  have seamZero : seam start (Utf8.encode text) bootId = 0 := by simp [seam, reset]
  refine ⟨?_, ⟨text, [], by simp, rfl⟩, ?_⟩
  · rw [seamZero]
    exact ⟨[], text, rfl, rfl⟩
  · intro front piece back parts starts _ here name sep value rest found
    obtain rfl := Utf8.eq_nil_of_length_encode (starts.trans seamZero)
    have filled : piece ≠ [] := by
      rw [found.whole]
      simp [secretName_ne_nil found.isName]
    have lead : [name, sep, value].flatten <+: text := by
      rw [parts, found.whole_flatten, List.nil_append, List.append_assoc]
      exact List.prefix_append _ _
    refine absurd (unkeyed [] text rfl ?_) (Regex.groups_ne_none found.matched lead)
    rw [parts, List.nil_append, wordBoundary_append r _ filled]
    exact here

variable (r bootId)

/-- The rotations of growing snapshots keep the bytes of a file without secrets exactly as long as
each pending region is made of whole characters and shows no key at its start, and then they end
with the bytes of one rotation of the whole file. -/
theorem rotations_faithful_iff (text : Text)
    (clean : ∀ value ∈ r.secretValues, ¬ value <:+: text) (unkeyed : r.Unkeyed text)
    (start : RotationState) (fresh : start.bootId ≠ some bootId) (lengths : List Nat)
    (growing : lengths.Pairwise (· ≤ ·))
    (inside : ∀ n ∈ lengths, n ≤ (Utf8.encode text).length) :
    (Rotated.advance (r.turn bootId) ⟨[], start⟩ (Utf8.encode text)).bytes = Utf8.encode text ∧
    (r.Faithful bootId (Utf8.encode text) ⟨[], start⟩ lengths ↔
      r.Clear bootId text ⟨[], start⟩ lengths) ∧
    (r.Clear bootId text ⟨[], start⟩ lengths →
      lengths.getLast? = some (Utf8.encode text).length →
      (r.after bootId (Utf8.encode text) ⟨[], start⟩ lengths).bytes
        = (Rotated.advance (r.turn bootId) ⟨[], start⟩ (Utf8.encode text)).bytes) := by
  have whole := whole_bytes clean unkeyed fresh
  have both := faithful_iff_clear clean unkeyed (poised_start fresh inside) growing inside
  refine ⟨whole, both, ?_⟩
  intro clear isLast
  rw [faithful_after (both.mpr clear) _ isLast, whole, List.take_length]

end Redactor

section Accents

def noSecrets : Redactor where
  isAlnum := Char.isAlphanum
  secretValues := []
  nonempty := by simp

theorem unkeyed_accent : noSecrets.Unkeyed ['é'] := by
  intro front back whole _
  cases front with
  | nil =>
    obtain rfl : ['é'] = back := whole
    exact groups_eq_none_of_head (by decide)
  | cons c front =>
    obtain ⟨_, rest⟩ := List.cons.inj whole
    obtain ⟨_, rfl⟩ := List.append_eq_nil_iff.mp rest.symm
    rfl

theorem rotations_faithful_accent :
    (Rotated.advance (noSecrets.turn "boot") ⟨[], .zero⟩ (Utf8.encode ['é'])).bytes
      = Utf8.encode ['é'] ∧
    (noSecrets.Faithful "boot" (Utf8.encode ['é']) ⟨[], .zero⟩ [0, 2] ↔
      noSecrets.Clear "boot" ['é'] ⟨[], .zero⟩ [0, 2]) ∧
    (noSecrets.Clear "boot" ['é'] ⟨[], .zero⟩ [0, 2] →
      [0, 2].getLast? = some (Utf8.encode ['é']).length →
      (noSecrets.after "boot" (Utf8.encode ['é']) ⟨[], .zero⟩ [0, 2]).bytes
        = (Rotated.advance (noSecrets.turn "boot") ⟨[], .zero⟩ (Utf8.encode ['é'])).bytes) :=
  noSecrets.rotations_faithful_iff "boot" ['é'] (by simp [noSecrets]) unkeyed_accent .zero (by decide)
    [0, 2] (by decide) (by decide +kernel)

/-- A snapshot that ends inside the letter: its first byte is replaced in the carry, and so is the
second when it comes. -/
theorem snapshot_inside_character :
    (∀ value ∈ noSecrets.secretValues, ¬ value <:+: ['é']) ∧ noSecrets.Unkeyed ['é'] ∧
      (noSecrets.after "boot" (Utf8.encode ['é']) ⟨[], .zero⟩ [1, 2]).bytes
        = Utf8.encode [Utf8.replacement, Utf8.replacement] ∧
      (noSecrets.after "boot" (Utf8.encode ['é']) ⟨[], .zero⟩ [1, 2]).bytes
        ≠ (Rotated.advance (noSecrets.turn "boot") ⟨[], .zero⟩ (Utf8.encode ['é'])).bytes := by
  refine ⟨by simp [noSecrets], unkeyed_accent, ?_, ?_⟩
  · decide +kernel
  · decide +kernel

end Accents

end Kdive.Console
