import Kdive.Artifacts.Jump

/-!
The windowed reads of `artifacts.get`. A window is cut at byte offsets and decoded on its own, so
the windows of a text put together are the text again exactly when no edge is inside a character.
-/
namespace Kdive.Artifacts

def artifactGetWindowMaxBytes : Nat := 24 * 1024

/-- `inlineCap` is the setting `KDIVE_ARTIFACT_INLINE_MAX_BYTES`. -/
def effectiveMax (inlineCap : Nat) (maxBytes : Int) : Nat :=
  min (min (max maxBytes 1).toNat inlineCap) artifactGetWindowMaxBytes

inductive LoadedBody where
  | plaintext (body : Bytes)
  | degraded (reason : String)

structure WindowData where
  sizeBytes : Nat
  content : Text
  contentTruncated : Bool
  nextOffset : Option Nat

def backwardWindow (body : Bytes) (byteOffset : Int) (limit : Nat) : WindowData :=
  let stop := resolveAnchor body.length .backward byteOffset
  let windowStart := stop - limit
  { sizeBytes := body.length
    content := Utf8.decode ((body.take stop).drop windowStart)
    contentTruncated := decide (0 < windowStart)
    nextOffset := if 0 < windowStart then some windowStart else none }

/-- The next offset has to be further on, or a caller would never get past it. -/
def forwardWindow (body : Bytes) (byteOffset : Int) (limit : Nat) : WindowData :=
  let window := (body.drop byteOffset.toNat).take limit
  let nextOffset := byteOffset.toNat + window.length
  let truncated := decide (0 < window.length ∧ nextOffset < body.length)
  { sizeBytes := body.length
    content := Utf8.decode window
    contentTruncated := truncated
    nextOffset := if truncated then some nextOffset else none }

def windowOf (body : Bytes) (byteOffset : Int) (limit : Nat) : JumpDirection → WindowData
  | .backward => backwardWindow body byteOffset limit
  | .forward => forwardWindow body byteOffset limit

def windowResponseData (inlineCap : Nat) (loaded : LoadedBody) (byteOffset maxBytes : Int)
    (direction : JumpDirection) : Except String WindowData :=
  match loaded with
  | .degraded reason => .error reason
  | .plaintext body => .ok (windowOf body byteOffset (effectiveMax inlineCap maxBytes) direction)

/-- The contents a caller gets who starts at the offset and follows `next_offset` until none is
returned. -/
inductive Reads (inlineCap : Nat) (body : Bytes) (maxBytes : Int) (direction : JumpDirection) :
    Int → List Text → Prop where
  | last {offset : Int} {data : WindowData}
      (answer : windowResponseData inlineCap (.plaintext body) offset maxBytes direction = .ok data)
      (ends : data.nextOffset = none) : Reads inlineCap body maxBytes direction offset [data.content]
  | more {offset : Int} {data : WindowData} {next : Nat} {contents : List Text}
      (answer : windowResponseData inlineCap (.plaintext body) offset maxBytes direction = .ok data)
      (goes : data.nextOffset = some next)
      (rest : Reads inlineCap body maxBytes direction next contents) :
      Reads inlineCap body maxBytes direction offset (data.content :: contents)

def JumpDirection.arrange : JumpDirection → List Text → List Text
  | .forward, contents => contents
  | .backward, contents => contents.reverse

def Edge (size limit : Nat) (direction : JumpDirection) (i : Nat) : Prop :=
  0 < i ∧ i < size ∧ match direction with
    | .forward => limit ∣ i
    | .backward => limit ∣ size - i

instance (size limit : Nat) (direction : JumpDirection) (i : Nat) :
    Decidable (Edge size limit direction i) := by
  unfold Edge
  cases direction <;> infer_instance

section Tiling

def Cut (pieces : List Bytes) (i : Nat) : Prop :=
  ∃ before after, pieces = before ++ after ∧ before.flatten.length = i

theorem cut_cons {piece : Bytes} {pieces : List Bytes} {i : Nat} :
    Cut (piece :: pieces) i ↔ i = 0 ∨ ∃ j, i = piece.length + j ∧ Cut pieces j := by
  constructor
  · rintro ⟨before, after, whole, rfl⟩
    cases before with
    | nil => exact .inl rfl
    | cons first before =>
      obtain ⟨rfl, rfl⟩ : piece = first ∧ pieces = before ++ after := by simpa using whole
      exact .inr ⟨before.flatten.length, by simp, before, after, rfl, rfl⟩
  · rintro (rfl | ⟨j, rfl, before, after, rfl, rfl⟩)
    · exact ⟨[], piece :: pieces, rfl, rfl⟩
    · exact ⟨piece :: before, after, rfl, by simp⟩

theorem cut_nil {i : Nat} : Cut [] i ↔ i = 0 := by
  constructor
  · rintro ⟨before, after, whole, rfl⟩
    obtain ⟨rfl, rfl⟩ : before = [] ∧ after = [] := by simpa using whole.symm
    rfl
  · rintro rfl
    exact ⟨[], [], rfl, rfl⟩

theorem cut_concat {piece : Bytes} {pieces : List Bytes} {i : Nat} :
    Cut (pieces ++ [piece]) i ↔ Cut pieces i ∨ i = pieces.flatten.length + piece.length := by
  induction pieces generalizing i with
  | nil =>
    rw [List.nil_append, cut_cons, cut_nil]
    constructor
    · rintro (rfl | ⟨j, rfl, isCut⟩)
      · exact .inl rfl
      · right
        simpa using cut_nil.mp isCut
    · rintro (rfl | rfl)
      · exact .inl rfl
      · exact .inr ⟨0, by simp, cut_nil.mpr rfl⟩
  | cons first pieces ih =>
    rw [List.cons_append, cut_cons, cut_cons]
    constructor
    · rintro (rfl | ⟨j, rfl, isCut⟩)
      · exact .inl (.inl rfl)
      · rcases ih.mp isCut with old | rfl
        · exact .inl (.inr ⟨j, rfl, old⟩)
        · right
          simp only [List.flatten_cons, List.length_append]
          omega
    · rintro ((rfl | ⟨j, rfl, old⟩) | rfl)
      · exact .inl rfl
      · exact .inr ⟨j, rfl, ih.mpr (.inl old)⟩
      · refine .inr ⟨pieces.flatten.length + piece.length, ?_, ih.mpr (.inr rfl)⟩
        simp only [List.flatten_cons, List.length_append]
        omega

theorem cut_single {piece : Bytes} {i : Nat} : Cut [piece] i ↔ i = 0 ∨ i = piece.length := by
  have concat : Cut ([] ++ [piece]) i ↔ _ := cut_concat
  simpa [cut_nil] using concat

variable {inlineCap : Nat} {body : Bytes} {maxBytes : Int} {limit : Nat}

theorem forward_answer (body : Bytes) (isLimit : effectiveMax inlineCap maxBytes = limit) (offset : Nat) :
    windowResponseData inlineCap (.plaintext body) offset maxBytes .forward
      = .ok (forwardWindow body offset limit) := by
  rw [windowResponseData, isLimit]
  rfl

theorem backward_answer (body : Bytes) (isLimit : effectiveMax inlineCap maxBytes = limit) (offset : Int) :
    windowResponseData inlineCap (.plaintext body) offset maxBytes .backward
      = .ok (backwardWindow body offset limit) := by
  rw [windowResponseData, isLimit]
  rfl

theorem forward_reads (body : Bytes) (isLimit : effectiveMax inlineCap maxBytes = limit) (positive : 0 < limit) :
    ∀ (n offset : Nat), body.length - offset < n → offset ≤ body.length →
      ∃ pieces : List Bytes, Reads inlineCap body maxBytes .forward offset (pieces.map Utf8.decode) ∧
        pieces.flatten = body.drop offset ∧
        ∀ i, Cut pieces i ↔ i = body.length - offset ∨ limit ∣ i ∧ i < body.length - offset := by
  intro n
  induction n with
  | zero =>
    intro offset short
    omega
  | succ n ih =>
    intro offset short inside
    have answer := forward_answer body isLimit offset
    have size : ((body.drop offset).take limit).length = min limit (body.length - offset) := by
      rw [List.length_take, List.length_drop]
    rcases Nat.lt_or_ge (offset + limit) body.length with more | last
    · obtain ⟨pieces, reads, whole, cuts⟩ := ih (offset + limit) (by omega) (by omega)
      have window : ((body.drop offset).take limit).length = limit := by omega
      refine ⟨(body.drop offset).take limit :: pieces, ?_, ?_, ?_⟩
      · refine .more answer ?_ reads
        simp [forwardWindow, size]
        omega
      · rw [List.flatten_cons, whole, ← List.drop_drop, List.take_append_drop]
      · intro i
        rw [cut_cons, window]
        constructor
        · rintro (rfl | ⟨j, rfl, isCut⟩)
          · exact .inr ⟨Nat.dvd_zero limit, by omega⟩
          · rcases (cuts j).mp isCut with rfl | ⟨divides, below⟩
            · left
              omega
            · exact .inr ⟨Nat.dvd_add (Nat.dvd_refl limit) divides, by omega⟩
        · intro place
          rcases Nat.lt_or_ge i limit with early | late
          · left
            rcases place with rfl | ⟨divides, _⟩
            · omega
            · exact Nat.eq_zero_of_dvd_of_lt divides early
          · obtain ⟨j, rfl⟩ := Nat.exists_eq_add_of_le late
            refine .inr ⟨j, rfl, (cuts j).mpr ?_⟩
            rcases place with same | ⟨divides, below⟩
            · left
              omega
            · exact .inr ⟨(Nat.dvd_add_right (Nat.dvd_refl limit)).mp divides, by omega⟩
    · have window : (body.drop offset).take limit = body.drop offset := by
        rw [List.take_of_length_le (by rw [List.length_drop]; omega)]
      refine ⟨[body.drop offset], ?_, by simp, ?_⟩
      · have content : Utf8.decode (body.drop offset) = (forwardWindow body offset limit).content := by
          simp [forwardWindow, window]
        rw [List.map_singleton, content]
        refine .last answer ?_
        simp [forwardWindow, window]
        omega
      · intro i
        rw [cut_single, List.length_drop]
        constructor
        · rintro (rfl | rfl)
          · rcases Nat.eq_zero_or_pos (body.length - offset) with none | some
            · exact .inl none.symm
            · exact .inr ⟨Nat.dvd_zero limit, some⟩
          · exact .inl rfl
        · rintro (rfl | ⟨divides, below⟩)
          · exact .inr rfl
          · exact .inl (Nat.eq_zero_of_dvd_of_lt divides (by omega))

theorem backward_reads (isLimit : effectiveMax inlineCap maxBytes = limit) (positive : 0 < limit) :
    ∀ (n stop : Nat) (offset : Int), stop < n → stop ≤ body.length →
      resolveAnchor body.length .backward offset = stop → ∃ pieces : List Bytes,
        Reads inlineCap body maxBytes .backward offset (pieces.map Utf8.decode).reverse ∧
        pieces.flatten = body.take stop ∧
        ∀ i, Cut pieces i ↔ i = 0 ∨ i ≤ stop ∧ limit ∣ stop - i := by
  intro n
  induction n with
  | zero =>
    intro stop offset short
    omega
  | succ n ih =>
    intro stop offset short inside anchor
    have answer := backward_answer body isLimit offset
    have taken : (body.take stop).length = stop := by
      rw [List.length_take]
      omega
    rcases Nat.lt_or_ge limit stop with more | last
    · have anchor' : resolveAnchor body.length .backward (stop - limit : Nat) = stop - limit := by
        simp only [resolveAnchor]
        rw [if_neg (by omega)]
        omega
      obtain ⟨pieces, reads, whole, cuts⟩ := ih (stop - limit) _ (by omega) (by omega) anchor'
      refine ⟨pieces ++ [(body.take stop).drop (stop - limit)], ?_, ?_, ?_⟩
      · rw [List.map_append, List.reverse_append]
        have content : Utf8.decode ((body.take stop).drop (stop - limit))
            = (backwardWindow body offset limit).content := by
          simp [backwardWindow, anchor]
        rw [List.map_singleton, List.reverse_singleton, List.singleton_append, content]
        refine .more answer ?_ reads
        simp [backwardWindow, anchor]
        omega
      · have front : body.take (stop - limit) = (body.take stop).take (stop - limit) := by
          rw [List.take_take]
          congr 1
          omega
        rw [List.flatten_append, whole, List.flatten_singleton, front, List.take_append_drop]
      · intro i
        have size : pieces.flatten.length + ((body.take stop).drop (stop - limit)).length = stop := by
          rw [whole, List.length_take, List.length_drop, taken]
          omega
        rw [cut_concat, cuts, size]
        constructor
        · rintro ((rfl | ⟨below, divides⟩) | rfl)
          · exact .inl rfl
          · refine .inr ⟨by omega, ?_⟩
            have parts : stop - i = limit + (stop - limit - i) := by omega
            rw [parts]
            exact Nat.dvd_add (Nat.dvd_refl limit) divides
          · exact .inr ⟨le_rfl, by simp⟩
        · rintro (rfl | ⟨below, divides⟩)
          · exact .inl (.inl rfl)
          · rcases Nat.lt_or_ge (stop - limit) i with late | early
            · right
              have := Nat.eq_zero_of_dvd_of_lt divides (by omega)
              omega
            · refine .inl (.inr ⟨early, ?_⟩)
              have parts : stop - i = limit + (stop - limit - i) := by omega
              rw [parts] at divides
              exact (Nat.dvd_add_right (Nat.dvd_refl limit)).mp divides
    · have start : stop - limit = 0 := by omega
      refine ⟨[body.take stop], ?_, by simp, ?_⟩
      · have content : Utf8.decode (body.take stop) = (backwardWindow body offset limit).content := by
          simp [backwardWindow, anchor, start]
        rw [List.map_singleton, List.reverse_singleton, content]
        refine .last answer ?_
        simp [backwardWindow, anchor, start]
      · intro i
        rw [cut_single, taken]
        constructor
        · rintro (rfl | rfl)
          · exact .inl rfl
          · exact .inr ⟨le_rfl, by simp⟩
        · rintro (rfl | ⟨below, divides⟩)
          · exact .inl rfl
          · rcases Nat.eq_zero_or_pos i with none | some
            · exact .inl none
            · right
              have := Nat.eq_zero_of_dvd_of_lt divides (by omega)
              omega

end Tiling

section Reading

variable {inlineCap : Nat} {text : Text} {maxBytes : Int}

theorem effectiveMax_pos (allowed : 0 < inlineCap) (maxBytes : Int) : 0 < effectiveMax inlineCap maxBytes := by
  unfold effectiveMax artifactGetWindowMaxBytes
  omega

theorem Reads.unique {body : Bytes} {direction : JumpDirection} {offset : Int} {contents : List Text}
    (reads : Reads inlineCap body maxBytes direction offset contents) :
    ∀ {others}, Reads inlineCap body maxBytes direction offset others → contents = others := by
  induction reads with
  | last answer ends =>
    intro others reads'
    cases reads' with
    | last answer' _ =>
      rw [answer] at answer'
      rw [Except.ok.inj answer']
    | more answer' goes' _ =>
      rw [answer] at answer'
      rw [← Except.ok.inj answer', ends] at goes'
      cases goes'
  | more answer goes rest ih =>
    intro others reads'
    cases reads' with
    | last answer' ends' =>
      rw [answer] at answer'
      rw [← Except.ok.inj answer', goes] at ends'
      cases ends'
    | more answer' goes' rest' =>
      rw [answer] at answer'
      obtain rfl := Except.ok.inj answer'
      rw [goes] at goes'
      obtain rfl := Option.some.inj goes'
      rw [ih rest']

theorem exists_reads (allowed : 0 < inlineCap) (body : Bytes) (maxBytes : Int)
    (direction : JumpDirection) : ∃ (contents : List Text) (pieces : List Bytes),
      Reads inlineCap body maxBytes direction (direction.edge body) contents ∧
      direction.arrange contents = pieces.map Utf8.decode ∧ pieces.flatten = body ∧
      ∀ i, Cut pieces i ↔ i = 0 ∨ i = body.length ∨
        Edge body.length (effectiveMax inlineCap maxBytes) direction i := by
  have positive := effectiveMax_pos allowed maxBytes
  cases direction with
  | forward =>
    obtain ⟨pieces, reads, whole, cuts⟩ := forward_reads body rfl positive
      (body.length + 1) 0 (by omega) (by omega)
    refine ⟨pieces.map Utf8.decode, pieces, reads, rfl, by simpa using whole, ?_⟩
    intro i
    rw [cuts, Nat.sub_zero]
    constructor
    · rintro (same | ⟨divides, below⟩)
      · exact .inr (.inl same)
      · rcases Nat.eq_zero_or_pos i with none | some
        · exact .inl none
        · exact .inr (.inr ⟨some, below, divides⟩)
    · rintro (rfl | same | ⟨_, below, divides⟩)
      · rcases Nat.eq_zero_or_pos body.length with none | some
        · exact .inl none.symm
        · exact .inr ⟨Nat.dvd_zero _, some⟩
      · exact .inl same
      · exact .inr ⟨divides, below⟩
  | backward =>
    obtain ⟨pieces, reads, whole, cuts⟩ := backward_reads rfl positive (body.length + 1) body.length
      (body.length : Nat) (by omega) le_rfl (resolveAnchor_end body)
    refine ⟨_, pieces, reads, by simp [JumpDirection.arrange], by simpa using whole, ?_⟩
    intro i
    rw [cuts]
    constructor
    · rintro (none | ⟨below, divides⟩)
      · exact .inl none
      · rcases Nat.eq_zero_or_pos i with none | some
        · exact .inl none
        · rcases Nat.lt_or_eq_of_le below with inside | same
          · exact .inr (.inr ⟨some, inside, divides⟩)
          · exact .inr (.inl same)
    · rintro (none | rfl | ⟨_, below, divides⟩)
      · exact .inl none
      · exact .inr ⟨le_rfl, by simp⟩
      · exact .inr ⟨Nat.le_of_lt below, divides⟩

theorem boundary_ends (text : Text) : Utf8.Boundary text 0 ∧
    Utf8.Boundary text (Utf8.encode text).length :=
  ⟨⟨[], text, rfl, rfl⟩, ⟨text, [], by simp, rfl⟩⟩

/-- With a positive cap the windows make up the text when no edge is inside a character. -/
theorem reads_text_iff (allowed : 0 < inlineCap) (text : Text) (maxBytes : Int)
    (direction : JumpDirection) : ∃ contents,
      Reads inlineCap (Utf8.encode text) maxBytes direction (direction.edge (Utf8.encode text)) contents ∧
      ((direction.arrange contents).flatten = text ↔ ∀ i, Edge (Utf8.encode text).length
        (effectiveMax inlineCap maxBytes) direction i → Utf8.Boundary text i) := by
  obtain ⟨contents, pieces, reads, arranged, whole, cuts⟩ :=
    exists_reads allowed (Utf8.encode text) maxBytes direction
  refine ⟨contents, reads, ?_⟩
  rw [arranged, Utf8.decode_pieces_iff whole]
  constructor
  · intro between i isEdge
    obtain ⟨before, after, parts, rfl⟩ := (cuts i).mpr (.inr (.inr isEdge))
    exact between before after parts
  · intro between before after parts
    rcases (cuts _).mp ⟨before, after, parts, rfl⟩ with none | last | isEdge
    · rw [none]
      exact (boundary_ends text).1
    · rw [last]
      exact (boundary_ends text).2
    · exact between _ isEdge

section Zero

theorem effectiveMax_zero (maxBytes : Int) : effectiveMax 0 maxBytes = 0 := by
  unfold effectiveMax
  omega

theorem no_reads_zero {body : Bytes} (filled : 0 < body.length) {offset : Int} {contents : List Text}
    (reads : Reads 0 body maxBytes .backward offset contents) :
    resolveAnchor body.length .backward offset ≠ body.length := by
  induction reads with
  | @last offset data answer ends =>
    intro anchor
    rw [backward_answer body (effectiveMax_zero maxBytes)] at answer
    obtain rfl := Except.ok.inj answer
    simp only [backwardWindow, anchor, Nat.sub_zero, if_pos filled] at ends
    cases ends
  | @more offset data next contents answer goes rest ih =>
    intro anchor
    rw [backward_answer body (effectiveMax_zero maxBytes)] at answer
    obtain rfl := Except.ok.inj answer
    simp only [backwardWindow, anchor, Nat.sub_zero, if_pos filled] at goes
    obtain rfl := Option.some.inj goes
    exact ih (resolveAnchor_end body)

theorem reads_zero_iff (text : Text) (maxBytes : Int) (direction : JumpDirection) :
    (∃ contents, Reads 0 (Utf8.encode text) maxBytes direction (direction.edge (Utf8.encode text))
        contents ∧ (direction.arrange contents).flatten = text) ↔ text = [] := by
  constructor
  · rintro ⟨contents, reads, same⟩
    cases direction with
    | forward =>
      have answer := forward_answer (Utf8.encode text) (effectiveMax_zero maxBytes) 0
      have only : Reads 0 (Utf8.encode text) maxBytes .forward 0
          [(forwardWindow (Utf8.encode text) 0 0).content] :=
        .last answer (by simp [forwardWindow])
      rw [reads.unique only] at same
      simpa [JumpDirection.arrange, forwardWindow, Utf8.decode, Utf8.decodeFrom] using same.symm
    | backward =>
      by_contra filled
      have size := List.length_pos_iff.mpr (encode_ne_nil filled)
      exact no_reads_zero size reads (resolveAnchor_end _)
  · rintro rfl
    cases direction with
    | forward =>
      have answer := forward_answer (Utf8.encode []) (effectiveMax_zero maxBytes) 0
      exact ⟨_, .last answer (by simp [forwardWindow]), by
        simp [JumpDirection.arrange, forwardWindow, Utf8.decode, Utf8.decodeFrom]⟩
    | backward =>
      have answer := backward_answer (Utf8.encode []) (effectiveMax_zero maxBytes) (0 : Nat)
      exact ⟨_, .last answer (by simp [backwardWindow, resolveAnchor]), by
        simp [JumpDirection.arrange, backwardWindow, Utf8.decode, Utf8.decodeFrom]⟩

end Zero

end Reading

end Kdive.Artifacts
