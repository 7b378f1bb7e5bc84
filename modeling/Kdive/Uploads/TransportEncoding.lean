import Kdive.Domain
import Kdive.Lib.Inflate
import Mathlib.Tactic.IntervalCases

/-!
The transport wrapper of an uploaded object: one gzip member, read in ranges, hashed and unpacked
in one pass. A defect stops the unpacking but not the hash, and the digest decides what it means.
-/
namespace Kdive.Uploads
open Inflate (Machine)

section Decoding

abbrev Octets := Inflate.Bytes

def rangeChunkBytes : Nat := 4 * 1024 * 1024

structure StripDecodeRequest where
  key : String
  compressedSize : Nat
  expectedSha256 : String
  uncompressedSize : Nat

inductive ObjectDefect
  | corrupt
  | exceedsBound (bound : Nat)
  | truncated
  | trailingData

def ObjectDefect.message : ObjectDefect → String
  | .corrupt => "gzip transport stream is corrupt: decompression failed; re-upload the object"
  | .exceedsBound bound =>
    "decompressed output exceeds the declared uncompressed_size bound " ++
    "(" ++ toString bound ++ " bytes): the object is not a valid gzip of that size (a gzip bomb " ++
    "or a wrong uncompressed_size); re-declare with the correct uncompressed_size " ++
    "or upload the correct object"
  | .truncated =>
    "gzip transport stream is truncated: it ended before the gzip trailer, so the " ++
    "canonical object is incomplete; re-upload the full object"
  | .trailingData =>
    "trailing data after the gzip stream: the stored object is not a single gzip member " ++
    "(concatenated/multi-member gzip is not supported); re-upload a single gzip of the " ++
    "canonical object"

structure StripError where
  category : ErrorCategory
  message : String
  gate : Option String := none

def transportChecksumGate : String := "transport_checksum"

def objectError (detail : String) : StripError := ⟨.configurationError, detail, none⟩

def shortReadError (request : StripDecodeRequest) (offset : Nat) : StripError :=
  ⟨.infrastructureFailure, "the object store returned no bytes for a range of " ++ request.key ++
    " at offset " ++ toString offset ++ " of " ++ toString request.compressedSize ++
    ": the stored object could not be read in full; retry", none⟩

def transportError (detail : String) : StripError :=
  ⟨.infrastructureFailure, detail, some transportChecksumGate⟩

def checksumMismatch : StripError :=
  transportError ("transport checksum mismatch: the stored object's SHA-256 does not match the " ++
    "checksum signed at upload; retry, and if it persists the stored object is damaged and must " ++
    "be re-uploaded")

variable {σ : Type} (m : Machine σ)

/-- What `_drain` leaves: all of the range unpacked, the end of the member, or a defect; with all
bytes the writer has received. -/
inductive Drained (σ : Type)
  | more (received : Octets) (state : σ)
  | ended (received unused : Octets)
  | defect (received : Octets) (defect : ObjectDefect)

def drain (bound : Nat) (data received : Octets) (s : σ) : Drained σ :=
  if _some_data : data ≠ [] then
    let limit := min rangeChunkBytes (bound - received.length + 1)
    match _called : m.decompress limit data s with
    | .failed => .defect received .corrupt
    | .ended produced unused =>
      if produced ≠ [] ∧ bound < (received ++ produced).length then
        .defect (received ++ produced) (.exceedsBound bound)
      else .ended (received ++ produced) unused
    | .paused produced tail t =>
      if produced ≠ [] ∧ bound < (received ++ produced).length then
        .defect (received ++ produced) (.exceedsBound bound)
      else drain bound tail (received ++ produced) t
  else .more received s
termination_by data.length + (bound + 1 - received.length)
decreasing_by
  rename_i within
  have positive : 0 < min rangeChunkBytes (bound - received.length + 1) := by
    simp only [rangeChunkBytes]
    omega
  obtain ⟨shorter, some_output | strictly⟩ :=
    Inflate.decompress_progress _called positive _some_data
  · have longer := List.length_pos_iff.2 some_output
    have bounded : (received ++ produced).length ≤ bound := by
      by_contra past
      exact within ⟨some_output, by omega⟩
    rw [List.length_append] at bounded ⊢
    omega
  · rw [List.length_append]
    omega

/-- `_DecodePass`, with the bytes that were hashed and those the writer received. -/
structure DecodePass where
  received : Octets
  hashed : Octets
  offset : Nat
  defect : Option ObjectDefect

def nextLength (request : StripDecodeRequest) (offset : Nat) : Nat :=
  min rangeChunkBytes (request.compressedSize - offset)

variable (getRange : Nat → Nat → Octets) (request : StripDecodeRequest)

theorem rest_shrinks {offset : Nat} {answer : Octets} (inside : offset < request.compressedSize)
    (bytes : answer ≠ []) :
    request.compressedSize - (offset + (answer.take (nextLength request offset)).length) <
      request.compressedSize - offset := by
  have positive := List.length_pos_iff.2 bytes
  have taken : 0 < (answer.take (nextLength request offset)).length := by
    rw [List.length_take, nextLength, rangeChunkBytes]
    omega
  omega

def decodePass (offset : Nat) (hashed received : Octets) (s : σ) :
    Except (StripError × Octets) DecodePass :=
  if _inside : offset < request.compressedSize then
    let answer := getRange offset (nextLength request offset)
    if _some_bytes : answer = [] then .error (shortReadError request offset, received)
    else
      let chunk := answer.take (nextLength request offset)
      match drain m request.uncompressedSize chunk received s with
      | .defect received defect =>
        .ok ⟨received, hashed ++ chunk, offset + chunk.length, some defect⟩
      | .ended received unused =>
        .ok ⟨received, hashed ++ chunk, offset + chunk.length,
          if unused ≠ [] ∨ offset + chunk.length < request.compressedSize then some .trailingData
          else none⟩
      | .more received t => decodePass (offset + chunk.length) (hashed ++ chunk) received t
  else .ok ⟨received, hashed, offset, some .truncated⟩
termination_by request.compressedSize - offset
decreasing_by exact rest_shrinks request _inside _some_bytes

def hashRemaining (offset : Nat) (hashed : Octets) : Except StripError Octets :=
  if _inside : offset < request.compressedSize then
    let answer := getRange offset (nextLength request offset)
    if _some_bytes : answer = [] then .error (shortReadError request offset)
    else
      let chunk := answer.take (nextLength request offset)
      hashRemaining (offset + chunk.length) (hashed ++ chunk)
  else .ok hashed
termination_by request.compressedSize - offset
decreasing_by exact rest_shrinks request _inside _some_bytes

def verdict (decoded : DecodePass) : Except StripError Nat × Octets :=
  match decoded.defect with
  | some defect => (.error (objectError defect.message), decoded.received)
  | none => (.ok decoded.received.length, decoded.received)

/-- `strip_gzip_to_writer`: its result, and what the writer received. The digest is the base64 text
of a hash of bytes. -/
def stripGzipToWriter (digest : Octets → String) : Except StripError Nat × Octets :=
  match decodePass m getRange request 0 [] [] m.start with
  | .error (e, received) => (.error e, received)
  | .ok decoded =>
    match hashRemaining getRange request decoded.offset decoded.hashed with
    | .error e => (.error e, decoded.received)
    | .ok hashed =>
      if digest hashed ≠ request.expectedSha256 then (.error checksumMismatch, decoded.received)
      else verdict decoded

variable {m getRange request}

/-- What is known of the machine and the writer behind some of the object. -/
structure Reached (m : Machine σ) (bound : Nat) (consumed received : Octets) (s : σ) : Prop where
  runs : Inflate.Runs m m.start consumed received s
  within : received.length ≤ bound
  waits : m.Waits s

def Spoils (m : Machine σ) (bound : Nat) (data : Octets) : Prop :=
  ∃ input rest output t, data = input ++ rest ∧ Inflate.Runs m m.start input output t ∧
    (m.step t = .failed ∨ bound < output.length)

def Handled (m : Machine σ) (bound : Nat) (consumed data : Octets) : Drained σ → Prop
  | .more received t => Reached m bound (consumed ++ data) received t
  | .ended received unused => ∃ input t, data = input ++ unused ∧
      Inflate.Runs m m.start (consumed ++ input) received t ∧ m.step t = .finished ∧
      received.length ≤ bound
  | .defect received _ => received.length ≤ bound + 1 ∧ Spoils m bound (consumed ++ data)

theorem Handled.extend {bound : Nat} {consumed input tail : Octets} {drained : Drained σ}
    (handled : Handled m bound (consumed ++ input) tail drained) :
    Handled m bound consumed (input ++ tail) drained := by
  cases drained with
  | more received t =>
    rw [Handled, List.append_assoc] at handled
    exact handled
  | ended received unused =>
    obtain ⟨more, t, rfl, runs, ended, within⟩ := handled
    rw [List.append_assoc] at runs
    exact ⟨input ++ more, t, by simp, runs, ended, within⟩
  | defect received defect =>
    rw [Handled, List.append_assoc] at handled
    exact handled

/-- A call with output within its limit keeps the writer within one byte of the bound. -/
theorem length_received {bound : Nat} {received produced : Octets}
    (within : received.length ≤ bound)
    (small : produced.length ≤ min rangeChunkBytes (bound - received.length + 1)) :
    (received ++ produced).length ≤ bound + 1 := by
  rw [List.length_append]
  omega

theorem within_of_not_past {bound : Nat} {received produced : Octets}
    (within : received.length ≤ bound)
    (not_past : ¬ (produced ≠ [] ∧ bound < (received ++ produced).length)) :
    (received ++ produced).length ≤ bound := by
  by_cases empty : produced = []
  · rw [empty, List.append_nil]
    exact within
  · by_contra past
    exact not_past ⟨empty, by omega⟩

theorem handled_drain {bound : Nat} (data received : Octets) (s : σ) (consumed : Octets)
    (reached : Reached m bound consumed received s) :
    Handled m bound consumed data (drain m bound data received s) := by
  fun_induction drain m bound data received s generalizing consumed with
  | case1 data received s some_data limit called =>
    have sound := Inflate.sound_decompress m limit data s
    rw [called] at sound
    obtain ⟨input, rest, produced, t, rfl, runs, failed⟩ := sound
    exact ⟨Nat.le_succ_of_le reached.within, consumed ++ input, rest, received ++ produced, t,
      by simp, reached.runs.append runs, .inl failed⟩
  | case2 data received s some_data limit produced unused called past =>
    have sound := Inflate.sound_decompress m limit data s
    rw [called] at sound
    obtain ⟨input, t, rfl, runs, small, _⟩ := sound
    exact ⟨length_received reached.within small, consumed ++ input, unused, received ++ produced,
      t, by simp, reached.runs.append runs, .inr past.2⟩
  | case3 data received s some_data limit produced unused called not_past =>
    have sound := Inflate.sound_decompress m limit data s
    rw [called] at sound
    obtain ⟨input, t, rfl, runs, _, ended⟩ := sound
    exact ⟨input, t, rfl, reached.runs.append runs, ended,
      within_of_not_past reached.within not_past⟩
  | case4 data received s some_data limit produced tail t called past =>
    have sound := Inflate.sound_decompress m limit data s
    rw [called] at sound
    obtain ⟨input, rfl, runs, small, _⟩ := sound
    exact ⟨length_received reached.within small, consumed ++ input, tail, received ++ produced,
      t, by simp, reached.runs.append runs, .inr past.2⟩
  | case5 data received s some_data limit produced tail t called not_past ih =>
    have sound := Inflate.sound_decompress m limit data s
    rw [called] at sound
    obtain ⟨input, rfl, runs, _, stops⟩ := sound
    apply Handled.extend
    apply ih
    refine ⟨reached.runs.append runs, within_of_not_past reached.within not_past, ?_⟩
    rcases stops with ⟨b, u, gives, _⟩ | ⟨next, asks, _⟩
    · exact .inl ⟨b, u, gives⟩
    · exact .inr ⟨next, asks⟩
  | case6 data received s no_data =>
    rw [not_not] at no_data
    subst no_data
    rw [Handled, List.append_nil]
    exact reached

def Fitting (m : Machine σ) (bound : Nat) (object : Octets) : Prop :=
  ∃ output, m.Holds object output ∧ output.length ≤ bound

theorem Spoils.not_fitting {bound : Nat} {object : Octets} (spoils : Spoils m bound object) :
    ¬ Fitting m bound object := by
  rintro ⟨whole, ⟨u, all, ended⟩, within⟩
  obtain ⟨input, rest, output, t, rfl, runs, bad⟩ := spoils
  obtain ⟨others, rfl, onward⟩ := runs.cut ended all
  rcases bad with failed | past
  · cases onward with
    | refl => exact absurd (failed.symm.trans ended) nofun
    | emit gives _ => exact absurd (failed.symm.trans gives) nofun
    | want asks _ => exact absurd (failed.symm.trans asks) nofun
  · rw [List.length_append] at within
    omega

theorem Spoils.append {bound : Nat} {data : Octets} (spoils : Spoils m bound data)
    (more : Octets) : Spoils m bound (data ++ more) := by
  obtain ⟨input, rest, output, t, rfl, runs, bad⟩ := spoils
  exact ⟨input, rest ++ more, output, t, by simp, runs, bad⟩

theorem not_fitting_of_more {bound : Nat} {input more output : Octets} {t : σ}
    (runs : Inflate.Runs m m.start input output t) (ended : m.step t = .finished)
    (some_more : more ≠ []) : ¬ Fitting m bound (input ++ more) := by
  rintro ⟨whole, ⟨u, all, last⟩, _⟩
  obtain ⟨others, rfl, onward⟩ := runs.cut last all
  cases onward with
  | refl => exact absurd rfl some_more
  | emit gives _ => exact absurd (ended.symm.trans gives) nofun
  | want asks _ => exact absurd (ended.symm.trans asks) nofun

theorem Reached.not_fitting {bound : Nat} {object received : Octets} {s : σ}
    (reached : Reached m bound object received s) : ¬ Fitting m bound object := by
  rintro ⟨whole, ⟨u, all, last⟩, _⟩
  rw [← List.append_nil object] at all
  obtain ⟨others, rfl, onward⟩ := reached.runs.cut last all
  exact reached.waits.not_ended onward last

structure RangedReadStore (object : Octets) where
  getRange : Nat → Nat → Octets
  answers : ∀ start length, start < object.length → 0 < length →
    getRange start length ≠ [] ∧ getRange start length <+: (object.drop start).take length

section Reading

variable {object : Octets} (store : RangedReadStore object)

theorem RangedReadStore.chunk {offset : Nat} (sized : request.compressedSize = object.length)
    (inside : offset < request.compressedSize) :
    store.getRange offset (nextLength request offset) ≠ [] ∧
      object.take (offset + ((store.getRange offset (nextLength request offset)).take
        (nextLength request offset)).length) = object.take offset ++
          (store.getRange offset (nextLength request offset)).take (nextLength request offset) ∧
      offset + ((store.getRange offset (nextLength request offset)).take
        (nextLength request offset)).length ≤ object.length := by
  have positive : 0 < nextLength request offset := by
    rw [nextLength, rangeChunkBytes]
    omega
  obtain ⟨some_bytes, answered⟩ := store.answers offset (nextLength request offset)
    (sized ▸ inside) positive
  generalize store.getRange offset (nextLength request offset) = answer at some_bytes answered ⊢
  have bounded := answered.length_le
  rw [List.length_take, List.length_drop] at bounded
  have whole : answer.take (nextLength request offset) = answer :=
    List.take_of_length_le (by omega)
  have here : (object.drop offset).take answer.length = answer := by
    have first := answered.trans (List.take_prefix _ _)
    exact (List.prefix_iff_eq_take.1 first).symm
  refine ⟨some_bytes, ?_, ?_⟩
  · rw [whole, List.take_add, here]
  · rw [whole]
    omega

structure PassSeen (m : Machine σ) (bound : Nat) (object : Octets) (pass : DecodePass) : Prop where
  hashed : pass.hashed = object.take pass.offset
  inside : pass.offset ≤ object.length
  within : pass.received.length ≤ bound + 1
  clean : pass.defect = none → m.Holds object pass.received ∧ pass.received.length ≤ bound
  spoiled : pass.defect ≠ none → ¬ Fitting m bound object

theorem seen_decodePass (sized : request.compressedSize = object.length) (offset : Nat)
    (hashed received : Octets) (s : σ) (sofar : hashed = object.take offset)
    (inside : offset ≤ object.length)
    (reached : Reached m request.uncompressedSize (object.take offset) received s) :
    ∃ pass, decodePass m store.getRange request offset hashed received s = .ok pass ∧
      PassSeen m request.uncompressedSize object pass := by
  fun_induction decodePass m store.getRange request offset hashed received s with
  | case1 offset hashed received s here answer empty =>
    exact absurd empty (store.chunk sized here).1
  | case2 offset hashed received s here answer some_bytes chunk given defect drained =>
    obtain ⟨_, follows, fits⟩ := store.chunk sized here
    have handled := handled_drain chunk received s _ reached
    rw [drained] at handled
    obtain ⟨within, spoils⟩ := handled
    refine ⟨_, rfl, ⟨?_, fits, within, nofun, fun _ => ?_⟩⟩
    · rw [sofar]
      exact follows.symm
    · rw [← follows] at spoils
      have whole := spoils.append (object.drop (offset + chunk.length))
      rw [List.take_append_drop] at whole
      exact whole.not_fitting
  | case3 offset hashed received s here answer some_bytes chunk given unused drained =>
    obtain ⟨_, follows, fits⟩ := store.chunk sized here
    have handled := handled_drain chunk received s _ reached
    rw [drained] at handled
    obtain ⟨input, t, split, runs, ended, within⟩ := handled
    have whole : object = (object.take offset ++ input) ++
        (unused ++ object.drop (offset + chunk.length)) := by
      conv_lhs => rw [← List.take_append_drop (offset + chunk.length) object, follows]
      rw [show (store.getRange offset (nextLength request offset)).take (nextLength request offset)
        = input ++ unused from split]
      simp
    refine ⟨_, rfl, ⟨?_, fits, Nat.le_succ_of_le within, ?_, ?_⟩⟩
    · rw [sofar]
      exact follows.symm
    · intro clean
      split_ifs at clean with trailing
      rw [not_or, not_not, sized] at trailing
      obtain ⟨rfl, covered⟩ := trailing
      rw [List.drop_of_length_le (Nat.not_lt.1 covered), List.append_nil, List.append_nil] at whole
      rw [← whole] at runs
      exact ⟨⟨t, runs, ended⟩, within⟩
    · intro trailing
      split_ifs at trailing with more
      · rw [whole]
        apply not_fitting_of_more runs ended
        rcases more with leftover | unread
        · simp [leftover]
        · rw [sized] at unread
          simp only [ne_eq, List.append_eq_nil_iff, List.drop_eq_nil_iff, not_and]
          intro _
          omega
      · exact absurd rfl trailing
  | case4 offset hashed received s here answer some_bytes chunk given t drained ih =>
    obtain ⟨_, follows, fits⟩ := store.chunk sized here
    have handled := handled_drain chunk received s _ reached
    rw [drained] at handled
    apply ih
    · rw [sofar]
      exact follows.symm
    · exact fits
    · have onward : Reached m request.uncompressedSize (object.take offset ++ chunk) given t :=
        handled
      rw [← follows] at onward
      exact onward
  | case5 offset hashed received s outside =>
    have all : offset = object.length := by omega
    subst all
    rw [List.take_length] at reached
    exact ⟨_, rfl, ⟨sofar, inside, Nat.le_succ_of_le reached.within, nofun,
      fun _ => reached.not_fitting⟩⟩

theorem hashRemaining_eq (sized : request.compressedSize = object.length) (offset : Nat)
    (hashed : Octets) (sofar : hashed = object.take offset) (inside : offset ≤ object.length) :
    hashRemaining store.getRange request offset hashed = .ok object := by
  fun_induction hashRemaining store.getRange request offset hashed with
  | case1 offset hashed here answer empty => exact absurd empty (store.chunk sized here).1
  | case2 offset hashed here answer some_bytes chunk ih =>
    obtain ⟨_, follows, fits⟩ := store.chunk sized here
    apply ih
    · rw [sofar]
      exact follows.symm
    · exact fits
  | case3 offset hashed outside =>
    rw [sofar, List.take_of_length_le (by omega)]

theorem verdict_received (pass : DecodePass) : (verdict pass).2 = pass.received := by
  unfold verdict
  split <;> rfl

/-- What the writer receives is at most one byte more than the bound. The result is a digest
mismatch if there is one; else it is the size of the one member that the object is, whose bytes the
writer has received, or an error about the object. -/
theorem stripGzipToWriter_decides (key expectedSha256 : String) (bound : Nat)
    (digest : Octets → String) :
    let request : StripDecodeRequest := ⟨key, object.length, expectedSha256, bound⟩
    let result := stripGzipToWriter m store.getRange request digest
    ((∃ n, result.1 = .ok n) ↔ digest object = expectedSha256 ∧ Fitting m bound object) ∧
    (∀ n, result.1 = .ok n → m.Holds object result.2 ∧ n = result.2.length) ∧
    (digest object ≠ expectedSha256 → result.1 = .error checksumMismatch) ∧
    (digest object = expectedSha256 → ¬ Fitting m bound object →
      ∃ defect : ObjectDefect, result.1 = .error (objectError defect.message)) ∧
    result.2.length ≤ bound + 1 := by
  intro request result
  obtain ⟨next, asks⟩ := m.header
  have start : Reached m bound (object.take 0) [] m.start :=
    ⟨.refl m.start, Nat.zero_le _, .inr ⟨next, asks⟩⟩
  have sized : request.compressedSize = object.length := rfl
  obtain ⟨pass, decoded, passed⟩ := seen_decodePass store sized 0 [] [] m.start rfl
    (Nat.zero_le _) start
  have hashed := hashRemaining_eq store sized pass.offset pass.hashed passed.hashed passed.inside
  have shape : result = if digest object ≠ expectedSha256 then
      (.error checksumMismatch, pass.received) else verdict pass := by
    simp only [result, stripGzipToWriter, decoded, hashed]
    rfl
  have received : result.2 = pass.received := by
    rw [shape]
    split
    · rfl
    · exact verdict_received pass
  by_cases same : digest object = expectedSha256
  · rw [if_neg (not_not.2 same)] at shape
    cases found : pass.defect with
    | none =>
      obtain ⟨holds, within⟩ := passed.clean found
      have done : result.1 = .ok pass.received.length := by rw [shape, verdict, found]
      refine ⟨⟨fun _ => ⟨same, pass.received, holds, within⟩, fun _ => ⟨_, done⟩⟩, ?_, ?_, ?_, ?_⟩
      · intro n isDone
        rw [received]
        exact ⟨holds, Except.ok.inj (isDone.symm.trans done)⟩
      · exact fun other => absurd same other
      · exact fun _ unfit => absurd ⟨pass.received, holds, within⟩ unfit
      · rw [received]
        exact passed.within
    | some defect =>
      have unfit := passed.spoiled (by simp [found])
      have failed : result.1 = .error (objectError defect.message) := by
        rw [shape, verdict, found]
      refine ⟨⟨?_, fun fits => absurd fits.2 unfit⟩, ?_, fun other => absurd same other,
        fun _ _ => ⟨defect, failed⟩, ?_⟩
      · rintro ⟨n, isDone⟩
        exact absurd (failed.symm.trans isDone) nofun
      · intro n isDone
        exact absurd (failed.symm.trans isDone) nofun
      · rw [received]
        exact passed.within
  · rw [if_pos same] at shape
    have failed : result.1 = .error checksumMismatch := by rw [shape]
    refine ⟨⟨?_, fun fits => absurd fits.1 same⟩, ?_, fun _ => failed,
      fun agrees => absurd agrees same, ?_⟩
    · rintro ⟨n, isDone⟩
      exact absurd (failed.symm.trans isDone) nofun
    · intro n isDone
      exact absurd (failed.symm.trans isDone) nofun
    · rw [received]
      exact passed.within

end Reading

section Letter

inductive Letter
  | read (b : UInt8)
  | give (b : UInt8)

/-- A gzip member that holds the letter a: its header, the two bytes that end in the letter's code,
the end of the block, the checksum and the size. -/
def letterScript : List Letter :=
  [.read 31, .read 139, .read 8, .read 0, .read 0, .read 0, .read 0, .read 0, .read 2, .read 3,
    .read 75, .read 4, .give 97, .read 0, .read 67, .read 190, .read 183, .read 232, .read 1,
    .read 0, .read 0, .read 0]

def letterObject : Octets :=
  [31, 139, 8, 0, 0, 0, 0, 0, 2, 3, 75, 4, 0, 67, 190, 183, 232, 1, 0, 0, 0]

def letterStep : Option Nat → Inflate.Move (Option Nat)
  | none => .failed
  | some n =>
    match letterScript[n]? with
    | none => .finished
    | some (.read b) => .want (fun c => if c = b then some (n + 1) else none)
    | some (.give b) => .emit b (some (n + 1))

def letterMachine : Machine (Option Nat) where
  start := some 0
  step := letterStep
  header := ⟨_, rfl⟩
  trailer := by
    intro s b t gives
    obtain _ | n := s
    · cases gives
    · by_cases here : n = 12
      · subst here
        obtain ⟨rfl, rfl⟩ := Inflate.Move.emit.inj gives
        exact nofun
      · rcases Nat.lt_or_ge n 22 with inside | outside
        · interval_cases n <;> first | exact absurd rfl here | cases gives
        · have ended : letterScript[n]? = none := List.getElem?_eq_none outside
          simp [letterStep, ended] at gives

def letterStore : RangedReadStore letterObject where
  getRange start _ := (letterObject.drop start).take 1
  answers := by
    intro start length inside positive
    refine ⟨?_, List.take_prefix_take_left positive⟩
    rw [Ne, List.take_eq_nil_iff, List.drop_eq_nil_iff]
    omega

theorem letterMachine_holds : letterMachine.Holds letterObject [97] :=
  ⟨some 22, by repeat (first | exact .refl _ | refine .emit rfl ?_ | refine .want rfl ?_), rfl⟩

theorem stripGzipToWriter_letter :
    ∃ n, (stripGzipToWriter letterMachine letterStore.getRange ⟨"key", 21, "digest", 1⟩
      (fun _ => "digest")).1 = .ok n :=
  (stripGzipToWriter_decides letterStore "key" "digest" 1 (fun _ => "digest")).1.2
    ⟨rfl, [97], letterMachine_holds, Nat.le_refl 1⟩

end Letter

end Decoding

end Kdive.Uploads
