import Kdive.Console.Incremental
import Kdive.Console.RotateJob
import Kdive.Lib.Base64
import Kdive.Lib.JsonRoundTrip

/-!
The cursor of a System's rotations between two jobs: a JSON document in the object store. A chain of
rotations of one growing file, each from the document the one before it wrote, seals and carries the
bytes of the file.
-/
namespace Kdive.Console
open JsonText (Str Value str Interpreter)

section Document

/-- `_serialize`. -/
def fields (state : RotationState) : List (Str × Value) :=
  [(str "plaintext_offset", .int state.plaintextOffset),
    (str "carry", .text (Base64.encode state.carry)),
    (str "next_index", .int state.nextIndex),
    (str "boot_gen", .int state.bootGen),
    (str "boot_id", state.bootId.elim .null (fun bootId => .text (str bootId)))]

def document (state : RotationState) : Value := .object (fields state)

def serialize (state : RotationState) : Bytes :=
  JsonText.asciiBytes (JsonText.dumps [44, 32] [58, 32] (document state))

/-- Why a document gives no cursor: it is corrupt, the stack is used up, or its fields are of types
and ranges that no rotation writes and some of which the reader would still take. -/
inductive Unread
  | corrupt
  | recursion
  | foreign
  deriving DecidableEq

def orCorrupt {α : Type} : Option α → Except Unread α
  | some a => .ok a
  | none => .error .corrupt

def counterOf : Value → Except Unread Nat
  | .int n => if 0 ≤ n then .ok n.toNat else .error .foreign
  | .bool _ | .float _ | .text _ => .error .foreign
  | .null | .array _ | .object _ => .error .corrupt

def carryOf : Value → Except Unread Bytes
  | .text s =>
    if s.any (fun c => decide (128 ≤ c)) then .error .corrupt else orCorrupt (Base64.decode true s)
  | _ => .error .corrupt

def stringOf (s : Str) : Option String :=
  if s.all (fun c => decide (JsonText.Scalar c)) then some (String.ofList (s.map Char.ofNat))
  else none

def bootIdOf : Value → Except Unread (Option String)
  | .null => .ok none
  | .text s => (stringOf s).elim (.error .foreign) (fun bootId => .ok (some bootId))
  | _ => .error .foreign

def members : Value → Except Unread (List (Str × Value))
  | .object members => .ok members
  | _ => .error .corrupt

def field (doc : List (Str × Value)) (name : String) : Except Unread Value :=
  orCorrupt (JsonText.lookup doc (str name))

def loadsDocument (interpreter : Interpreter) (data : Bytes) : Except Unread Value :=
  match JsonText.loads interpreter.nesting data with
  | .ok v => .ok v
  | .error .invalid => .error .corrupt
  | .error .recursion => .error .recursion

def deserialize (interpreter : Interpreter) (data : Bytes) : Except Unread RotationState := do
  let doc ← loadsDocument interpreter data
  let doc ← members doc
  let carry ← (field doc "carry").bind carryOf
  let plaintextOffset ← (field doc "plaintext_offset").bind counterOf
  let nextIndex ← (field doc "next_index").bind counterOf
  let bootGen ← (field doc "boot_gen").bind counterOf
  let bootId ← (field doc "boot_id").bind bootIdOf
  return ⟨plaintextOffset, carry, nextIndex, bootGen, bootId⟩

def readSidecar (interpreter : Interpreter) : Option Bytes → Except Unread RotationState
  | none => .ok .zero
  | some data =>
    match deserialize interpreter data with
    | .error .corrupt => .ok .zero
    | result => result

def maxSize : Nat := 2 ^ 63 - 1

structure Counted (state : RotationState) : Prop where
  offset : state.plaintextOffset ≤ maxSize
  index : state.nextIndex ≤ maxSize
  gen : state.bootGen ≤ maxSize

theorem length_decimal {n : Nat} (bounded : n ≤ maxSize) :
    (JsonText.decimal n).length ≤ JsonText.maxDigits := by
  unfold JsonText.decimal
  split_ifs with zero
  · simp [JsonText.maxDigits]
  · have fits : (Nat.digits 10 n).length ≤ 19 := by
      rw [Nat.digits_length_le_iff (by decide)]
      have : maxSize < 10 ^ 19 := by decide
      omega
    rw [List.length_map, List.length_reverse]
    unfold JsonText.maxDigits
    omega

theorem separators_default : JsonText.Separators [44, 32] [58, 32] where
  item := ⟨[32], rfl, by decide⟩
  key := ⟨[32], rfl, by decide⟩

theorem stringOf_str (s : String) : stringOf (str s) = some s := by
  have scalar : (str s).all (fun c => decide (JsonText.Scalar c)) = true := by
    rw [List.all_eq_true]
    intro c inside
    exact decide_eq_true (JsonText.scalar_str s c inside)
  have same : (str s).map Char.ofNat = s.toList := by
    rw [str, List.map_map]
    conv_rhs => rw [← List.map_id s.toList]
    apply List.map_congr_left
    intro c _
    exact Char.ofNat_toNat c
  rw [stringOf, if_pos scalar, same, String.ofList_toList]

variable {interpreter : Interpreter} {state : RotationState}

theorem fits_document (counted : Counted state) :
    JsonText.Fits interpreter.nesting (document state) := by
  obtain ⟨depth, room⟩ : ∃ d, interpreter.nesting = d + 1 :=
    ⟨interpreter.nesting - 1, by have := interpreter.room; omega⟩
  have number : ∀ {n : Nat}, n ≤ maxSize → JsonText.Fits depth (.int n) := by
    intro n bounded
    have short := length_decimal bounded
    cases depth <;> exact short
  have text : ∀ {s : Str}, (∀ c ∈ s, JsonText.Scalar c) → JsonText.Fits depth (.text s) := by
    intro s scalar
    cases depth <;> exact scalar
  rw [room]
  intro m inside
  simp only [fields, List.mem_cons, List.not_mem_nil, or_false] at inside
  rcases inside with rfl | rfl | rfl | rfl | rfl
  · exact ⟨JsonText.scalar_str _, number counted.offset⟩
  · refine ⟨JsonText.scalar_str _, text ?_⟩
    intro c inside
    have := Base64.lt_of_mem_encode inside
    unfold JsonText.Scalar
    omega
  · exact ⟨JsonText.scalar_str _, number counted.index⟩
  · exact ⟨JsonText.scalar_str _, number counted.gen⟩
  · refine ⟨JsonText.scalar_str _, ?_⟩
    cases state.bootId with
    | none => cases depth <;> trivial
    | some bootId => exact text (JsonText.scalar_str bootId)

theorem deserialize_serialize (counted : Counted state) :
    deserialize interpreter (serialize state) = .ok state := by
  have read : loadsDocument interpreter (serialize state) = .ok (document state) := by
    unfold loadsDocument serialize
    rw [JsonText.loads_dumps separators_default (fits_document counted)]
  have ascii : (Base64.encode state.carry).any (fun c => decide (128 ≤ c)) = false := by
    rw [List.any_eq_false]
    intro c inside
    have := Base64.lt_of_mem_encode inside
    simp
    omega
  obtain ⟨offset, carry, index, gen, bootId⟩ := state
  have carry_field : field (fields ⟨offset, carry, index, gen, bootId⟩) "carry" =
      .ok (.text (Base64.encode carry)) := rfl
  have offset_field : field (fields ⟨offset, carry, index, gen, bootId⟩) "plaintext_offset" =
      .ok (.int offset) := rfl
  have index_field : field (fields ⟨offset, carry, index, gen, bootId⟩) "next_index" =
      .ok (.int index) := rfl
  have gen_field : field (fields ⟨offset, carry, index, gen, bootId⟩) "boot_gen" =
      .ok (.int gen) := rfl
  have boot_field : field (fields ⟨offset, carry, index, gen, bootId⟩) "boot_id" =
      .ok (bootId.elim .null (fun bootId => .text (str bootId))) := rfl
  have boot : bootIdOf (bootId.elim .null (fun bootId => .text (str bootId))) = .ok bootId := by
    cases bootId with
    | none => rfl
    | some bootId => simp [bootIdOf, stringOf_str]
  have counter : ∀ n : Nat, counterOf (.int n) = .ok n := by
    intro n
    simp [counterOf]
  simp only [deserialize, read, document, members, bind, Except.bind, carry_field, offset_field,
    index_field, gen_field, boot_field, carryOf, ascii, Bool.false_eq_true, if_false,
    Base64.decode_encode, orCorrupt, counter, boot]
  rfl

theorem readSidecar_serialize (counted : Counted state) :
    readSidecar interpreter (some (serialize state)) = .ok state := by
  rw [readSidecar, deserialize_serialize counted]

end Document

section Chains

structure RotationSize where
  threshold : Nat
  overlap : Nat
  positive : 0 < threshold

def RotationSize.standard : RotationSize := ⟨rotationThreshold, seamOverlap, by decide⟩

def rotateBy (size : RotationSize) (state : RotationState) (file : Bytes) (bootId : String)
    (redact : Bytes → Bytes) : RotationResult :=
  let (gen, offset, carry, index) := detectNewBoot state file bootId
  let (blobs, held) :=
    SeamRotator.drainParts redact size.threshold size.overlap (carry ++ file.drop offset)
  { parts := numberParts gen index blobs
    nextState := ⟨file.length, held, index + blobs.length, gen, some bootId⟩ }

theorem rotateBy_standard : rotateBy .standard = rotate := rfl

variable (interpreter : Interpreter) (size : RotationSize) (bootId : String)

def rotateStored (stored : Option Bytes) (file : Bytes) :
    Except Unread (List SealedPart × Bytes) := do
  let state ← readSidecar interpreter stored
  let result := rotateBy size state file bootId id
  return (result.parts, serialize result.nextState)

def rotateChain : Option Bytes → List Bytes → Except Unread (List SealedPart × Option Bytes)
  | stored, [] => .ok ([], stored)
  | stored, file :: files => do
    let done ← rotateStored interpreter size bootId stored file
    let rest ← rotateChain (some done.2) files
    return (done.1 ++ rest.1, rest.2)

structure Consumed (gen : Nat) (file : Bytes) (parts : List SealedPart) (state : RotationState) :
    Prop where
  bytes : (parts.map SealedPart.redacted).flatten ++ state.carry = file
  offset : state.plaintextOffset = file.length
  indices : parts.map SealedPart.index = List.range parts.length
  gens : ∀ part ∈ parts, part.gen = gen
  filled : ∀ part ∈ parts, part.redacted ≠ []
  next : state.nextIndex = parts.length
  sameGen : state.bootGen = gen
  boot : state.bootId = some bootId
  short : state.carry.length < size.overlap + size.threshold

variable {interpreter size bootId}

theorem filled_drainLoop {threshold overlap : Nat} : ∀ turns (held work : Bytes),
    ∀ blob ∈ (SeamRotator.drainLoop threshold overlap turns held work).1, blob ≠ [] := by
  intro turns
  induction turns with
  | zero => simp [SeamRotator.drainLoop]
  | succ turns ih =>
    intro held work blob inside
    rw [SeamRotator.drainLoop] at inside
    split at inside
    · dsimp only at inside
      split at inside
      · exact ih _ _ blob inside
      · rename_i some_bytes
        rcases List.mem_cons.1 inside with rfl | later
        · intro empty
          simp [empty] at some_bytes
        · exact ih _ _ blob later
    · simp at inside

theorem short_drainLoop {threshold overlap : Nat} (positive : 0 < threshold) :
    ∀ turns (held work : Bytes), work.length ≤ turns → held.length ≤ overlap →
      (SeamRotator.drainLoop threshold overlap turns held work).2.length < overlap + threshold := by
  intro turns
  induction turns with
  | zero =>
    intro held work enough bounded
    simp only [SeamRotator.drainLoop, List.length_append]
    omega
  | succ turns ih =>
    intro held work enough bounded
    rw [SeamRotator.drainLoop]
    split
    · apply ih
      · rw [List.length_drop]
        omega
      · rw [length_holdBack]
        omega
    · rw [List.length_append]
      omega

/-- More bytes behind the pending ones leave the parts that were cut from these as they are. -/
theorem prefix_drainLoop {threshold overlap : Nat} (more : Bytes) :
    ∀ (turns further : Nat) (held work : Bytes), turns ≤ further →
      (SeamRotator.drainLoop threshold overlap turns held work).1 <+:
        (SeamRotator.drainLoop threshold overlap further held (work ++ more)).1 := by
  intro turns
  induction turns with
  | zero =>
    intro further held work _
    exact List.nil_prefix
  | succ turns ih =>
    intro further held work enough
    obtain ⟨further, rfl⟩ : ∃ n, further = n + 1 := ⟨further - 1, by omega⟩
    rw [SeamRotator.drainLoop]
    split
    · rename_i long
      have same : (work ++ more).take threshold = work.take threshold :=
        List.take_append_of_le_length long
      have rest : (work ++ more).drop threshold = work.drop threshold ++ more :=
        List.drop_append_of_le_length long
      rw [SeamRotator.drainLoop, if_pos (by rw [List.length_append]; omega), same, rest]
      have others := ih further (holdBack overlap (held ++ work.take threshold)).2
        (work.drop threshold) (by omega)
      dsimp only
      split
      · exact others
      · exact List.cons_prefix_cons.2 ⟨rfl, others⟩
    · exact List.nil_prefix

theorem prefix_numberParts {gen : Nat} {blobs more : List Bytes} (first : blobs <+: more) :
    ∀ index, numberParts gen index blobs <+: numberParts gen index more := by
  obtain ⟨rest, rfl⟩ := first
  induction blobs with
  | nil =>
    intro index
    exact List.nil_prefix
  | cons blob blobs ih =>
    intro index
    exact List.cons_prefix_cons.2 ⟨rfl, ih (index + 1)⟩

theorem index_numberParts (gen : Nat) (blobs : List Bytes) : ∀ index,
    (numberParts gen index blobs).map SealedPart.index = List.range' index blobs.length := by
  induction blobs with
  | nil =>
    intro index
    rfl
  | cons blob blobs ih =>
    intro index
    rw [numberParts, List.map_cons, ih, List.length_cons, List.range'_succ]

theorem length_numberParts (gen : Nat) (blobs : List Bytes) (index : Nat) :
    (numberParts gen index blobs).length = blobs.length := by
  have same := congrArg List.length (index_numberParts gen blobs index)
  rwa [List.length_map, List.length_range'] at same

theorem length_le_flatten {blobs : List Bytes} (each : ∀ blob ∈ blobs, 1 ≤ blob.length) :
    blobs.length ≤ blobs.flatten.length := by
  induction blobs with
  | nil => simp
  | cons blob blobs ih =>
    have first := each blob List.mem_cons_self
    have others := ih (fun b inside => each b (List.mem_cons_of_mem _ inside))
    rw [List.flatten_cons, List.length_append, List.length_cons]
    omega

theorem consumed_rotateBy {gen : Nat} {state : RotationState} {file grown carry : Bytes}
    {parts : List SealedPart}
    (detected : detectNewBoot state grown bootId = (gen, file.length, carry, parts.length))
    (bytes : (parts.map SealedPart.redacted).flatten ++ carry = file)
    (indices : parts.map SealedPart.index = List.range parts.length)
    (gens : ∀ part ∈ parts, part.gen = gen) (filled : ∀ part ∈ parts, part.redacted ≠ [])
    (grows : file <+: grown) :
    Consumed size bootId gen grown (parts ++ (rotateBy size state grown bootId id).parts)
      (rotateBy size state grown bootId id).nextState := by
  obtain ⟨more, rfl⟩ := grows
  have pending : carry ++ (file ++ more).drop file.length = carry ++ more := by
    rw [List.drop_left]
  have drained := drainParts_append id size.threshold size.overlap (carry ++ more)
  have ends : (SeamRotator.drainLoop size.threshold size.overlap (carry ++ more).length []
      (carry ++ more)).2.length < size.overlap + size.threshold :=
    short_drainLoop size.positive _ [] (carry ++ more) (Nat.le_refl _) (Nat.zero_le _)
  have some_bytes : ∀ blob ∈ (SeamRotator.drainLoop size.threshold size.overlap
      (carry ++ more).length [] (carry ++ more)).1, blob ≠ [] :=
    filled_drainLoop (carry ++ more).length [] (carry ++ more)
  simp only [rotateBy, detected, pending]
  generalize drained_eq : SeamRotator.drainParts id size.threshold size.overlap (carry ++ more) =
    result at drained ⊢
  have loop : SeamRotator.drainLoop size.threshold size.overlap (carry ++ more).length []
      (carry ++ more) = result := drained_eq
  rw [loop] at ends some_bytes
  constructor
  · rw [List.map_append, List.flatten_append, map_redacted_numberParts, List.append_assoc, drained,
      id, ← List.append_assoc, bytes]
  · rfl
  · rw [List.map_append, indices, index_numberParts, List.length_append, length_numberParts,
      List.range_eq_range', List.range_eq_range']
    have joined : List.range' 0 parts.length ++ List.range' (0 + parts.length) result.1.length =
        List.range' 0 (parts.length + result.1.length) := List.range'_append_1
    rwa [Nat.zero_add] at joined
  · intro part inside
    rcases List.mem_append.1 inside with old | new
    · exact gens part old
    · exact (key_of_mem_numberParts new).1
  · intro part inside
    rcases List.mem_append.1 inside with old | new
    · exact filled part old
    · have blob : part.redacted ∈ (numberParts gen parts.length result.1).map SealedPart.redacted :=
        List.mem_map_of_mem new
      rw [map_redacted_numberParts] at blob
      exact some_bytes _ blob
  · simp [length_numberParts]
  · rfl
  · rfl
  · exact ends

theorem Consumed.start {state : RotationState} (fresh : state.bootId ≠ some bootId)
    (file : Bytes) :
    Consumed size bootId (if state.bootId.isSome then state.bootGen + 1 else state.bootGen) file
      (rotateBy size state file bootId id).parts (rotateBy size state file bootId id).nextState := by
  have detected : detectNewBoot state file bootId =
      (if state.bootId.isSome then state.bootGen + 1 else state.bootGen,
        ([] : Bytes).length, [], ([] : List SealedPart).length) := by
    rw [detectNewBoot, if_pos (.inl (Ne.symm fresh))]
    rfl
  exact consumed_rotateBy detected rfl rfl (by simp) (by simp) List.nil_prefix

theorem Consumed.advance {gen : Nat} {state : RotationState} {file grown : Bytes}
    {parts : List SealedPart} (consumed : Consumed size bootId gen file parts state)
    (grows : file <+: grown) :
    Consumed size bootId gen grown (parts ++ (rotateBy size state grown bootId id).parts)
      (rotateBy size state grown bootId id).nextState := by
  have detected : detectNewBoot state grown bootId =
      (gen, file.length, state.carry, parts.length) := by
    rw [detectNewBoot_same consumed.boot (by rw [consumed.offset]; exact grows.length_le),
      consumed.sameGen, consumed.offset, consumed.next]
  exact consumed_rotateBy detected consumed.bytes consumed.indices consumed.gens consumed.filled
    grows

theorem Consumed.counted {gen : Nat} {state : RotationState} {file : Bytes}
    {parts : List SealedPart} (consumed : Consumed size bootId gen file parts state)
    (bounded : file.length ≤ maxSize) (gens : gen ≤ maxSize) : Counted state where
  offset := by
    rw [consumed.offset]
    exact bounded
  index := by
    have each : ∀ blob ∈ parts.map SealedPart.redacted, 1 ≤ blob.length := by
      intro blob inside
      obtain ⟨part, member, rfl⟩ := List.mem_map.1 inside
      exact List.length_pos_iff.2 (consumed.filled part member)
    have enough : (parts.map SealedPart.redacted).length ≤
        (parts.map SealedPart.redacted).flatten.length := length_le_flatten each
    have whole := congrArg List.length consumed.bytes
    rw [List.length_append] at whole
    rw [List.length_map] at enough
    rw [consumed.next]
    omega
  gen := by
    rw [consumed.sameGen]
    exact gens

theorem rotateStored_eq {stored : Option Bytes} {state : RotationState}
    (read : readSidecar interpreter stored = .ok state) (file : Bytes) :
    rotateStored interpreter size bootId stored file =
      .ok ((rotateBy size state file bootId id).parts,
        serialize (rotateBy size state file bootId id).nextState) := by
  rw [rotateStored, read]
  rfl

variable (interpreter size bootId) in
/-- A rotation done again from the same document: the same parts come first even if the file has
grown, and all is the same if it has not. -/
def Repeats (stored : Option Bytes) (file : Bytes) : Prop :=
  ∀ grown, file <+: grown → ∃ sealed next again after,
    rotateStored interpreter size bootId stored file = .ok (sealed, next) ∧
    rotateStored interpreter size bootId stored grown = .ok (again, after) ∧
    sealed <+: again ∧ (grown = file → again = sealed ∧ after = next)

theorem repeats_of_read {stored : Option Bytes} {state : RotationState} {file : Bytes}
    (read : readSidecar interpreter stored = .ok state)
    (inside : (detectNewBoot state file bootId).2.1 ≤ file.length)
    (stable : ∀ grown, file <+: grown →
      detectNewBoot state grown bootId = detectNewBoot state file bootId) :
    Repeats interpreter size bootId stored file := by
  intro grown grows
  refine ⟨_, _, _, _, rotateStored_eq read file, rotateStored_eq read grown, ?_, ?_⟩
  · have same := stable grown grows
    obtain ⟨more, rfl⟩ := grows
    have pending : (detectNewBoot state file bootId).2.2.1 ++
        (file ++ more).drop (detectNewBoot state file bootId).2.1 =
        (detectNewBoot state file bootId).2.2.1 ++
          file.drop (detectNewBoot state file bootId).2.1 ++ more := by
      rw [List.drop_append_of_le_length inside, List.append_assoc]
    simp only [rotateBy, same, pending]
    apply prefix_numberParts
    apply prefix_drainLoop
    simp
  · rintro rfl
    exact ⟨rfl, rfl⟩

theorem repeats_fresh {stored : Option Bytes} {state : RotationState}
    (read : readSidecar interpreter stored = .ok state) (fresh : state.bootId ≠ some bootId)
    (file : Bytes) : Repeats interpreter size bootId stored file := by
  have detected : ∀ snapshot, detectNewBoot state snapshot bootId =
      (if state.bootId.isSome then state.bootGen + 1 else state.bootGen, 0, [], 0) := by
    intro snapshot
    rw [detectNewBoot, if_pos (.inl (Ne.symm fresh))]
  apply repeats_of_read read
  · rw [detected]
    exact Nat.zero_le _
  · intro grown _
    rw [detected, detected]

theorem repeats_consumed {gen : Nat} {stored : Option Bytes} {state : RotationState}
    {before file : Bytes} {parts : List SealedPart}
    (read : readSidecar interpreter stored = .ok state)
    (consumed : Consumed size bootId gen before parts state) (grows : before <+: file) :
    Repeats interpreter size bootId stored file := by
  have covered : state.plaintextOffset ≤ file.length := by
    rw [consumed.offset]
    exact grows.length_le
  apply repeats_of_read read
  · rw [detectNewBoot_same consumed.boot covered]
    exact covered
  · intro grown further
    rw [detectNewBoot_same consumed.boot covered,
      detectNewBoot_same consumed.boot (Nat.le_trans covered further.length_le)]

variable {start : RotationState} {stored : Option Bytes}

def Progressed (interpreter : Interpreter) (size : RotationSize) (bootId : String) (gen : Nat)
    (start : RotationState) (files : List Bytes) (parts : List SealedPart)
    (stored : Option Bytes) : Prop :=
  ∃ state, readSidecar interpreter stored = .ok state ∧
    ((files = [] ∧ parts = [] ∧ state = start) ∨
      ∃ file, files.getLast? = some file ∧ Consumed size bootId gen file parts state)

theorem rotateChain_append (files more : List Bytes) : ∀ stored : Option Bytes,
    rotateChain interpreter size bootId stored (files ++ more) = do
      let done ← rotateChain interpreter size bootId stored files
      let rest ← rotateChain interpreter size bootId done.2 more
      return (done.1 ++ rest.1, rest.2) := by
  induction files with
  | nil =>
    intro stored
    simp only [List.nil_append, rotateChain, bind, Except.bind]
    cases rotateChain interpreter size bootId stored more <;> simp [pure, Except.pure]
  | cons file files ih =>
    intro stored
    simp only [List.cons_append, rotateChain, ih, bind, Except.bind]
    cases rotateStored interpreter size bootId stored file with
    | error e => rfl
    | ok done =>
      dsimp only
      cases rotateChain interpreter size bootId (some done.2) files with
      | error e => rfl
      | ok rest =>
        dsimp only [pure, Except.pure]
        cases rotateChain interpreter size bootId rest.2 more with
        | error e => rfl
        | ok last => simp [List.append_assoc]

theorem rotateChain_single (stored : Option Bytes) (file : Bytes) :
    rotateChain interpreter size bootId stored [file] =
      (rotateStored interpreter size bootId stored file).map (fun done => (done.1, some done.2)) := by
  simp only [rotateChain, bind, Except.bind]
  cases rotateStored interpreter size bootId stored file <;> simp [pure, Except.pure, Except.map]

section Growing

variable (read : readSidecar interpreter stored = .ok start) (fresh : start.bootId ≠ some bootId)

def nextGen (start : RotationState) : Nat :=
  if start.bootId.isSome then start.bootGen + 1 else start.bootGen

include read fresh

omit read in
theorem Progressed.extend {files : List Bytes} {file : Bytes} {parts : List SealedPart}
    {data : Option Bytes}
    (progressed : Progressed interpreter size bootId (nextGen start) start files parts data)
    (chain : (files ++ [file]).IsChain (· <+: ·)) (bounded : file.length ≤ maxSize)
    (gens : start.bootGen < maxSize) :
    Repeats interpreter size bootId data file ∧
    ∃ sealed next, rotateStored interpreter size bootId data file = .ok (sealed, next) ∧
      Progressed interpreter size bootId (nextGen start) start (files ++ [file]) (parts ++ sealed)
        (some next) := by
  have bounded_gen : nextGen start ≤ maxSize := by
    unfold nextGen
    split <;> omega
  obtain ⟨state, here, ⟨rfl, rfl, rfl⟩ | ⟨last, isLast, consumed⟩⟩ := progressed
  · refine ⟨repeats_fresh here fresh file, _, _, rotateStored_eq here file, ?_⟩
    have consumed : Consumed size bootId (nextGen state) file
        (rotateBy size state file bootId id).parts
        (rotateBy size state file bootId id).nextState := Consumed.start fresh file
    exact ⟨_, readSidecar_serialize (consumed.counted bounded bounded_gen),
      .inr ⟨file, rfl, consumed⟩⟩
  · have grows : last <+: file := by
      rw [List.isChain_append] at chain
      exact chain.2.2 last isLast file rfl
    refine ⟨repeats_consumed here consumed grows, _, _, rotateStored_eq here file, ?_⟩
    have advanced := consumed.advance grows
    refine ⟨_, readSidecar_serialize (advanced.counted bounded bounded_gen),
      .inr ⟨file, ?_, advanced⟩⟩
    simp

theorem rotateChain_progresses {files : List Bytes} (gens : start.bootGen < maxSize)
    (chain : files.IsChain (· <+: ·)) (bounded : ∀ file ∈ files, file.length ≤ maxSize) :
    ∃ parts data, rotateChain interpreter size bootId stored files = .ok (parts, data) ∧
      Progressed interpreter size bootId (nextGen start) start files parts data := by
  induction files using List.reverseRecOn with
  | nil => exact ⟨[], stored, rfl, start, read, .inl ⟨rfl, rfl, rfl⟩⟩
  | append_singleton files file ih =>
    have earlier := (List.isChain_append.1 chain).1
    obtain ⟨parts, data, ran, progressed⟩ :=
      ih earlier (fun f inside => bounded f (List.mem_append_left _ inside))
    obtain ⟨_, sealed, next, step, further⟩ :=
      progressed.extend fresh chain (bounded file (by simp)) gens
    refine ⟨parts ++ sealed, some next, ?_, further⟩
    rw [rotateChain_append, ran]
    simp only [bind, Except.bind, rotateChain_single, step, Except.map]
    rfl

/-- A chain of rotations of a growing file seals and carries the file as it was last seen, numbers
its parts from zero, and can be done again at every step. -/
theorem rotateChain_consumes {files : List Bytes} (some_file : files ≠ [])
    (gens : start.bootGen < maxSize) (chain : files.IsChain (· <+: ·))
    (bounded : ∀ file ∈ files, file.length ≤ maxSize) :
    (∃ parts data state, rotateChain interpreter size bootId stored files = .ok (parts, data) ∧
      readSidecar interpreter data = .ok state ∧
      Consumed size bootId (nextGen start) (files.getLast some_file) parts state) ∧
    ∀ before file after, files = before ++ file :: after →
      ∃ parts data, rotateChain interpreter size bootId stored before = .ok (parts, data) ∧
        Repeats interpreter size bootId data file := by
  constructor
  · obtain ⟨parts, data, ran, state, here, progressed⟩ :=
      rotateChain_progresses read fresh gens chain bounded
    rcases progressed with ⟨empty, _, _⟩ | ⟨file, isLast, consumed⟩
    · exact absurd empty some_file
    · rw [List.getLast?_eq_some_getLast some_file] at isLast
      obtain rfl := Option.some.inj isLast
      exact ⟨parts, data, state, ran, here, consumed⟩
  · rintro before file after rfl
    have split : before ++ file :: after = (before ++ [file]) ++ after := by simp
    rw [split] at chain bounded
    have here := (List.isChain_append.1 chain).1
    have earlier := (List.isChain_append.1 here).1
    obtain ⟨parts, data, ran, progressed⟩ := rotateChain_progresses read fresh gens earlier
      (fun f inside => bounded f (by simp [inside]))
    exact ⟨parts, data, ran, (progressed.extend fresh here (bounded file (by simp)) gens).1⟩

end Growing

/-- Two snapshots of a file of three bytes, in parts of two with one held back. -/
theorem rotateChain_consumes_two :
    (∃ parts data state,
      rotateChain ⟨2, Nat.le_refl 2⟩ ⟨2, 1, by decide⟩ "boot" none [[97, 98], [97, 98, 99]] =
        .ok (parts, data) ∧
      readSidecar ⟨2, Nat.le_refl 2⟩ data = .ok state ∧
      Consumed ⟨2, 1, by decide⟩ "boot" 0 [97, 98, 99] parts state) ∧
    ∀ before file after, [[97, 98], [97, 98, 99]] = before ++ file :: after →
      ∃ parts data, rotateChain ⟨2, Nat.le_refl 2⟩ ⟨2, 1, by decide⟩ "boot" none before =
          .ok (parts, data) ∧
        Repeats ⟨2, Nat.le_refl 2⟩ ⟨2, 1, by decide⟩ "boot" data file := by
  have read : readSidecar ⟨2, Nat.le_refl 2⟩ none = .ok .zero := rfl
  have fresh : RotationState.zero.bootId ≠ some "boot" := by decide
  have some_file : ([[97, 98], [97, 98, 99]] : List Bytes) ≠ [] := by decide
  exact rotateChain_consumes read fresh some_file (by decide) (by decide) (by decide)

end Chains

end Kdive.Console
