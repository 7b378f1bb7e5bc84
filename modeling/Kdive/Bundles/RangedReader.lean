import Kdive.Domain
import Kdive.Lib.Trace

/-!
Reading a stored object in ranges: a reader that seeks and keeps the last range it fetched, and a
digest that looks on and takes in each byte of the object once, in order. The store may answer a
range with less than was asked for.
-/
namespace Kdive.Bundles

abbrev Bytes := List UInt8

structure BuildFailure where
  message : String
  deriving DecidableEq

def rangeChunkBytes : Nat := 8 * 1024 * 1024

/-- A store with one object, whose state is all that decides how much it answers. -/
structure RangeStore (σ : Type) where
  getRange : σ → (start length : Nat) → Bytes × σ

section Digest

structure ObjectDigest where
  sizeBytes : Nat
  hashed : Bytes := []
  offset : Nat := 0

def ObjectDigest.observe (d : ObjectDigest) (start : Nat) (data : Bytes) : ObjectDigest :=
  if start > d.offset then d
  else if d.offset - start ≥ data.length then d
  else
    let suffix := data.drop (d.offset - start)
    { d with hashed := d.hashed ++ suffix, offset := d.offset + suffix.length }

def endedEarly : BuildFailure := ⟨"artifact ended before its recorded size"⟩

def exceededBound : BuildFailure := ⟨"object store range response exceeded the requested bound"⟩

theorem ObjectDigest.observe_own (d : ObjectDigest) {data : Bytes} (some : data ≠ []) :
    d.observe d.offset data =
      { d with hashed := d.hashed ++ data, offset := d.offset + data.length } := by
  have positive : 0 < data.length := List.length_pos_iff.mpr some
  rw [observe, if_neg (Nat.lt_irrefl _), if_neg (by omega)]
  simp

def ObjectDigest.drain {σ : Type} (store : RangeStore σ) (d : ObjectDigest) (s : σ) :
    Except BuildFailure (ObjectDigest × σ) :=
  if _more : d.offset < d.sizeBytes then
    let length := min rangeChunkBytes (d.sizeBytes - d.offset)
    let answer := store.getRange s d.offset length
    if _empty : answer.1 = [] then .error endedEarly
    else if answer.1.length > length then .error exceededBound
    else (d.observe d.offset answer.1).drain store answer.2
  else .ok (d, s)
termination_by d.sizeBytes - d.offset
decreasing_by
  rw [observe_own d _empty]
  have positive : 0 < answer.1.length := List.length_pos_iff.mpr _empty
  change d.sizeBytes - (d.offset + answer.1.length) < d.sizeBytes - d.offset
  omega

def ObjectDigest.value (sha256 : Bytes → String) (d : ObjectDigest) : Except BuildFailure String :=
  if d.offset ≠ d.sizeBytes then .error endedEarly else .ok ("sha256:" ++ sha256 d.hashed)

end Digest

section Reader

structure RangedReader where
  size : Nat
  observer : Option ObjectDigest
  offset : Nat := 0
  bufferStart : Nat := 0
  buffer : Bytes := []

def RangedReader.buffered (r : RangedReader) (length : Nat) : Bytes :=
  let bufferOffset : Int := r.offset - r.bufferStart
  if 0 ≤ bufferOffset ∧ bufferOffset < r.buffer.length then
    (r.buffer.drop bufferOffset.toNat).take length
  else []

/-- The fetch of `read`: a small request reads ahead by a chunk and keeps it. -/
def RangedReader.fetch {σ : Type} (store : RangeStore σ) (r : RangedReader) (output : Bytes)
    (cursor remaining : Nat) (s : σ) : Except BuildFailure (Bytes × RangedReader × σ) :=
  let fetchLength :=
    if remaining > rangeChunkBytes then remaining else min rangeChunkBytes (r.size - cursor)
  let answer := store.getRange s cursor fetchLength
  let data := answer.1
  if data = [] then .ok (output, { r with offset := cursor }, answer.2)
  else if data.length > fetchLength then .error exceededBound
  else
    let observer := r.observer.map (fun d => d.observe cursor data)
    if fetchLength ≤ rangeChunkBytes then
      let taken := data.take remaining
      .ok (output ++ taken, { r with
        observer := observer
        offset := cursor + taken.length
        bufferStart := cursor
        buffer := data }, answer.2)
    else
      .ok (output ++ data, { r with
        observer := observer
        offset := cursor + data.length
        buffer := [] }, answer.2)

def RangedReader.read {σ : Type} (store : RangeStore σ) (r : RangedReader) (size : Int) (s : σ) :
    Except BuildFailure (Bytes × RangedReader × σ) :=
  if size = 0 ∨ r.offset ≥ r.size then .ok ([], r, s)
  else
    let length := if size < 0 then r.size - r.offset else min size.toNat (r.size - r.offset)
    let output := r.buffered length
    let cursor := r.offset + output.length
    let remaining := length - output.length
    if remaining = 0 ∨ cursor ≥ r.size then .ok (output, { r with offset := cursor }, s)
    else r.fetch store output cursor remaining s

def RangedReader.position (r : RangedReader) (offset whence : Int) : Option Int :=
  if whence = 0 then some offset
  else if whence = 1 then some (r.offset + offset)
  else if whence = 2 then some (r.size + offset)
  else none

def RangedReader.seek (r : RangedReader) (offset whence : Int) : Except String RangedReader :=
  match r.position offset whence with
  | none => .error ("unsupported whence: " ++ toString whence)
  | some position =>
    if position < 0 then .error ("negative seek position: " ++ toString position)
    else if ¬(r.bufferStart ≤ position.toNat ∧
        position.toNat ≤ r.bufferStart + r.buffer.length) then
      .ok { r with buffer := [], offset := position.toNat }
    else .ok { r with offset := position.toNat }

end Reader

section Faithful

structure PrefixStore (object : Bytes) (σ : Type) extends RangeStore σ where
  answers : ∀ s start length, 0 < length → start < object.length →
    (getRange s start length).1 ≠ [] ∧
      (getRange s start length).1 <+: (object.drop start).take length

variable {object : Bytes} {σ : Type}

structure Follows (object : Bytes) (d : ObjectDigest) : Prop where
  size : d.sizeBytes = object.length
  within : d.offset ≤ object.length
  hashed : d.hashed = object.take d.offset

structure Sound (object : Bytes) (r : RangedReader) : Prop where
  size : r.size = object.length
  window : r.buffer <+: object.drop r.bufferStart
  observer : ∃ d, r.observer = some d ∧ Follows object d

theorem Follows.observe {d : ObjectDigest} {start : Nat} {data : Bytes} (follows : Follows object d)
    (fetched : data <+: object.drop start) : Follows object (d.observe start data) := by
  rw [ObjectDigest.observe]
  split
  · exact follows
  split
  · exact follows
  rename_i reached more
  have bound := fetched.length_le
  rw [List.length_drop] at bound
  have suffix : data.drop (d.offset - start) =
      (object.drop d.offset).take (data.length - (d.offset - start)) := by
    rw [List.prefix_iff_eq_take.mp fetched, List.drop_take, List.drop_drop, List.length_take,
      List.length_drop]
    congr 1
    · omega
    · congr 1
      omega
  have taken : (data.drop (d.offset - start)).length = data.length - (d.offset - start) :=
    List.length_drop
  refine ⟨follows.size, ?_, ?_⟩
  · change d.offset + (data.drop (d.offset - start)).length ≤ object.length
    omega
  · change d.hashed ++ data.drop (d.offset - start) =
      object.take (d.offset + (data.drop (d.offset - start)).length)
    rw [taken, suffix, follows.hashed, List.take_add]

theorem Sound.observed {r : RangedReader} {start : Nat} {data : Bytes} (sound : Sound object r)
    (fetched : data <+: object.drop start) :
    ∃ d, r.observer.map (fun d => d.observe start data) = some d ∧ Follows object d := by
  obtain ⟨d, held, follows⟩ := sound.observer
  exact ⟨_, Option.map_eq_some_iff.mpr ⟨d, held, rfl⟩, follows.observe fetched⟩

theorem drop_prefix_drop {xs ys : Bytes} (held : xs <+: ys) (n : Nat) : xs.drop n <+: ys.drop n := by
  obtain ⟨rest, rfl⟩ := held
  rw [List.drop_append]
  exact List.prefix_append _ _

theorem Sound.buffered {r : RangedReader} (sound : Sound object r) (length : Nat) :
    r.buffered length <+: object.drop r.offset ∧ (r.buffered length).length ≤ length := by
  rw [RangedReader.buffered]
  split
  · rename_i inside
    refine ⟨?_, List.length_take_le _ _⟩
    have place : ((r.offset : Int) - r.bufferStart).toNat = r.offset - r.bufferStart := by omega
    have here : r.bufferStart + (r.offset - r.bufferStart) = r.offset := by omega
    have moved : r.buffer.drop (r.offset - r.bufferStart) <+: object.drop r.offset := by
      have moved := drop_prefix_drop sound.window (r.offset - r.bufferStart)
      rwa [List.drop_drop, here] at moved
    rw [place]
    exact (List.take_prefix _ _).trans moved
  · exact ⟨List.nil_prefix, Nat.zero_le _⟩

structure Reads (object : Bytes) (offset : Nat) (size : Int) (bytes : Bytes) (r : RangedReader) :
    Prop where
  sound : Sound object r
  held : bytes <+: object.drop offset
  moved : r.offset = offset + bytes.length
  empty : bytes = [] ↔ size = 0 ∨ object.length ≤ offset
  bound : 0 ≤ size → bytes.length ≤ size

theorem Sound.fetch (store : PrefixStore object σ) {r : RangedReader} (sound : Sound object r)
    {output : Bytes} (remaining : Nat) (s : σ) (held : output <+: object.drop r.offset)
    (more : 0 < remaining) (within : r.offset + output.length + remaining ≤ object.length) :
    ∃ data r' s', r.fetch store.toRangeStore output (r.offset + output.length) remaining s =
        .ok (output ++ data, r', s') ∧ Sound object r' ∧ data ≠ [] ∧ data.length ≤ remaining ∧
      output ++ data <+: object.drop r.offset ∧
      r'.offset = r.offset + (output ++ data).length := by
  have size := sound.size
  generalize cursor : r.offset + output.length = place at within
  -- what is asked for is not empty and lies within the object
  generalize asked : (if remaining > rangeChunkBytes then remaining
    else min rangeChunkBytes (r.size - place)) = fetchLength
  have positive : 0 < fetchLength := by
    have chunk : 0 < rangeChunkBytes := by decide
    split at asked <;> omega
  obtain ⟨some, answered⟩ := store.answers s place fetchLength positive (by omega)
  have fetched : (store.getRange s place fetchLength).1 <+: object.drop place :=
    answered.trans (List.take_prefix _ _)
  have short : (store.getRange s place fetchLength).1.length ≤ fetchLength :=
    Nat.le_trans answered.length_le (List.length_take_le _ _)
  have continued (data : Bytes) (here : data <+: object.drop place) :
      output ++ data <+: object.drop r.offset := by
    obtain ⟨rest, same⟩ := held
    have after : rest = object.drop place := by
      rw [← cursor, ← List.drop_drop, ← same, List.drop_left]
    rw [← same, after]
    exact List.prefix_append_right_inj output |>.mpr here
  rw [RangedReader.fetch]
  simp only [asked, if_neg some, if_neg (Nat.not_lt.mpr short)]
  split
  · refine ⟨_, _, _, rfl, ⟨size, fetched, sound.observed fetched⟩, ?_, ?_, ?_, ?_⟩
    · intro none
      rcases List.take_eq_nil_iff.mp none with zero | none
      · omega
      · exact some none
    · exact List.length_take_le _ _
    · exact continued _ ((List.take_prefix _ _).trans fetched)
    · rw [List.length_append, ← cursor, Nat.add_assoc]
  · rename_i large
    refine ⟨_, _, _, rfl, ⟨size, List.nil_prefix, sound.observed fetched⟩, some, ?_,
      continued _ fetched, ?_⟩
    · split at asked <;> omega
    · rw [List.length_append, ← cursor, Nat.add_assoc]

theorem Sound.read (store : PrefixStore object σ) {r : RangedReader} (sound : Sound object r)
    (size : Int) (s : σ) : ∃ bytes r' s', r.read store.toRangeStore size s = .ok (bytes, r', s') ∧
      Reads object r.offset size bytes r' := by
  have whole := sound.size
  rw [RangedReader.read]
  split
  · rename_i nothing
    rw [whole] at nothing
    exact ⟨[], r, s, rfl, sound, List.nil_prefix, rfl, ⟨fun _ => nothing, fun _ => rfl⟩,
      fun positive => positive⟩
  rename_i something
  rw [not_or] at something
  obtain ⟨asks, inside⟩ := something
  generalize wanted : (if size < 0 then r.size - r.offset
    else min size.toNat (r.size - r.offset)) = length
  have positive : 0 < length := by split at wanted <;> omega
  have within : r.offset + length ≤ object.length := by split at wanted <;> omega
  have fits : 0 ≤ size → (length : Int) ≤ size := by split at wanted <;> omega
  obtain ⟨held, short⟩ := sound.buffered length
  have nonempty (bytes : Bytes) (some : bytes ≠ []) :
      bytes = [] ↔ size = 0 ∨ object.length ≤ r.offset :=
    ⟨fun none => absurd none some, fun nothing => by omega⟩
  dsimp only
  split
  · rename_i enough
    have full : (r.buffered length).length = length := by omega
    refine ⟨_, _, s, rfl, ⟨whole, sound.window, sound.observer⟩, held, rfl, nonempty _ ?_, ?_⟩
    · exact List.ne_nil_of_length_pos (by omega)
    · intro nonneg
      rw [full]
      exact fits nonneg
  · obtain ⟨data, r', s', fetched, sound', some, bound, here, moved⟩ :=
      sound.fetch store (length - (r.buffered length).length) s held (by omega) (by omega)
    refine ⟨_, r', s', fetched, sound', here, moved, nonempty _ ?_, ?_⟩
    · simp [some]
    · intro nonneg
      have := fits nonneg
      rw [List.length_append]
      omega

theorem Sound.seek {r r' : RangedReader} (sound : Sound object r) {offset whence : Int}
    (moved : r.seek offset whence = .ok r') : Sound object r' := by
  rw [RangedReader.seek] at moved
  split at moved
  · cases moved
  split at moved
  · cases moved
  split at moved
  · cases moved
    exact ⟨sound.size, List.nil_prefix, sound.observer⟩
  · cases moved
    exact ⟨sound.size, sound.window, sound.observer⟩

theorem Follows.drain (store : PrefixStore object σ) {d : ObjectDigest} (follows : Follows object d)
    (s : σ) : ∃ d' s', d.drain store.toRangeStore s = .ok (d', s') ∧ Follows object d' ∧
      d'.offset = object.length := by
  induction remaining : object.length - d.offset using Nat.strongRecOn generalizing d s with
  | ind n ih =>
    rw [ObjectDigest.drain]
    split
    · rename_i more
      have inside : d.offset < object.length := by
        rw [← follows.size]
        exact more
      have positive : 0 < min rangeChunkBytes (d.sizeBytes - d.offset) := by
        have chunk : 0 < rangeChunkBytes := by decide
        omega
      obtain ⟨some, answered⟩ := store.answers s d.offset _ positive inside
      have short := Nat.le_trans answered.length_le (List.length_take_le _ _)
      have fetched := answered.trans (List.take_prefix _ _)
      rw [dif_neg some, if_neg (Nat.not_lt.mpr short)]
      have advanced : object.length - (d.observe d.offset
          (store.getRange s d.offset (min rangeChunkBytes (d.sizeBytes - d.offset))).1).offset < n := by
        rw [ObjectDigest.observe_own d some]
        have := List.length_pos_iff.mpr some
        dsimp only
        omega
      exact ih _ advanced (follows.observe fetched) _ rfl
    · rename_i done
      have within := follows.within
      rw [follows.size] at done
      exact ⟨d, s, rfl, follows, by omega⟩

end Faithful

section Sequences

inductive Call where
  | read (size : Int)
  | seek (offset whence : Int)
  | drain

def call {σ : Type} (store : RangeStore σ) (state : RangedReader × σ) : Call → RangedReader × σ
  | .read size =>
    match state.1.read store size state.2 with
    | .ok (_, r, s) => (r, s)
    | .error _ => state
  | .seek offset whence =>
    match state.1.seek offset whence with
    | .ok r => (r, state.2)
    | .error _ => state
  | .drain =>
    match state.1.observer with
    | none => state
    | some d =>
      match d.drain store state.2 with
      | .ok (d, s) => ({ state.1 with observer := some d }, s)
      | .error _ => state

def opened (object : Bytes) : RangedReader where
  size := object.length
  observer := some { sizeBytes := object.length }

variable {object : Bytes} {σ : Type}

theorem sound_call (store : PrefixStore object σ) {state : RangedReader × σ} (sound : Sound object state.1)
    (c : Call) : Sound object (call store.toRangeStore state c).1 := by
  cases c with
  | read size =>
    obtain ⟨bytes, r, s, read, reads⟩ := sound.read store size state.2
    rw [call, read]
    exact reads.sound
  | seek offset whence =>
    rw [call]
    split
    · rename_i moved
      exact sound.seek moved
    · exact sound
  | drain =>
    obtain ⟨d, held, follows⟩ := sound.observer
    obtain ⟨d', s', drained, follows', -⟩ := follows.drain store state.2
    simp only [call, held, drained]
    exact ⟨sound.size, sound.window, d', rfl, follows'⟩

theorem sound_opened (object : Bytes) : Sound object (opened object) where
  size := rfl
  window := List.nil_prefix
  observer := ⟨_, rfl, rfl, Nat.zero_le _, rfl⟩

theorem sound_calls (store : PrefixStore object σ) (s : σ) (calls : List Call) :
    Sound object (Trace.run (call store.toRangeStore) (opened object, s) calls).1 := by
  refine @Trace.invariant_along _ _ (call store.toRangeStore) (fun state => Sound object state.1)
    (fun _ _ => True) ?_ (opened object, s) calls (sound_opened object)
    (Trace.along_of_forall (fun _ _ => trivial) _ _)
  intro state c sound _
  exact sound_call store sound c

/-- A store whose answers are short, each of another length than the one before. -/
def shortStore (object : Bytes) : PrefixStore object Nat where
  getRange := fun s start length => ((object.drop start).take (min length (s % 3 + 1)), s + 1)
  answers := by
    intro s start length asked inside
    refine ⟨?_, List.take_prefix_take_left (Nat.min_le_left _ _)⟩
    rw [ne_eq, ← List.length_eq_zero_iff, List.length_take, List.length_drop]
    omega

def sampleDigest (data : Bytes) : String :=
  if data = [7, 7, 8, 9, 9, 1] then
    "a97e6d6e6a5d3641504c1a664e61e92ada7a3067d052f49eb42d9e1a8b42bbb1"
  else ""

end Sequences

end Kdive.Bundles
