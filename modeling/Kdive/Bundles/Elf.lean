import Kdive.Bundles.RangedReader
import Kdive.Lib.PosixPath
import Kdive.Lib.Raises
import Kdive.Lib.Utf8
import Mathlib.Data.List.Sort

/-!
The parsers of `build_artifacts/validation.py` for ELF files, their notes and release texts. Where an
operation of the source can raise, so does its counterpart here; each parser is shown to let nothing
but a categorized error out.
-/
namespace Kdive.Bundles
open PosixPath (Str str)
open Raises

/-- What can be raised. `other` stands for every exception of a library that is not named. -/
inductive Exc where
  | failure (failure : BuildFailure)
  | configuration (message : String)
  | tarError | osError | eofError | zlibError
  | structError | valueError | indexError
  | unicodeDecodeError | unicodeEncodeError
  | other (name : String)
  deriving DecidableEq

def Exc.Categorized : Exc → Prop
  | .failure _ | .configuration _ => True
  | _ => False

def failed {α : Type} (message : String) : Except Exc α := .error (.failure ⟨message⟩)

abbrev Quiet {α : Type} (x : Except Exc α) : Prop := Only Exc.Categorized x

theorem quiet_failed {α : Type} (message : String) : Quiet (failed message : Except Exc α) :=
  only_error trivial

section Buffers

def slice (buffer : Bytes) (start stop : Nat) : Bytes := (buffer.drop start).take (stop - start)

def littleEndian : Bytes → Nat
  | [] => 0
  | b :: rest => b.toNat + 256 * littleEndian rest

def unpackFrom (width : Nat) (buffer : Bytes) (offset : Nat) : Except Exc Nat :=
  if offset + width ≤ buffer.length then .ok (littleEndian (slice buffer offset (offset + width)))
  else .error .structError

theorem only_unpackFrom {P : Exc → Prop} {width offset : Nat} {buffer : Bytes}
    (inside : offset + width ≤ buffer.length) : Only P (unpackFrom width buffer offset) := by
  rw [unpackFrom, if_pos inside]
  exact only_ok _

def byteAt (buffer : Bytes) (index : Nat) : Except Exc UInt8 :=
  match (buffer.drop index).head? with
  | some b => .ok b
  | none => .error .indexError

def padding (size : Nat) : Nat := (4 - size % 4) % 4

def hex (bytes : Bytes) : String :=
  String.ofList (bytes.flatMap fun b => [Nat.digitChar (b.toNat / 16), Nat.digitChar (b.toNat % 16)])

def stripNulls (bytes : Bytes) : Bytes := (bytes.reverse.dropWhile (· = 0)).reverse

def gnuName : Bytes := [0x47, 0x4E, 0x55]

def noteBuildId : Nat := 3

theorem byteAt_ok {buffer : Bytes} {index : Nat} (inside : index < buffer.length) :
    ∃ b, byteAt buffer index = .ok b := by
  obtain ⟨b, rest, split⟩ : ∃ b rest, buffer.drop index = b :: rest := by
    cases dropped : buffer.drop index with
    | nil =>
      have := List.drop_eq_nil_iff.mp dropped
      omega
    | cons b rest => exact ⟨b, rest, rfl⟩
  exact ⟨b, by rw [byteAt, split]; rfl⟩

end Buffers

section Releases

def releaseHead (c : Nat) : Bool :=
  (65 ≤ c && c ≤ 90) || (97 ≤ c && c ≤ 122) || (48 ≤ c && c ≤ 57)

def releaseTail (c : Nat) : Bool := releaseHead c || c = 46 || c = 95 || c = 43 || c = 45

/-- `_KERNEL_RELEASE_RE.fullmatch`. -/
def releaseMatches : Str → Bool
  | [] => false
  | c :: rest => releaseHead c && rest.all releaseTail && rest.length ≤ 63

def strictDecode (value : Bytes) : Except Exc Str :=
  if Utf8.encode (Utf8.decode value) = value then .ok ((Utf8.decode value).map Char.toNat)
  else .error .unicodeDecodeError

def validatedRelease (value : Bytes) : Except Exc Str :=
  (caught (· = .unicodeDecodeError) (.failure ⟨"boot/vmlinuz release is not UTF-8"⟩)
    (strictDecode value)).bind fun release =>
      if releaseMatches release then .ok release
      else failed "boot/vmlinuz release is not canonical"

theorem quiet_validatedRelease (value : Bytes) : Quiet (validatedRelease value) := by
  refine only_bind ((only_caught_iff trivial).mpr ?_) fun release _ =>
    only_ite (fun _ => only_ok _) fun _ => quiet_failed _
  exact only_ite (fun _ => only_ok _) fun _ => only_error (.inl rfl)

def bannerMarker : Bytes := "Linux version ".toList.map fun c => UInt8.ofNat c.toNat

def isSpace (b : UInt8) : Bool := b = 0x20 || (0x09 ≤ b && b ≤ 0x0D)

/-- `bytes.find`, from the place where it was found on. -/
def found (marker : Bytes) : Bytes → Option Bytes
  | [] => if marker = [] then some [] else none
  | b :: rest => if marker.isPrefixOf (b :: rest) then some (b :: rest) else found marker rest

def optionalLinuxRelease (data : Bytes) : Except Exc (Option Str) :=
  match found bannerMarker data with
  | none => .ok none
  | some banner =>
    let token := ((banner.drop bannerMarker.length).dropWhile isSpace).takeWhile (isSpace · = false)
    if token = [] then .ok none else (validatedRelease token).map some

theorem quiet_optionalLinuxRelease (data : Bytes) : Quiet (optionalLinuxRelease data) := by
  rw [optionalLinuxRelease]
  split
  · exact only_ok _
  · exact only_ite (fun _ => only_ok _) fun _ => only_map (quiet_validatedRelease _)

end Releases

section Notes

/-- Where a note that starts at `offset` has its name, its description and its end. -/
structure NoteSpan where
  type : Nat
  nameStart : Nat
  nameEnd : Nat
  descStart : Nat
  descEnd : Nat
  next : Nat

def noteSpan (namesz descsz type offset : Nat) : NoteSpan :=
  let nameEnd := offset + 12 + namesz
  let descStart := nameEnd + padding namesz
  let descEnd := descStart + descsz
  ⟨type, offset + 12, nameEnd, descStart, descEnd, descEnd + padding descsz⟩

theorem noteSpan_next (namesz descsz type offset : Nat) :
    offset + 12 ≤ (noteSpan namesz descsz type offset).next := by
  simp only [noteSpan]
  omega

def NoteSpan.isBuildId (n : NoteSpan) (data : Bytes) : Bool :=
  n.type = noteBuildId && stripNulls (slice data n.nameStart n.nameEnd) = gnuName

def gnuBuildIdsFromNotes (data : Bytes) (offset : Nat) : Except Exc (List String) :=
  if _more : offset + 12 ≤ data.length then
    (unpackFrom 4 data offset).bind fun namesz =>
    (unpackFrom 4 data (offset + 4)).bind fun descsz =>
    (unpackFrom 4 data (offset + 8)).bind fun type =>
    let span := noteSpan namesz descsz type offset
    if span.descEnd > data.length then
      failed "decoded boot/vmlinuz has a malformed ELF note segment"
    else
      (gnuBuildIdsFromNotes data span.next).map fun later =>
        if span.isBuildId data then hex (slice data span.descStart span.descEnd) :: later else later
  else .ok []
termination_by data.length - offset
decreasing_by
  have := noteSpan_next namesz descsz type offset
  omega

/-- The three words of a note's header lie inside the segment, so that none is read past its end. -/
theorem quiet_gnuBuildIdsFromNotes (data : Bytes) (offset : Nat) :
    Quiet (gnuBuildIdsFromNotes data offset) := by
  induction left : data.length - offset using Nat.strongRecOn generalizing offset with
  | ind left ih =>
    rw [gnuBuildIdsFromNotes]
    split
    · rename_i more
      refine only_bind (only_unpackFrom (by omega)) fun namesz _ => ?_
      refine only_bind (only_unpackFrom (by omega)) fun descsz _ => ?_
      refine only_bind (only_unpackFrom (by omega)) fun type _ => ?_
      refine only_ite (fun _ => quiet_failed _) fun _ => only_map (ih _ ?_ _ rfl)
      have := noteSpan_next namesz descsz type offset
      omega
    · exact only_ok _

def noBuildIdNote : BuildFailure := ⟨"vmlinux carries no GNU build-id note"⟩

def parseGnuBuildId (notes : Bytes) (offset : Nat) : Except Exc String :=
  if _more : offset + 12 ≤ notes.length then
    let span := noteSpan (littleEndian (slice notes offset (offset + 4)))
      (littleEndian (slice notes (offset + 4) (offset + 8)))
      (littleEndian (slice notes (offset + 8) (offset + 12))) offset
    if span.descEnd > notes.length then .error (.failure noBuildIdNote)
    else if span.isBuildId notes then .ok (hex (slice notes span.descStart span.descEnd))
    else parseGnuBuildId notes span.next
  else .error (.failure noBuildIdNote)
termination_by notes.length - offset
decreasing_by
  have := noteSpan_next (littleEndian (slice notes offset (offset + 4)))
    (littleEndian (slice notes (offset + 4) (offset + 8)))
    (littleEndian (slice notes (offset + 8) (offset + 12))) offset
  omega

theorem quiet_parseGnuBuildId (notes : Bytes) (offset : Nat) : Quiet (parseGnuBuildId notes offset) := by
  induction left : notes.length - offset using Nat.strongRecOn generalizing offset with
  | ind left ih =>
    rw [parseGnuBuildId]
    split
    · rename_i more
      refine only_ite (fun _ => only_error trivial) (fun _ => ?_)
      refine only_ite (fun _ => only_ok _) (fun _ => ih _ ?_ _ rfl)
      have := noteSpan_next (littleEndian (slice notes offset (offset + 4)))
        (littleEndian (slice notes (offset + 4) (offset + 8)))
        (littleEndian (slice notes (offset + 8) (offset + 12))) offset
      omega
    · exact only_error trivial

end Notes

section BootElf

inductive Arch where
  | x86_64 | ppc64le
  deriving DecidableEq

def Arch.machine : Arch → Nat
  | .x86_64 => 62
  | .ppc64le => 21

def elfMetadataMaxBytes : Nat := 16 * 1024 * 1024

def elf64lePrefix : Bytes := [0x7F, 0x45, 0x4C, 0x46, 2, 1]

def intervalBytes (intervals : List (Nat × Nat)) : Nat :=
  ((intervals.insertionSort fun a b => a.1 < b.1 ∨ (a.1 = b.1 ∧ a.2 ≤ b.2)).foldl
    (fun (total, reached) (start, stop) =>
      if stop ≤ reached then (total, reached) else (total + (stop - max start reached), stop))
    (0, 0)).1

structure BoundedElfReader where
  source : Bytes
  intervals : List (Nat × Nat) := []

def BoundedElfReader.measuredBytes (r : BoundedElfReader) : Nat := intervalBytes r.intervals

def BoundedElfReader.read (r : BoundedElfReader) (offset length : Nat) :
    Except Exc (Bytes × BoundedElfReader) :=
  if offset + length > r.source.length then
    failed "decoded boot/vmlinuz ELF metadata extends past the object"
  else
    let intervals := r.intervals ++ [(offset, offset + length)]
    if intervalBytes intervals > elfMetadataMaxBytes then
      failed "decoded boot/vmlinuz exceeds the ELF metadata read limit"
    else
      let data := slice r.source offset (offset + length)
      if data.length ≠ length then failed "decoded boot/vmlinuz ELF metadata is truncated"
      else .ok (data, { r with intervals := intervals })

structure Segment where
  type : Nat
  offset : Nat
  size : Nat

def programHeaders (table : Bytes) (entrySize : Nat) : (count index : Nat) → Except Exc (List Segment)
  | 0, _ => .ok []
  | count + 1, index =>
    (unpackFrom 4 table (index * entrySize)).bind fun type =>
    (unpackFrom 8 table (index * entrySize + 8)).bind fun offset =>
    (unpackFrom 8 table (index * entrySize + 32)).bind fun size =>
    (programHeaders table entrySize count (index + 1)).map (⟨type, offset, size⟩ :: ·)

def elfProgramHeaders (r : BoundedElfReader) (header : Bytes) :
    Except Exc (List Segment × BoundedElfReader) :=
  (unpackFrom 8 header 0x20).bind fun offset =>
  (unpackFrom 2 header 0x36).bind fun entrySize =>
  (unpackFrom 2 header 0x38).bind fun count =>
  if offset = 0 ∨ count = 0 ∨ entrySize < 56 then
    failed "decoded boot/vmlinuz has no usable ELF program header table"
  else
    (r.read offset (entrySize * count)).bind fun (table, r) =>
      (programHeaders table entrySize count 0).map (·, r)

def segmentBuildIds : List Segment → BoundedElfReader → Except Exc (List String × BoundedElfReader)
  | [], r => .ok ([], r)
  | s :: rest, r =>
    if s.offset + s.size > r.source.length then
      failed "decoded boot/vmlinuz ELF segment extends past the object"
    else if s.type = 4 then
      (r.read s.offset s.size).bind fun (data, r) =>
      (gnuBuildIdsFromNotes data 0).bind fun ids =>
      (segmentBuildIds rest r).map fun later => (ids ++ later.1, later.2)
    else segmentBuildIds rest r

def segmentRelease : List Segment → BoundedElfReader → Except Exc (Option Str × BoundedElfReader)
  | [], r => .ok (none, r)
  | s :: rest, r =>
    if s.type ≠ 1 then segmentRelease rest r
    else if elfMetadataMaxBytes ≤ r.measuredBytes then .ok (none, r)
    else
      (r.read s.offset (min s.size (elfMetadataMaxBytes - r.measuredBytes))).bind fun (data, r) =>
      (optionalLinuxRelease data).bind fun
        | some release => .ok (some release, r)
        | none => segmentRelease rest r

theorem BoundedElfReader.quiet_read (r : BoundedElfReader) (offset length : Nat) :
    Quiet (r.read offset length) :=
  only_ite (fun _ => quiet_failed _) fun _ => only_ite (fun _ => quiet_failed _) fun _ =>
    only_ite (fun _ => quiet_failed _) fun _ => only_ok _

theorem BoundedElfReader.length_of_read {r later : BoundedElfReader} {offset length : Nat}
    {data : Bytes} (read : r.read offset length = .ok (data, later)) : data.length = length := by
  rw [BoundedElfReader.read] at read
  split at read
  · cases read
  dsimp only at read
  split at read
  · cases read
  split at read
  · cases read
  · rename_i whole
    obtain ⟨rfl, -⟩ := Prod.mk.inj (Except.ok.inj read)
    exact not_not.mp whole

theorem quiet_programHeaders (table : Bytes) {entrySize : Nat} (wide : 56 ≤ entrySize)
    (count index : Nat) (inside : (index + count) * entrySize ≤ table.length) :
    Quiet (programHeaders table entrySize count index) := by
  induction count generalizing index with
  | zero => exact only_ok _
  | succ count ih =>
    have room : index * entrySize + entrySize ≤ table.length := by
      rw [← Nat.succ_mul]
      exact (Nat.mul_le_mul_right _ (by omega)).trans inside
    refine only_bind (only_unpackFrom (by omega)) fun type _ => ?_
    refine only_bind (only_unpackFrom (by omega)) fun offset _ => ?_
    refine only_bind (only_unpackFrom (by omega)) fun size _ => only_map (ih _ ?_)
    rw [Nat.add_right_comm, Nat.add_assoc]
    exact inside

theorem quiet_elfProgramHeaders (r : BoundedElfReader) (header : Bytes) (whole : header.length = 64) :
    Quiet (elfProgramHeaders r header) := by
  refine only_bind (only_unpackFrom (by omega)) fun offset _ => ?_
  refine only_bind (only_unpackFrom (by omega)) fun entrySize _ => ?_
  refine only_bind (only_unpackFrom (by omega)) fun count _ => ?_
  refine only_ite (fun _ => quiet_failed _) fun usable => only_bind (r.quiet_read _ _) ?_
  rintro ⟨table, later⟩ read
  have length := BoundedElfReader.length_of_read read
  refine only_map (quiet_programHeaders table (by omega) count 0 ?_)
  rw [length, Nat.zero_add, Nat.mul_comm]

theorem quiet_segmentBuildIds (segments : List Segment) (r : BoundedElfReader) :
    Quiet (segmentBuildIds segments r) := by
  induction segments generalizing r with
  | nil => exact only_ok _
  | cons s rest ih =>
    refine only_ite (fun _ => quiet_failed _) fun _ => only_ite (fun _ => ?_) fun _ => ih r
    refine only_bind (r.quiet_read _ _) fun read _ => ?_
    exact only_bind (quiet_gnuBuildIdsFromNotes _ _) fun ids _ => only_map (ih _)

theorem quiet_segmentRelease (segments : List Segment) (r : BoundedElfReader) :
    Quiet (segmentRelease segments r) := by
  induction segments generalizing r with
  | nil => exact only_ok _
  | cons s rest ih =>
    refine only_ite (fun _ => ih r) fun _ => only_ite (fun _ => only_ok _) fun _ => ?_
    refine only_bind (r.quiet_read _ _) fun read _ => ?_
    refine only_bind (quiet_optionalLinuxRelease _) fun release _ => ?_
    cases release with
    | some release => exact only_ok _
    | none => exact ih _

structure KernelMetadata where
  decodedKernelSizeBytes : Nat
  elfMetadataBytes : Nat
  architecture : Arch
  release : Str
  gnuBuildId : String

def elfKernelMetadata (kernel : Bytes) (arch : Arch) (expectedRelease : Str) :
    Except Exc KernelMetadata :=
  (BoundedElfReader.read ⟨kernel, []⟩ 0 64).bind fun (header, r) =>
  if header.take 6 ≠ elf64lePrefix then
    failed "decoded boot/vmlinuz is not a 64-bit little-endian ELF"
  else if littleEndian (slice header 0x12 0x14) ≠ arch.machine then
    failed "decoded boot/vmlinuz architecture does not match the build profile"
  else
    (elfProgramHeaders r header).bind fun (segments, r) =>
    (segmentBuildIds segments r).bind fun (ids, r) =>
    (segmentRelease segments r).bind fun (decodedRelease, r) =>
    if decodedRelease ≠ none ∧ decodedRelease ≠ some expectedRelease then
      failed "boot/vmlinuz release disagrees with its decoded kernel"
    else
      match ids.dedup with
      | [buildId] =>
        if 4 ≤ buildId.length / 2 ∧ buildId.length / 2 ≤ 64 then
          .ok ⟨kernel.length, r.measuredBytes, arch, expectedRelease, buildId⟩
        else failed "decoded boot/vmlinuz GNU build ID has an invalid byte length"
      | _ => failed "decoded boot/vmlinuz must contain one unambiguous GNU build ID"

theorem quiet_elfKernelMetadata (kernel : Bytes) (arch : Arch) (expectedRelease : Str) :
    Quiet (elfKernelMetadata kernel arch expectedRelease) := by
  refine only_bind (BoundedElfReader.quiet_read _ _ _) ?_
  rintro ⟨header, r⟩ read
  have whole := BoundedElfReader.length_of_read read
  refine only_ite (fun _ => quiet_failed _) fun _ => only_ite (fun _ => quiet_failed _) fun _ => ?_
  refine only_bind (quiet_elfProgramHeaders r header whole) fun table _ => ?_
  refine only_bind (quiet_segmentBuildIds _ _) fun ids _ => ?_
  refine only_bind (quiet_segmentRelease _ _) fun release _ => ?_
  refine only_ite (fun _ => quiet_failed _) fun _ => ?_
  split
  · exact only_ite (fun _ => only_ok _) fun _ => quiet_failed _
  · exact quiet_failed _

end BootElf

section Vmlinux

def maxSectionBytes : Nat := 16 * 1024 * 1024

def readSection (object sht : Bytes) (entrySize index maxSize : Nat) : Except Exc Bytes :=
  (unpackFrom 8 sht (index * entrySize + 0x18)).bind fun offset =>
  (unpackFrom 8 sht (index * entrySize + 0x20)).bind fun size =>
  if size > maxSectionBytes then failed "vmlinux section exceeds the readable-section cap"
  else if offset + size > maxSize then failed "vmlinux section extends past the object size"
  else .ok (slice object offset (offset + size))

def findBuildIdNote (object sht : Bytes) (entrySize maxSize : Nat) :
    (count index : Nat) → Except Exc String
  | 0, _ => .error (.failure noBuildIdNote)
  | count + 1, index =>
    (unpackFrom 4 sht (index * entrySize + 4)).bind fun type =>
    if type ≠ 7 then findBuildIdNote object sht entrySize maxSize count (index + 1)
    else
      (readSection object sht entrySize index maxSize).bind fun notes =>
      match parseGnuBuildId notes 0 with
      | .ok buildId => .ok buildId
      | .error e =>
        if e = .failure noBuildIdNote then
          findBuildIdNote object sht entrySize maxSize count (index + 1)
        else .error e

def malformedElf : Exc → Bool
  | .structError | .valueError | .indexError => true
  | _ => false

def extractBuildIdRanged (object : Bytes) (maxSize : Nat) : Except Exc String :=
  let header := slice object 0 64
  if header.length < 64 then failed "vmlinux ELF header is truncated"
  else
    (byteAt header 4).bind fun elfClass => (byteAt header 5).bind fun elfData =>
    if header.take 4 ≠ elf64lePrefix.take 4 ∨ elfClass ≠ 2 ∨ elfData ≠ 1 then
      failed "vmlinux is not a 64-bit little-endian ELF"
    else
      caught malformedElf (.failure ⟨"vmlinux ELF is structurally malformed"⟩) <|
      (unpackFrom 8 header 0x28).bind fun offset =>
      (unpackFrom 2 header 0x3A).bind fun entrySize =>
      (unpackFrom 2 header 0x3C).bind fun count =>
      if offset = 0 ∨ count = 0 ∨ entrySize < 64 then
        failed "vmlinux has no usable section header table"
      else if entrySize * count > maxSectionBytes then
        failed "vmlinux section header table exceeds the readable cap"
      else if offset + entrySize * count > maxSize then
        failed "vmlinux section header table extends past the object size"
      else findBuildIdNote object (slice object offset (offset + entrySize * count)) entrySize maxSize
        count 0

def Exc.InElf (e : Exc) : Prop := malformedElf e = true ∨ e.Categorized

theorem inElf_unpackFrom (width : Nat) (buffer : Bytes) (offset : Nat) :
    Only Exc.InElf (unpackFrom width buffer offset) :=
  only_ite (fun _ => only_ok _) (fun _ => only_error (.inl rfl))

theorem inElf_failed {α : Type} (message : String) : Only Exc.InElf (failed message : Except Exc α) :=
  only_error (.inr trivial)

theorem inElf_findBuildIdNote (object sht : Bytes) (entrySize maxSize count index : Nat) :
    Only Exc.InElf (findBuildIdNote object sht entrySize maxSize count index) := by
  induction count generalizing index with
  | zero => exact only_error (.inr trivial)
  | succ count ih =>
    refine only_bind (inElf_unpackFrom _ _ _) fun type _ => ?_
    refine only_ite (fun _ => ih _) fun _ => only_bind ?_ fun notes _ => ?_
    · refine only_bind (inElf_unpackFrom _ _ _) fun offset _ => ?_
      refine only_bind (inElf_unpackFrom _ _ _) fun size _ => ?_
      exact only_ite (fun _ => inElf_failed _) fun _ =>
        only_ite (fun _ => inElf_failed _) fun _ => only_ok _
    · split
      · exact only_ok _
      · rename_i e raised
        refine only_ite (fun _ => ih _) (fun _ => only_error (.inr ?_))
        exact quiet_parseGnuBuildId notes 0 e raised

theorem quiet_extractBuildIdRanged (object : Bytes) (maxSize : Nat) :
    Quiet (extractBuildIdRanged object maxSize) := by
  refine only_ite (fun _ => quiet_failed _) (fun long => ?_)
  obtain ⟨elfClass, first⟩ := @byteAt_ok (slice object 0 64) 4 (by omega)
  obtain ⟨elfData, second⟩ := @byteAt_ok (slice object 0 64) 5 (by omega)
  rw [first, second]
  refine only_ite (fun _ => quiet_failed _) (fun _ => (only_caught_iff trivial).mpr ?_)
  refine only_bind (inElf_unpackFrom _ _ _) fun offset _ => ?_
  refine only_bind (inElf_unpackFrom _ _ _) fun entrySize _ => ?_
  refine only_bind (inElf_unpackFrom _ _ _) fun count _ => ?_
  exact only_ite (fun _ => inElf_failed _) fun _ => only_ite (fun _ => inElf_failed _) fun _ =>
    only_ite (fun _ => inElf_failed _) fun _ => inElf_findBuildIdNote _ _ _ _ _ _

end Vmlinux

end Kdive.Bundles
