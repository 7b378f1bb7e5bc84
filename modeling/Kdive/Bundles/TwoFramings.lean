import Kdive.Bundles.GuardedTar
import Mathlib.Data.List.Chain

/-!
Two framings of one stream. `_GuardedTarReader` takes every header to be followed by the payload its
size announces; `tarfile`, which reads what it lets through, takes only regular files, members of a
type it does not know and extension records to be.
-/
namespace Kdive.Bundles

section Library

def longnameTypes : List UInt8 := [0x4C, 0x4B]

/-- `XHDTYPE`, `XGLTYPE`, `SOLARIS_XHDTYPE`. -/
def paxTypes : List UInt8 := [0x78, 0x67, 0x58]

def globalType : UInt8 := 0x67

def solarisType : UInt8 := 0x58

def sparseType : UInt8 := 0x53

def recordTypes : List UInt8 := longnameTypes ++ paxTypes

/-- `SUPPORTED_TYPES` less `REGULAR_TYPES` and the long names: links, devices, directories, fifos. -/
def plainTypes : List UInt8 := [0x31, 0x32, 0x33, 0x34, 0x35, 0x36]

abbrev Records := List (UInt8 × Bytes)

/-- What the records before a member make of the place of the next header. -/
inductive Resize where
  | keeps
  /-- A `size` record replaces the size of the member: the distance from the end of its header. -/
  | moves (distance : Nat)
  | raises

structure TarLibrary where
  frombuf : Frombuf
  parses : Records → Bool
  resize : Records → TarHeader → Bytes → Resize

/-- `TarInfo._block`, which raises on a negative count. -/
def TarHeader.blocks (h : TarHeader) : Option Nat :=
  if h.size < 0 then none else some h.payload.toNat

/-- The extension blocks of an old GNU sparse header, up to one whose flag is off; none where the
stream ends in them. -/
def extendedBlocks (data : Bytes) : Option Nat :=
  match _flag : (data.drop 504).head? with
  | none => none
  | some 0 => some 1
  | some _ => (extendedBlocks (data.drop blockSize)).map (· + 1)
termination_by data.length
decreasing_by
  have positive : 0 < blockSize := by decide
  have long : (data.drop 504).length ≠ 0 := by
    intro none
    rw [List.length_eq_zero_iff.mp none] at _flag
    cases _flag
  rw [List.length_drop] at *
  omega

/-- `_sparse_structs`: whether extension blocks follow the header block. -/
def isExtended (header : Bytes) : Bool := (header.drop 482).head?.any (· ≠ 0)

/-- The distance from the end of a member's header to the next header, and whether a record or an
extension block has moved it; none where the library raises. -/
def TarLibrary.skip (lib : TarLibrary) (records : Records) (header : Bytes) (member : TarHeader)
    (data : Bytes) : Option (Nat × Bool) :=
  match lib.resize records member data with
  | .raises => none
  | .moves distance => some (distance, true)
  | .keeps =>
    if member.type ∈ plainTypes then some (0, false)
    else if member.type = sparseType ∧ isExtended header then
      (extendedBlocks data).bind fun extension =>
        member.blocks.map fun size => (extension * blockSize + size, true)
    else member.blocks.map fun size => (size, false)

/-- A header that the library interprets, where it stands, and whether the next one is moved. -/
structure Met where
  position : Nat
  member : TarHeader
  moved : Bool
  deriving DecidableEq

/-- The first `n` headers that the library interprets from `position` on. It stops at the end of the
stream, at an all-zero block, at a block that is no header, and where it raises. -/
def TarLibrary.headers (lib : TarLibrary) (stream : Bytes) : Nat → Records → Nat → List Met
  | 0, _, _ => []
  | n + 1, records, position =>
    let header := (stream.drop position).take blockSize
    let data := stream.drop (position + blockSize)
    if header.length ≠ blockSize ∨ header = zeroBlock then []
    else
      match lib.frombuf header with
      | none => []
      | some member =>
        if member.type ∈ recordTypes then
          match member.blocks with
          | none => [⟨position, member, false⟩]
          | some size =>
            let records := records ++ [(member.type, data.take size)]
            if lib.parses records then
              ⟨position, member, false⟩ :: lib.headers stream n records (position + blockSize + size)
            else [⟨position, member, false⟩]
        else
          match lib.skip records header member data with
          | none => [⟨position, member, false⟩]
          | some (distance, moved) =>
            -- the records of a member are gone with it, the global ones stay
            ⟨position, member, moved⟩ :: lib.headers stream n
              (records.filter (·.1 = globalType)) (position + blockSize + distance)

structure ReadsAt (frombuf : Frombuf) (stream : Bytes) (position : Nat) (member : TarHeader) :
    Prop where
  full : ((stream.drop position).take blockSize).length = blockSize
  nonzero : (stream.drop position).take blockSize ≠ zeroBlock
  read : frombuf ((stream.drop position).take blockSize) = some member

def Met.Skips (met : Met) (distance : Nat) : Prop :=
  met.moved = false → (met.member.type ∈ plainTypes → distance = 0) ∧
    (met.member.type ∉ plainTypes → distance = met.member.payload.toNat)

theorem TarHeader.blocks_eq_some {h : TarHeader} {size : Nat} (known : h.blocks = some size) :
    size = h.payload.toNat := by
  rw [TarHeader.blocks] at known
  split at known
  · cases known
  · exact (Option.some.inj known).symm

theorem skip_eq_some {lib : TarLibrary} {records : Records} {header data : Bytes} {member : TarHeader}
    {distance : Nat} {moved : Bool}
    (known : lib.skip records header member data = some (distance, moved)) (position : Nat) :
    (Met.mk position member moved).Skips distance := by
  rw [TarLibrary.skip] at known
  split at known
  · cases known
  · cases known
    exact nofun
  · split at known
    · rename_i plain
      cases known
      exact fun _ => ⟨fun _ => rfl, fun other => absurd plain other⟩
    rename_i other
    split at known
    · obtain ⟨extension, -, sized⟩ := Option.bind_eq_some_iff.mp known
      obtain ⟨size, -, same⟩ := Option.map_eq_some_iff.mp sized
      cases same
      exact nofun
    · obtain ⟨size, sized, same⟩ := Option.map_eq_some_iff.mp known
      cases same
      exact fun _ => ⟨fun plain => absurd plain other, fun _ => TarHeader.blocks_eq_some sized⟩

/-- What the library does at one place: it stops, or it meets a header there and goes on. -/
theorem headers_cases (lib : TarLibrary) (stream : Bytes) (n : Nat) (records : Records)
    (position : Nat) :
    lib.headers stream n records position = [] ∨ ∃ member moved,
      ReadsAt lib.frombuf stream position member ∧
      (lib.headers stream n records position = [⟨position, member, moved⟩] ∨
        ∃ m records' distance, n = m + 1 ∧ (Met.mk position member moved).Skips distance ∧
          lib.headers stream n records position = ⟨position, member, moved⟩ ::
            lib.headers stream m records' (position + blockSize + distance)) := by
  cases n with
  | zero => exact .inl rfl
  | succ n =>
    rw [TarLibrary.headers]
    dsimp only
    split
    · exact .inl rfl
    rename_i block
    rw [not_or, not_not] at block
    split
    · exact .inl rfl
    rename_i member read
    have reads : ReadsAt lib.frombuf stream position member := ⟨block.1, block.2, read⟩
    refine .inr ?_
    split
    · rename_i record
      split
      · exact ⟨member, false, reads, .inl rfl⟩
      rename_i size sized
      split
      · refine ⟨member, false, reads, .inr ⟨n, _, size, rfl, fun _ => ⟨fun plain => ?_, fun _ => ?_⟩, rfl⟩⟩
        · have apart : ∀ type ∈ recordTypes, type ∉ plainTypes := by decide +kernel
          exact absurd plain (apart _ record)
        · exact TarHeader.blocks_eq_some sized
      · exact ⟨member, false, reads, .inl rfl⟩
    · split
      · exact ⟨member, false, reads, .inl rfl⟩
      rename_i distance moved known
      exact ⟨member, moved, reads, .inr ⟨n, _, distance, rfl, skip_eq_some known position, rfl⟩⟩

end Library

section Guarded

def Admissible (left position : Nat) (member : TarHeader) : Prop :=
  0 < left ∧ (member.type ∈ extensionTypes → member.size ≤ (extensionMaxBytes : Int)) ∧
    (position : Int) + blockSize + member.payload ≤ (archiveMaxBytes : Int)

instance (left position : Nat) (member : TarHeader) : Decidable (Admissible left position member) :=
  inferInstanceAs (Decidable (_ ∧ _ ∧ _))

/-- The bytes that the checks let through, of a source that stands at `position` with a header due
and `left` more headers allowed. After a negative payload nothing more is read. -/
def letThrough (frombuf : Frombuf) : Nat → Nat → Bytes → Bytes
  | 0, _, source => if source.take blockSize = zeroBlock then zeroBlock else []
  | left + 1, position, source =>
    if source.length < blockSize then []
    else if source.take blockSize = zeroBlock then zeroBlock
    else
      match frombuf (source.take blockSize) with
      | none => []
      | some member =>
        if Admissible (left + 1) position member then
          if member.payload < 0 then source.take blockSize
          else
            let next := blockSize + member.payload.toNat
            source.take next ++ letThrough frombuf left (position + next) (source.drop next)
        else []

def checkedHeaders (frombuf : Frombuf) : Nat → Nat → Bytes → List Nat
  | 0, _, _ => []
  | left + 1, position, source =>
    if source.length < blockSize then []
    else if source.take blockSize = zeroBlock then []
    else
      match frombuf (source.take blockSize) with
      | none => []
      | some member =>
        if Admissible (left + 1) position member then
          if member.payload < 0 then [position]
          else
            let next := blockSize + member.payload.toNat
            position :: checkedHeaders frombuf left (position + next) (source.drop next)
        else []

variable {frombuf : Frombuf}

theorem readsAt_long {stream : Bytes} {position : Nat} {member : TarHeader}
    (reads : ReadsAt frombuf stream position member) : position + blockSize ≤ stream.length := by
  have full := reads.full
  have positive : 0 < blockSize := by decide
  rw [List.length_take, List.length_drop] at full
  omega

structure Admits (frombuf : Frombuf) (left position : Nat) (source : Bytes) (member : TarHeader) :
    Prop where
  long : blockSize ≤ source.length
  nonzero : source.take blockSize ≠ zeroBlock
  read : frombuf (source.take blockSize) = some member
  passed : Admissible left position member

/-- What is let through where no header passes: an all-zero block, or nothing. -/
structure Stops (frombuf : Frombuf) (left position : Nat) (source : Bytes) : Prop where
  checked : checkedHeaders frombuf left position source = []
  zero : source.take blockSize = zeroBlock → letThrough frombuf left position source = zeroBlock
  nothing : source.take blockSize ≠ zeroBlock → letThrough frombuf left position source = []
  refused : ∀ member, ¬Admits frombuf left position source member

theorem letThrough_cases (frombuf : Frombuf) (left position : Nat) (source : Bytes) :
    Stops frombuf left position source ∨ ∃ member, Admits frombuf left position source member ∧
      (member.payload < 0 ∧ letThrough frombuf left position source = source.take blockSize ∧
        checkedHeaders frombuf left position source = [position] ∨
      ∃ m, left = m + 1 ∧ 0 ≤ member.payload ∧
        letThrough frombuf left position source = source.take (blockSize + member.payload.toNat) ++
          letThrough frombuf m (position + (blockSize + member.payload.toNat))
            (source.drop (blockSize + member.payload.toNat)) ∧
        checkedHeaders frombuf left position source = position ::
          checkedHeaders frombuf m (position + (blockSize + member.payload.toNat))
            (source.drop (blockSize + member.payload.toNat))) := by
  cases left with
  | zero =>
    refine .inl ⟨rfl, fun zero => if_pos zero, fun other => if_neg other, fun member admits => ?_⟩
    exact absurd admits.passed.1 (Nat.lt_irrefl 0)
  | succ left =>
    rw [letThrough, checkedHeaders]
    by_cases short : source.length < blockSize
    · have apart : source.take blockSize ≠ zeroBlock := by
        intro same
        have := congrArg List.length same
        rw [List.length_take, zeroBlock, List.length_replicate] at this
        omega
      refine .inl ⟨?_, fun zero => absurd zero apart, fun _ => ?_, fun member admits => ?_⟩
      · rw [checkedHeaders, if_pos short]
      · rw [letThrough, if_pos short]
      · exact absurd admits.long (Nat.not_le.mpr short)
    rw [if_neg short, if_neg short]
    by_cases zero : source.take blockSize = zeroBlock
    · refine .inl ⟨?_, fun _ => ?_, fun other => absurd zero other, fun member admits => ?_⟩
      · rw [checkedHeaders, if_neg short, if_pos zero]
      · rw [letThrough, if_neg short, if_pos zero]
      · exact admits.nonzero zero
    rw [if_neg zero, if_neg zero]
    cases read : frombuf (source.take blockSize) with
    | none =>
      refine .inl ⟨?_, fun same => absurd same zero, fun _ => ?_, fun member admits => ?_⟩
      · rw [checkedHeaders, if_neg short, if_neg zero, read]
      · rw [letThrough, if_neg short, if_neg zero, read]
      · cases (read.symm.trans admits.read)
    | some member =>
      dsimp only
      by_cases passed : Admissible (left + 1) position member
      · rw [if_pos passed, if_pos passed]
        refine .inr ⟨member, ⟨Nat.not_lt.mp short, zero, read, passed⟩, ?_⟩
        by_cases negative : member.payload < 0
        · rw [if_pos negative, if_pos negative]
          exact .inl ⟨negative, rfl, rfl⟩
        · rw [if_neg negative, if_neg negative]
          exact .inr ⟨left, rfl, Int.not_lt.mp negative, rfl, rfl⟩
      · refine .inl ⟨?_, fun same => absurd same zero, fun _ => ?_, fun member' admits => ?_⟩
        · rw [checkedHeaders, if_neg short, if_neg zero, read]
          exact if_neg passed
        · rw [letThrough, if_neg short, if_neg zero, read]
          exact if_neg passed
        · obtain rfl := Option.some.inj (read.symm.trans admits.read)
          exact passed admits.passed

theorem Stops.letThrough_eq {frombuf : Frombuf} {left position : Nat} {source : Bytes}
    (stops : Stops frombuf left position source) :
    letThrough frombuf left position source = [] ∨
      letThrough frombuf left position source = zeroBlock := by
  by_cases zero : source.take blockSize = zeroBlock
  · exact .inr (stops.zero zero)
  · exact .inl (stops.nothing zero)

theorem not_readsAt_zeroBlock {member : TarHeader} (position : Nat) :
    ¬ReadsAt frombuf zeroBlock position member := by
  intro reads
  have long := readsAt_long reads
  have size : zeroBlock.length = blockSize := List.length_replicate
  obtain rfl : position = 0 := by omega
  refine reads.nonzero ?_
  rw [List.drop_zero, List.take_of_length_le (Nat.le_of_eq size)]

theorem not_readsAt_of_length_le {stream : Bytes} {position : Nat} {member : TarHeader}
    (short : stream.length ≤ position) : ¬ReadsAt frombuf stream position member := by
  intro reads
  have long := readsAt_long reads
  have positive : 0 < blockSize := by decide
  omega

theorem checkedHeaders_first {left position : Nat} {source : Bytes} {member : TarHeader}
    (reads : ReadsAt frombuf (letThrough frombuf left position source) 0 member) :
    position ∈ checkedHeaders frombuf left position source := by
  rcases letThrough_cases frombuf left position source with
    stops | ⟨member', -, ⟨-, -, same⟩ | ⟨m, -, -, -, same⟩⟩
  · rcases stops.letThrough_eq with nothing | zero
    · rw [nothing] at reads
      exact absurd reads (not_readsAt_of_length_le (Nat.le_refl _))
    · rw [zero] at reads
      exact absurd reads (not_readsAt_zeroBlock _)
  · rw [same]
    exact List.mem_singleton_self _
  · rw [same]
    exact List.mem_cons_self

theorem le_of_mem_checkedHeaders {left position q : Nat} {source : Bytes}
    (checked : q ∈ checkedHeaders frombuf left position source) : position ≤ q := by
  induction left generalizing position source with
  | zero => cases checked
  | succ left ih =>
    rcases letThrough_cases frombuf (left + 1) position source with
      stops | ⟨member, -, ⟨-, -, same⟩ | ⟨m, step, -, -, same⟩⟩
    · rw [stops.checked] at checked
      cases checked
    · rw [same, List.mem_singleton] at checked
      exact checked.ge
    · obtain rfl : left = m := by omega
      rw [same] at checked
      rcases List.mem_cons.mp checked with here | later
      · exact here.ge
      · have := ih later
        omega

theorem letThrough_nil (frombuf : Frombuf) (left position : Nat) :
    letThrough frombuf left position [] = [] ∧ checkedHeaders frombuf left position [] = [] := by
  have unequal : ([] : Bytes).take blockSize ≠ zeroBlock := by
    intro same
    have := congrArg List.length same
    rw [zeroBlock, List.length_replicate] at this
    exact absurd this (by decide)
  cases left with
  | zero => exact ⟨if_neg unequal, rfl⟩
  | succ left => exact ⟨if_pos (by decide), if_pos (by decide)⟩

theorem drop_past (front tail : Bytes) (i : Nat) :
    (front ++ tail).drop (front.length + i) = tail.drop i := by
  rw [← List.drop_drop, List.drop_left]

theorem readsAt_past {front tail : Bytes} {i : Nat} {member : TarHeader}
    (reads : ReadsAt frombuf (front ++ tail) (front.length + i) member) :
    ReadsAt frombuf tail i member := by
  obtain ⟨full, nonzero, read⟩ := reads
  rw [drop_past] at full nonzero read
  exact ⟨full, nonzero, read⟩

/-- What is known of a header that is checked: the next one that is let through stands after its
payload, and none within. -/
structure Stands (frombuf : Frombuf) (stream : Bytes) (start : Nat) (headers : List Nat) (q : Nat)
    (member : TarHeader) : Prop where
  read : frombuf ((stream.drop (q - start)).take blockSize) = some member
  extension : member.type ∈ extensionTypes → member.size ≤ (extensionMaxBytes : Int)
  inside : ∀ q', q + blockSize ≤ q' → q' < q + blockSize + member.payload.toNat → q' ∉ headers
  next : ∀ later, ReadsAt frombuf stream (q + blockSize + member.payload.toNat - start) later →
    q + blockSize + member.payload.toNat ∈ headers

theorem stands_of_mem_checkedHeaders {left position q : Nat} {source : Bytes}
    (checked : q ∈ checkedHeaders frombuf left position source) :
    ∃ member, Stands frombuf (letThrough frombuf left position source) position
      (checkedHeaders frombuf left position source) q member := by
  induction left generalizing position source with
  | zero => cases checked
  | succ left ih =>
    have positive : 0 < blockSize := by decide
    rcases letThrough_cases frombuf (left + 1) position source with
      stops | ⟨member, admits, ⟨negative, stream, headers⟩ | ⟨m, step, payload, stream, headers⟩⟩
    · rw [stops.checked] at checked
      cases checked
    · rw [headers, List.mem_singleton] at checked
      subst checked
      rw [stream, headers]
      refine ⟨member, ?_, admits.passed.2.1, ?_, ?_⟩
      · rw [Nat.sub_self, List.drop_zero, List.take_take, Nat.min_self]
        exact admits.read
      · intro q' past _ here
        rw [List.mem_singleton] at here
        omega
      · intro later reads
        refine absurd reads (not_readsAt_of_length_le ?_)
        rw [List.length_take]
        omega
    · obtain rfl : left = m := by omega
      rw [headers] at checked
      rw [stream, headers]
      have after := @le_of_mem_checkedHeaders frombuf left
        (position + (blockSize + member.payload.toNat))
      have first := @checkedHeaders_first frombuf left
        (position + (blockSize + member.payload.toNat))
        (source.drop (blockSize + member.payload.toNat))
      rcases Nat.lt_or_ge source.length (blockSize + member.payload.toNat) with short | long
      · -- the payload is cut off, so that nothing follows
        have ended := letThrough_nil frombuf left (position + (blockSize + member.payload.toNat))
        rw [List.drop_eq_nil_of_le (Nat.le_of_lt short), ended.2] at checked ⊢
        rw [ended.1, List.append_nil, List.take_of_length_le (Nat.le_of_lt short)]
        obtain rfl := List.mem_singleton.mp checked
        refine ⟨member, ?_, admits.passed.2.1, ?_, ?_⟩
        · rw [Nat.sub_self, List.drop_zero]
          exact admits.read
        · intro q' past _ here
          rw [List.mem_singleton] at here
          omega
        · intro later reads
          refine absurd reads (not_readsAt_of_length_le ?_)
          omega
      have front : (source.take (blockSize + member.payload.toNat)).length =
          blockSize + member.payload.toNat := List.length_take_of_le long
      rcases List.mem_cons.mp checked with rfl | later
      · refine ⟨member, ?_, admits.passed.2.1, ?_, ?_⟩
        · rw [Nat.sub_self, List.drop_zero, List.take_append_of_le_length (by omega), List.take_take,
            Nat.min_eq_left (by omega)]
          exact admits.read
        · intro q' past before here
          rcases List.mem_cons.mp here with same | here
          · omega
          · have := after here
            omega
        · intro later reads
          have place : q + blockSize + member.payload.toNat - q =
              (source.take (blockSize + member.payload.toNat)).length + 0 := by omega
          rw [place] at reads
          rw [Nat.add_assoc]
          exact List.mem_cons_of_mem _ (first (readsAt_past reads))
      · obtain ⟨member', stands⟩ := ih later
        have past := after later
        refine ⟨member', ?_, stands.extension, ?_, ?_⟩
        · have place : q - position = (source.take (blockSize + member.payload.toNat)).length +
              (q - (position + (blockSize + member.payload.toNat))) := by omega
          rw [place, drop_past]
          exact stands.read
        · intro q' beyond before here
          rcases List.mem_cons.mp here with same | here
          · omega
          · exact stands.inside q' beyond before here
        · intro following reads
          have place : q + blockSize + member'.payload.toNat - position =
              (source.take (blockSize + member.payload.toNat)).length +
              (q + blockSize + member'.payload.toNat -
                (position + (blockSize + member.payload.toNat))) := by omega
          rw [place] at reads
          exact List.mem_cons_of_mem _ (stands.next following (readsAt_past reads))

end Guarded

section Delivery

namespace GuardedTarReader

variable {frombuf : Frombuf} {g g' : GuardedTarReader} {source out : Bytes}

/-- The places of the headers that are counted in a sequence of reads, in a source of `whole` bytes. -/
def counts (frombuf : Frombuf) (whole : Nat) : GuardedTarReader → List ℕ+ → List Nat
  | _, [] => []
  | g, n :: rest =>
    match g.read frombuf (n : Nat) with
    | (.error _, _) => []
    | (.ok _, later) =>
      (if later.headers = g.headers then [] else [whole - g.source.length]) ++
        later.counts frombuf whole rest

def due (frombuf : Frombuf) (g : GuardedTarReader) : Bytes :=
  g.pendingHeader ++ if g.done ∨ g.payloadRemaining < 0 then [] else
    g.source.take g.payloadRemaining.toNat ++
      letThrough frombuf (archiveMaxMembers - g.headers) g.rawBytes.toNat
        (g.source.drop g.payloadRemaining.toNat)

def dueHeaders (frombuf : Frombuf) (g : GuardedTarReader) : List Nat :=
  if g.done ∨ g.payloadRemaining < 0 then [] else
    checkedHeaders frombuf (archiveMaxMembers - g.headers) g.rawBytes.toNat
      (g.source.drop g.payloadRemaining.toNat)

theorem due_going (going : g.done = false) (sound : 0 ≤ g.payloadRemaining) :
    g.due frombuf = g.pendingHeader ++ (g.source.take g.payloadRemaining.toNat ++
      letThrough frombuf (archiveMaxMembers - g.headers) g.rawBytes.toNat
        (g.source.drop g.payloadRemaining.toNat)) ∧
    g.dueHeaders frombuf = checkedHeaders frombuf (archiveMaxMembers - g.headers)
      g.rawBytes.toNat (g.source.drop g.payloadRemaining.toNat) := by
  have goes : ¬(g.done ∨ g.payloadRemaining < 0) := by simp [going, Int.not_lt.mpr sound]
  exact ⟨by rw [due, if_neg goes], by rw [dueHeaders, if_neg goes]⟩

theorem due_stopped (stopped : g.done ∨ g.payloadRemaining < 0) :
    g.due frombuf = g.pendingHeader ∧ g.dueHeaders frombuf = [] :=
  ⟨by rw [due, if_pos stopped, List.append_nil], by rw [dueHeaders, if_pos stopped]⟩

/-- What one read does: it raises with nothing more to let through, or returns the next of it. -/
structure Advances (frombuf : Frombuf) (whole : Nat) (g : GuardedTarReader)
    (outcome : Except ReadError Bytes × GuardedTarReader) : Prop where
  raised : ∀ e, outcome.1 = .error e → g.due frombuf = []
  returned : ∀ output, outcome.1 = .ok output →
    g.due frombuf = output ++ outcome.2.due frombuf ∧
    g.dueHeaders frombuf =
      (if outcome.2.headers = g.headers then [] else [whole - g.source.length]) ++
        outcome.2.dueHeaders frombuf ∧
    output.length + outcome.2.pendingHeader.length + outcome.2.source.length ≤
      g.pendingHeader.length + g.source.length ∧
    (output = [] → g.due frombuf = [])

theorem Advances.takePending {requested whole : Nat} (asks : 0 < requested)
    (pending : g.pendingHeader ≠ []) :
    Advances frombuf whole g (.ok (g.takePending requested).1, (g.takePending requested).2) := by
  refine ⟨fun _ => nofun, ?_⟩
  intro output same
  obtain rfl := Except.ok.inj same
  refine ⟨?_, ?_, ?_, ?_⟩
  · change g.pendingHeader ++ _ = g.pendingHeader.take requested ++
      (g.pendingHeader.drop requested ++ _)
    rw [← List.append_assoc, List.take_append_drop]
    rfl
  · rw [if_pos (show (g.takePending requested).2.headers = g.headers from rfl)]
    rfl
  · have split := congrArg List.length (List.take_append_drop requested g.pendingHeader)
    rw [List.length_append] at split
    change (g.pendingHeader.take requested).length + (g.pendingHeader.drop requested).length +
      g.source.length ≤ _
    omega
  · intro none
    rcases List.take_eq_nil_iff.mp none with zero | none
    · omega
    · exact absurd none pending

theorem Advances.of_pending {requested whole : Nat} (asks : 0 < requested)
    (pending : g'.pendingHeader ≠ []) (due : g.due frombuf = g'.due frombuf)
    (headers : g.dueHeaders frombuf =
      (if g'.headers = g.headers then [] else [whole - g.source.length]) ++ g'.dueHeaders frombuf)
    (length : g'.pendingHeader.length + g'.source.length ≤
      g.pendingHeader.length + g.source.length) :
    Advances frombuf whole g (.ok (g'.takePending requested).1, (g'.takePending requested).2) := by
  have advances : Advances frombuf whole g' _ := .takePending asks pending
  refine ⟨fun _ => nofun, ?_⟩
  intro output same
  obtain ⟨returned, later, drawn, ended⟩ := advances.returned output same
  rw [if_pos (show (g'.takePending requested).2.headers = g'.headers from rfl),
    List.nil_append] at later
  refine ⟨due.trans returned, ?_, Nat.le_trans drawn length, fun none => due.trans (ended none)⟩
  rw [headers, later]
  rfl

theorem Advances.readPayload {requested whole : Nat} (asks : 0 < requested)
    (quiet : g.pendingHeader = []) (going : g.done = false) (remains : g.payloadRemaining ≠ 0)
    (negative : g.payloadRemaining < 0 → g.payloadRemaining < -1) :
    Advances frombuf whole g (g.readPayload requested) := by
  have chunk : 0 < decodeChunkBytes := by decide
  rw [GuardedTarReader.readPayload]
  generalize amount : min (min (requested : Int) g.payloadRemaining) decodeChunkBytes = length
  by_cases below : g.payloadRemaining < 0
  · have refused : readSource g.source length = .error .negative :=
      if_pos (by have := negative below; omega)
    rw [refused]
    exact ⟨fun _ _ => (due_stopped (.inr below)).1.trans quiet, fun _ made => by cases made⟩
  · have served : readSource g.source length =
        .ok (g.source.take length.toNat, g.source.drop length.toNat) := by
      rw [readSource, if_neg (by omega), if_neg (by omega)]
    obtain ⟨ahead, headers⟩ := @due_going frombuf g going (Int.not_lt.mp below)
    simp only [served]
    split
    · rename_i none
      have ended : g.source = [] := by
        rcases List.take_eq_nil_iff.mp none with zero | ended
        · omega
        · exact ended
      refine ⟨fun _ _ => ?_, fun _ made => by cases made⟩
      rw [ahead, quiet, ended, List.take_nil, List.drop_nil, (letThrough_nil _ _ _).1]
      rfl
    · rename_i some
      refine ⟨fun _ failed => (by cases failed), ?_⟩
      intro output same
      obtain rfl := Except.ok.inj same
      have short : (g.source.take length.toNat).length ≤ length.toNat := List.length_take_le _ _
      have rest : (g.payloadRemaining - (g.source.take length.toNat).length).toNat =
          g.payloadRemaining.toNat - (g.source.take length.toNat).length := by omega
      have after := @due_going frombuf { g with
        source := g.source.drop length.toNat
        payloadRemaining := g.payloadRemaining - (g.source.take length.toNat).length } going
        (by dsimp only; omega)
      dsimp only at after
      rw [rest, payload_rest g.source (by omega)] at after
      refine ⟨?_, ?_, ?_, fun none => absurd none some⟩
      · rw [after.1, ahead, quiet, List.nil_append, List.nil_append, ← List.append_assoc,
          ← payload_split g.source (by omega)]
      · rw [after.2, headers, if_pos rfl, List.nil_append]
      · have split := congrArg List.length (List.take_append_drop length.toNat g.source)
        rw [List.length_append] at split
        change _ + g.pendingHeader.length + (g.source.drop length.toNat).length ≤ _
        omega

theorem checkHeader_of_passed {header : Bytes} {member : TarHeader}
    (passed : Passed frombuf g header member) :
    g.checkHeader frombuf header = (.ok (), g.admitted header member) := by
  rw [checkHeader]
  dsimp only
  rw [if_neg (Nat.not_lt.mpr passed.counted)]
  simp only [passed.read]
  rw [if_neg (fun large => absurd (passed.extension large.1) (Int.not_le.mpr large.2)),
    if_neg (Int.not_lt.mpr passed.limit)]
  rfl

theorem passed_iff {header : Bytes} {member : TarHeader} {position : Nat}
    (raw : g.rawBytes = position + blockSize) :
    Passed frombuf g header member ↔ frombuf header = some member ∧
      Admissible (archiveMaxMembers - g.headers) position member := by
  constructor
  · rintro ⟨read, counted, extension, limit⟩
    refine ⟨read, by omega, extension, ?_⟩
    rw [← raw]
    exact limit
  · rintro ⟨read, counted, extension, limit⟩
    refine ⟨read, by omega, extension, ?_⟩
    rw [raw]
    exact limit

/-- The reader stands before a header, at this position of the stream. -/
structure AtHeader (g : GuardedTarReader) (position : Nat) : Prop where
  quiet : g.pendingHeader = []
  going : g.done = false
  none : g.payloadRemaining = 0
  raw : g.rawBytes = position

def pulled (g : GuardedTarReader) : GuardedTarReader :=
  { g with
    source := g.source.drop blockSize
    rawBytes := g.rawBytes + (g.source.take blockSize).length }

section Headers

variable {requested whole position : Nat}

theorem AtHeader.ahead (here : AtHeader g position) :
    g.due frombuf = letThrough frombuf (archiveMaxMembers - g.headers) position g.source ∧
      g.dueHeaders frombuf =
        checkedHeaders frombuf (archiveMaxMembers - g.headers) position g.source := by
  obtain ⟨ahead, headers⟩ := @due_going frombuf g here.going here.none.ge
  rw [here.none, here.raw, here.quiet, List.nil_append, Int.toNat_zero, List.take_zero, List.drop_zero,
    List.nil_append, Int.toNat_natCast] at ahead
  rw [here.none, here.raw, Int.toNat_zero, List.drop_zero, Int.toNat_natCast] at headers
  exact ⟨ahead, headers⟩

theorem pulled_shorter (g : GuardedTarReader) :
    (g.source.take blockSize).length + (g.source.drop blockSize).length ≤
      g.pendingHeader.length + g.source.length := by
  have split := congrArg List.length (List.take_append_drop blockSize g.source)
  rw [List.length_append] at split
  omega

theorem Advances.end (here : AtHeader g position) (ended : g.source.take blockSize = []) :
    Advances frombuf whole g
      (.ok [], { g with source := g.source.drop blockSize, done := true }) := by
  have block : 0 < blockSize := by decide
  have ended : g.source = [] := by
    rcases List.take_eq_nil_iff.mp ended with zero | ended
    · omega
    · exact ended
  obtain ⟨ahead, headers⟩ := @AtHeader.ahead frombuf g position here
  have nothing := letThrough_nil frombuf (archiveMaxMembers - g.headers) position
  rw [ended, nothing.1] at ahead
  rw [ended, nothing.2] at headers
  refine ⟨fun _ failed => (by cases failed), ?_⟩
  intro output same
  obtain rfl := Except.ok.inj same
  refine ⟨?_, ?_, ?_, fun _ => ahead⟩
  · rw [ahead, (due_stopped (.inl rfl)).1]
    exact here.quiet.symm
  · rw [headers, (due_stopped (.inl rfl)).2, if_pos rfl, List.nil_append]
  · dsimp only
    rw [List.length_nil, List.length_drop]
    omega

/-- A block that is cut off lets nothing more through. -/
theorem AtHeader.due_cut (here : AtHeader g position)
    (cut : (g.source.take blockSize).length ≠ blockSize) : g.due frombuf = [] := by
  rw [(@AtHeader.ahead frombuf g position here).1]
  rcases letThrough_cases frombuf (archiveMaxMembers - g.headers) position g.source with
    stops | ⟨member, admits, -⟩
  · refine stops.nothing fun zero => cut ?_
    rw [zero, zeroBlock, List.length_replicate]
  · exact absurd (List.length_take_of_le admits.long) cut

theorem Advances.zero (here : AtHeader g position) (asks : 0 < requested)
    (some : g.source.take blockSize ≠ []) (zero : g.source.take blockSize = zeroBlock) :
    Advances frombuf whole g
      (.ok ({ g.pulled with done := true, pendingHeader := g.source.take blockSize }.takePending
          requested).1,
        ({ g.pulled with done := true, pendingHeader := g.source.take blockSize }.takePending
          requested).2) := by
  obtain ⟨ahead, headers⟩ := @AtHeader.ahead frombuf g position here
  rcases letThrough_cases frombuf (archiveMaxMembers - g.headers) position g.source with
    stops | ⟨member, admits, -⟩
  · refine Advances.of_pending asks some ?_ ?_ (pulled_shorter g)
    · rw [ahead, stops.zero zero, (due_stopped (.inl rfl)).1]
      exact zero.symm
    · rw [headers, stops.checked, (due_stopped (.inl rfl)).2, List.append_nil]
      exact (if_pos (show g.pulled.headers = g.headers from rfl)).symm
  · exact absurd zero admits.nonzero

theorem passed_pulled_iff (here : AtHeader g position)
    (full : (g.source.take blockSize).length = blockSize) {member : TarHeader} :
    Passed frombuf g.pulled (g.source.take blockSize) member ↔
      frombuf (g.source.take blockSize) = some member ∧
        Admissible (archiveMaxMembers - g.headers) position member := by
  refine @passed_iff frombuf g.pulled (g.source.take blockSize) member position ?_
  change g.rawBytes + ((g.source.take blockSize).length : Int) = position + blockSize
  rw [here.raw, full]

theorem AtHeader.due_refused (here : AtHeader g position)
    (full : (g.source.take blockSize).length = blockSize)
    (nonzero : g.source.take blockSize ≠ zeroBlock) {e : ReadError} {later : GuardedTarReader}
    (refused : g.pulled.checkHeader frombuf (g.source.take blockSize) = (.error e, later)) :
    g.due frombuf = [] := by
  rw [(@AtHeader.ahead frombuf g position here).1]
  rcases letThrough_cases frombuf (archiveMaxMembers - g.headers) position g.source with
    stops | ⟨member, admits, -⟩
  · exact stops.nothing nonzero
  · have passes := checkHeader_of_passed
      ((passed_pulled_iff here full).mpr ⟨admits.read, admits.passed⟩)
    cases refused.symm.trans passes

theorem Advances.admitted (here : AtHeader g position) (asks : 0 < requested)
    (place : position = whole - g.source.length) (some : g.source.take blockSize ≠ [])
    (full : (g.source.take blockSize).length = blockSize)
    (nonzero : g.source.take blockSize ≠ zeroBlock) {member : TarHeader}
    (passed : Passed frombuf g.pulled (g.source.take blockSize) member) :
    Advances frombuf whole g
      (.ok ((g.pulled.admitted (g.source.take blockSize) member).takePending requested).1,
        ((g.pulled.admitted (g.source.take blockSize) member).takePending requested).2) := by
  obtain ⟨ahead, headers⟩ := @AtHeader.ahead frombuf g position here
  obtain ⟨read, admissible⟩ := (passed_pulled_iff here full).mp passed
  have counted : g.headers + 1 ≠ g.headers := Nat.succ_ne_self _
  have left : archiveMaxMembers - g.headers ≠ 0 := Nat.ne_of_gt admissible.1
  have long : blockSize ≤ g.source.length := by
    rw [List.length_take] at full
    omega
  rcases letThrough_cases frombuf (archiveMaxMembers - g.headers) position g.source with
    stops | ⟨member', admits, shape⟩
  · exact absurd ⟨long, nonzero, read, admissible⟩ (stops.refused member)
  obtain rfl := Option.some.inj (admits.read.symm.trans read)
  have goes := @due_going frombuf (g.pulled.admitted (g.source.take blockSize) member') here.going
  have place' : (g.rawBytes + (g.source.take blockSize).length + member'.payload).toNat =
      position + (blockSize + member'.payload.toNat) ∨ member'.payload < 0 := by
    have raw := here.raw
    omega
  refine Advances.of_pending asks some ?_ ?_ (pulled_shorter g)
  · rcases shape with ⟨negative, stream, -⟩ | ⟨m, step, payload, stream, -⟩
    · rw [ahead, stream, (due_stopped (.inr negative)).1]
      rfl
    · have fewer : archiveMaxMembers - (g.headers + 1) = m := by omega
      rw [ahead, stream, (goes payload).1]
      dsimp only [GuardedTarReader.admitted, pulled]
      rw [place'.resolve_right (Int.not_lt.mpr payload), fewer, List.drop_drop, List.take_add,
        List.append_assoc]
  · change _ = (if g.headers + 1 = g.headers then [] else _) ++ _
    rw [if_neg counted, headers, ← place]
    rcases shape with ⟨negative, -, places⟩ | ⟨m, step, payload, -, places⟩
    · rw [places, (due_stopped (.inr negative)).2]
      rfl
    · have fewer : archiveMaxMembers - (g.headers + 1) = m := by omega
      rw [places, (goes payload).2]
      dsimp only [GuardedTarReader.admitted, pulled]
      rw [place'.resolve_right (Int.not_lt.mpr payload), fewer, List.drop_drop]
      rfl

theorem Advances.readHeader (here : AtHeader g position) (asks : 0 < requested)
    (place : position = whole - g.source.length) :
    Advances frombuf whole g (g.readHeader frombuf requested) := by
  rw [GuardedTarReader.readHeader]
  dsimp only
  split
  · rename_i ended
    exact Advances.end here ended
  rename_i some
  split
  · rename_i cut
    exact ⟨fun _ _ => here.due_cut cut, fun _ made => by cases made⟩
  rename_i full
  rw [not_not] at full
  split
  · rename_i zero
    exact Advances.zero here asks some zero
  rename_i nonzero
  rcases checkHeader_cases frombuf g.pulled (g.source.take blockSize) with
    ⟨e, later, refused, -⟩ | ⟨member, passed, admitted⟩
  · have failed := refused
    simp only [pulled] at failed
    simp only [failed]
    exact ⟨fun _ _ => here.due_refused full nonzero refused, fun _ made => by cases made⟩
  · have advances := @Advances.admitted frombuf g requested whole position here asks place some full nonzero
      member passed
    simp only [pulled] at admitted advances
    simp only [admitted]
    exact advances

end Headers

theorem Guards.advances (guards : Guards frombuf source out g) (n : ℕ+) :
    Advances frombuf source.length g (g.read frombuf (n : Nat)) := by
  have positive : 0 < (n : Nat) := n.pos
  rw [GuardedTarReader.read, if_neg (by omega)]
  simp only [if_neg (show ¬((n : Nat) : Int) < 0 by omega), Int.toNat_natCast]
  split
  · rename_i pending
    exact .takePending positive pending
  rename_i quiet
  rw [not_not] at quiet
  split
  · rename_i done
    have nothing := (@due_stopped frombuf g (.inl done)).1.trans quiet
    refine ⟨fun _ failed => (by cases failed), ?_⟩
    intro output same
    obtain rfl := Except.ok.inj same
    refine ⟨rfl, ?_, ?_, fun _ => nothing⟩
    · rw [if_pos rfl, List.nil_append]
    · dsimp only
      rw [List.length_nil]
      omega
  rename_i going
  rw [Bool.not_eq_true] at going
  split
  · rename_i remains
    exact .readPayload positive quiet going remains guards.within.negative
  · rename_i none
    rw [not_not] at none
    have raw := guards.within.raw going
    rw [none, Int.add_zero] at raw
    exact .readHeader ⟨quiet, going, none, raw⟩ positive rfl

theorem Guards.unreached (guards : Guards frombuf source out g) {q : Nat}
    (later : q ∈ g.dueHeaders frombuf) :
    ¬q + blockSize + g.pendingHeader.length + g.source.length ≤
      source.length + ([] : List Bytes).flatten.length := by
  by_cases stopped : g.done ∨ g.payloadRemaining < 0
  · rw [(due_stopped stopped).2] at later
    cases later
  rw [not_or, Bool.not_eq_true] at stopped
  rw [(due_going stopped.1 (Int.not_lt.mp stopped.2)).2] at later
  have raw := guards.within.raw stopped.1
  have past := le_of_mem_checkedHeaders later
  have block : 0 < blockSize := by decide
  rw [List.flatten_nil, List.length_nil]
  omega

/-- A sequence of reads returns the beginning of what is let through, and counts the headers in it. -/
theorem Guards.delivers (guards : Guards frombuf source out g) (sizes : List ℕ+) :
    (g.reads frombuf sizes).1.flatten <+: g.due frombuf ∧
    g.counts frombuf source.length sizes ⊆ g.dueHeaders frombuf ∧
    ∀ q ∈ g.dueHeaders frombuf, q + blockSize + g.pendingHeader.length + g.source.length ≤
      source.length + (g.reads frombuf sizes).1.flatten.length →
      q ∈ g.counts frombuf source.length sizes := by
  induction sizes generalizing out g with
  | nil =>
    rw [GuardedTarReader.reads, counts]
    exact ⟨List.nil_prefix, List.nil_subset _,
      fun q due reached => absurd reached (guards.unreached due)⟩
  | cons n rest ih =>
    have one := guards.advances n
    have on := guards.read n
    rw [GuardedTarReader.reads, counts]
    rcases outcome : g.read frombuf (n : Nat) with ⟨e | output, later⟩
    · exact ⟨List.nil_prefix, List.nil_subset _,
        fun q due reached => absurd reached (guards.unreached due)⟩
    · rw [outcome] at one on
      obtain ⟨-, guards', -⟩ := on.returned output rfl
      obtain ⟨returned, headers, drawn, -⟩ := one.returned output rfl
      dsimp only at returned headers drawn guards' ⊢
      obtain ⟨next, counted, reached⟩ := ih guards'
      rw [List.flatten_cons, returned, headers]
      refine ⟨(List.prefix_append_right_inj _).mpr next, ?_, ?_⟩
      · exact List.append_subset.mpr ⟨List.subset_append_left _ _,
          List.Subset.trans counted (List.subset_append_right _ _)⟩
      intro q due within
      rw [List.length_append] at within
      rcases List.mem_append.mp due with here | due
      · exact List.mem_append_left _ here
      · exact List.mem_append_right _ (reached q due (by omega))

theorem Guards.delivers_all (guards : Guards frombuf source out g) :
    ∃ sizes, (g.reads frombuf sizes).1.flatten = g.due frombuf := by
  induction size : (g.due frombuf).length using Nat.strongRecOn generalizing out g with
  | ind k ih =>
    have one := guards.advances 1
    have on := guards.read 1
    rcases outcome : g.read frombuf ((1 : ℕ+) : Nat) with ⟨e | output, later⟩
    · rw [outcome] at one
      exact ⟨[], (one.raised e rfl).symm⟩
    · rw [outcome] at one on
      obtain ⟨-, guards', -⟩ := on.returned output rfl
      obtain ⟨returned, -, -, ended⟩ := one.returned output rfl
      by_cases none : output = []
      · exact ⟨[], (ended none).symm⟩
      · have shorter : (later.due frombuf).length < k := by
          have length := congrArg List.length returned
          have some := List.length_pos_iff.mpr none
          rw [List.length_append] at length
          dsimp only at length
          omega
        obtain ⟨sizes, all⟩ := ih _ shorter guards' rfl
        refine ⟨1 :: sizes, ?_⟩
        rw [GuardedTarReader.reads, outcome, returned]
        dsimp only
        rw [List.flatten_cons, all]

end GuardedTarReader

end Delivery

section Framings

/-- Where the library goes on behind `a` at `b`, when the guard has counted the headers at `headers`:
a link, a device, a directory or a fifo announces no payload, and a place that was moved is a header
of the guard again. -/
structure Met.Joins (headers : List Nat) (a b : Met) : Prop where
  plain : a.moved = false → a.member.type ∈ plainTypes → a.member.payload ≤ 0
  moved : a.moved = true → b.position ∈ headers

structure Met.Checked (headers : List Nat) (met : Met) : Prop where
  counted : met.position ∈ headers
  record : met.member.type ∈ recordTypes → met.member.size ≤ (extensionMaxBytes : Int)

theorem Met.checked_iff {frombuf : Frombuf} {stream : Bytes} {headers : List Nat} {met : Met}
    (stands : Stands frombuf stream 0 headers met.position met.member)
    (counted : met.position ∈ headers) :
    met.Checked headers ↔
      (met.member.type = solarisType → met.member.size ≤ (extensionMaxBytes : Int)) := by
  have kinds : ∀ type ∈ recordTypes, type ∈ extensionTypes ∨ type = solarisType := by decide +kernel
  have solaris : solarisType ∈ recordTypes := by decide
  constructor
  · intro checked same
    rw [← same] at solaris
    exact checked.record solaris
  · intro small
    refine ⟨counted, fun record => ?_⟩
    rcases kinds _ record with extension | same
    · exact stands.extension extension
    · exact small same

theorem Stands.followed {frombuf : Frombuf} {stream : Bytes} {headers : List Nat} {a b : Met}
    {distance : Nat} (stands : Stands frombuf stream 0 headers a.position a.member)
    (skips : a.Skips distance) (place : b.position = a.position + blockSize + distance)
    (reads : ReadsAt frombuf stream b.position b.member) :
    b.position ∈ headers ↔ a.Joins headers b := by
  have next : distance = a.member.payload.toNat → b.position ∈ headers := by
    intro same
    rw [place, same] at reads ⊢
    exact stands.next b.member reads
  constructor
  · intro counted
    refine ⟨fun still plain => ?_, fun _ => counted⟩
    obtain rfl := (skips still).1 plain
    by_contra announced
    exact stands.inside b.position (by omega) (by omega) counted
  · intro joins
    cases moved : a.moved with
    | true => exact joins.moved moved
    | false =>
      by_cases plain : a.member.type ∈ plainTypes
      · have none := joins.plain moved plain
        exact next (((skips moved).1 plain).trans (by omega))
      · exact next ((skips moved).2 plain)

theorem headers_checked_iff (lib : TarLibrary) (stream : Bytes) (headers : List Nat)
    (stands : ∀ q ∈ headers, ∃ member, Stands lib.frombuf stream 0 headers q member)
    (n : Nat) (records : Records) (position : Nat)
    (start : ∀ member, ReadsAt lib.frombuf stream position member → position ∈ headers) :
    (∀ met ∈ lib.headers stream n records position, met.Checked headers) ↔
      List.IsChain (Met.Joins headers) (lib.headers stream n records position) ∧
      ∀ met ∈ lib.headers stream n records position, met.member.type = solarisType →
        met.member.size ≤ (extensionMaxBytes : Int) := by
  induction n generalizing records position with
  | zero => simp [TarLibrary.headers]
  | succ n ih =>
    -- the guard has read the header that the library reads
    have here {member : TarHeader} (reads : ReadsAt lib.frombuf stream position member) :
        (∀ moved, Stands lib.frombuf stream 0 headers (Met.mk position member moved).position
          (Met.mk position member moved).member) ∧ position ∈ headers := by
      have counted := start member reads
      obtain ⟨member', known⟩ := stands position counted
      have read := known.read
      rw [Nat.sub_zero, reads.read] at read
      obtain rfl := Option.some.inj read
      exact ⟨fun _ => known, counted⟩
    rcases headers_cases lib stream (n + 1) records position with
      none | ⟨member, moved, reads, last | ⟨m, records', distance, step, skips, same⟩⟩
    · simp [none]
    · obtain ⟨here, counted⟩ := here reads
      rw [last]
      simp [Met.checked_iff (here moved) counted]
    · obtain rfl : n = m := by omega
      obtain ⟨here, counted⟩ := here reads
      rw [same]
      have ours := Met.checked_iff (here moved) counted
      rcases headers_cases lib stream n records' (position + blockSize + distance) with
        none | ⟨later, moved', reads', shape⟩
      · rw [none]
        simp [ours]
      have followed := @Stands.followed _ _ _ _ ⟨_, later, moved'⟩ _ (here moved) skips rfl reads'
      have begins : ∃ tail, lib.headers stream n records' (position + blockSize + distance) =
          ⟨position + blockSize + distance, later, moved'⟩ :: tail := by
        rcases shape with last | ⟨m, records'', distance', -, -, same⟩
        · exact ⟨_, last⟩
        · exact ⟨_, same⟩
      obtain ⟨tail, begins⟩ := begins
      have rest := ih records' (position + blockSize + distance)
      rw [begins] at rest ⊢
      rw [List.isChain_cons_cons, List.forall_mem_cons, ours, List.forall_mem_cons (a := Met.mk position member moved)]
      constructor
      · rintro ⟨small, checked⟩
        have counted' := (checked _ List.mem_cons_self).counted
        obtain ⟨chain, smaller⟩ := (rest fun _ _ => counted').mp checked
        exact ⟨⟨followed.mp counted', chain⟩, small, smaller⟩
      · rintro ⟨⟨joins, chain⟩, small, smaller⟩
        exact ⟨small, (rest fun _ _ => followed.mpr joins).mpr ⟨chain, smaller⟩⟩

variable (lib : TarLibrary) (source : Bytes)

def guardedStream : Bytes := letThrough lib.frombuf archiveMaxMembers 0 source

def guardHeaders : List Nat := checkedHeaders lib.frombuf archiveMaxMembers 0 source

/-- Every header the library interprets was counted and checked when its last byte was returned,
whatever was asked for, and no record above the limit is read. -/
def MeetsCounted (n : Nat) : Prop :=
  ∀ met ∈ lib.headers (guardedStream lib source) n [] 0,
    (∀ sizes, met.position + blockSize ≤
        (GuardedTarReader.reads lib.frombuf { source := source } sizes).1.flatten.length →
      met.position ∈ GuardedTarReader.counts lib.frombuf source.length { source := source } sizes) ∧
    (met.member.type ∈ recordTypes → met.member.size ≤ (extensionMaxBytes : Int))

/-- No link, device, directory or fifo that announces a payload is followed by a header, a header that
a record has moved stands at one of the guard's, and no Solaris extended header is above the limit. -/
structure OneFraming (n : Nat) : Prop where
  chain : List.IsChain (Met.Joins (guardHeaders lib source))
    (lib.headers (guardedStream lib source) n [] 0)
  solaris : ∀ met ∈ lib.headers (guardedStream lib source) n [] 0,
    met.member.type = solarisType → met.member.size ≤ (extensionMaxBytes : Int)

theorem guard_delivers :
    (∀ sizes, (GuardedTarReader.reads lib.frombuf { source := source } sizes).1.flatten <+:
      guardedStream lib source) ∧
    ∃ sizes, (GuardedTarReader.reads lib.frombuf { source := source } sizes).1.flatten =
      guardedStream lib source := by
  have guards := GuardedTarReader.Guards.start lib.frombuf source
  have start := (@GuardedTarReader.due_going lib.frombuf { source := source } rfl
    (Int.le_refl 0)).1
  change _ = [] ++ ([] ++ guardedStream lib source) at start
  rw [List.nil_append, List.nil_append] at start
  rw [← start]
  exact ⟨fun sizes => (guards.delivers sizes).1, guards.delivers_all⟩

theorem headers_readsAt {lib : TarLibrary} {stream : Bytes} {n : Nat} {records : Records}
    {position : Nat} {met : Met} (meets : met ∈ lib.headers stream n records position) :
    ReadsAt lib.frombuf stream met.position met.member := by
  induction n generalizing records position with
  | zero => cases meets
  | succ n ih =>
    rcases headers_cases lib stream (n + 1) records position with
      none | ⟨member, moved, reads, last | ⟨m, records', distance, step, -, same⟩⟩
    · rw [none] at meets
      cases meets
    · rw [last, List.mem_singleton] at meets
      rw [meets]
      exact reads
    · obtain rfl : n = m := by omega
      rw [same] at meets
      rcases List.mem_cons.mp meets with rfl | later
      · exact reads
      · exact ih later

theorem meetsCounted_iff_checked (n : Nat) :
    MeetsCounted lib source n ↔
      ∀ met ∈ lib.headers (guardedStream lib source) n [] 0, met.Checked (guardHeaders lib source) := by
  have guards := GuardedTarReader.Guards.start lib.frombuf source
  have start : GuardedTarReader.dueHeaders lib.frombuf { source := source } =
      guardHeaders lib source :=
    (@GuardedTarReader.due_going lib.frombuf { source := source } rfl (Int.le_refl 0)).2
  constructor
  · intro counted met meets
    obtain ⟨sizes, all⟩ := (guard_delivers lib source).2
    obtain ⟨places, record⟩ := counted met meets
    refine ⟨?_, record⟩
    rw [← start]
    refine (guards.delivers sizes).2.1 (places sizes ?_)
    rw [all]
    exact readsAt_long (headers_readsAt meets)
  · intro checked met meets
    obtain ⟨counted, record⟩ := checked met meets
    refine ⟨fun sizes reached => ?_, record⟩
    rw [← start] at counted
    refine (guards.delivers sizes).2.2 _ counted ?_
    change met.position + blockSize + 0 + source.length ≤ _
    omega

/-- For every source, and however far the library reads: the guard returns the stream the library
reads, and the library meets only headers the guard has checked exactly when both frame it alike. -/
theorem library_meets_counted_iff (n : Nat) :
    (∀ sizes, (GuardedTarReader.reads lib.frombuf { source := source } sizes).1.flatten <+:
      guardedStream lib source) ∧
    (∃ sizes, (GuardedTarReader.reads lib.frombuf { source := source } sizes).1.flatten =
      guardedStream lib source) ∧
    (MeetsCounted lib source n ↔ OneFraming lib source n) := by
  refine ⟨(guard_delivers lib source).1, (guard_delivers lib source).2, ?_⟩
  have same := headers_checked_iff lib (guardedStream lib source) (guardHeaders lib source)
    (fun q checked => stands_of_mem_checkedHeaders checked) n [] 0
    (fun member reads => checkedHeaders_first reads)
  rw [meetsCounted_iff_checked, same]
  exact ⟨fun both => ⟨both.1, both.2⟩, fun one => ⟨one.chain, one.solaris⟩⟩

def octalLibrary : TarLibrary where
  frombuf := octalFrombuf
  parses := fun _ => true
  resize := fun _ _ _ => .keeps

/-- The directory `lib` with a size of one block, which holds the header of a pax record of 2 MiB. -/
def paddedDirectory : Bytes :=
  octalHeader [0x6C, 0x69, 0x62, 0x2F] 0x35 512 ++ octalHeader [0x78] 0x78 2097152

/-- The library reads the header in the block as one, which the guard has passed by as a payload. -/
theorem padded_directory_hides_header : ¬MeetsCounted octalLibrary paddedDirectory 2 := by
  have headers : guardHeaders octalLibrary paddedDirectory = [0] := by decide +kernel
  have met : ⟨512, ⟨0x78, 2097152⟩, false⟩ ∈
      octalLibrary.headers (guardedStream octalLibrary paddedDirectory) 2 [] 0 := by decide +kernel
  rw [meetsCounted_iff_checked]
  intro checked
  have counted := (checked _ met).counted
  rw [headers] at counted
  revert counted
  decide

end Framings

end Kdive.Bundles
