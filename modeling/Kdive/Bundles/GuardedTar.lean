import Kdive.Bundles.RangedReader
import Mathlib.Data.PNat.Defs
import Mathlib.Algebra.GroupWithZero.Nat

/-!
`_GuardedTarReader`: the decompressed bundle, handed on header by header and payload by payload, with
the limits checked on every header before its bytes are let through.

A size field may be negative. The payload it announces is then negative too, and the reader asks its
source for a negative number of bytes.
-/
namespace Kdive.Bundles

structure TarHeader where
  type : UInt8
  size : Int
  deriving DecidableEq

abbrev Frombuf := Bytes → Option TarHeader

def blockSize : Nat := 512

def decodeChunkBytes : Nat := 4 * 1024 * 1024

def archiveMaxMembers : Nat := 200000

def archiveMaxBytes : Nat := 8 * 1024 * 1024 * 1024

def extensionMaxBytes : Nat := 1024 * 1024

/-- `XHDTYPE`, `XGLTYPE`, `GNUTYPE_LONGNAME`, `GNUTYPE_LONGLINK`. -/
def extensionTypes : List UInt8 := [0x78, 0x67, 0x4C, 0x4B]

def zeroBlock : Bytes := List.replicate blockSize 0

def TarHeader.payload (h : TarHeader) : Int := (h.size + blockSize - 1) / blockSize * blockSize

inductive ReadError where
  | failure (failure : BuildFailure)
  /-- The `HeaderError` of `frombuf`. -/
  | header
  /-- The `ValueError` of a negative length. -/
  | negative

/-- `GzipFile.read`, which is that of a `BufferedReader`: as much as is asked for, unless the stream
ends; -1 asks for the rest, and a length below that is an error. -/
def readSource (source : Bytes) (length : Int) : Except ReadError (Bytes × Bytes) :=
  if length < -1 then .error .negative
  else if length = -1 then .ok (source, [])
  else .ok (source.take length.toNat, source.drop length.toNat)

structure GuardedTarReader where
  source : Bytes
  pendingHeader : Bytes := []
  payloadRemaining : Int := 0
  rawBytes : Int := 0
  headers : Nat := 0
  done : Bool := false

namespace GuardedTarReader

def takePending (g : GuardedTarReader) (requested : Nat) : Bytes × GuardedTarReader :=
  (g.pendingHeader.take requested, { g with pendingHeader := g.pendingHeader.drop requested })

def fail (message : String) : Except ReadError Bytes := .error (.failure ⟨message⟩)

def checkHeader (frombuf : Frombuf) (g : GuardedTarReader) (header : Bytes) :
    Except ReadError Unit × GuardedTarReader :=
  let g := { g with headers := g.headers + 1 }
  if g.headers > archiveMaxMembers then
    (.error (.failure ⟨"kernel bundle exceeds the external-boot member limit"⟩), g)
  else
    match frombuf header with
    | none => (.error .header, g)
    | some member =>
      if member.type ∈ extensionTypes ∧ member.size > (extensionMaxBytes : Int) then
        (.error (.failure ⟨"kernel bundle extension metadata exceeds the byte limit"⟩), g)
      else
        let g := { g with
          payloadRemaining := member.payload
          rawBytes := g.rawBytes + member.payload }
        if g.rawBytes > (archiveMaxBytes : Int) then
          (.error (.failure ⟨"kernel bundle exceeds the external-boot raw tar byte limit"⟩), g)
        else (.ok (), { g with pendingHeader := header })

def readHeader (frombuf : Frombuf) (g : GuardedTarReader) (requested : Nat) :
    Except ReadError Bytes × GuardedTarReader :=
  let header := g.source.take blockSize
  let g := { g with source := g.source.drop blockSize }
  if header = [] then (.ok [], { g with done := true })
  else if header.length ≠ blockSize then
    (fail "kernel bundle has a truncated tar header", g)
  else
    let g := { g with rawBytes := g.rawBytes + header.length }
    if header = zeroBlock then
      let taken := { g with done := true, pendingHeader := header }.takePending requested
      (.ok taken.1, taken.2)
    else
      match g.checkHeader frombuf header with
      | (.error e, g) => (.error e, g)
      | (.ok (), g) => (.ok (g.takePending requested).1, (g.takePending requested).2)

def readPayload (g : GuardedTarReader) (requested : Nat) :
    Except ReadError Bytes × GuardedTarReader :=
  let length := min (min (requested : Int) g.payloadRemaining) decodeChunkBytes
  match readSource g.source length with
  | .error e => (.error e, g)
  | .ok (output, source) =>
    if output = [] then
      (fail "kernel bundle ended before its recorded member size", { g with source := source })
    else
      (.ok output, { g with
        source := source
        payloadRemaining := g.payloadRemaining - output.length })

def read (frombuf : Frombuf) (g : GuardedTarReader) (size : Int) :
    Except ReadError Bytes × GuardedTarReader :=
  if size = 0 then (.ok [], g)
  else
    let requested := if size < 0 then decodeChunkBytes else size.toNat
    if g.pendingHeader ≠ [] then (.ok (g.takePending requested).1, (g.takePending requested).2)
    else if g.done then (.ok [], g)
    else if g.payloadRemaining ≠ 0 then g.readPayload requested
    else g.readHeader frombuf requested

def reads (frombuf : Frombuf) : GuardedTarReader → List ℕ+ → List Bytes × GuardedTarReader
  | g, [] => ([], g)
  | g, n :: rest =>
    match g.read frombuf (n : Nat) with
    | (.error _, g) => ([], g)
    | (.ok output, g) =>
      let later := g.reads frombuf rest
      (output :: later.1, later.2)

end GuardedTarReader

section Headers

def octal (field : Bytes) : Option Nat :=
  (field.takeWhile (· ≠ 0)).foldl (fun value digit => value.bind fun value =>
    if 0x30 ≤ digit ∧ digit ≤ 0x37 then some (value * 8 + (digit.toNat - 0x30)) else none) (some 0)

def headerSum (header : Bytes) : Nat :=
  256 + ((header.take 148).map UInt8.toNat).sum + ((header.drop 156).map UInt8.toNat).sum

def octalFrombuf : Frombuf := fun header =>
  if header.length ≠ blockSize ∨ octal ((header.drop 148).take 8) ≠ some (headerSum header) then none
  else
    ((header.drop 156).head?).bind fun type =>
      (octal ((header.drop 124).take 12)).map fun size => ⟨type, size⟩

def octalDigits : Nat → Nat → Bytes
  | 0, _ => []
  | width + 1, value => octalDigits width (value / 8) ++ [UInt8.ofNat (0x30 + value % 8)]

def octalHeader (name : Bytes) (type : UInt8) (size : Nat) : Bytes :=
  let before := name ++ List.replicate (124 - name.length) 0 ++ octalDigits 11 size ++
    List.replicate 13 0
  let after := type :: List.replicate 355 0
  before ++ octalDigits 6 (headerSum (before ++ List.replicate 8 0 ++ after)) ++ [0, 0x20] ++ after

end Headers

section Framing

variable {frombuf : Frombuf}

/-- The bytes up to and including the first all-zero block that stands where a header does. A header
whose size is negative has no payload. -/
def framed (frombuf : Frombuf) (source : Bytes) : Bytes :=
  if _short : source.length < blockSize then source
  else if source.take blockSize = zeroBlock then zeroBlock
  else
    match frombuf (source.take blockSize) with
    | none => source
    | some member =>
      let next := blockSize + member.payload.toNat
      source.take next ++ framed frombuf (source.drop next)
termination_by source.length
decreasing_by
  have positive : 0 < blockSize := by decide
  rw [List.length_drop]
  omega

theorem framed_nil : framed frombuf [] = [] := by
  rw [framed, dif_pos (by decide)]

theorem framed_prefix (frombuf : Frombuf) (source : Bytes) : framed frombuf source <+: source := by
  induction size : source.length using Nat.strongRecOn generalizing source with
  | ind n ih =>
    have block : 0 < blockSize := by decide
    rw [framed]
    split
    · exact List.prefix_refl _
    rename_i long
    split
    · rename_i zero
      rw [← zero]
      exact List.take_prefix _ _
    split
    · exact List.prefix_refl _
    · rename_i member read
      have later := ih _ (by rw [List.length_drop]; omega)
        (source.drop (blockSize + member.payload.toNat)) rfl
      have whole := (List.prefix_append_right_inj
        (source.take (blockSize + member.payload.toNat))).mpr later
      rwa [List.take_append_drop] at whole

theorem framed_header {source : Bytes} {member : TarHeader} (long : blockSize ≤ source.length)
    (header : source.take blockSize ≠ zeroBlock)
    (read : frombuf (source.take blockSize) = some member) :
    framed frombuf source = source.take blockSize ++
      ((source.drop blockSize).take member.payload.toNat ++
        framed frombuf ((source.drop blockSize).drop member.payload.toNat)) := by
  rw [framed, dif_neg (Nat.not_lt.mpr long), if_neg header]
  simp only [read]
  rw [List.take_add, List.append_assoc, List.drop_drop]

end Framing

section Guarding

namespace GuardedTarReader

variable {frombuf : Frombuf} {g g' : GuardedTarReader} {source : Bytes} {out : Bytes}

def ahead (frombuf : Frombuf) (g : GuardedTarReader) : Bytes :=
  g.pendingHeader ++ (if g.done then [] else
    g.source.take g.payloadRemaining.toNat ++ framed frombuf (g.source.drop g.payloadRemaining.toNat))

/-- `drawn` bytes were taken from the source. Once a payload is negative nothing more is. -/
structure Within (drawn : Nat) (g : GuardedTarReader) : Prop where
  raw : g.done = false → g.rawBytes = drawn + g.payloadRemaining
  limit : g.done = false → g.rawBytes ≤ (archiveMaxBytes : Int)
  negative : g.payloadRemaining < 0 → g.payloadRemaining < -1
  drawn : drawn ≤ archiveMaxBytes + blockSize

/-- The reader has returned `out` of the framed source and drawn no more than the limit. -/
structure Guards (frombuf : Frombuf) (source out : Bytes) (g : GuardedTarReader) : Prop where
  returned : out ++ g.ahead frombuf = framed frombuf source
  length : g.source.length ≤ source.length
  within : Within (source.length - g.source.length) g

theorem Guards.start (frombuf : Frombuf) (source : Bytes) :
    Guards frombuf source [] { source := source } where
  returned := by simp [ahead]
  length := Nat.le_refl _
  within := by
    refine ⟨fun _ => ?_, fun _ => ?_, fun negative => absurd negative (Int.lt_irrefl 0), ?_⟩ <;>
      simp

structure ReadsOn (frombuf : Frombuf) (source out : Bytes) (requested : Nat)
    (outcome : Except ReadError Bytes × GuardedTarReader) : Prop where
  drawn : source.length - outcome.2.source.length ≤ archiveMaxBytes + blockSize
  returned : ∀ output, outcome.1 = .ok output → output.length ≤ requested ∧
    Guards frombuf source (out ++ output) outcome.2 ∧
    (output = [] → outcome.2.ahead frombuf = [])

theorem ReadsOn.raised {e : ReadError} {requested : Nat}
    (drawn : source.length - g.source.length ≤ archiveMaxBytes + blockSize) :
    ReadsOn frombuf source out requested (.error e, g) :=
  ⟨drawn, fun _ => nofun⟩

theorem Guards.takePending (guards : Guards frombuf source out g) {requested : Nat}
    (asks : 0 < requested) (pending : g.pendingHeader ≠ []) :
    ReadsOn frombuf source out requested
      (.ok (g.takePending requested).1, (g.takePending requested).2) := by
  refine ⟨guards.within.drawn, ?_⟩
  intro output same
  obtain rfl := Except.ok.inj same
  obtain ⟨raw, limit, negative, drawn⟩ := guards.within
  refine ⟨List.length_take_le _ _, ⟨?_, guards.length, raw, limit, negative, drawn⟩, ?_⟩
  · rw [← guards.returned, List.append_assoc]
    congr 1
    change g.pendingHeader.take requested ++ (g.pendingHeader.drop requested ++ _) = _
    rw [← List.append_assoc, List.take_append_drop]
    rfl
  · intro none
    rcases List.take_eq_nil_iff.mp none with zero | none
    · omega
    · exact absurd none pending

theorem payload_rest (s : Bytes) {part whole : Nat} (less : part ≤ whole) :
    (s.drop part).drop (whole - (s.take part).length) = s.drop whole := by
  rcases Nat.lt_or_ge s.length part with short | long
  · rw [List.drop_eq_nil_of_le (Nat.le_of_lt short), List.drop_nil,
      List.drop_eq_nil_of_le (by omega)]
  · rw [List.length_take, Nat.min_eq_left long, List.drop_drop, Nat.add_sub_cancel' less]

theorem payload_split (s : Bytes) {part whole : Nat} (less : part ≤ whole) :
    s.take whole = s.take part ++ (s.drop part).take (whole - (s.take part).length) := by
  rcases Nat.lt_or_ge s.length part with short | long
  · rw [List.take_of_length_le (by omega), List.drop_eq_nil_of_le (Nat.le_of_lt short),
      List.take_of_length_le (Nat.le_of_lt short), List.take_nil, List.append_nil]
  · rw [List.length_take, Nat.min_eq_left long, ← List.take_add, Nat.add_sub_cancel' less]

theorem Guards.readPayload (guards : Guards frombuf source out g) {requested : Nat}
    (asks : 0 < requested) (quiet : g.pendingHeader = []) (going : g.done = false)
    (due : g.payloadRemaining ≠ 0) :
    ReadsOn frombuf source out requested (g.readPayload requested) := by
  have chunk : 0 < decodeChunkBytes := by decide
  rw [GuardedTarReader.readPayload]
  generalize amount : min (min (requested : Int) g.payloadRemaining) decodeChunkBytes = length
  by_cases negative : g.payloadRemaining < 0
  · -- the source refuses a negative length
    have below := guards.within.negative negative
    have refused : readSource g.source length = .error .negative := if_pos (by omega)
    rw [refused]
    exact .raised guards.within.drawn
  · have positive : 0 < length := by omega
    have served : readSource g.source length =
        .ok (g.source.take length.toNat, g.source.drop length.toNat) := by
      rw [readSource, if_neg (by omega), if_neg (by omega)]
    have raw := guards.within.raw going
    have limit := guards.within.limit going
    have drawn : source.length - (g.source.drop length.toNat).length ≤
        archiveMaxBytes + blockSize := by
      have := guards.length
      rw [List.length_drop]
      omega
    simp only [served]
    split
    · exact .raised drawn
    · rename_i some
      refine ⟨drawn, ?_⟩
      intro output same
      obtain rfl := Except.ok.inj same
      have short : (g.source.take length.toNat).length ≤ length.toNat := List.length_take_le _ _
      refine ⟨by omega, ⟨?_, ?_, ?_⟩, fun none => absurd none some⟩
      · have rest : (g.payloadRemaining - (g.source.take length.toNat).length).toNat =
            g.payloadRemaining.toNat - (g.source.take length.toNat).length := by omega
        rw [← guards.returned, List.append_assoc]
        congr 1
        simp only [ahead, quiet, going, Bool.false_eq_true, if_false, List.nil_append, rest]
        rw [payload_rest g.source (by omega), ← List.append_assoc,
          ← payload_split g.source (by omega)]
      · have whole := guards.length
        rw [List.length_drop]
        omega
      · have whole := guards.length
        have split : (g.source.take length.toNat).length + (g.source.drop length.toNat).length =
            g.source.length := by
          rw [← List.length_append, List.take_append_drop]
        refine ⟨fun _ => ?_, fun _ => limit, ?_, drawn⟩
        · dsimp only
          omega
        · intro below
          dsimp only at below
          omega

theorem TarHeader.payload_negative {h : TarHeader} (negative : h.payload < 0) : h.payload < -1 := by
  unfold TarHeader.payload blockSize at *
  omega

structure Passed (frombuf : Frombuf) (g : GuardedTarReader) (header : Bytes) (member : TarHeader) :
    Prop where
  read : frombuf header = some member
  counted : g.headers + 1 ≤ archiveMaxMembers
  extension : member.type ∈ extensionTypes → member.size ≤ (extensionMaxBytes : Int)
  limit : g.rawBytes + member.payload ≤ (archiveMaxBytes : Int)

def admitted (g : GuardedTarReader) (header : Bytes) (member : TarHeader) : GuardedTarReader :=
  { g with
    headers := g.headers + 1
    payloadRemaining := member.payload
    rawBytes := g.rawBytes + member.payload
    pendingHeader := header }

theorem checkHeader_cases (frombuf : Frombuf) (g : GuardedTarReader) (header : Bytes) :
    (∃ e g', g.checkHeader frombuf header = (.error e, g') ∧ g'.source = g.source) ∨
    ∃ member, Passed frombuf g header member ∧
      g.checkHeader frombuf header = (.ok (), g.admitted header member) := by
  rw [checkHeader]
  dsimp only
  split
  · exact .inl ⟨_, _, rfl, rfl⟩
  rename_i counted
  split
  · exact .inl ⟨_, _, rfl, rfl⟩
  rename_i member read
  split
  · exact .inl ⟨_, _, rfl, rfl⟩
  rename_i small
  split
  · exact .inl ⟨_, _, rfl, rfl⟩
  · rename_i limit
    refine .inr ⟨member, ⟨read, Nat.le_of_not_lt counted, ?_, Int.not_lt.mp limit⟩, rfl⟩
    intro extension
    exact Int.not_lt.mp (fun large => small ⟨extension, large⟩)

theorem Guards.readHeader (guards : Guards frombuf source out g) {requested : Nat}
    (asks : 0 < requested) (quiet : g.pendingHeader = []) (going : g.done = false)
    (none : g.payloadRemaining = 0) :
    ReadsOn frombuf source out requested (g.readHeader frombuf requested) := by
  have block : 0 < blockSize := by decide
  have raw := guards.within.raw going
  have limit := guards.within.limit going
  have whole := guards.length
  have ahead : out ++ framed frombuf g.source = framed frombuf source := by
    rw [← guards.returned]
    simp [GuardedTarReader.ahead, quiet, going, none]
  have drawn : source.length - (g.source.drop blockSize).length ≤ archiveMaxBytes + blockSize := by
    rw [List.length_drop]
    omega
  rw [GuardedTarReader.readHeader]
  dsimp only
  split
  · -- the source has ended
    rename_i ended
    have ended : g.source = [] := by
      rcases List.take_eq_nil_iff.mp ended with zero | ended
      · omega
      · exact ended
    refine ⟨drawn, ?_⟩
    intro output same
    obtain rfl := Except.ok.inj same
    refine ⟨Nat.zero_le _, ⟨?_, ?_, nofun, nofun, ?_, drawn⟩,
      fun _ => by simp [GuardedTarReader.ahead, quiet]⟩
    · rw [ended, framed_nil] at ahead
      simp [GuardedTarReader.ahead, quiet, ← ahead]
    · simp [ended]
    · exact guards.within.negative
  split
  · exact .raised drawn
  rename_i full
  rw [not_not] at full
  have long : blockSize ≤ g.source.length := by
    rw [List.length_take] at full
    omega
  have length : (g.source.drop blockSize).length ≤ source.length := by
    rw [List.length_drop]
    omega
  split
  · rename_i zero
    refine Guards.takePending ⟨?_, length, fun going => ?_, fun going => ?_, ?_, drawn⟩ asks ?_
    · rw [framed, dif_neg (Nat.not_lt.mpr long), if_pos zero] at ahead
      rw [← ahead]
      simp [GuardedTarReader.ahead, zero]
    · exact absurd going Bool.noConfusion
    · exact absurd going Bool.noConfusion
    · exact guards.within.negative
    · rw [zero]
      exact List.ne_nil_of_length_pos (by rw [zeroBlock, List.length_replicate]; exact block)
  rename_i nonzero
  rcases checkHeader_cases frombuf { g with
      source := g.source.drop blockSize
      rawBytes := g.rawBytes + (g.source.take blockSize).length } (g.source.take blockSize) with
    ⟨e, g', refused, same⟩ | ⟨member, passed, admitted⟩
  · simp only [refused]
    refine .raised ?_
    rw [same]
    exact drawn
  · simp only [admitted]
    refine Guards.takePending ⟨?_, length, ?_, ?_, TarHeader.payload_negative, drawn⟩ asks ?_
    · rw [framed_header long nonzero passed.read] at ahead
      rw [← ahead]
      simp [GuardedTarReader.ahead, GuardedTarReader.admitted, going]
    · intro _
      change g.rawBytes + (g.source.take blockSize).length + member.payload =
        ((source.length - (g.source.drop blockSize).length : Nat) : Int) + member.payload
      rw [full, List.length_drop]
      omega
    · intro _
      exact passed.limit
    · intro empty
      change g.source.take blockSize = [] at empty
      rw [empty] at full
      exact absurd full (by decide)

theorem Guards.read (guards : Guards frombuf source out g) (n : ℕ+) :
    ReadsOn frombuf source out n (g.read frombuf (n : Nat)) := by
  have positive : 0 < (n : Nat) := n.pos
  rw [GuardedTarReader.read, if_neg (by omega)]
  simp only [if_neg (show ¬((n : Nat) : Int) < 0 by omega), Int.toNat_natCast]
  split
  · rename_i pending
    exact guards.takePending positive pending
  rename_i quiet
  rw [not_not] at quiet
  split
  · rename_i done
    refine ⟨guards.within.drawn, ?_⟩
    intro output same
    obtain rfl := Except.ok.inj same
    refine ⟨Nat.zero_le _, ?_, fun _ => by simp [ahead, quiet, done]⟩
    rw [List.append_nil]
    exact guards
  rename_i going
  rw [Bool.not_eq_true] at going
  split
  · rename_i due
    exact guards.readPayload positive quiet going due
  · rename_i none
    exact guards.readHeader positive quiet going (not_not.mp none)

structure ReadsAll (frombuf : Frombuf) (source out : Bytes) (sizes : List ℕ+)
    (outcome : List Bytes × GuardedTarReader) : Prop where
  bounded : List.Forall₂ (fun output n => output.length ≤ (n : Nat)) outcome.1
    (sizes.take outcome.1.length)
  returned : out ++ outcome.1.flatten <+: framed frombuf source
  ended : [] ∈ outcome.1 → out ++ outcome.1.flatten = framed frombuf source
  drawn : source.length - outcome.2.source.length ≤ archiveMaxBytes + blockSize

theorem ReadsAll.complete {sizes : List ℕ+} {outcome : List Bytes × GuardedTarReader}
    (all : ReadsAll frombuf source out sizes outcome) (whole : out = framed frombuf source) :
    out ++ outcome.1.flatten = framed frombuf source := by
  have same := all.returned
  rw [whole] at same ⊢
  obtain ⟨rest, same⟩ := same
  rw [List.append_assoc, List.append_right_eq_self, List.append_eq_nil_iff] at same
  rw [same.1, List.append_nil]

theorem Guards.reads (guards : Guards frombuf source out g) (sizes : List ℕ+) :
    ReadsAll frombuf source out sizes (g.reads frombuf sizes) := by
  have begun : out <+: framed frombuf source := by
    rw [← guards.returned]
    exact List.prefix_append _ _
  induction sizes generalizing out g with
  | nil =>
    rw [GuardedTarReader.reads]
    exact ⟨.nil, by simpa using begun, nofun, guards.within.drawn⟩
  | cons n rest ih =>
    have one := guards.read n
    rw [GuardedTarReader.reads]
    split
    · rename_i e g' raised
      rw [raised] at one
      exact ⟨.nil, by simpa using begun, nofun, one.drawn⟩
    · rename_i output g' read
      rw [read] at one
      obtain ⟨bounded, guards', last⟩ := one.returned output rfl
      have begun' : out ++ output <+: framed frombuf source := by
        rw [← guards'.returned]
        exact List.prefix_append _ _
      have later := ih guards' begun'
      refine ⟨.cons bounded later.bounded, ?_, ?_, later.drawn⟩
      · simpa [List.append_assoc] using later.returned
      · intro member
        have whole : out ++ output ++ (g'.reads frombuf rest).1.flatten =
            framed frombuf source := by
          rcases List.mem_cons.mp member with empty | member
          · refine later.complete ?_
            rw [← guards'.returned, last empty.symm, List.append_nil]
          · exact later.ended member
        simpa [List.append_assoc] using whole

end GuardedTarReader

/-- Whatever the headers say: each read returns no more than it was asked for, together they return
the source up to its first all-zero header block, and no more than the limit and one block is drawn. -/
theorem guarded_reads_bounded (frombuf : Frombuf) (source : Bytes) (sizes : List ℕ+) :
    let outcome := GuardedTarReader.reads frombuf { source := source } sizes
    List.Forall₂ (fun output n => output.length ≤ (n : Nat)) outcome.1
      (sizes.take outcome.1.length) ∧
    outcome.1.flatten <+: framed frombuf source ∧ framed frombuf source <+: source ∧
    ([] ∈ outcome.1 → outcome.1.flatten = framed frombuf source) ∧
    source.length - outcome.2.source.length ≤ archiveMaxBytes + blockSize := by
  intro outcome
  have all : GuardedTarReader.ReadsAll frombuf source [] sizes outcome :=
    (GuardedTarReader.Guards.start frombuf source).reads sizes
  exact ⟨all.bounded, all.returned, framed_prefix frombuf source, all.ended, all.drawn⟩

end Guarding

end Kdive.Bundles
