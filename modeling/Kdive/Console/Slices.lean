import Kdive.Console.Collector

/-!
Where the size rotations of the collector cut the received stream. Each slice is redacted on its
own after the cut, so the parts hide a secret as long as no cut falls inside an occurrence of it,
and give it away when one does.
-/
namespace Kdive.Console

section Cuts

def SizeOnly (settings : Settings) (h : Host) (pump : Pump) : Prop :=
  match pump.received with
  | .wouldBlock => h.isIdle settings pump.now = false
  | .data chunk => crashMarker.search (h.collector.buffer ++ chunk) = false
  | _ => True

/-- Offsets into the received stream: what is cut off, where the carry ends, what was received. -/
structure Progress where
  cutOff : Nat
  rotatedAt : Nat
  received : Nat

def Progress.cut (settings : Settings) (p : Progress) : Option (Nat × Nat) :=
  if settings.seamOverlap < p.received - p.cutOff then
    some (p.cutOff, p.received - settings.seamOverlap)
  else none

def Progress.rotated (settings : Settings) (p : Progress) : Progress :=
  { p with
    cutOff := ((p.cut settings).map Prod.snd).getD p.cutOff
    rotatedAt := p.received }

/-- Where a pump brings the offsets, and the cut whose upload lands: from the size of the chunk
alone. A cut whose upload fails leaves no part behind. -/
def Progress.advance (settings : Settings) (p : Progress) (pump : Pump) :
    Progress × List (Nat × Nat) :=
  match pump.received with
  | .data (b :: chunk) =>
    let next := { p with received := p.received + (b :: chunk).length }
    if settings.rotationThreshold ≤ next.received - next.rotatedAt then
      (next.rotated settings, if pump.lands then (next.cut settings).toList else [])
    else (next, [])
  | _ => (p, [])

def cutsFrom (settings : Settings) : Progress → List Pump → List (Nat × Nat)
  | _, [] => []
  | p, pump :: rest =>
    (p.advance settings pump).2 ++ cutsFrom settings (p.advance settings pump).1 rest

def Received.bytes : Received → Bytes
  | .data chunk => chunk
  | _ => []

def streamOf (pumps : List Pump) : Bytes := pumps.flatMap (fun pump => pump.received.bytes)

def slice (stream : Bytes) (cut : Nat × Nat) : Bytes := (stream.take cut.2).drop cut.1

def slices (settings : Settings) (pumps : List Pump) : List Bytes :=
  (cutsFrom settings ⟨0, 0, 0⟩ pumps).map (slice (streamOf pumps))

end Cuts

section Numbering

structure Indexed (h : Host) : Prop where
  ascending : h.store.listPartIndices.Pairwise (· < ·)
  next : ∀ n, h.collector.nextIndex = some n → ∀ i ∈ h.store.listPartIndices, i < n

theorem Indexed.fresh {h : Host} (indexed : Indexed h) :
    ∀ i ∈ h.store.listPartIndices, i < h.takeIndex.1 := by
  intro i isIndex
  rw [Host.takeIndex]
  dsimp only
  cases known : h.collector.nextIndex with
  | some n => exact indexed.next n known i isIndex
  | none =>
    rw [Option.getD_none]
    cases largest : h.store.listPartIndices.max? with
    | none =>
      rw [List.max?_eq_none_iff.mp largest] at isIndex
      cases isIndex
    | some last => exact Nat.lt_succ_of_le ((List.max?_eq_some_iff.mp largest).2 i isIndex)

theorem PartStore.put_parts {store : PartStore} {index : Nat} (data : Bytes)
    (fresh : ∀ i ∈ store.listPartIndices, i < index) :
    (store.put index data).parts = store.parts ++ [(index, data)] := by
  have others : store.parts.filter (fun part => part.1 != index) = store.parts := by
    refine List.filter_eq_self.mpr ?_
    intro part isPart
    have below := fresh part.1 (List.mem_map_of_mem isPart)
    simpa using below.ne
  rw [PartStore.put, others]

/-- A part put under the next index goes behind the others, and the index is spent either way. -/
theorem Indexed.put {h : Host} (indexed : Indexed h) (pump : Pump) (data : Bytes) :
    Indexed (h.takeIndex.2.putPart pump h.takeIndex.1 data).1 ∧
      (h.takeIndex.2.putPart pump h.takeIndex.1 data).1.store.parts
        = h.store.parts ++ if pump.lands then [(h.takeIndex.1, data)] else [] := by
  have fresh := indexed.fresh
  have parts := PartStore.put_parts data fresh
  rw [Host.putPart]
  split
  · refine ⟨⟨?_, ?_⟩, parts⟩
    · change ((h.store.put h.takeIndex.1 data).parts.map Prod.fst).Pairwise (· < ·)
      rw [parts, List.map_append, List.pairwise_append]
      refine ⟨indexed.ascending, by simp, ?_⟩
      intro i old j new
      rw [List.map_singleton, List.mem_singleton] at new
      rw [new]
      exact fresh i old
    · intro n isNext i isIndex
      obtain rfl : h.takeIndex.1 + 1 = n := Option.some.inj isNext
      change i ∈ (h.store.put h.takeIndex.1 data).parts.map Prod.fst at isIndex
      rw [parts, List.map_append, List.mem_append, List.map_singleton, List.mem_singleton] at isIndex
      rcases isIndex with old | rfl
      · exact Nat.lt_succ_of_lt (fresh i old)
      · exact Nat.lt_succ_self _
  · refine ⟨⟨indexed.ascending, ?_⟩, (List.append_nil _).symm⟩
    intro n isNext i isIndex
    obtain rfl : h.takeIndex.1 + 1 = n := Option.some.inj isNext
    exact Nat.lt_succ_of_lt (fresh i isIndex)

theorem find_of_ascending {parts : List (Nat × Bytes)} (ascending : (parts.map Prod.fst).Pairwise (· < ·)) :
    ∀ part ∈ parts, parts.find? (fun other => other.1 == part.1) = some part := by
  induction parts with
  | nil => simp
  | cons first rest ih =>
    intro part isPart
    rw [List.map_cons, List.pairwise_cons] at ascending
    rcases List.mem_cons.mp isPart with rfl | later
    · exact List.find?_cons_of_pos (by simp)
    · have below := ascending.1 part.1 (List.mem_map_of_mem later)
      rw [List.find?_cons_of_neg (by simpa using below.ne)]
      exact ih ascending.2 part later

theorem assembled_eq_flatMap {store : PartStore}
    (ascending : store.listPartIndices.Pairwise (· < ·)) :
    store.assembled = store.parts.flatMap Prod.snd := by
  have sorted : store.listPartIndices.Pairwise (· ≤ ·) := ascending.imp Nat.le_of_lt
  rw [PartStore.assembled, List.Pairwise.insertionSort_eq sorted, PartStore.listPartIndices,
    List.flatMap_map]
  refine List.flatMap_congr ?_
  intro part isPart
  rw [PartStore.readPart, find_of_ascending ascending part isPart]
  rfl

end Numbering

section Tracking

structure Tracks (stream : Bytes) (p : Progress) (c : Collector) : Prop where
  received : p.received = stream.length
  cutOff_le : p.cutOff ≤ p.rotatedAt
  rotatedAt_le : p.rotatedAt ≤ p.received
  carry : c.carry = slice stream (p.cutOff, p.rotatedAt)
  buffer : c.buffer = stream.drop p.rotatedAt
  running : c.finalized = false

variable {settings : Settings} {stream : Bytes} {p : Progress} {h : Host} {pump : Pump}

theorem slice_append_drop {lo hi : Nat} (order : lo ≤ hi) :
    slice stream (lo, hi) ++ stream.drop hi = stream.drop lo := by
  have parts : stream.drop lo = (stream.drop lo).take (hi - lo) ++ (stream.drop lo).drop (hi - lo) :=
    (List.take_append_drop _ _).symm
  rw [parts, List.drop_drop, Nat.add_sub_cancel' order, slice, List.drop_take]

theorem slice_of_le_length {lo hi : Nat} (inside : hi ≤ stream.length) (more : Bytes) :
    slice (stream ++ more) (lo, hi) = slice stream (lo, hi) := by
  rw [slice, slice, List.take_append_of_le_length inside]

theorem Tracks.unsent {c : Collector} (tracks : Tracks stream p c) :
    c.carry ++ c.buffer = stream.drop p.cutOff := by
  rw [tracks.carry, tracks.buffer, slice_append_drop tracks.cutOff_le]

theorem Tracks.receive {c : Collector} (tracks : Tracks stream p c) (chunk : Bytes) (now : Instant) :
    Tracks (stream ++ chunk) { p with received := p.received + chunk.length }
      { c with buffer := c.buffer ++ chunk, lastRx := now } := by
  have inside : p.rotatedAt ≤ stream.length := tracks.received ▸ tracks.rotatedAt_le
  constructor
  · simp [tracks.received]
  · exact tracks.cutOff_le
  · exact tracks.rotatedAt_le.trans (Nat.le_add_right _ _)
  · rw [slice_of_le_length inside]
    exact tracks.carry
  · rw [List.drop_append_of_le_length inside]
    exact congrArg (· ++ chunk) tracks.buffer
  · exact tracks.running

theorem holdBack_drop (overlap : Nat) (received : p.received = stream.length)
    (inside : p.cutOff ≤ p.received) (long : overlap < p.received - p.cutOff) :
    holdBack overlap (stream.drop p.cutOff)
      = (slice stream (p.cutOff, p.received - overlap),
          slice stream (p.received - overlap, p.received)) := by
  have size : (stream.drop p.cutOff).length = p.received - p.cutOff := by
    rw [List.length_drop, received]
  rw [holdBack, size, if_pos long, List.splitAt_eq, slice, slice, List.drop_take, List.drop_drop,
    received, List.take_length, ← received]
  congr 2 <;> omega

def Uploads (stream : Bytes) (pump : Pump) (cuts : List (Nat × Nat)) (before after : Host) : Prop :=
  ∃ added, after.store.parts = before.store.parts ++ added ∧
    added.map Prod.snd = cuts.map (fun cut => pump.redactor.redact (slice stream cut))

theorem uploads_nil {after : Host} (same : after.store = h.store) : Uploads stream pump [] h after :=
  ⟨[], by rw [same, List.append_nil], rfl⟩

theorem putPart_collector (index : Nat) (data : Bytes) :
    (h.putPart pump index data).1.collector = h.collector := by
  rw [Host.putPart]
  split <;> rfl

theorem tracks_of_rotated {c : Collector} {lo : Nat} (received : p.received = stream.length)
    (order : lo ≤ p.received) (carry : c.carry = slice stream (lo, p.received))
    (buffer : c.buffer = []) (running : c.finalized = false) :
    Tracks stream { p with cutOff := lo, rotatedAt := p.received } c :=
  ⟨received, order, le_rfl, carry, by rw [buffer, received, List.drop_length], running⟩

theorem rotate_uploads (tracks : Tracks stream p h.collector) (indexed : Indexed h) :
    Tracks stream (p.rotated settings) (h.rotate settings pump).1.collector ∧
      Indexed (h.rotate settings pump).1 ∧
      Uploads stream pump (if pump.lands then (p.cut settings).toList else []) h
        (h.rotate settings pump).1 := by
  have inside : p.cutOff ≤ p.received := tracks.cutOff_le.trans tracks.rotatedAt_le
  rw [Host.rotate, tracks.unsent]
  by_cases long : settings.seamOverlap < p.received - p.cutOff
  · have isCut : p.cut settings = some (p.cutOff, p.received - settings.seamOverlap) := by
      rw [Progress.cut, if_pos long]
    have someUpload : (slice stream (p.cutOff, p.received - settings.seamOverlap)).isEmpty = false := by
      rw [List.isEmpty_eq_false_iff, ← List.length_pos_iff]
      simp only [slice, List.length_drop, List.length_take, ← tracks.received]
      omega
    rw [holdBack_drop settings.seamOverlap tracks.received inside long]
    dsimp only
    rw [someUpload, if_neg Bool.false_ne_true]
    have held : Indexed { h with collector := { h.collector with
        buffer := []
        carry := slice stream (p.received - settings.seamOverlap, p.received) } } :=
      ⟨indexed.ascending, indexed.next⟩
    obtain ⟨after, parts⟩ := held.put pump
      (pump.redactor.redact (slice stream (p.cutOff, p.received - settings.seamOverlap)))
    refine ⟨?_, after, _, parts, ?_⟩
    · rw [putPart_collector, Progress.rotated, isCut]
      exact tracks_of_rotated tracks.received (Nat.sub_le _ _) rfl rfl tracks.running
    · rw [isCut]
      cases pump.lands <;> rfl
  · have noCut : p.cut settings = none := by rw [Progress.cut, if_neg long]
    have size : (stream.drop p.cutOff).length = p.received - p.cutOff := by
      rw [List.length_drop, tracks.received]
    have all : stream.drop p.cutOff = slice stream (p.cutOff, p.received) := by
      rw [slice, tracks.received, List.take_length]
    rw [holdBack, size, if_neg long]
    refine ⟨?_, ⟨indexed.ascending, indexed.next⟩, ?_⟩
    · rw [Progress.rotated, noCut]
      exact tracks_of_rotated tracks.received inside all rfl tracks.running
    · rw [noCut]
      cases pump.lands <;> exact uploads_nil rfl

/-- A pump that flushes nothing moves the offsets as the sizes of the chunks say, and uploads the
redaction of each stretch it cuts off. -/
theorem pumpStep_uploads (tracks : Tracks stream p h.collector) (indexed : Indexed h)
    (only : SizeOnly settings h pump) :
    Tracks (stream ++ pump.received.bytes) (p.advance settings pump).1
        (pumpStep settings h pump).collector ∧
      Indexed (pumpStep settings h pump) ∧
      Uploads (stream ++ pump.received.bytes) pump (p.advance settings pump).2 h
        (pumpStep settings h pump) := by
  have untouched {c : Collector} (carry : c.carry = h.collector.carry)
      (buffer : c.buffer = h.collector.buffer) (running : c.finalized = h.collector.finalized) :
      Tracks (stream ++ []) p c := by
    rw [List.append_nil]
    exact ⟨tracks.received, tracks.cutOff_le, tracks.rotatedAt_le, carry.trans tracks.carry,
      buffer.trans tracks.buffer, running.trans tracks.running⟩
  have stays : Indexed { h with collector := { h.collector with streaming := false } } :=
    ⟨indexed.ascending, indexed.next⟩
  unfold pumpStep Host.pumpOnce SizeOnly at *
  rw [if_neg (by rw [tracks.running]; exact Bool.false_ne_true)]
  cases got : pump.received with
  | refused =>
    simp only [Progress.advance, got]
    exact ⟨untouched rfl rfl rfl, indexed, uploads_nil rfl⟩
  | dropped =>
    simp only [Progress.advance, got]
    exact ⟨untouched rfl rfl rfl, stays, uploads_nil rfl⟩
  | wouldBlock =>
    rw [got] at only
    have quiet : h.openStream.flushIfIdle settings pump = (h.openStream, false) := by
      rw [Host.flushIfIdle]
      exact if_neg (by rw [show h.openStream.isIdle settings pump.now = false from only]; simp)
    simp only [Progress.advance, got, quiet]
    exact ⟨untouched rfl rfl rfl, ⟨indexed.ascending, indexed.next⟩, uploads_nil rfl⟩
  | data chunk =>
    cases chunk with
    | nil =>
      simp only [Progress.advance, got]
      exact ⟨untouched rfl rfl rfl, stays, uploads_nil rfl⟩
    | cons b chunk =>
      rw [got] at only
      have opened : Tracks stream p h.openStream.collector :=
        ⟨tracks.received, tracks.cutOff_le, tracks.rotatedAt_le, tracks.carry, tracks.buffer,
          tracks.running⟩
      have grown := opened.receive (b :: chunk) pump.now
      have numbered : Indexed (h.openStream.receive pump (b :: chunk)) :=
        ⟨indexed.ascending, indexed.next⟩
      have size : (h.openStream.receive pump (b :: chunk)).collector.buffer.length
          = p.received + (b :: chunk).length - p.rotatedAt := by
        have held := congrArg List.length grown.buffer
        rw [List.length_drop, ← grown.received] at held
        exact held
      have noMarker : ¬ crashMarker.search
          (h.openStream.receive pump (b :: chunk)).collector.buffer = true := by
        rw [show crashMarker.search (h.openStream.receive pump (b :: chunk)).collector.buffer = false
          from only]
        exact Bool.false_ne_true
      dsimp only [Host.answer, Received.bytes]
      rw [Host.maybeRotate, if_neg noMarker, size, Progress.advance, got]
      dsimp only
      split
      · exact rotate_uploads grown numbered
      · exact ⟨grown, numbered, uploads_nil rfl⟩

theorem cut_le_received : ∀ cut ∈ (p.advance settings pump).2,
    cut.2 ≤ (p.advance settings pump).1.received := by
  intro cut isCut
  unfold Progress.advance at *
  split at isCut
  · dsimp only at isCut ⊢
    split at isCut
    · rw [if_pos ‹_›]
      split at isCut
      · rw [Progress.cut] at isCut
        split at isCut
        · rw [Option.toList_some, List.mem_singleton] at isCut
          rw [isCut]
          exact Nat.sub_le _ _
        · cases isCut
      · cases isCut
    · cases isCut
  · cases isCut

def RedactedBy (pumps : List Pump) (raw data : Bytes) : Prop :=
  ∃ pump ∈ pumps, data = pump.redactor.redact raw

theorem RedactedBy.cons {pumps : List Pump} {raw data : Bytes} (redacted : RedactedBy pumps raw data) :
    RedactedBy (pump :: pumps) raw data := by
  obtain ⟨other, isPump, same⟩ := redacted
  exact ⟨other, List.mem_cons_of_mem pump isPump, same⟩

/-- Over a run of size rotations the new parts are the redacted slices of the received stream. -/
theorem run_uploads : ∀ {pumps : List Pump} {stream : Bytes} {p : Progress} {h : Host},
    Tracks stream p h.collector → Indexed h →
    Trace.Along (pumpStep settings) (SizeOnly settings) h pumps →
    Indexed (Trace.run (pumpStep settings) h pumps) ∧
      ∃ added, (Trace.run (pumpStep settings) h pumps).store.parts = h.store.parts ++ added ∧
        List.Forall₂ (RedactedBy pumps)
          ((cutsFrom settings p pumps).map (slice (stream ++ streamOf pumps))) (added.map Prod.snd) := by
  intro pumps
  induction pumps with
  | nil =>
    intro stream p h _ indexed _
    exact ⟨indexed, [], (List.append_nil _).symm, .nil⟩
  | cons pump rest ih =>
    intro stream p h tracks indexed only
    obtain ⟨grown, numbered, first, parts, bytes⟩ := pumpStep_uploads tracks indexed only.1
    obtain ⟨final, others, later, redactions⟩ := ih grown numbered only.2
    have total : stream ++ streamOf (pump :: rest)
        = stream ++ pump.received.bytes ++ streamOf rest := by
      simp [streamOf]
    rw [Trace.run_cons]
    refine ⟨final, first ++ others, ?_, ?_⟩
    · rw [later, parts, List.append_assoc]
    · rw [cutsFrom, List.map_append, List.map_append, total, bytes]
      refine List.rel_append ?_ ?_
      · rw [List.forall₂_map_left_iff, List.forall₂_map_right_iff, List.forall₂_same]
        intro cut isCut
        have inside : cut.2 ≤ (stream ++ pump.received.bytes).length :=
          grown.received ▸ cut_le_received cut isCut
        refine ⟨pump, List.mem_cons_self, ?_⟩
        rw [slice_of_le_length inside]
      · exact redactions.imp (fun _ _ one => one.cons)

end Tracking

section Concealment

variable {settings : Settings} {pumps : List Pump} {secret : Text}

def Host.start (now : Instant) : Host := ⟨Collector.new now, ⟨[], none⟩⟩

theorem exists_texts (unmarked : Unmarked secret)
    (registered : ∀ pump ∈ pumps, secret ∈ pump.redactor.secretValues) {raws datas : List Bytes}
    (redactions : List.Forall₂ (RedactedBy pumps) raws datas) :
    ∃ texts, datas = texts.map Utf8.encode ∧
      List.Forall₂ (Masking.Conceals '[' ']' redacted) (raws.map Utf8.decode) texts ∧
      ∀ text ∈ texts, ¬ secret <:+: text := by
  induction redactions with
  | nil => exact ⟨[], rfl, .nil, by simp⟩
  | @cons raw data raws datas one _ ih =>
    obtain ⟨pump, isPump, rfl⟩ := one
    obtain ⟨texts, rfl, conceal, hidden⟩ := ih
    refine ⟨pump.redactor.redactText (Utf8.decode raw) :: texts, rfl,
      .cons (pump.redactor.redactText_conceals _) conceal, ?_⟩
    intro text isText
    rcases List.mem_cons.mp isText with rfl | later
    · exact pump.redactor.not_infix_redactText _ (registered pump isPump) unmarked
    · exact hidden text later

/-- Size rotations hide a registered secret when no cut falls inside an occurrence of it. -/
theorem uncut_secret_hidden {now : Instant} (unmarked : Unmarked secret)
    (only : Trace.Along (pumpStep settings) (SizeOnly settings) (Host.start now) pumps)
    (registered : ∀ pump ∈ pumps, secret ∈ pump.redactor.secretValues)
    (uncut : ¬ Masking.Crosses secret ((slices settings pumps).map Utf8.decode)) :
    ¬ Utf8.encode secret <:+:
      (Trace.run (pumpStep settings) (Host.start now) pumps).store.assembled := by
  have start : Tracks [] ⟨0, 0, 0⟩ (Host.start now).collector := ⟨rfl, le_rfl, le_rfl, rfl, rfl, rfl⟩
  have indexed : Indexed (Host.start now) := by
    constructor
    · exact List.Pairwise.nil
    · intro n _ i none
      cases none
  obtain ⟨final, added, parts, redactions⟩ := run_uploads start indexed only
  obtain ⟨texts, datas, conceal, hidden⟩ := exists_texts unmarked registered redactions
  have joined : (Trace.run (pumpStep settings) (Host.start now) pumps).store.assembled
      = Utf8.encode texts.flatten := by
    rw [assembled_eq_flatMap final.ascending, parts, Utf8.encode_flatten, ← datas,
      List.flatMap_def]
    rfl
  intro found
  rw [joined] at found
  have someSecret : secret ≠ [] := by
    rintro rfl
    exact unmarked.notMarker List.nil_infix
  rcases Masking.infix_or_crosses someSecret unmarked.noOpening unmarked.noClosing conceal
    (Utf8.infix_of_encode found) with ⟨text, isText, inside⟩ | crosses
  · exact hidden text isText inside
  · exact uncut crosses

end Concealment

section Leak

def smallSettings : Settings := ⟨12, 8, 1000000, 5000000, 1024 * 1024⟩

def consoleRedactor : Redactor := Redactor.new Char.isAlphanum ["hunter2".toList] []

def chunkPump (chunk : String) : Pump :=
  ⟨.data (Utf8.encode chunk.toList), 0, consoleRedactor, true⟩

def quietPumps : List Pump := [chunkPump "hunter2 rootlogin ok", chunkPump "and more output"]

theorem quietPumps_sizeOnly :
    Trace.Along (pumpStep smallSettings) (SizeOnly smallSettings) (Host.start 0) quietPumps := by
  refine ⟨?_, ?_, trivial⟩
  · change crashMarker.search ([] ++ Utf8.encode "hunter2 rootlogin ok".toList) = false
    decide +kernel
  · change crashMarker.search
      ((pumpStep smallSettings (Host.start 0) (chunkPump "hunter2 rootlogin ok")).collector.buffer ++
        Utf8.encode "and more output".toList) = false
    decide +kernel

theorem whole_secret_hidden : ¬ Utf8.encode "hunter2".toList <:+:
    (Trace.run (pumpStep smallSettings) (Host.start 0) quietPumps).store.assembled :=
  uncut_secret_hidden ⟨by decide +kernel, by decide +kernel, by decide +kernel⟩ quietPumps_sizeOnly
    (by decide +kernel) (by decide +kernel)

def leakingPumps : List Pump := [chunkPump "rootlogin hunter2 ok", chunkPump "and more output"]

/-- A secret that a rotation cuts in two is uploaded raw, one half in each part. -/
theorem cut_secret_uploaded :
    Trace.Along (pumpStep smallSettings) (SizeOnly smallSettings) (Host.start 0) leakingPumps ∧
      (∀ pump ∈ leakingPumps, "hunter2".toList ∈ pump.redactor.secretValues) ∧
      Unmarked "hunter2".toList ∧
      (Utf8.encode "hunter2".toList).length ≤ smallSettings.seamOverlap ∧
      Utf8.encode "hunter2".toList <:+:
        (Trace.run (pumpStep smallSettings) (Host.start 0) leakingPumps).store.assembled := by
  refine ⟨⟨?_, ?_, trivial⟩, by decide +kernel,
    ⟨by decide +kernel, by decide +kernel, by decide +kernel⟩, by decide, by decide +kernel⟩
  · change crashMarker.search ([] ++ Utf8.encode "rootlogin hunter2 ok".toList) = false
    decide +kernel
  · change crashMarker.search
      ((pumpStep smallSettings (Host.start 0) (chunkPump "rootlogin hunter2 ok")).collector.buffer ++
        Utf8.encode "and more output".toList) = false
    decide +kernel

end Leak

end Kdive.Console
