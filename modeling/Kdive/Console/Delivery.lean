import Kdive.Console.Seams
import Kdive.Console.Slices
import Mathlib.Algebra.GroupWithZero.Nat

/-!
What becomes of every received byte when uploads may fail. A failed tail flush keeps its bytes and
gives its part index back; a failed size rotation has already let go of both. Each part is redacted on
its own, so that the parts are the redaction of the stream as long as they are cut at clear places.
-/
namespace Kdive.Console

section Tally

def Host.held (h : Host) : Bytes := h.collector.carry ++ h.collector.buffer

/-- The bytes of which the step tries to upload all: the console is quiet, or tells of a crash. -/
def tailAt (settings : Settings) (h : Host) (pump : Pump) : Option Bytes :=
  match pump.received with
  | .wouldBlock => if h.isIdle settings pump.now then some h.held else none
  | .data chunk =>
    if !chunk.isEmpty && crashMarker.search (h.collector.buffer ++ chunk) then some (h.held ++ chunk)
    else none
  | _ => none

/-- The bytes of which the step tries to upload all but the overlap: the buffer is full. -/
def rotationAt (settings : Settings) (h : Host) (pump : Pump) : Option Bytes :=
  match pump.received with
  | .data chunk =>
    if !chunk.isEmpty && !crashMarker.search (h.collector.buffer ++ chunk) &&
        decide (settings.rotationThreshold ≤ (h.collector.buffer ++ chunk).length) &&
        decide (settings.seamOverlap < (h.held ++ chunk).length) then some (h.held ++ chunk)
    else none
  | _ => none

def failsRotation (settings : Settings) (h : Host) (pump : Pump) : Bool :=
  !pump.lands && (rotationAt settings h pump).isSome

/-- The size of the part that the step adds. -/
def uploadedAt (settings : Settings) (h : Host) (pump : Pump) : Option Nat :=
  if pump.lands then
    ((tailAt settings h pump).map List.length).or
      ((rotationAt settings h pump).map (fun data => data.length - settings.seamOverlap))
  else none

/-- How many bytes the cap on the retained bytes drops, when a tail could not be uploaded. -/
def droppedAt (settings : Settings) (h : Host) (pump : Pump) : Nat :=
  if pump.lands ∨ settings.maxRetainedBytes = 0 then 0
  else (tailAt settings h pump).elim 0 (fun data => data.length - settings.maxRetainedBytes)

/-- The received stream without the bytes that the cap has dropped, and the sizes of the parts that
were cut off it. What is dropped is the oldest of what no part has. -/
structure Tally where
  kept : Bytes := []
  sent : List Nat := []

def Tally.next (settings : Settings) (t : Tally) (h : Host) (pump : Pump) : Tally where
  kept := (t.kept ++ pump.received.bytes).take t.sent.sum ++
    (t.kept ++ pump.received.bytes).drop (t.sent.sum + droppedAt settings h pump)
  sent := t.sent ++ (uploadedAt settings h pump).toList

def talliedStep (settings : Settings) (s : Host × Tally) (pump : Pump) : Host × Tally :=
  (pumpStep settings s.1 pump, s.2.next settings s.1 pump)

/-- No size rotation fails, and every cut so far is clear, with all that has come since. -/
def Unharmed (settings : Settings) (r : Redactor) (s : Host × Tally) (pump : Pump) : Prop :=
  failsRotation settings s.1 pump = false ∧
    r.ClearCuts (s.2.next settings s.1 pump).sent (s.2.next settings s.1 pump).kept

instance (settings : Settings) (r : Redactor) (s : Host × Tally) (pump : Pump) :
    Decidable (Unharmed settings r s pump) :=
  inferInstanceAs (Decidable (_ ∧ _))

def numbered : Nat → List Bytes → List (Nat × Bytes)
  | _, [] => []
  | index, part :: rest => (index, part) :: numbered (index + 1) rest

def PartStore.resume (store : PartStore) : Nat :=
  match store.listPartIndices.max? with
  | some last => last + 1
  | none => 0

/-- The redaction of the stream, but for what the cap has dropped, is that of the parts, which have
consecutive indices, and of what is still held. -/
def NothingLost (settings : Settings) (r : Redactor) (start : Host) (pumps : List Pump) : Prop :=
  let last := Trace.run (talliedStep settings) (start, {}) pumps
  last.1 = Trace.run (pumpStep settings) start pumps ∧
  (∃ parts, last.1.store.parts = start.store.parts ++ numbered start.store.resume parts ∧
    r.redact last.2.kept = parts.flatten ++ r.redact last.1.held) ∧
  last.2.kept.Sublist (streamOf pumps) ∧
  (Trace.Along (pumpStep settings) (fun h pump => droppedAt settings h pump = 0) start pumps →
    last.2.kept = streamOf pumps)

end Tally

section Steps

variable {h : Host} {pump : Pump} {r : Redactor} {start : PartStore} {kept : Bytes}
  {pieces : List Bytes}

structure Delivered (r : Redactor) (start : PartStore) (kept : Bytes) (pieces : List Bytes) (h : Host) :
    Prop where
  accounts : pieces.flatten ++ h.held = kept
  parts : h.store.parts = start.parts ++ numbered start.resume (pieces.map r.redact)
  index : h.collector.nextIndex.getD h.store.resume = start.resume + pieces.length
  running : h.collector.finalized = false

theorem numbered_append (index : Nat) (parts : List Bytes) (part : Bytes) :
    numbered index (parts ++ [part]) = numbered index parts ++ [(index + parts.length, part)] := by
  induction parts generalizing index with
  | nil => rfl
  | cons first rest ih =>
    have next := ih (index + 1)
    rw [List.cons_append, numbered, next, numbered, List.cons_append, List.length_cons]
    congr 4
    omega

theorem numbered_lt {index : Nat} {parts : List Bytes} :
    ∀ i ∈ (numbered index parts).map Prod.fst, i < index + parts.length := by
  induction parts generalizing index with
  | nil => simp [numbered]
  | cons first rest ih =>
    intro i member
    rw [numbered, List.map_cons, List.mem_cons] at member
    rw [List.length_cons]
    rcases member with rfl | later
    · omega
    · have below := ih i later
      omega

theorem lt_resume (store : PartStore) : ∀ i ∈ store.listPartIndices, i < store.resume := by
  intro i member
  unfold PartStore.resume
  cases largest : store.listPartIndices.max? with
  | none =>
    rw [List.max?_eq_none_iff.mp largest] at member
    cases member
  | some last => exact Nat.lt_succ_of_le ((List.max?_eq_some_iff.mp largest).2 i member)

theorem takeIndex_eq (h : Host) : h.takeIndex.1 = h.collector.nextIndex.getD h.store.resume := rfl

theorem Delivered.fresh (d : Delivered r start kept pieces h) :
    ∀ i ∈ h.store.listPartIndices, i < h.takeIndex.1 := by
  intro i member
  rw [takeIndex_eq, d.index]
  rw [PartStore.listPartIndices, d.parts, List.map_append, List.mem_append] at member
  rcases member with old | new
  · have below := lt_resume start i old
    omega
  · have below := numbered_lt i new
    rw [List.length_map] at below
    exact below

theorem Delivered.uploads (d : Delivered r start kept pieces h) {after : Host} {piece : Bytes}
    (split : h.held = piece ++ after.held)
    (stored : after.store = h.store.put h.takeIndex.1 (r.redact piece))
    (next : after.collector.nextIndex = some (h.takeIndex.1 + 1))
    (running : after.collector.finalized = false) :
    Delivered r start kept (pieces ++ [piece]) after where
  accounts := by
    rw [List.flatten_append, List.append_assoc, List.flatten_singleton, ← split]
    exact d.accounts
  parts := by
    rw [stored, PartStore.put_parts _ d.fresh, d.parts, List.map_append, takeIndex_eq, d.index,
      List.append_assoc, ← List.length_map (f := r.redact)]
    congr 1
    exact (numbered_append start.resume _ _).symm
  index := by
    rw [next, Option.getD_some, takeIndex_eq, d.index, List.length_append]
    rfl
  running := running

theorem Delivered.drops (d : Delivered r start kept pieces h) {after : Host} {count : Nat}
    (rest : after.held = h.held.drop count) (stored : after.store = h.store)
    (next : after.takeIndex.1 = h.takeIndex.1) (running : after.collector.finalized = false) :
    Delivered r start (kept.take (pieces.map List.length).sum ++
      kept.drop ((pieces.map List.length).sum + count)) pieces after where
  accounts := by
    rw [← d.accounts, rest, ← List.length_flatten, List.take_left, ← List.drop_drop, List.drop_left]
  parts := by rw [stored, d.parts]
  index := by rw [← takeIndex_eq, next, takeIndex_eq, d.index]
  running := running

theorem Delivered.stays (d : Delivered r start kept pieces h) {after : Host}
    (same : after.held = h.held) (stored : after.store = h.store)
    (next : after.takeIndex.1 = h.takeIndex.1) (running : after.collector.finalized = false) :
    Delivered r start kept pieces after where
  accounts := by
    rw [same]
    exact d.accounts
  parts := by rw [stored, d.parts]
  index := by rw [← takeIndex_eq, next, takeIndex_eq, d.index]
  running := running

theorem Delivered.receives (d : Delivered r start kept pieces h) (pump : Pump) (chunk : Bytes) :
    Delivered r start (kept ++ chunk) pieces (h.openStream.receive pump chunk) where
  accounts := by
    rw [← d.accounts]
    simp [Host.held, Host.openStream, Host.receive]
  parts := d.parts
  index := d.index
  running := d.running

/-- What one step does to the account: a part of this size is cut off, or so many bytes are dropped. -/
def Delivers (r : Redactor) (start : PartStore) (kept : Bytes) (pieces : List Bytes)
    (uploaded : Option Nat) (dropped : Nat) (after : Host) : Prop :=
  ∃ gained, gained.map List.length = uploaded.toList ∧
    Delivered r start (kept.take (pieces.map List.length).sum ++
      kept.drop ((pieces.map List.length).sum + dropped)) (pieces ++ gained) after

theorem take_drop_zero (count : Nat) (data : Bytes) : data.take count ++ data.drop (count + 0) = data :=
  List.take_append_drop count data

theorem Delivered.quiet (d : Delivered r start kept pieces h) {after : Host}
    (same : after.held = h.held) (stored : after.store = h.store)
    (next : after.takeIndex.1 = h.takeIndex.1) (running : after.collector.finalized = false) :
    Delivers r start kept pieces none 0 after := by
  refine ⟨[], rfl, ?_⟩
  rw [take_drop_zero, List.append_nil]
  exact d.stays same stored next running

theorem Delivered.adds (d : Delivered r start kept pieces h) {after : Host} {piece : Bytes}
    (split : h.held = piece ++ after.held)
    (stored : after.store = h.store.put h.takeIndex.1 (r.redact piece))
    (next : after.collector.nextIndex = some (h.takeIndex.1 + 1))
    (running : after.collector.finalized = false) :
    Delivers r start kept pieces (some piece.length) 0 after := by
  refine ⟨[piece], rfl, ?_⟩
  rw [take_drop_zero]
  exact d.uploads split stored next running

theorem held_trimRetained (settings : Settings) (h : Host) :
    (h.trimRetained settings).held = h.held.drop
      (if settings.maxRetainedBytes = 0 then 0 else h.held.length - settings.maxRetainedBytes) := by
  unfold Host.trimRetained
  dsimp only
  by_cases zero : settings.maxRetainedBytes = 0
  · rw [if_pos zero]
    split
    · simp [Host.held, Host.lastBytes, zero]
    · rfl
  · rw [if_neg zero]
    split
    · simp only [Host.held, Host.lastBytes, if_neg zero, List.nil_append]
    · rename_i below
      have none : h.held.length - settings.maxRetainedBytes = 0 :=
        Nat.sub_eq_zero_of_le (Nat.le_of_not_lt below)
      rw [none]
      rfl

theorem trimRetained_frame (settings : Settings) (h : Host) :
    (h.trimRetained settings).store = h.store ∧
      (h.trimRetained settings).collector.nextIndex = h.collector.nextIndex ∧
      (h.trimRetained settings).collector.finalized = h.collector.finalized := by
  unfold Host.trimRetained
  dsimp only
  split <;> exact ⟨rfl, rfl, rfl⟩

theorem Delivered.trimmed (settings : Settings) (d : Delivered r start kept pieces h) :
    Delivered r start (kept.take (pieces.map List.length).sum ++
      kept.drop ((pieces.map List.length).sum +
        (if settings.maxRetainedBytes = 0 then 0 else h.held.length - settings.maxRetainedBytes)))
      pieces (h.trimRetained settings) := by
  obtain ⟨stored, index, finalized⟩ := trimRetained_frame settings h
  have next : (h.trimRetained settings).takeIndex.1 = h.takeIndex.1 := by
    rw [takeIndex_eq, takeIndex_eq, stored, index]
  exact d.drops (held_trimRetained settings h) stored next (finalized.trans d.running)

theorem flushTail_delivers (settings : Settings) (d : Delivered r start kept pieces h)
    (own : pump.redactor = r) (filled : h.held ≠ []) :
    Delivers r start kept pieces (if pump.lands then some h.held.length else none)
      (if pump.lands ∨ settings.maxRetainedBytes = 0 then 0
        else h.held.length - settings.maxRetainedBytes) (h.flushTail settings pump).1 := by
  have something : ¬ (h.collector.carry ++ h.collector.buffer).isEmpty = true :=
    fun empty => filled (List.isEmpty_iff.mp empty)
  unfold Host.flushTail
  dsimp only
  rw [if_neg something]
  unfold Host.putPart
  by_cases lands : pump.lands = true
  · rw [if_pos lands, if_pos lands, if_pos (.inl lands)]
    dsimp only
    rw [if_neg Bool.false_ne_true]
    refine d.adds (List.append_nil _).symm ?_ rfl d.running
    rw [← own]
    rfl
  · rw [if_neg lands, if_neg lands]
    dsimp only
    rw [if_pos rfl]
    have back : Delivered r start kept pieces { h.takeIndex.2 with
        collector := { h.takeIndex.2.collector with nextIndex := some h.takeIndex.1 } } :=
      d.stays rfl rfl rfl d.running
    have trimmed := back.trimmed settings
    have failed : (pump.lands = true ∨ settings.maxRetainedBytes = 0) ↔
        settings.maxRetainedBytes = 0 := or_iff_right lands
    refine ⟨[], rfl, ?_⟩
    rw [List.append_nil]
    simp only [failed]
    exact trimmed

theorem rotate_delivers (settings : Settings) (d : Delivered r start kept pieces h)
    (own : pump.redactor = r) (lands : settings.seamOverlap < h.held.length → pump.lands = true) :
    Delivers r start kept pieces
      (if settings.seamOverlap < h.held.length then some (h.held.length - settings.seamOverlap) else none)
      0 (h.rotate settings pump).1 := by
  have whole := holdBack_append settings.seamOverlap h.held
  unfold Host.rotate
  dsimp only
  by_cases long : settings.seamOverlap < h.held.length
  · have size : (holdBack settings.seamOverlap h.held).1.length =
        h.held.length - settings.seamOverlap := by
      rw [holdBack, if_pos long, List.splitAt_eq, List.length_take]
      omega
    have something : ¬ (holdBack settings.seamOverlap h.held).1.isEmpty = true := by
      rw [List.isEmpty_iff, ← List.length_eq_zero_iff, size]
      omega
    rw [if_pos long, ← size]
    refine (if_neg something).symm ▸ ?_
    unfold Host.putPart
    rw [if_pos (lands long)]
    refine d.adds ?_ ?_ rfl d.running
    · change h.held = (holdBack settings.seamOverlap h.held).1 ++
        ((holdBack settings.seamOverlap h.held).2 ++ [])
      rw [List.append_nil]
      exact whole.symm
    · rw [← own]
      rfl
  · have nothing := holdBack_eq_nil (Nat.le_of_not_lt long)
    rw [if_neg long]
    refine (if_pos (List.isEmpty_iff.mpr nothing)).symm ▸ ?_
    refine d.quiet ?_ rfl rfl d.running
    rw [nothing, List.nil_append] at whole
    change (holdBack settings.seamOverlap h.held).2 ++ [] = h.held
    rw [List.append_nil]
    exact whole

theorem flushIfIdle_delivers (settings : Settings) (d : Delivered r start kept pieces h)
    (own : pump.redactor = r) (got : pump.received = .wouldBlock) :
    Delivers r start kept pieces (uploadedAt settings h pump) (droppedAt settings h pump)
      (h.flushIfIdle settings pump).1 := by
  unfold Host.flushIfIdle uploadedAt droppedAt tailAt rotationAt
  rw [got]
  dsimp only
  by_cases idle : h.isIdle settings pump.now = true
  · have filled : h.held ≠ [] := by
      intro empty
      rw [Host.isIdle, Bool.and_eq_true] at idle
      change _ ∧ (!h.held.isEmpty) = true at idle
      rw [empty] at idle
      exact absurd idle.2 Bool.false_ne_true
    have flushed := flushTail_delivers settings d own filled
    rw [if_pos idle, if_pos idle]
    simp only [Option.map_some, Option.some_or, Option.elim_some]
    by_cases raised : (h.flushTail settings pump).2 = true
    · rw [if_pos raised]
      exact flushed
    · obtain ⟨gained, sizes, after⟩ := flushed
      rw [if_neg raised]
      exact ⟨gained, sizes, after.stays rfl rfl rfl after.running⟩
  · rw [if_neg idle, if_neg idle]
    simp only [Option.map_none, Option.or_self, Option.elim_none, ite_self]
    exact d.quiet rfl rfl rfl d.running

theorem maybeRotate_delivers {settings : Settings} {b : UInt8} {chunk : Bytes}
    (d : Delivered r start kept pieces h) (own : pump.redactor = r)
    (got : pump.received = .data (b :: chunk)) (landed : failsRotation settings h pump = false) :
    Delivers r start (kept ++ (b :: chunk)) pieces (uploadedAt settings h pump)
      (droppedAt settings h pump)
      ((h.openStream.receive pump (b :: chunk)).maybeRotate settings pump).1 := by
  have grown := d.receives pump (b :: chunk)
  have held : (h.openStream.receive pump (b :: chunk)).held = h.held ++ (b :: chunk) :=
    (List.append_assoc _ _ _).symm
  have filled : (h.openStream.receive pump (b :: chunk)).held ≠ [] := by
    rw [held]
    simp
  have buffer : (h.openStream.receive pump (b :: chunk)).collector.buffer =
      h.collector.buffer ++ (b :: chunk) := rfl
  unfold failsRotation rotationAt at landed
  unfold Host.maybeRotate uploadedAt droppedAt tailAt rotationAt
  rw [got] at landed ⊢
  rw [buffer]
  simp only [List.isEmpty_cons, Bool.not_false, Bool.true_and] at landed ⊢
  by_cases marker : crashMarker.search (h.collector.buffer ++ (b :: chunk)) = true
  · have flushed := flushTail_delivers settings grown own filled
    rw [held] at flushed
    rw [if_pos marker, if_pos marker]
    simp only [Option.map_some, Option.some_or, Option.elim_some]
    exact flushed
  · rw [if_neg marker, if_neg marker]
    rw [Bool.not_eq_true] at marker
    simp only [marker, Bool.not_false, Bool.true_and, Option.map_none, Option.none_or, Option.elim_none,
      ite_self] at landed ⊢
    by_cases full : settings.rotationThreshold ≤ (h.collector.buffer ++ (b :: chunk)).length
    · have rotated := rotate_delivers settings grown own
      rw [held] at rotated
      simp only [full, decide_true, Bool.true_and, decide_eq_true_eq] at landed ⊢
      by_cases long : settings.seamOverlap < (h.held ++ (b :: chunk)).length
      · rw [if_pos long] at landed
        have lands : pump.lands = true := by simpa using landed
        have done := rotated (fun _ => lands)
        rw [if_pos long] at done
        rw [if_pos trivial, if_pos lands, if_pos long]
        exact done
      · have done := rotated (fun longer => absurd longer long)
        rw [if_neg long] at done
        rw [if_pos trivial, if_neg long, Option.map_none, ite_self]
        exact done
    · simp only [full, decide_false, Bool.false_and, Bool.false_eq_true, if_false, Option.map_none,
        ite_self]
      exact grown.quiet rfl rfl rfl grown.running

theorem pumpStep_delivers {settings : Settings} (d : Delivered r start kept pieces h)
    (own : pump.redactor = r) (landed : failsRotation settings h pump = false) :
    Delivers r start (kept ++ pump.received.bytes) pieces (uploadedAt settings h pump)
      (droppedAt settings h pump) (pumpStep settings h pump) := by
  have nothing (noTail : tailAt settings h pump = none) (noRotation : rotationAt settings h pump = none)
      {after : Host} (same : after.held = h.held) (stored : after.store = h.store)
      (next : after.takeIndex.1 = h.takeIndex.1) (running : after.collector.finalized = false) :
      Delivers r start (kept ++ []) pieces (uploadedAt settings h pump) (droppedAt settings h pump)
        after := by
    simp only [uploadedAt, droppedAt, noTail, noRotation, Option.map_none, Option.or_self,
      Option.elim_none, ite_self, List.append_nil]
    exact d.quiet same stored next running
  unfold pumpStep Host.pumpOnce
  rw [if_neg (by rw [d.running]; exact Bool.false_ne_true)]
  cases got : pump.received with
  | refused => exact nothing (by rw [tailAt, got]) (by rw [rotationAt, got]) rfl rfl rfl d.running
  | dropped => exact nothing (by rw [tailAt, got]) (by rw [rotationAt, got]) rfl rfl rfl d.running
  | wouldBlock =>
    have opened : Delivered r start (kept ++ []) pieces h.openStream := by
      rw [List.append_nil]
      exact d.stays rfl rfl rfl d.running
    exact flushIfIdle_delivers settings opened own got
  | data chunk =>
    cases chunk with
    | nil =>
      exact nothing (by simp [tailAt, got]) (by simp [rotationAt, got]) rfl rfl rfl d.running
    | cons b chunk => exact maybeRotate_delivers d own got landed

end Steps

section Runs

variable {settings : Settings} {r : Redactor} {start : PartStore}

def Accounted (r : Redactor) (start : PartStore) (s : Host × Tally) : Prop :=
  ∃ pieces, pieces.map List.length = s.2.sent ∧ Delivered r start s.2.kept pieces s.1

theorem talliedStep_accounted {s : Host × Tally} {pump : Pump} (accounted : Accounted r start s)
    (own : pump.redactor = r) (landed : failsRotation settings s.1 pump = false) :
    Accounted r start (talliedStep settings s pump) := by
  obtain ⟨pieces, sizes, d⟩ := accounted
  obtain ⟨gained, added, after⟩ := pumpStep_delivers d own landed
  refine ⟨pieces ++ gained, ?_, ?_⟩
  · rw [List.map_append, sizes, added]
    rfl
  · rw [sizes] at after
    exact after

theorem run_accounted {pumps : List Pump} (own : ∀ pump ∈ pumps, pump.redactor = r) :
    ∀ {s : Host × Tally}, Accounted r start s →
      Trace.Along (talliedStep settings) (Unharmed settings r) s pumps →
      Accounted r start (Trace.run (talliedStep settings) s pumps) := by
  induction pumps with
  | nil => exact fun accounted _ => accounted
  | cons pump rest ih =>
    intro s accounted along
    have stepped := talliedStep_accounted accounted (own pump List.mem_cons_self) along.1.1
    exact ih (fun later member => own later (List.mem_cons_of_mem _ member)) stepped along.2

/-- The last step leaves only clear cuts behind it. -/
theorem run_clearCuts {pumps : List Pump} : ∀ {s : Host × Tally}, r.ClearCuts s.2.sent s.2.kept →
    Trace.Along (talliedStep settings) (Unharmed settings r) s pumps →
    r.ClearCuts (Trace.run (talliedStep settings) s pumps).2.sent
      (Trace.run (talliedStep settings) s pumps).2.kept := by
  induction pumps with
  | nil => exact fun clear _ => clear
  | cons pump rest ih => exact fun _ along => ih along.1.2 along.2

theorem run_fst (pumps : List Pump) (s : Host × Tally) :
    (Trace.run (talliedStep settings) s pumps).1 = Trace.run (pumpStep settings) s.1 pumps := by
  induction pumps generalizing s with
  | nil => rfl
  | cons pump rest ih => exact ih _

theorem kept_sublist (pumps : List Pump) (s : Host × Tally) :
    (Trace.run (talliedStep settings) s pumps).2.kept.Sublist (s.2.kept ++ streamOf pumps) := by
  induction pumps generalizing s with
  | nil => simp [streamOf]
  | cons pump rest ih =>
    have stepped : (s.2.next settings s.1 pump).kept.Sublist (s.2.kept ++ pump.received.bytes) := by
      unfold Tally.next
      dsimp only
      nth_rewrite 3 [← List.take_append_drop s.2.sent.sum (s.2.kept ++ pump.received.bytes)]
      refine List.Sublist.append_left ?_ _
      rw [← List.drop_drop]
      exact List.drop_sublist _ _
    have total : s.2.kept ++ streamOf (pump :: rest) =
        s.2.kept ++ pump.received.bytes ++ streamOf rest := by
      simp [streamOf]
    rw [Trace.run_cons, total]
    exact (ih _).trans (List.Sublist.append_right stepped _)

theorem kept_eq {pumps : List Pump} : ∀ {s : Host × Tally},
    Trace.Along (pumpStep settings) (fun h pump => droppedAt settings h pump = 0) s.1 pumps →
    (Trace.run (talliedStep settings) s pumps).2.kept = s.2.kept ++ streamOf pumps := by
  induction pumps with
  | nil =>
    intro s _
    simp [streamOf]
  | cons pump rest ih =>
    intro s along
    have stepped : (s.2.next settings s.1 pump).kept = s.2.kept ++ pump.received.bytes := by
      unfold Tally.next
      dsimp only
      rw [along.1]
      exact take_drop_zero _ _
    have later := ih (s := talliedStep settings s pump) along.2
    rw [Trace.run_cons, later]
    change (s.2.next settings s.1 pump).kept ++ streamOf rest = _
    rw [stepped]
    simp [streamOf]

def Host.resuming (store : PartStore) (now : Instant) : Host := ⟨Collector.new now, store⟩

theorem delivered_resuming (store : PartStore) (now : Instant) :
    Delivered r store [] [] (Host.resuming store now) where
  accounts := rfl
  parts := (List.append_nil _).symm
  index := rfl
  running := rfl

/-- As long as no size rotation fails and the parts are cut at clear places, nothing is lost. -/
theorem landed_rotations_lose_nothing {store : PartStore} {now : Instant} {pumps : List Pump}
    (own : ∀ pump ∈ pumps, pump.redactor = r)
    (unharmed : Trace.Along (talliedStep settings) (Unharmed settings r)
      (Host.resuming store now, {}) pumps) :
    NothingLost settings r (Host.resuming store now) pumps := by
  have accounted := run_accounted own ⟨[], rfl, delivered_resuming store now⟩ unharmed
  have clear := run_clearCuts (s := (Host.resuming store now, {})) trivial unharmed
  obtain ⟨pieces, sizes, d⟩ := accounted
  rw [← sizes, ← d.accounts] at clear
  refine ⟨run_fst pumps _, ⟨pieces.map r.redact, d.parts, ?_⟩, kept_sublist pumps _, fun undropped => ?_⟩
  · rw [← d.accounts, redact_pieces clear]
  · exact kept_eq (s := (Host.resuming store now, {})) undropped

end Runs

section Sample

def failingPump (chunk : String) : Pump := { chunkPump chunk with lands := false }

/-- The upload of the first rotation fails: its bytes are gone. -/
theorem failed_rotation_loses_bytes :
    ¬ ∀ (settings : Settings) (r : Redactor) (store : PartStore) (now : Instant) (pumps : List Pump),
      (∀ pump ∈ pumps, pump.redactor = r) →
      NothingLost settings r (Host.resuming store now) pumps := by
  intro claim
  obtain ⟨-, ⟨parts, stored, redacted⟩, -, whole⟩ := claim smallSettings
    consoleRedactor ⟨[], none⟩ 0 [failingPump "rootlogin hunter2 ok"]
    (fun pump member => by rw [List.mem_singleton.mp member]; rfl)
  have empty : parts = [] := by
    cases parts with
    | nil => rfl
    | cons first rest =>
      have none : ((Trace.run (talliedStep smallSettings) (Host.resuming ⟨[], none⟩ 0, {})
        [failingPump "rootlogin hunter2 ok"]).1.store.parts).length = 0 := by decide +kernel
      rw [stored] at none
      simp [numbered, Host.resuming] at none
  rw [empty] at redacted
  revert redacted
  decide +kernel

/-- The upload of a crash flush fails and is repeated with the next chunk. -/
theorem repeated_flush_loses_nothing :
    NothingLost smallSettings consoleRedactor (Host.resuming ⟨[(4, [])], none⟩ 0)
      [chunkPump "login ok and some more", failingPump "Oops:", chunkPump " rest"] :=
  landed_rotations_lose_nothing
    (fun pump member => by
      simp only [List.mem_cons, List.not_mem_nil, or_false] at member
      rcases member with rfl | rfl | rfl <;> rfl)
    (by decide +kernel)

end Sample

end Kdive.Console
