import Kdive.Console.Delivery

/-!
A crash marker in the bytes a collector has not uploaded. The collector looks for it in the bytes
received since the last rotation only, not in the tail that the rotation held back.
-/
namespace Kdive.Console

section Sealing

variable (settings : Settings)

def unsent (h : Host) (pump : Pump) : Bytes :=
  h.held ++ if h.collector.finalized then [] else pump.received.bytes

structure UploadsAll (h : Host) (pump : Pump) : Prop where
  stored : (pumpStep settings h pump).store =
    h.store.put h.takeIndex.1 (pump.redactor.redact (unsent h pump))
  emptied : (pumpStep settings h pump).held = []

def SealsMarker (h : Host) (pump : Pump) : Prop :=
  pump.lands = true → crashMarker.search (unsent h pump) = true → UploadsAll settings h pump

/-- A marker among the unsent bytes also stands in the bytes received since the last rotation, or
the console has been quiet for long enough. -/
def NoticesMarker (h : Host) (pump : Pump) : Prop :=
  pump.lands = true → crashMarker.search (unsent h pump) = true →
    h.collector.finalized = false ∧ match pump.received with
      | .data chunk => chunk ≠ [] ∧ crashMarker.search (h.collector.buffer ++ chunk) = true
      | .wouldBlock => h.isIdle settings pump.now = true
      | _ => False

end Sealing

section Steps

variable {settings : Settings} {h : Host} {pump : Pump}

theorem unsent_ne_nil (marked : crashMarker.search (unsent h pump) = true) : unsent h pump ≠ [] := by
  intro empty
  rw [empty] at marked
  exact absurd marked (by decide +kernel)

theorem flushTail_lands (lands : pump.lands = true) (filled : h.held ≠ []) :
    (h.flushTail settings pump).1.store =
        h.store.put h.takeIndex.1 (pump.redactor.redact h.held) ∧
      (h.flushTail settings pump).1.held = [] ∧ (h.flushTail settings pump).2 = false := by
  have some' : ¬ (h.collector.carry ++ h.collector.buffer).isEmpty = true := by
    simpa [Host.held] using filled
  rw [Host.flushTail]
  dsimp only
  rw [if_neg some', Host.putPart, if_pos lands, if_neg Bool.false_ne_true]
  exact ⟨rfl, rfl, rfl⟩

theorem not_uploadsAll (marked : crashMarker.search (unsent h pump) = true)
    (kept : (pumpStep settings h pump).held = unsent h pump) : ¬ UploadsAll settings h pump :=
  fun uploaded => unsent_ne_nil marked (kept.symm.trans uploaded.emptied)

def Uncarried (settings : Settings) (h : Host) : Prop :=
  settings.seamOverlap = 0 → h.collector.carry = []

theorem uncarried_flushTail (uncarried : Uncarried settings h) :
    Uncarried settings (h.flushTail settings pump).1 := by
  intro none
  have empty := uncarried none
  rw [Host.flushTail]
  dsimp only
  split
  · exact empty
  · split
    · rw [Host.trimRetained]
      dsimp only
      split
      · rfl
      · exact (congrArg Collector.carry (putPart_collector _ _)).trans empty
    · rfl

theorem uncarried_rotate : Uncarried settings (h.rotate settings pump).1 := by
  intro none
  have length := length_holdBack settings.seamOverlap (h.collector.carry ++ h.collector.buffer)
  rw [none, Nat.zero_min] at length
  have empty := List.length_eq_zero_iff.mp length
  rw [Host.rotate, none]
  dsimp only
  split
  · exact empty
  · exact (congrArg Collector.carry (putPart_collector _ _)).trans empty

theorem uncarried_pumpStep (settings : Settings) (h : Host) (pump : Pump)
    (uncarried : Uncarried settings h) : Uncarried settings (pumpStep settings h pump) := by
  rw [pumpStep, Host.pumpOnce]
  split
  · exact uncarried
  split
  · exact uncarried
  · exact uncarried
  · rw [Host.answer, Host.flushIfIdle]
    dsimp only
    split
    · have flushed := @uncarried_flushTail settings h.openStream pump uncarried
      split
      · exact flushed
      · exact flushed
    · exact uncarried
  · exact uncarried
  · rename_i chunk _ _
    rw [Host.answer, Host.maybeRotate]
    dsimp only
    split
    · exact @uncarried_flushTail settings (h.openStream.receive pump chunk) pump uncarried
    split
    · exact uncarried_rotate
    · exact uncarried

theorem sealsMarker_wouldBlock (running : h.collector.finalized = false)
    (got : pump.received = .wouldBlock) :
    SealsMarker settings h pump ↔ NoticesMarker settings h pump := by
  have same : unsent h pump = h.held := by
    rw [unsent, running, got]
    exact List.append_nil _
  have stepped : pumpStep settings h pump = (h.openStream.flushIfIdle settings pump).1 := by
    rw [pumpStep, Host.pumpOnce, if_neg (by simp [running]), got]
    rfl
  have onlyIdle : NoticesMarker settings h pump ↔ (pump.lands = true →
      crashMarker.search (unsent h pump) = true → h.isIdle settings pump.now = true) := by
    rw [NoticesMarker, got]
    simp [running]
  rw [onlyIdle, SealsMarker]
  refine forall_congr' fun lands => forall_congr' fun marked => ?_
  have filled : h.held ≠ [] := same ▸ unsent_ne_nil marked
  have idle : h.openStream.isIdle settings pump.now = h.isIdle settings pump.now := rfl
  constructor
  · intro uploaded
    by_contra quiet
    have kept : (pumpStep settings h pump).held = unsent h pump := by
      rw [stepped, Host.flushIfIdle, idle, if_neg quiet, same]
      rfl
    exact not_uploadsAll marked kept uploaded
  · intro quiet
    obtain ⟨stored, emptied, landed⟩ :=
      @flushTail_lands settings h.openStream pump lands filled
    have flushed : (h.openStream.flushIfIdle settings pump).1.store =
        (h.openStream.flushTail settings pump).1.store ∧
        (h.openStream.flushIfIdle settings pump).1.held =
          (h.openStream.flushTail settings pump).1.held := by
      rw [Host.flushIfIdle, idle, if_pos quiet]
      dsimp only
      rw [if_neg (by simp [landed])]
      exact ⟨rfl, rfl⟩
    refine ⟨?_, ?_⟩
    · rw [stepped, flushed.1, stored, same]
      rfl
    · rw [stepped, flushed.2, emptied]

theorem sealsMarker_data (uncarried : Uncarried settings h) (running : h.collector.finalized = false)
    {chunk : Bytes} (some' : chunk ≠ []) (got : pump.received = .data chunk) :
    SealsMarker settings h pump ↔ NoticesMarker settings h pump := by
  have same : unsent h pump = (h.openStream.receive pump chunk).held := by
    rw [unsent, running, got]
    exact List.append_assoc _ _ _
  have stepped : pumpStep settings h pump =
      ((h.openStream.receive pump chunk).maybeRotate settings pump).1 := by
    rw [pumpStep, Host.pumpOnce, if_neg (by simp [running]), got]
    obtain ⟨b, rest, rfl⟩ := List.exists_cons_of_ne_nil some'
    rfl
  have inBuffer : NoticesMarker settings h pump ↔ (pump.lands = true →
      crashMarker.search (unsent h pump) = true →
        crashMarker.search (h.collector.buffer ++ chunk) = true) := by
    rw [NoticesMarker, got]
    simp [running, some']
  rw [inBuffer, SealsMarker]
  refine forall_congr' fun lands => forall_congr' fun marked => ?_
  have filled : (h.openStream.receive pump chunk).held ≠ [] := same ▸ unsent_ne_nil marked
  constructor
  · intro uploaded
    by_contra missed
    have unseen : ¬ crashMarker.search (h.openStream.receive pump chunk).collector.buffer = true :=
      missed
    rw [Host.maybeRotate, if_neg unseen] at stepped
    split at stepped
    · -- a rotation that holds nothing back carried nothing either
      have emptied := uploaded.emptied
      rw [stepped, Host.held, List.append_eq_nil_iff] at emptied
      have none : settings.seamOverlap = 0 := by
        have length := length_holdBack settings.seamOverlap (h.openStream.receive pump chunk).held
        have cut : (holdBack settings.seamOverlap (h.openStream.receive pump chunk).held).2 = [] := by
          have carried := emptied.1
          rw [Host.rotate] at carried
          dsimp only at carried
          split at carried
          · exact carried
          · exact (congrArg Collector.carry (putPart_collector _ _)).symm.trans carried
        have long := List.length_pos_of_ne_nil filled
        rw [cut, List.length_nil] at length
        omega
      have all : unsent h pump = h.collector.buffer ++ chunk := by
        rw [same]
        change h.collector.carry ++ (h.collector.buffer ++ chunk) = _
        rw [uncarried none, List.nil_append]
      rw [all] at marked
      exact missed marked
    · have kept : (pumpStep settings h pump).held = unsent h pump := by
        rw [stepped, same]
      exact not_uploadsAll marked kept uploaded
  · intro seen
    have seen : crashMarker.search (h.openStream.receive pump chunk).collector.buffer = true := seen
    obtain ⟨stored, emptied, -⟩ :=
      @flushTail_lands settings (h.openStream.receive pump chunk) pump lands filled
    rw [Host.maybeRotate, if_pos seen] at stepped
    refine ⟨?_, ?_⟩
    · rw [stepped, stored, same]
      rfl
    · rw [stepped, emptied]

theorem sealsMarker_idle (kept : (pumpStep settings h pump).held = unsent h pump)
    (unnoticed : pump.lands = true → crashMarker.search (unsent h pump) = true →
      ¬ NoticesMarker settings h pump) :
    SealsMarker settings h pump ↔ NoticesMarker settings h pump := by
  constructor
  · intro seals lands marked
    exact absurd (seals lands marked) (not_uploadsAll marked kept)
  · intro notices lands marked
    exact absurd notices (unnoticed lands marked)

theorem sealsMarker_iff (uncarried : Uncarried settings h) (pump : Pump) :
    SealsMarker settings h pump ↔ NoticesMarker settings h pump := by
  cases running : h.collector.finalized with
  | true =>
    apply sealsMarker_idle
    · rw [pumpStep, Host.pumpOnce, if_pos running, unsent, if_pos running, List.append_nil]
    · intro lands marked notices
      exact absurd (running.symm.trans (notices lands marked).1) (by decide)
  | false =>
    have open' : ¬ h.collector.finalized = true := by simp [running]
    have unread (received : pump.received.bytes = []) : unsent h pump = h.held := by
      rw [unsent, if_neg open', received, List.append_nil]
    cases got : pump.received with
    | refused =>
      apply sealsMarker_idle
      · rw [unread (by rw [got]; rfl), pumpStep, Host.pumpOnce, if_neg open', got]
      · intro lands marked notices
        have there := (notices lands marked).2
        rwa [got] at there
    | dropped =>
      apply sealsMarker_idle
      · rw [unread (by rw [got]; rfl), pumpStep, Host.pumpOnce, if_neg open', got]
        rfl
      · intro lands marked notices
        have there := (notices lands marked).2
        rwa [got] at there
    | wouldBlock => exact sealsMarker_wouldBlock running got
    | data chunk =>
      cases chunk with
      | nil =>
        apply sealsMarker_idle
        · rw [unread (by rw [got]; rfl), pumpStep, Host.pumpOnce, if_neg open', got]
          rfl
        · intro lands marked notices
          have there := (notices lands marked).2
          rw [got] at there
          exact there.1 rfl
      | cons b rest => exact sealsMarker_data uncarried running (List.cons_ne_nil b rest) got

/-- Every pump of a run uploads a marker with everything it holds exactly when every pump of it
notices the marker. -/
theorem pumps_sealMarker_iff (settings : Settings) (now : Instant) (store : PartStore)
    (pumps : List Pump) :
    Trace.Along (pumpStep settings) (SealsMarker settings) ⟨Collector.new now, store⟩ pumps ↔
      Trace.Along (pumpStep settings) (NoticesMarker settings) ⟨Collector.new now, store⟩ pumps := by
  have start : Uncarried settings ⟨Collector.new now, store⟩ := fun _ => rfl
  have keeps := uncarried_pumpStep settings
  constructor
  · exact Trace.along_of_invariant (fun h pump uncarried _ => keeps h pump uncarried)
      (fun h pump uncarried seals => (sealsMarker_iff uncarried pump).mp seals) start
  · exact Trace.along_of_invariant (fun h pump uncarried _ => keeps h pump uncarried)
      (fun h pump uncarried notices => (sealsMarker_iff uncarried pump).mpr notices) start

def straddlingPumps : List Pump := [chunkPump "login: root Kernel ", chunkPump "panic"]

theorem straddling_marker_held :
    ¬ Trace.Along (pumpStep smallSettings) (SealsMarker smallSettings) (Host.start 0)
      straddlingPumps := by
  rintro ⟨-, second, -⟩
  have marked : crashMarker.search (unsent (pumpStep smallSettings (Host.start 0)
      (chunkPump "login: root Kernel ")) (chunkPump "panic")) = true := by decide +kernel
  have held : (pumpStep smallSettings (pumpStep smallSettings (Host.start 0)
      (chunkPump "login: root Kernel ")) (chunkPump "panic")).held ≠ [] := by decide +kernel
  exact held (second rfl marked).emptied

end Steps

end Kdive.Console
