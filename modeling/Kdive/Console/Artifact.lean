import Kdive.Console.Delivery
import Kdive.Console.Scrubbed

/-!
The console artifact: what `finalize` assembles of the parts and redacts once more is the redaction
of the stream that the collector received, and nothing that comes later changes it.
-/
namespace Kdive.Console

section Numbered

theorem numbered_snd (index : Nat) (parts : List Bytes) :
    (numbered index parts).flatMap Prod.snd = parts.flatten := by
  induction parts generalizing index with
  | nil => rfl
  | cons part rest ih => rw [numbered, List.flatMap_cons, ih, List.flatten_cons]

theorem numbered_ascending (index : Nat) (parts : List Bytes) :
    ((numbered index parts).map Prod.fst).Pairwise (· < ·) ∧
      ∀ i ∈ (numbered index parts).map Prod.fst, index ≤ i := by
  induction parts generalizing index with
  | nil => simp [numbered]
  | cons part rest ih =>
    obtain ⟨ascending, above⟩ := ih (index + 1)
    rw [numbered, List.map_cons, List.pairwise_cons]
    refine ⟨⟨fun i later => above i later, ascending⟩, fun i member => ?_⟩
    rcases List.mem_cons.mp member with rfl | later
    · exact Nat.le_refl _
    · exact Nat.le_of_succ_le (above i later)

end Numbered

section Finalized

variable {settings : Settings} {r : Redactor} {now : Instant} {pumps : List Pump} {last : Pump}
  {h : Host} {kept : Bytes} {pieces : List Bytes}

theorem redact_redact (unmarked : ∀ value ∈ r.secretValues, Unmarked value) (data : Bytes) :
    r.redact (r.redact data) = r.redact data := by
  rw [Redactor.redact, Redactor.redact, Utf8.decode_encode,
    r.redactText_redactText (Utf8.decode data) unmarked]

theorem redact_nil (r : Redactor) : r.redact [] = [] := by
  have clean : ∀ value ∈ r.secretValues, ¬ value <:+: ([] : Text) := by
    intro value registered inside
    exact r.nonempty value registered (List.infix_nil.mp inside)
  have masked := r.maskSecrets_eq_self [] clean
  have empty : Utf8.decode [] = [] := rfl
  rw [Redactor.redact, empty, Redactor.redactText, masked]
  rfl

theorem Delivered.assembled (d : Delivered r ⟨[], none⟩ kept pieces h) :
    h.store.assembled = (pieces.map r.redact).flatten := by
  have parts : h.store.parts = numbered 0 (pieces.map r.redact) := d.parts
  have ascending : h.store.listPartIndices.Pairwise (· < ·) := by
    rw [PartStore.listPartIndices, parts]
    exact (numbered_ascending _ _).1
  rw [assembled_eq_flatMap ascending, parts, numbered_snd]

/-- When the tail has been uploaded, all that was held is in the parts. -/
theorem flushTail_assembled (d : Delivered r ⟨[], none⟩ kept pieces h) (own : last.redactor = r)
    (lands : last.lands = true)
    (clear : r.ClearCuts (pieces.map List.length) (pieces.flatten ++ h.held)) :
    (h.flushTail settings last).2 = false ∧
      (h.flushTail settings last).1.store.assembled = r.redact kept := by
  have redacted := redact_pieces clear
  rw [d.accounts] at redacted
  by_cases empty : h.held = []
  · have nothing : h.flushTail settings last = (h, false) := if_pos (List.isEmpty_iff.mpr empty)
    rw [nothing, d.assembled, redacted, empty, redact_nil, List.append_nil]
    exact ⟨rfl, rfl⟩
  · have something : ¬ h.held.isEmpty = true := fun none => empty (List.isEmpty_iff.mp none)
    have flushed : h.flushTail settings last =
        (⟨{ h.collector with nextIndex := some (h.takeIndex.1 + 1), buffer := [], carry := [] },
          h.store.put h.takeIndex.1 (last.redactor.redact h.held)⟩, false) := by
      change (if h.held.isEmpty then _ else _) = _
      rw [if_neg something]
      unfold Host.putPart
      rw [if_pos lands]
      rfl
    have after : Delivered r ⟨[], none⟩ kept (pieces ++ [h.held]) (h.flushTail settings last).1 := by
      rw [flushed, own]
      exact d.uploads (List.append_nil _).symm rfl rfl d.running
    rw [after.assembled, flushed, redacted, List.map_append, List.flatten_append]
    exact ⟨rfl, congrArg _ (List.append_nil _)⟩

/-- A finalization whose upload lands writes the artifact and ends the collector. -/
theorem finalize_lands (running : h.collector.finalized = false)
    (landed : (h.dropStream.flushTail settings last).2 = false) :
    (h.finalize settings last).2 = false ∧
      (h.finalize settings last).1.store.artifact =
        some (last.redactor.redact (h.dropStream.flushTail settings last).1.store.assembled) ∧
      (h.finalize settings last).1.collector.finalized = true := by
  unfold Host.finalize
  rw [if_neg (by rw [running]; exact Bool.false_ne_true)]
  dsimp only
  rw [if_neg (by rw [landed]; exact Bool.false_ne_true)]
  exact ⟨rfl, rfl, rfl⟩

theorem finalized_stays (done : h.collector.finalized = true) (later : List Pump) (again : Pump) :
    (Trace.run (pumpStep settings) h later).finalize settings again = (h, false) := by
  have stays : Trace.run (pumpStep settings) h later = h := by
    induction later with
    | nil => rfl
    | cons pump rest ih =>
      have same : pumpStep settings h pump = h := by
        unfold pumpStep Host.pumpOnce
        rw [if_pos done]
      rw [Trace.run_cons, same, ih]
  rw [stays, Host.finalize, if_pos done]

/-- After a run that loses nothing, a finalization whose upload lands writes the redaction of what was
received and not dropped, and no later call changes it. -/
theorem artifact_is_redacted_stream (unmarked : ∀ value ∈ r.secretValues, Unmarked value)
    (own : ∀ pump ∈ pumps ++ [last], pump.redactor = r)
    (unharmed : Trace.Along (talliedStep settings) (Unharmed settings r) (Host.start now, {}) pumps)
    (lands : last.lands = true) :
    let done := (Trace.run (pumpStep settings) (Host.start now) pumps).finalize settings last
    let kept := (Trace.run (talliedStep settings) (Host.start now, {}) pumps).2.kept
    done.2 = false ∧ done.1.store.artifact = some (r.redact kept) ∧
      (Trace.Along (pumpStep settings) (fun h pump => droppedAt settings h pump = 0) (Host.start now)
        pumps → kept = streamOf pumps) ∧
      ∀ later again, (Trace.run (pumpStep settings) done.1 later).finalize settings again =
        (done.1, false) := by
  have ours : ∀ pump ∈ pumps, pump.redactor = r :=
    fun pump member => own pump (List.mem_append_left _ member)
  have mine : last.redactor = r := own last (List.mem_append_right _ (List.mem_singleton_self last))
  have start : Accounted r ⟨[], none⟩ (Host.start now, {}) :=
    ⟨[], rfl, delivered_resuming ⟨[], none⟩ now⟩
  obtain ⟨pieces, sizes, d⟩ := run_accounted ours start unharmed
  have clear := run_clearCuts (s := (Host.start now, {})) trivial unharmed
  rw [← sizes, ← d.accounts] at clear
  have closing : Delivered r ⟨[], none⟩ _ pieces
      (Trace.run (talliedStep settings) (Host.start now, {}) pumps).1.dropStream :=
    d.stays rfl rfl rfl d.running
  have flushed := @flushTail_assembled settings r last _ _ pieces closing mine lands clear
  rw [run_fst] at flushed
  have running : (Trace.run (pumpStep settings) (Host.start now) pumps).collector.finalized = false := by
    rw [← d.running, run_fst]
  obtain ⟨quiet, written, ended⟩ := finalize_lands running flushed.1
  refine ⟨quiet, ?_, fun undropped => ?_, finalized_stays ended⟩
  · rw [written, mine, flushed.2, redact_redact unmarked]
  · exact kept_eq (s := (Host.start now, {})) undropped

end Finalized

section Sample

/-- One rotation, a failed flush of a crash, and the flush of the rest. -/
theorem crashed_console_artifact :
    ((Trace.run (pumpStep smallSettings) (Host.start 0)
      [chunkPump "login: ok and some more", failingPump "Oops:", chunkPump " hunter2"]).finalize
        smallSettings (chunkPump "")).1.store.artifact =
      some (Utf8.encode "login: ok and some moreOops: [REDACTED]".toList) := by
  have unmarked : ∀ value ∈ consoleRedactor.secretValues, Unmarked value := by
    intro value registered
    obtain rfl := List.mem_singleton.mp registered
    constructor <;> decide +kernel
  have own : ∀ pump ∈ [chunkPump "login: ok and some more", failingPump "Oops:",
      chunkPump " hunter2"] ++ [chunkPump ""], pump.redactor = consoleRedactor := by
    intro pump member
    simp only [List.cons_append, List.nil_append, List.mem_cons, List.not_mem_nil, or_false] at member
    rcases member with rfl | rfl | rfl | rfl <;> rfl
  obtain ⟨-, written, -⟩ := @artifact_is_redacted_stream smallSettings consoleRedactor 0 _
    (chunkPump "") unmarked own (by decide +kernel) rfl
  rw [written]
  decide +kernel

end Sample

end Kdive.Console
