import Kdive.Console.Rotation
import Kdive.Lib.Trace

/-!
The `console_rotate` job of a local System. A job plans the rotation from the sidecar cursor and
the console log, puts the objects of the parts that have no row yet, registers their rows and only
then advances the cursor. Within one boot, a registered secret is in no part and across no two
parts, wherever the snapshots and the part boundaries fall.
-/
namespace Kdive.Console

abbrev PartKey := Nat × Nat

def SealedPart.key (part : SealedPart) : PartKey := (part.gen, part.index)

/-- The part objects of a System, the `artifacts` rows that register them and the sidecar. -/
structure Catalog where
  objects : PartKey → Option Bytes
  rows : List PartKey
  sidecar : Option RotationState

/-- What one job meets: its payload's boot, the redactor seeded from the registry, the console
log when it can be read, and whether the System is live at each of its two locked phases. -/
structure RotateJob where
  bootId : String
  redactor : Redactor
  liveAtPlan : Bool
  log : Option Bytes
  liveAtSeal : Bool

structure Plan where
  result : RotationResult
  pending : List SealedPart

namespace Catalog

def readSidecar (c : Catalog) : RotationState := c.sidecar.getD .zero

def writeSidecar (c : Catalog) (state : RotationState) : Catalog := { c with sidecar := some state }

def putPart (c : Catalog) (part : SealedPart) : Catalog :=
  { c with objects := Function.update c.objects part.key (some part.redacted) }

def claim (c : Catalog) (part : SealedPart) : Catalog :=
  if part.key ∈ c.rows then c else { c with rows := c.rows ++ [part.key] }

def discard (c : Catalog) (parts : List SealedPart) : Catalog :=
  { c with objects := fun key =>
      if key ∈ parts.map SealedPart.key ∧ key ∉ c.rows then none else c.objects key }

def sealedBytes (c : Catalog) (gen : Nat) : Bytes :=
  (((c.rows.filter (fun key => key.1 == gen)).map Prod.snd).insertionSort (· ≤ ·)).flatMap
    (fun index => (c.objects (gen, index)).getD [])

end Catalog

def planRotation (c : Catalog) (job : RotateJob) : Option Plan :=
  if job.liveAtPlan then
    job.log.map (fun file =>
      let result := rotate c.readSidecar file job.bootId job.redactor.redact
      ⟨result, result.parts.filter (fun part => decide (part.key ∉ c.rows))⟩)
  else none

def sealPending (c : Catalog) (plan : Plan) (live : Bool) : Catalog × Bool :=
  if plan.pending.isEmpty then (c, true)
  else
    let stored := plan.pending.foldl Catalog.putPart c
    if live then (plan.pending.foldl Catalog.claim stored, true)
    else (stored.discard plan.pending, false)

def consoleRotateHandler (c : Catalog) (job : RotateJob) : Catalog :=
  match planRotation c job with
  | none => c
  | some plan =>
    let done := sealPending c plan job.liveAtSeal
    if done.2 then done.1.writeSidecar plan.result.nextState else done.1

section Sealing

variable {gen : Nat}

def emitted (objects : PartKey → Option Bytes) (gen n : Nat) : Bytes :=
  (List.range n).flatMap (fun index => (objects (gen, index)).getD [])

def Numbered (rows : List PartKey) (gen n : Nat) : Prop :=
  (rows.filter (fun key => key.1 == gen)).map Prod.snd = List.range n

theorem sealedBytes_eq_emitted {c : Catalog} {n : Nat} (numbered : Numbered c.rows gen n) :
    c.sealedBytes gen = emitted c.objects gen n := by
  rw [Catalog.sealedBytes, numbered, List.Pairwise.insertionSort_eq List.pairwise_le_range]
  rfl

theorem not_mem_of_numbered {rows : List PartKey} {n i : Nat} (numbered : Numbered rows gen n)
    (beyond : n ≤ i) : (gen, i) ∉ rows := by
  intro isRow
  have isIndex : i ∈ (rows.filter (fun key => key.1 == gen)).map Prod.snd :=
    List.mem_map.mpr ⟨(gen, i), List.mem_filter.mpr ⟨isRow, by simp⟩, rfl⟩
  rw [numbered] at isIndex
  have := List.mem_range.mp isIndex
  omega

theorem emitted_congr {objects objects' : PartKey → Option Bytes} {n : Nat}
    (same : ∀ i < n, objects' (gen, i) = objects (gen, i)) :
    emitted objects' gen n = emitted objects gen n := by
  unfold emitted
  refine List.flatMap_congr ?_
  intro i inside
  rw [same i (List.mem_range.mp inside)]

/-- Putting numbered parts writes their keys and no others, and the objects read back in order
are the parts. -/
theorem foldl_putPart (gen : Nat) : ∀ (blobs : List Bytes) (c : Catalog) (n : Nat),
    ((numberParts gen n blobs).foldl Catalog.putPart c).rows = c.rows ∧
    ((numberParts gen n blobs).foldl Catalog.putPart c).sidecar = c.sidecar ∧
    (∀ key : PartKey, key.1 ≠ gen ∨ key.2 < n →
      ((numberParts gen n blobs).foldl Catalog.putPart c).objects key = c.objects key) ∧
    emitted ((numberParts gen n blobs).foldl Catalog.putPart c).objects gen (n + blobs.length)
      = emitted c.objects gen n ++ blobs.flatten := by
  intro blobs
  induction blobs with
  | nil =>
    intro c n
    simp [numberParts]
  | cons blob blobs ih =>
    intro c n
    obtain ⟨rows, sidecar, frame, bytes⟩ := ih (c.putPart ⟨gen, n, blob⟩) (n + 1)
    rw [numberParts, List.foldl_cons]
    refine ⟨rows, sidecar, ?_, ?_⟩
    · intro key outside
      have other : key ≠ (gen, n) := by
        rintro rfl
        rcases outside with bad | bad
        · exact bad rfl
        · exact lt_irrefl n bad
      rw [frame key (outside.imp_right (fun below => by omega))]
      exact Function.update_of_ne other _ _
    · have before : emitted (c.putPart ⟨gen, n, blob⟩).objects gen n = emitted c.objects gen n := by
        refine emitted_congr ?_
        intro i below
        refine Function.update_of_ne ?_ _ _
        intro same
        have : i = n := congrArg Prod.snd same
        omega
      have here : emitted (c.putPart ⟨gen, n, blob⟩).objects gen (n + 1)
          = emitted c.objects gen n ++ blob := by
        rw [emitted, List.range_succ, List.flatMap_append]
        change emitted (c.putPart ⟨gen, n, blob⟩).objects gen n ++ _ = _
        rw [before]
        simp [Catalog.putPart, SealedPart.key]
      rw [List.length_cons, show n + (blobs.length + 1) = n + 1 + blobs.length by omega, bytes, here,
        List.flatten_cons, List.append_assoc]

theorem foldl_claim : ∀ (blobs : List Bytes) (c : Catalog) (n : Nat), Numbered c.rows gen n →
    Numbered ((numberParts gen n blobs).foldl Catalog.claim c).rows gen (n + blobs.length) ∧
    ((numberParts gen n blobs).foldl Catalog.claim c).objects = c.objects := by
  intro blobs
  induction blobs with
  | nil =>
    intro c n numbered
    exact ⟨numbered, rfl⟩
  | cons blob blobs ih =>
    intro c n numbered
    have fresh : (gen, n) ∉ c.rows := not_mem_of_numbered numbered le_rfl
    have step : c.claim ⟨gen, n, blob⟩ = { c with rows := c.rows ++ [(gen, n)] } := by
      rw [Catalog.claim, SealedPart.key, if_neg fresh]
    have next : Numbered (c.rows ++ [(gen, n)]) gen (n + 1) := by
      rw [Numbered, List.filter_append, List.map_append, numbered, List.range_succ]
      simp
    rw [numberParts, List.foldl_cons, step, List.length_cons,
      show n + (blobs.length + 1) = n + 1 + blobs.length by omega]
    exact ih _ (n + 1) next

theorem key_of_mem_numberParts {part : SealedPart} : ∀ {blobs : List Bytes} {n : Nat},
    part ∈ numberParts gen n blobs → part.gen = gen ∧ n ≤ part.index := by
  intro blobs
  induction blobs with
  | nil => simp [numberParts]
  | cons blob blobs ih =>
    intro n isPart
    rcases List.mem_cons.mp isPart with rfl | later
    · exact ⟨rfl, le_rfl⟩
    · obtain ⟨same, after⟩ := ih later
      exact ⟨same, by omega⟩

theorem filter_numberParts {rows : List PartKey} {n : Nat} (numbered : Numbered rows gen n)
    (blobs : List Bytes) :
    (numberParts gen n blobs).filter (fun part => decide (part.key ∉ rows))
      = numberParts gen n blobs := by
  refine List.filter_eq_self.mpr ?_
  intro part isPart
  obtain ⟨rfl, after⟩ := key_of_mem_numberParts isPart
  exact decide_eq_true (not_mem_of_numbered numbered after)

end Sealing

section Boot

/-- The boot the catalog has not met yet: the sidecar is another boot's, and no part of the
generation this boot will get is registered. -/
structure NewBoot (boot : String) (gen : Nat) (c : Catalog) : Prop where
  other : c.readSidecar.bootId ≠ some boot
  generation : gen = if c.readSidecar.bootId.isSome then c.readSidecar.bootGen + 1
    else c.readSidecar.bootGen
  unregistered : ∀ key ∈ c.rows, key.1 ≠ gen

def Growing : Bytes → List RotateJob → Prop
  | _, [] => True
  | seen, job :: rest =>
    match job.log with
    | none => Growing seen rest
    | some file => seen <+: file ∧ Growing file rest

/-- Where the rotation of a boot stands once logs of `seen` bytes were read: the cursor a job
will start from, the parts registered so far, and the seam between them and the carry. -/
structure Cursor (boot : String) (gen : Nat) (secret : Bytes) (seen offset n : Nat) (carry : Bytes)
    (c : Catalog) : Prop where
  starts : ∀ file : Bytes, seen ≤ file.length →
    detectNewBoot c.readSidecar file boot = (gen, offset, carry, n)
  numbered : Numbered c.rows gen n
  seam : Seam (Utf8.toByte '[') secret (emitted c.objects gen n) carry
  ascii : Utf8.Ascii carry

variable {boot : String} {gen : Nat} {secret : Text}

theorem cursor_of_newBoot {c : Catalog} (fresh : NewBoot boot gen c) (someSecret : secret ≠ []) :
    Cursor boot gen (Utf8.encode secret) 0 0 0 [] c := by
  constructor
  · intro file _
    have isNew : some boot ≠ c.readSidecar.bootId := fun same => fresh.other same.symm
    rw [detectNewBoot, if_pos (.inl isNew), fresh.generation]
  · rw [Numbered, List.range_zero, List.map_eq_nil_iff, List.filter_eq_nil_iff]
    intro key isRow same
    exact fresh.unregistered key isRow (by simpa using same)
  · constructor
    · intro found
      have empty : secret <:+: [] := Utf8.infix_of_encode (by simpa [emitted] using found)
      exact someSecret (List.infix_nil.mp empty)
    · exact .inl rfl
  · intro b bad
    cases bad

theorem Cursor.mono {seen seen' offset n : Nat} {carry secret : Bytes} {c : Catalog}
    (cursor : Cursor boot gen secret seen offset n carry c) (grows : seen ≤ seen') :
    Cursor boot gen secret seen' offset n carry c :=
  ⟨fun file long => cursor.starts file (grows.trans long), cursor.numbered, cursor.seam,
    cursor.ascii⟩

theorem opening_not_mem_encode (noOpening : '[' ∉ secret) :
    Utf8.toByte '[' ∉ Utf8.encode secret := fun found =>
  noOpening (Utf8.mem_of_mem_encode (by decide +kernel) found)

theorem Cursor.drained {seen offset n : Nat} {carry more : Bytes} {c : Catalog} {r : Redactor}
    (cursor : Cursor boot gen (Utf8.encode secret) seen offset n carry c)
    (registered : secret ∈ r.secretValues) (unmarked : Unmarked secret)
    (short : (Utf8.encode secret).length ≤ seamOverlap) (asciiMore : Utf8.Ascii more) :
    let drained := SeamRotator.drainParts r.redact rotationThreshold seamOverlap (carry ++ more)
    Seam (Utf8.toByte '[') (Utf8.encode secret)
        (emitted c.objects gen n ++ drained.1.flatten) drained.2 ∧
      Utf8.Ascii drained.2 := by
  have ascii : Utf8.Ascii (carry ++ more) := by
    intro b isByte
    rcases List.mem_append.mp isByte with old | new
    · exact cursor.ascii b old
    · exact asciiMore b new
  constructor
  · exact cursor.seam.drainParts (r.redact_conceals ascii)
      (r.not_infix_redact registered unmarked (carry ++ more))
      (opening_not_mem_encode unmarked.noOpening) short
  · intro b isByte
    refine r.redact_ascii ascii b ?_
    rw [← drainParts_append r.redact rotationThreshold seamOverlap (carry ++ more)]
    exact List.mem_append_right _ isByte

theorem cursor_of_sidecar {file carry secret : Bytes} {n : Nat} {c : Catalog}
    (written : c.sidecar = some ⟨file.length, carry, n, gen, some boot⟩)
    (numbered : Numbered c.rows gen n)
    (seam : Seam (Utf8.toByte '[') secret (emitted c.objects gen n) carry)
    (ascii : Utf8.Ascii carry) :
    Cursor boot gen secret file.length file.length n carry c := by
  refine ⟨?_, numbered, seam, ascii⟩
  intro next long
  have same : ¬ (some boot ≠ some boot ∨ next.length < file.length) := by
    rintro (bad | bad)
    · exact bad rfl
    · omega
  rw [detectNewBoot, Catalog.readSidecar, written]
  exact if_neg same

/-- Objects that were put and then discarded leave the registered parts as they were. -/
theorem Cursor.discarded {seen offset n : Nat} {carry secret : Bytes} {c : Catalog}
    (cursor : Cursor boot gen secret seen offset n carry c) (blobs : List Bytes) :
    Cursor boot gen secret seen offset n carry
      (((numberParts gen n blobs).foldl Catalog.putPart c).discard (numberParts gen n blobs)) := by
  obtain ⟨rows, sidecar, frame, _⟩ := foldl_putPart gen blobs c n
  constructor
  · intro file long
    have same := cursor.starts file long
    rw [Catalog.readSidecar] at same ⊢
    rw [Catalog.discard, sidecar]
    exact same
  · rw [Catalog.discard, rows]
    exact cursor.numbered
  · have same : emitted (((numberParts gen n blobs).foldl Catalog.putPart c).discard
        (numberParts gen n blobs)).objects gen n = emitted c.objects gen n := by
      refine emitted_congr ?_
      intro i below
      have other : (gen, i) ∉ (numberParts gen n blobs).map SealedPart.key := by
        intro isKey
        obtain ⟨part, isPart, key⟩ := List.mem_map.mp isKey
        have after := (key_of_mem_numberParts isPart).2
        have : part.index = i := congrArg Prod.snd key
        omega
      rw [Catalog.discard]
      dsimp only
      rw [if_neg (fun both => other both.1), frame (gen, i) (.inr below)]
    rw [same]
    exact cursor.seam
  · exact cursor.ascii

/-- A job that reads a log at least as long as the last one moves the cursor of the boot, or
leaves it where it was. -/
theorem Cursor.step {seen offset n : Nat} {carry file : Bytes} {c : Catalog} {job : RotateJob}
    (cursor : Cursor boot gen (Utf8.encode secret) seen offset n carry c)
    (sameBoot : job.bootId = boot) (reads : job.log = some file) (grows : seen ≤ file.length)
    (registered : secret ∈ job.redactor.secretValues) (unmarked : Unmarked secret)
    (short : (Utf8.encode secret).length ≤ seamOverlap) (ascii : Utf8.Ascii file) :
    ∃ offset n carry, Cursor boot gen (Utf8.encode secret) file.length offset n carry
      (consoleRotateHandler c job) := by
  have asciiMore : Utf8.Ascii (file.drop offset) :=
    fun b isByte => ascii b (List.mem_of_mem_drop isByte)
  obtain ⟨seam, asciiCarry⟩ := cursor.drained registered unmarked short asciiMore
  revert seam asciiCarry
  cases isDrained : SeamRotator.drainParts job.redactor.redact rotationThreshold seamOverlap
    (carry ++ file.drop offset) with
  | mk blobs held =>
    intro seam asciiCarry
    dsimp only at seam asciiCarry
    have rotated : rotate c.readSidecar file job.bootId job.redactor.redact
        = ⟨numberParts gen n blobs, ⟨file.length, held, n + blobs.length, gen, some boot⟩⟩ := by
      rw [rotate, sameBoot, cursor.starts file grows]
      dsimp only
      rw [isDrained]
    rw [consoleRotateHandler, planRotation]
    cases live : job.liveAtPlan with
    | false => exact ⟨offset, n, carry, cursor.mono grows⟩
    | true =>
      rw [if_pos rfl, reads, Option.map_some, rotated]
      dsimp only
      rw [filter_numberParts cursor.numbered, sealPending]
      dsimp only
      obtain ⟨rows, _, _, bytes⟩ := foldl_putPart gen blobs c n
      split
      · -- no part is due: only the cursor moves
        rename_i none
        have noBlobs : blobs = [] := by
          cases blobs with
          | nil => rfl
          | cons blob blobs => simp [numberParts] at none
        subst noBlobs
        rw [List.flatten_nil, List.append_nil] at seam
        exact ⟨_, _, _, cursor_of_sidecar rfl cursor.numbered seam asciiCarry⟩
      · split
        · -- the rows are registered, then the cursor moves
          have numbered : Numbered ((numberParts gen n blobs).foldl Catalog.putPart c).rows gen n := by
            rw [rows]
            exact cursor.numbered
          obtain ⟨after, objects⟩ := foldl_claim blobs _ n numbered
          rw [← bytes] at seam
          refine ⟨_, _, _, cursor_of_sidecar rfl after ?_ asciiCarry⟩
          rw [Catalog.writeSidecar, objects]
          exact seam
        · exact ⟨offset, n, carry, (cursor.discarded blobs).mono grows⟩

theorem exists_cursor_run (unmarked : Unmarked secret)
    (short : (Utf8.encode secret).length ≤ seamOverlap) :
    ∀ {jobs : List RotateJob} {seen : Bytes} {offset n : Nat} {carry : Bytes} {c : Catalog},
      Cursor boot gen (Utf8.encode secret) seen.length offset n carry c →
      (∀ job ∈ jobs, job.bootId = boot) → Growing seen jobs →
      (∀ job ∈ jobs, ∀ file, job.log = some file → Utf8.Ascii file) →
      (∀ job ∈ jobs, secret ∈ job.redactor.secretValues) →
      ∃ seen offset n carry, Cursor boot gen (Utf8.encode secret) seen offset n carry
        (Trace.run consoleRotateHandler c jobs) := by
  intro jobs
  induction jobs with
  | nil =>
    intro seen offset n carry c cursor _ _ _ _
    exact ⟨_, _, _, _, cursor⟩
  | cons job rest ih =>
    intro seen offset n carry c cursor sameBoot growing ascii registered
    have later (other : RotateJob) (isLater : other ∈ rest) : other ∈ job :: rest :=
      List.mem_cons_of_mem job isLater
    rw [Trace.run_cons]
    cases reads : job.log with
    | none =>
      have idle : consoleRotateHandler c job = c := by
        rw [consoleRotateHandler, planRotation, reads]
        cases job.liveAtPlan <;> rfl
      rw [idle]
      simp only [Growing, reads] at growing
      exact ih cursor (fun other isLater => sameBoot other (later other isLater)) growing
        (fun other isLater => ascii other (later other isLater))
        (fun other isLater => registered other (later other isLater))
    | some file =>
      simp only [Growing, reads] at growing
      obtain ⟨offset, n, carry, moved⟩ := cursor.step (sameBoot job List.mem_cons_self) reads
        growing.1.length_le (registered job List.mem_cons_self) unmarked short
        (ascii job List.mem_cons_self file reads)
      exact ih moved (fun other isLater => sameBoot other (later other isLater)) growing.2
        (fun other isLater => ascii other (later other isLater))
        (fun other isLater => registered other (later other isLater))

/-- Whatever the jobs of one boot meet, a secret no longer than the overlap that every job finds
registered is nowhere in the parts they seal, read one after the other. -/
theorem sealed_parts_hide_secret {c : Catalog} {jobs : List RotateJob} (fresh : NewBoot boot gen c)
    (sameBoot : ∀ job ∈ jobs, job.bootId = boot) (growing : Growing [] jobs)
    (ascii : ∀ job ∈ jobs, ∀ file, job.log = some file → Utf8.Ascii file)
    (registered : ∀ job ∈ jobs, secret ∈ job.redactor.secretValues)
    (short : (Utf8.encode secret).length ≤ seamOverlap) (unmarked : Unmarked secret) :
    ¬ Utf8.encode secret <:+: (Trace.run consoleRotateHandler c jobs).sealedBytes gen := by
  have someSecret : secret ≠ [] := by
    rintro rfl
    exact unmarked.notMarker List.nil_infix
  have start : Cursor boot gen (Utf8.encode secret) ([] : Bytes).length 0 0 [] c :=
    cursor_of_newBoot fresh someSecret
  obtain ⟨_, _, n, carry, cursor⟩ :=
    exists_cursor_run unmarked short start sameBoot growing ascii registered
  rw [sealedBytes_eq_emitted cursor.numbered]
  intro found
  exact cursor.seam.clean (List.infix_append_of_infix_left found)

end Boot

section Straddling

def bootLog : Bytes := List.replicate 70000 (Utf8.toByte 'a') ++ Utf8.encode "hunt".toList

def hunterJob (file : Bytes) : RotateJob where
  bootId := "boot"
  redactor := Redactor.new Char.isAlphanum ["hunter2".toList] []
  liveAtPlan := true
  log := some file
  liveAtSeal := true

def straddlingJobs : List RotateJob :=
  [hunterJob bootLog, hunterJob (bootLog ++ Utf8.encode "er2 login".toList)]

theorem bootLog_ascii : Utf8.Ascii bootLog := by
  intro b isByte
  rcases List.mem_append.mp isByte with filler | word
  · rw [List.eq_of_mem_replicate filler]
    decide
  · exact Utf8.ascii_of_all (by decide +kernel) b word

theorem straddling_snapshots_hide_secret : ¬ Utf8.encode "hunter2".toList <:+:
    (Trace.run consoleRotateHandler ⟨fun _ => none, [], none⟩ straddlingJobs).sealedBytes 0 := by
  have fresh : NewBoot "boot" 0 ⟨fun _ => none, [], none⟩ := ⟨by decide +kernel, rfl, by simp⟩
  refine sealed_parts_hide_secret fresh ?_ ?_ ?_ ?_ (by decide +kernel)
    ⟨by decide +kernel, by decide +kernel, by decide +kernel⟩
  · simp [straddlingJobs, hunterJob]
  · exact ⟨List.nil_prefix, List.prefix_append _ _, trivial⟩
  · have longer : Utf8.Ascii (bootLog ++ Utf8.encode "er2 login".toList) := by
      intro b isByte
      rcases List.mem_append.mp isByte with old | new
      · exact bootLog_ascii b old
      · exact Utf8.ascii_of_all (by decide +kernel) b new
    intro job isJob file reads
    simp only [straddlingJobs, List.mem_cons, List.not_mem_nil, or_false] at isJob
    rcases isJob with rfl | rfl
    · obtain rfl := Option.some.inj reads
      exact bootLog_ascii
    · obtain rfl := Option.some.inj reads
      exact longer
  · intro job isJob
    simp only [straddlingJobs, List.mem_cons, List.not_mem_nil, or_false] at isJob
    rcases isJob with rfl | rfl <;> exact List.mem_filter.mpr ⟨List.mem_cons_self, by decide +kernel⟩

end Straddling

end Kdive.Console
