import Kdive.Console.Redaction

/-!
The rotation core shared by the console paths: a growing console is cut into parts of a threshold
size, and every cut holds back an overlap that leads the next part. `rotate` redacts the whole
pending region before it cuts.
-/
namespace Kdive.Console

def rotationThreshold : Nat := 64 * 1024

def seamOverlap : Nat := 4 * 1024

def holdBack (overlap : Nat) (data : Bytes) : Bytes × Bytes :=
  if overlap < data.length then data.splitAt (data.length - overlap) else ([], data)

structure RotationState where
  plaintextOffset : Nat
  carry : Bytes
  nextIndex : Nat
  bootGen : Nat
  bootId : Option String

structure SealedPart where
  gen : Nat
  index : Nat
  redacted : Bytes

structure RotationResult where
  parts : List SealedPart
  nextState : RotationState

def RotationState.zero : RotationState := ⟨0, [], 0, 0, none⟩

namespace SeamRotator

/-- The loop of `drain_parts`: the emitted parts and the bytes left for the carry. Every turn
takes `threshold` bytes, so as many turns as there are bytes are enough for a positive one. -/
def drainLoop (threshold overlap : Nat) : Nat → Bytes → Bytes → List Bytes × Bytes
  | 0, held, work => ([], held ++ work)
  | turns + 1, held, work =>
    if threshold ≤ work.length then
      let cut := holdBack overlap (held ++ work.take threshold)
      let rest := drainLoop threshold overlap turns cut.2 (work.drop threshold)
      (if cut.1.isEmpty then rest.1 else cut.1 :: rest.1, rest.2)
    else ([], held ++ work)

def drainParts (redact : Bytes → Bytes) (threshold overlap : Nat) (pending : Bytes) :
    List Bytes × Bytes :=
  let work := redact pending
  drainLoop threshold overlap work.length [] work

end SeamRotator

def detectNewBoot (state : RotationState) (file : Bytes) (bootId : String) :
    Nat × Nat × Bytes × Nat :=
  if some bootId ≠ state.bootId ∨ file.length < state.plaintextOffset then
    (if state.bootId.isSome then state.bootGen + 1 else state.bootGen, 0, [], 0)
  else (state.bootGen, state.plaintextOffset, state.carry, state.nextIndex)

def numberParts (gen : Nat) : Nat → List Bytes → List SealedPart
  | _, [] => []
  | index, blob :: blobs => ⟨gen, index, blob⟩ :: numberParts gen (index + 1) blobs

def rotate (state : RotationState) (file : Bytes) (bootId : String) (redact : Bytes → Bytes) :
    RotationResult :=
  let (gen, offset, carry, index) := detectNewBoot state file bootId
  let (blobs, held) :=
    SeamRotator.drainParts redact rotationThreshold seamOverlap (carry ++ file.drop offset)
  { parts := numberParts gen index blobs
    nextState := ⟨file.length, held, index + blobs.length, gen, some bootId⟩ }

section Draining

variable {threshold overlap : Nat}

theorem holdBack_append (overlap : Nat) (data : Bytes) :
    (holdBack overlap data).1 ++ (holdBack overlap data).2 = data := by
  unfold holdBack
  split
  · simp [List.splitAt_eq]
  · rfl

theorem length_holdBack (overlap : Nat) (data : Bytes) :
    (holdBack overlap data).2.length = min overlap data.length := by
  unfold holdBack
  split
  · rw [List.splitAt_eq, List.length_drop]
    omega
  · dsimp only
    omega

theorem holdBack_eq_nil {data : Bytes} (short : data.length ≤ overlap) :
    (holdBack overlap data).1 = [] := by
  rw [holdBack, if_neg (Nat.not_lt.mpr short)]

theorem flatten_ite_cons (first : Bytes) (rest : List Bytes) :
    (if first.isEmpty then rest else first :: rest).flatten = first ++ rest.flatten := by
  cases first <;> simp

theorem drainLoop_append : ∀ turns (held work : Bytes),
    (SeamRotator.drainLoop threshold overlap turns held work).1.flatten ++
      (SeamRotator.drainLoop threshold overlap turns held work).2 = held ++ work := by
  intro turns
  induction turns with
  | zero =>
    intro held work
    rfl
  | succ turns ih =>
    intro held work
    rw [SeamRotator.drainLoop]
    split
    · dsimp only
      have rest := ih (holdBack overlap (held ++ work.take threshold)).2 (work.drop threshold)
      rw [flatten_ite_cons, List.append_assoc, rest, ← List.append_assoc, holdBack_append,
        List.append_assoc, List.take_append_drop]
    · rfl

theorem drainLoop_carry : ∀ turns (held work : Bytes),
    (SeamRotator.drainLoop threshold overlap turns held work).1 ≠ [] ∨ overlap ≤ held.length →
    overlap ≤ (SeamRotator.drainLoop threshold overlap turns held work).2.length := by
  intro turns
  induction turns with
  | zero =>
    rintro held work (emitted | long)
    · exact absurd rfl emitted
    · simp only [SeamRotator.drainLoop, List.length_append]
      omega
  | succ turns ih =>
    intro held work
    rw [SeamRotator.drainLoop]
    split
    · dsimp only
      intro either
      apply ih
      have size := length_holdBack overlap (held ++ work.take threshold)
      rcases Nat.lt_or_ge overlap (held ++ work.take threshold).length with long | short
      · right
        omega
      · rw [holdBack_eq_nil short] at either
        rcases either with emitted | long
        · exact .inl (by simpa using emitted)
        · right
          rw [List.length_append] at size
          omega
    · rintro (emitted | long)
      · exact absurd rfl emitted
      · rw [List.length_append]
        omega

theorem drainParts_append (redact : Bytes → Bytes) (threshold overlap : Nat) (pending : Bytes) :
    (SeamRotator.drainParts redact threshold overlap pending).1.flatten ++
      (SeamRotator.drainParts redact threshold overlap pending).2 = redact pending :=
  drainLoop_append _ _ _

theorem drainParts_carry (redact : Bytes → Bytes) (pending : Bytes)
    (emitted : (SeamRotator.drainParts redact threshold overlap pending).1 ≠ []) :
    overlap ≤ (SeamRotator.drainParts redact threshold overlap pending).2.length :=
  drainLoop_carry _ _ _ (.inl emitted)

end Draining

section Seam

/-- What holds of the bytes sealed so far and the carry: the secret is in neither nor across
them, and the carry still holds every byte that could complete it. -/
structure Seam (opening : UInt8) (secret emitted carry : Bytes) : Prop where
  clean : ¬ secret <:+: emitted ++ carry
  held : emitted = [] ∨ secret.length ≤ carry.length + 1 ∨ opening ∈ carry

theorem Seam.drainParts {opening closing : UInt8} {core secret emitted carry more : Bytes}
    {redact : Bytes → Bytes} {threshold overlap : Nat} (seam : Seam opening secret emitted carry)
    (conceals : Masking.Conceals opening closing core (carry ++ more) (redact (carry ++ more)))
    (gone : ¬ secret <:+: redact (carry ++ more)) (noOpening : opening ∉ secret)
    (short : secret.length ≤ overlap) :
    Seam opening secret
      (emitted ++ (SeamRotator.drainParts redact threshold overlap (carry ++ more)).1.flatten)
      (SeamRotator.drainParts redact threshold overlap (carry ++ more)).2 := by
  have whole := drainParts_append redact threshold overlap (carry ++ more)
  constructor
  · rw [List.append_assoc, whole]
    exact conceals.not_infix_append noOpening seam.clean gone seam.held
  · by_cases emits : (SeamRotator.drainParts redact threshold overlap (carry ++ more)).1 = []
    · rw [emits, List.flatten_nil, List.nil_append] at whole
      rw [emits, whole, List.flatten_nil, List.append_nil]
      rcases seam.held with none | long | bracket
      · exact .inl none
      · rcases conceals.touched with same | ⟨shown, _⟩
        · rw [same, List.length_append]
          exact .inr (.inl (by omega))
        · exact .inr (.inr shown)
      · rcases conceals.touched with same | ⟨shown, _⟩
        · rw [same]
          exact .inr (.inr (List.mem_append_left more bracket))
        · exact .inr (.inr shown)
    · have long := drainParts_carry redact (carry ++ more) emits
      exact .inr (.inl (by omega))

end Seam

end Kdive.Console
