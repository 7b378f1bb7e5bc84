import Kdive.Domain
import Kdive.Lib.Trace

/-!
The ledger row of one run step. It names no claimant, so whether a caller settles its own claim
depends on who has tried to claim the step meanwhile.
-/
namespace Kdive.Runs

inductive StepState where
  | running | succeeded
  deriving DecidableEq

structure StepRow (Result : Type) where
  state : StepState
  result : Option Result
  updatedAt : Instant

structure StepClaim (Result : Type) where
  claimed : Bool
  result : Option Result

def staleRunningInterval : Duration := 30 * 60 * 1000000

def stale (now since : Instant) : Bool := since < now - staleRunningInterval

variable {Result : Type}

/-- One pass of the claim's loop; without a claim the caller sleeps and tries again. -/
def claimRunStep (now : Instant) (row : Option (StepRow Result)) :
    Option (StepClaim Result) × Option (StepRow Result) :=
  match row.filter (fun r => !(r.state = .running && stale now r.updatedAt)) with
  | none => (some ⟨true, none⟩, some ⟨.running, none, now⟩)
  | some r =>
    match r.state with
    | .succeeded => (some ⟨false, r.result⟩, some r)
    | .running => (none, some r)

def completeRunStep (result : Result) (now : Instant) (row : Option (StepRow Result)) :
    Option (StepRow Result) :=
  (row.filter (fun r => r.state = .running)).map (fun _ => ⟨.succeeded, some result, now⟩)

def abandonRunStep (row : Option (StepRow Result)) : Option (StepRow Result) :=
  row.filter (fun r => r.state ≠ .running)

inductive StepCall (Result : Type) where
  | claim (caller : Uuid) (now : Instant)
  | complete (caller : Uuid) (result : Result) (now : Instant)
  | abandon (caller : Uuid)

/-- The row, and what the database does not hold: whose claim wrote the row last, and which callers
hold a claim since when. A claim ends when its caller settles, or when someone tries to claim the
step after it has gone stale. -/
structure Ledger (Result : Type) where
  row : Option (StepRow Result) := none
  claimant : Option Uuid := none
  held : List (Uuid × Instant) := []

def Ledger.step (w : Ledger Result) : StepCall Result → Ledger Result
  | .claim caller now =>
    let pass := claimRunStep now w.row
    let held := w.held.filter (fun c => !stale now c.2)
    if pass.1.any StepClaim.claimed then ⟨pass.2, some caller, (caller, now) :: held⟩
    else ⟨pass.2, w.claimant, held⟩
  | .complete caller result now =>
    ⟨(completeRunStep result now w.row).or w.row, w.claimant, w.held.filter (fun c => c.1 ≠ caller)⟩
  | .abandon caller => ⟨abandonRunStep w.row, w.claimant, w.held.filter (fun c => c.1 ≠ caller)⟩

def StepCall.settler : StepCall Result → Option Uuid
  | .claim _ _ => none
  | .complete caller _ _ | .abandon caller => some caller

def SettlesOwn (w : Ledger Result) (call : StepCall Result) : Prop :=
  ∀ caller ∈ call.settler, (∃ r ∈ w.row, r.state = .running) → w.claimant = some caller

def Timely (w : Ledger Result) (call : StepCall Result) : Prop :=
  ∀ caller ∈ call.settler, caller ∈ w.held.map Prod.fst ∨ w.held = []

def Ledger.Sound (w : Ledger Result) : Prop :=
  match w.row with
  | some ⟨.running, _, since⟩ => ∃ owner, w.claimant = some owner ∧ w.held = [(owner, since)]
  | _ => w.held = []

theorem Ledger.Sound.settles_iff {w : Ledger Result} (sound : w.Sound) (call : StepCall Result) :
    SettlesOwn w call ↔ Timely w call := by
  obtain ⟨row, claimant, held⟩ := w
  refine forall₂_congr fun caller _ => ?_
  match row, sound with
  | none, empty => exact iff_of_true nofun (.inr empty)
  | some ⟨.succeeded, _, _⟩, empty => exact iff_of_true (by simp) (.inr empty)
  | some ⟨.running, _, since⟩, ⟨owner, wrote, alone⟩ =>
    obtain ⟨rfl, rfl⟩ : claimant = some owner ∧ held = [(owner, since)] := ⟨wrote, alone⟩
    simp [eq_comm]

theorem Ledger.Sound.step {w : Ledger Result} (sound : w.Sound) (call : StepCall Result)
    (timely : Timely w call) : (w.step call).Sound := by
  have own := (sound.settles_iff call).mpr timely
  obtain ⟨row, claimant, held⟩ := w
  match row, sound with
  | none, empty =>
    obtain rfl : held = [] := empty
    cases call with
    | claim caller now => exact ⟨caller, rfl, rfl⟩
    | complete caller result now => rfl
    | abandon caller => rfl
  | some ⟨.succeeded, _, _⟩, empty =>
    obtain rfl : held = [] := empty
    cases call <;> rfl
  | some ⟨.running, stored, since⟩, ⟨owner, wrote, alone⟩ =>
    obtain ⟨rfl, rfl⟩ : claimant = some owner ∧ held = [(owner, since)] := ⟨wrote, alone⟩
    cases call with
    | claim caller now =>
      cases late : stale now since <;>
        simp [Ledger.step, Ledger.Sound, claimRunStep, Option.filter, late]
    | complete caller result now =>
      obtain rfl := Option.some.inj (own caller rfl ⟨_, rfl, rfl⟩)
      simp [Ledger.step, Ledger.Sound, completeRunStep, Option.filter]
    | abandon caller =>
      obtain rfl := Option.some.inj (own caller rfl ⟨_, rfl, rfl⟩)
      simp [Ledger.step, Ledger.Sound, abandonRunStep, Option.filter]

/-- In every history of passes and settlements of one step, whatever their clocks, each caller
settles only the claim it was granted, exactly when each settles while it still holds it. -/
theorem settles_own_iff_timely (calls : List (StepCall Result)) :
    Trace.Along Ledger.step SettlesOwn {} calls ↔ Trace.Along Ledger.step Timely {} calls := by
  have start : ({} : Ledger Result).Sound := rfl
  constructor
  · apply Trace.along_of_invariant (fun w call sound own => ?_) (fun w call sound => ?_) start
    · exact sound.step call ((sound.settles_iff call).mp own)
    · exact (sound.settles_iff call).mp
  · apply Trace.along_of_invariant (fun w call sound => sound.step call) (fun w call sound => ?_) start
    exact (sound.settles_iff call).mpr

/-- A caller that comes back after half an hour stores its result on the claim of another. -/
example :
    (Trace.run Ledger.step {} [.claim 1 0, .claim 2 (staleRunningInterval + 1),
      .complete 1 "late" (staleRunningInterval + 2)]).row.bind StepRow.result = some "late" := by
  decide

end Kdive.Runs
