import Kdive.Capacity.Rounding

/-!
Lease renewal. The clamp converts the request to the bounded types of the standard library before
it compares it with the ceiling, so a request beyond them stops the renewal with an exception that
is no denial. Where the clamp answers, the spans that renewals bill for follow one another.
-/
namespace Kdive.Capacity
open Table Decimal

section Spans

/-- So many hours are a `timedelta`, and the time that far from the start is a `datetime`. -/
structure Reaches (start : Instant) (hours : ℚ) : Prop where
  days : |wholeSeconds hours / microsPerDay| ≤ maxDays
  lower : minInstant ≤ start + wholeSeconds hours
  upper : start + wholeSeconds hours ≤ maxInstant

theorem abs_wholeSeconds_le {hours : ℚ} (days : |wholeSeconds hours / microsPerDay| ≤ maxDays) :
    |wholeSeconds hours| ≤ 86400000000000000000 := by
  have scaled : ∀ d : Int, |d / 86400000000| ≤ 999999999 → |d| ≤ 86400000000000000000 := by
    intro d small
    rw [abs_le] at small ⊢
    omega
  exact scaled _ days

theorem abs_decimal_lt {hours : ℚ} (days : |wholeSeconds hours / microsPerDay| ≤ maxDays) :
    |decimal (hours * secondsPerHour)| < 10 ^ 14 := by
  have whole := abs_wholeSeconds_le days
  simp only [wholeSeconds] at whole
  generalize decimal (hours * secondsPerHour) = s at whole ⊢
  rw [abs_le] at whole
  rw [abs_lt]
  split at whole
  · rename_i nonneg
    have high := Int.lt_floor_add_one s
    have few : ∀ n : Int, n * 1000000 ≤ 86400000000000000000 → n ≤ 86400000000000 := by omega
    have bound : (⌊s⌋ : ℚ) ≤ 86400000000000 := by
      exact_mod_cast few _ whole.2
    constructor <;> norm_num <;> linarith
  · rename_i negative
    have low := Int.ceil_lt_add_one s
    have few : ∀ n : Int, -86400000000000000000 ≤ n * 1000000 → -86400000000000 ≤ n := by omega
    have bound : (-86400000000000 : ℚ) ≤ ⌈s⌉ := by
      exact_mod_cast few _ whole.1
    constructor <;> norm_num <;> linarith

theorem leaseSpan_eq {hours : ℚ} (days : |wholeSeconds hours / microsPerDay| ≤ maxDays) :
    leaseSpan hours = .ok (wholeSeconds hours) := by
  have small := abs_decimal_lt days
  have large : (10 : ℚ) ^ 14 ≤ 10 ^ (maxExponent + 1) :=
    pow_le_pow_right₀ (by norm_num) (by decide)
  unfold leaseSpan
  rw [if_neg (not_le.2 (small.trans_le large)), if_pos days]

/-- A step of the clamp succeeds where the types hold its result, and fails with an overflow
elsewhere. -/
theorem addSpan_leaseSpan (start : Instant) (hours : ℚ) :
    (Reaches start hours ∧ (leaseSpan hours).bind (addSpan start) = .ok (start + wholeSeconds hours)) ∨
    (¬ Reaches start hours ∧ ∃ e, (leaseSpan hours).bind (addSpan start) = .error e ∧
      e.category = none) := by
  by_cases days : |wholeSeconds hours / microsPerDay| ≤ maxDays
  · rw [leaseSpan_eq days]
    show (_ ∧ addSpan start _ = _) ∨ (_ ∧ ∃ e, addSpan start _ = _ ∧ _)
    unfold addSpan
    split
    · rename_i range
      exact .inl ⟨⟨days, range.1, range.2⟩, rfl⟩
    · rename_i range
      exact .inr ⟨fun reaches => range ⟨reaches.lower, reaches.upper⟩, .overflow, rfl, rfl⟩
  · right
    refine ⟨fun reaches => days reaches.days, ?_⟩
    unfold leaseSpan
    rw [if_neg days]
    split
    · exact ⟨.decimalOverflow, rfl, rfl⟩
    · exact ⟨.overflow, rfl, rfl⟩

theorem clamp_eq (currentExpiry : Instant) (requested : ℚ) (now : Instant) (bounds : LeaseBounds) :
    clampExtensionHours currentExpiry requested now bounds =
      ((leaseSpan bounds.maxHours).bind (addSpan now)).bind (fun ceiling =>
        ((leaseSpan requested).bind (addSpan currentExpiry)).bind (fun target =>
          .ok (clampTo currentExpiry now target ceiling))) := by
  unfold clampExtensionHours
  cases leaseSpan bounds.maxHours with
  | error e => rfl
  | ok d =>
    show (addSpan now d).bind _ = (addSpan now d).bind _
    cases addSpan now d with
    | error e => rfl
    | ok ceiling =>
      show (leaseSpan requested).bind _ = ((leaseSpan requested).bind _).bind _
      cases leaseSpan requested <;> rfl

/-- The clamp answers where both of its times are times, and raises no denial elsewhere. -/
theorem clamp_cases (currentExpiry : Instant) (requested : ℚ) (now : Instant)
    (bounds : LeaseBounds) :
    (Reaches now bounds.maxHours ∧ Reaches currentExpiry requested ∧
      clampExtensionHours currentExpiry requested now bounds =
        .ok (clampTo currentExpiry now (currentExpiry + wholeSeconds requested)
          (now + wholeSeconds bounds.maxHours))) ∨
    (¬ (Reaches now bounds.maxHours ∧ Reaches currentExpiry requested) ∧ ∃ e,
      clampExtensionHours currentExpiry requested now bounds = .error e ∧ e.category = none) := by
  rw [clamp_eq]
  rcases addSpan_leaseSpan now bounds.maxHours with ⟨first, ceiling⟩ | ⟨first, e, raised, plain⟩
  · rw [ceiling]
    rcases addSpan_leaseSpan currentExpiry requested with ⟨second, target⟩ | ⟨second, e, raised, plain⟩
    · rw [target]
      exact .inl ⟨first, second, rfl⟩
    · rw [raised]
      exact .inr ⟨fun both => second both.2, e, rfl, plain⟩
  · rw [raised]
    exact .inr ⟨fun both => first both.1, e, rfl, plain⟩

end Spans

section Clamped

variable {currentExpiry now target ceiling : Instant}

def secondsBetween (start stop : Instant) : ℚ := ((stop - start : Duration) : ℚ) / 1000000

theorem totalSeconds_near (d : Duration) :
    Near (1 / 2 ^ 53) ((d : ℚ) / 1000000) (totalSeconds d) := by
  refine (significant_near (by norm_num) 53 _).mono ?_
  norm_num

theorem addedHours_near (d : Duration) :
    Near (1 / 2 ^ 53 + 1 / 10 ^ 27) ((d : ℚ) / 1000000)
      (decimal (totalSeconds d / secondsPerHour) * secondsPerHour) := by
  have seconds := (totalSeconds_near d).mul_right secondsPerHour⁻¹
  have hours := seconds.trans contextError_nonneg (decimal_near _)
  simp only [← div_eq_mul_inv] at hours
  have back := hours.mul_right secondsPerHour
  rw [div_mul_cancel₀ _ (by norm_num [secondsPerHour])] at back
  exact back.mono (by norm_num [contextError, precision])

theorem addedHours_exact {d : Duration} {k : Int} (nines : d = 9000000 * k)
    (few : |d| ≤ 86400000000000000000) :
    decimal (totalSeconds d / secondsPerHour) * secondsPerHour = (d : ℚ) / 1000000 := by
  have range : ∀ d k : Int, d = 9000000 * k → |d| ≤ 86400000000000000000 →
      |9 * k| < 2 ^ 53 ∧ |25 * k| < 10 ^ 28 := by
    intro d k same small
    rw [abs_le] at small
    rw [abs_lt, abs_lt]
    omega
  obtain ⟨double, digits⟩ := range d k nines few
  have seconds : totalSeconds d = 9 * k := by
    have whole : (d : ℚ) / 1000000 = ((9 * k : ℤ) : ℚ) * ((2 : ℕ) : ℚ) ^ (0 : ℤ) := by
      rw [nines]
      push_cast
      ring
    rw [totalSeconds, whole, significant_exact (by norm_num) 53 (9 * k) 0 (by simpa using double)]
    push_cast
    ring
  have hours : totalSeconds d / secondsPerHour =
      ((25 * k : ℤ) : ℚ) * ((10 : ℕ) : ℚ) ^ (-4 : ℤ) := by
    rw [seconds, secondsPerHour]
    push_cast
    norm_num
    ring
  rw [decimal, hours, significant_exact (by norm_num) precision (25 * k) (-4)
    (by simpa [precision] using digits), ← hours, seconds, nines, secondsPerHour]
  push_cast
  ring

/-- Either nothing is added and the lease stands, or the lease ends later than both the time and
its former end. -/
theorem clampTo_cases (currentExpiry now target ceiling : Instant) :
    (clampTo currentExpiry now target ceiling = ⟨0, currentExpiry⟩ ∧
      min target ceiling ≤ max now currentExpiry) ∨
    ((clampTo currentExpiry now target ceiling).newExpiry = min target ceiling ∧
      max now currentExpiry < min target ceiling ∧
      (clampTo currentExpiry now target ceiling).addedHours = decimal
        (totalSeconds (min target ceiling - max now currentExpiry) / secondsPerHour) ∧
      0 < (clampTo currentExpiry now target ceiling).addedHours) := by
  unfold clampTo
  dsimp only
  split
  · rename_i late
    exact .inl ⟨rfl, late⟩
  · rename_i early
    right
    refine ⟨rfl, not_le.1 early, rfl, ?_⟩
    have long : (0 : ℚ) < ((min target ceiling - max now currentExpiry : Int) : ℚ) / 1000000 := by
      have : (0 : Int) < min target ceiling - max now currentExpiry := sub_pos.2 (not_le.1 early)
      have : (0 : ℚ) < ((min target ceiling - max now currentExpiry : Int) : ℚ) := by
        exact_mod_cast this
      positivity
    have scaled := (addedHours_near _).pos (by norm_num) long
    exact (mul_pos_iff_of_pos_right (by norm_num [secondsPerHour])).1 scaled

end Clamped

section Renewals

structure RenewCall where
  bounds : LeaseBounds
  ctx : RequestContext
  now : Instant
  extend : WindowInput
  key : Option String

def RenewCall.program (call : RenewCall) (id : Uuid) : AllocTxn RenewOutcome :=
  renew call.bounds call.ctx call.now id call.extend call.key

def leaseOf (db : AllocDb) (id : Uuid) : Option Instant :=
  (find db.allocations id).bind Allocation.leaseExpiry

/-- The time a committed call bills for: from the later of the call and the former end of the lease
to its new end. -/
def billedSpan (now : Instant) : Option Instant → Option Instant → Option (Instant × Instant)
  | some before, some after => if before = after then none else some (max now before, after)
  | _, _ => none

def afterCall (id : Uuid) (db : AllocDb) (call : RenewCall) : AllocDb :=
  Txn.commit (call.program id) db

def billedSpans (id : Uuid) : AllocDb → List RenewCall → List (Instant × Instant)
  | _, [] => []
  | db, call :: rest =>
    (billedSpan call.now (leaseOf db id) (leaseOf (afterCall id db call) id)).toList ++
      billedSpans id (afterCall id db call) rest

def afterCalls (id : Uuid) (db : AllocDb) (calls : List RenewCall) : AllocDb :=
  calls.foldl (afterCall id) db

def SameAllocations (s t : AllocDb) : Prop := t.allocations = s.allocations

instance : Std.Refl SameAllocations := ⟨fun _ => rfl⟩

instance : IsTrans AllocDb SameAllocations := ⟨fun _ _ _ first second => second.trans first⟩

theorem same_writeDelta (a : Allocation) (event : LedgerEventType) (delta : ℚ) :
    Txn.Keeps SameAllocations (writeDelta a event delta) := by
  refine Txn.keeps_bind (Txn.keeps_reads (reads_costClassOf a)) fun costClass => ?_
  refine Txn.keeps_bind (Txn.keeps_modify fun _ => rfl) fun _ => ?_
  refine Txn.keeps_bind Txn.keeps_get fun db => ?_
  split
  · exact Txn.keeps_throw _
  · exact Txn.keeps_modify fun _ => rfl

theorem same_recordKeyIfSent (principal : String) (key : Option String) (project kind : String)
    (id : Uuid) : Txn.Keeps SameAllocations (recordKeyIfSent principal key project kind id) := by
  cases key with
  | none => exact Txn.keeps_pure _
  | some k =>
    refine Txn.keeps_bind (Txn.keeps_acquire _) fun _ => ?_
    refine Txn.keeps_bind Txn.keeps_get fun db => ?_
    split
    · exact Txn.keeps_throw _
    · exact Txn.keeps_modify fun _ => rfl

theorem same_record (ctx : RequestContext) (project tool : String) (id : Uuid)
    (transition : Transition) : Txn.Keeps SameAllocations (record ctx project tool id transition) := by
  unfold record
  split
  · exact Txn.keeps_modify fun _ => rfl
  · exact Txn.keeps_throw _

theorem leaseOf_applyRenew {ctx : RequestContext} {a : Allocation} {extension : LeaseExtension}
    {estimate : ℚ} {key : Option String} {db t : AllocDb} {outcome : RenewOutcome}
    (found : find db.allocations a.id = some a)
    (ran : Txn.exec (applyRenew ctx a extension estimate key) db = .ok (outcome, t)) :
    leaseOf t a.id = some extension.newExpiry := by
  obtain ⟨_, s, updated, ran⟩ := Txn.exec_bind_ok ran
  have rest : Txn.Keeps SameAllocations (do
      reserve (a.extendTo extension.newExpiry) estimate
      recordKeyIfSent ctx.principal key a.project renewKind a.id
      record ctx a.project "allocations.renew" a.id (.renewed extension.addedHours)
      pure (RenewOutcome.renewed (a.extendTo extension.newExpiry))) := by
    refine Txn.keeps_bind (Txn.keeps_bind (Txn.keeps_reads (reads_liftExcept _)) fun _ =>
      same_writeDelta _ _ _) fun _ => ?_
    refine Txn.keeps_bind (same_recordKeyIfSent _ _ _ _ _) fun _ => ?_
    exact Txn.keeps_bind (same_record _ _ _ _ _) fun _ => Txn.keeps_pure _
  have same : t.allocations = s.allocations := rest s outcome t ran
  cases updated
  rw [leaseOf, same]
  simp [AllocDb.updateAllocation, AllocDb.updateAllocations, found, Allocation.extendTo]

theorem exec_getAllocation {id : Uuid} {db t : AllocDb} {found : Option Allocation}
    (ran : Txn.exec (getAllocation id) db = .ok (found, t)) :
    found = find db.allocations id ∧ t = db := by
  cases ran
  exact ⟨rfl, rfl⟩

theorem exec_reads_same {α : Type} {p : AllocTxn α} (reads : Txn.Reads p) {db t : AllocDb}
    {answer : α} (ran : Txn.exec p db = .ok (answer, t)) : t = db :=
  (@Txn.keeps_reads AllocDb LockScope AllocError α Eq _ p reads db answer t ran).symm

theorem leaseOf_afterCall (id : Uuid) (db : AllocDb) (call : RenewCall) :
    leaseOf (afterCall id db call) id = leaseOf db id ∨ ∃ expiry hours extension,
      leaseOf db id = some expiry ∧
      clampExtensionHours expiry hours call.now call.bounds = .ok extension ∧
      0 < extension.addedHours ∧ leaseOf (afterCall id db call) id = some extension.newExpiry := by
  unfold afterCall Txn.commit
  cases whole : Txn.exec (call.program id) db with
  | error e => exact .inl rfl
  | ok result =>
    obtain ⟨outcome, t⟩ := result
    show leaseOf t id = _ ∨ _
    obtain ⟨hours, s₁, accepted, ran⟩ := Txn.exec_bind_ok whole
    have same₁ := exec_reads_same (reads_liftExcept _) accepted
    obtain ⟨found, s₂, first, ran⟩ := Txn.exec_bind_ok ran
    obtain ⟨rfl, same₂⟩ := exec_getAllocation first
    rw [same₁] at same₂ ran
    rw [same₂] at ran
    cases present : find db.allocations id with
    | none =>
      simp only [present, pure, Txn.exec, Except.ok.injEq, Prod.mk.injEq] at ran
      exact .inl (by rw [← ran.2])
    | some a =>
      simp only [present] at ran
      obtain ⟨_, s₃, locked, ran⟩ := Txn.exec_bind_ok ran
      cases locked
      obtain ⟨replay, s₄, replayed, ran⟩ := Txn.exec_bind_ok ran
      rw [exec_reads_same (reads_replayIfSent _ _ _) replayed] at ran
      cases replay with
      | some stored =>
        left
        dsimp only at ran
        split at ran <;> cases ran <;> rfl
      | none =>
        obtain ⟨again, s₅, second, ran⟩ := Txn.exec_bind_ok ran
        obtain ⟨rfl, same₅⟩ := exec_getAllocation second
        rw [same₅] at ran
        simp only [present] at ran
        split at ran
        · cases ran
          exact .inl rfl
        · split at ran
          · cases ran
            exact .inl rfl
          · rename_i expiry leased
            obtain ⟨extension, s₆, clamped, ran⟩ := Txn.exec_bind_ok ran
            rw [exec_reads_same (reads_liftExcept _) clamped] at ran
            have answer : clampExtensionHours expiry hours call.now call.bounds =
                .ok extension := by
              cases outcome : clampExtensionHours expiry hours call.now call.bounds with
              | error e =>
                rw [outcome] at clamped
                cases clamped
              | ok value =>
                rw [outcome] at clamped
                cases clamped
                rfl
            split at ran
            · cases ran
              exact .inl rfl
            · rename_i added
              obtain ⟨estimate, s₇, priced, ran⟩ := Txn.exec_bind_ok ran
              rw [exec_reads_same (reads_extensionEstimate _ _) priced] at ran
              obtain ⟨within, s₈, checked, ran⟩ := Txn.exec_bind_ok ran
              rw [exec_reads_same (reads_withinBudget _ _) checked] at ran
              split at ran
              · cases ran
                exact .inl rfl
              · right
                have key : a.id = id := find_key present
                refine ⟨expiry, hours, extension, ?_, answer, not_le.1 added, ?_⟩
                · rw [leaseOf, present]
                  exact leased
                · rw [← key] at present ⊢
                  exact leaseOf_applyRenew present ran

/-- What an answer of the clamp promises. Hours are billed up to the rounding of the seconds to a
double and of the hours to the digits of the context, and exactly where the span is a multiple of
nine seconds. -/
structure Extended (currentExpiry now : Instant) (bounds : LeaseBounds)
    (extension : LeaseExtension) : Prop where
  notEarlier : currentExpiry ≤ extension.newExpiry
  notLater : extension.newExpiry ≤ max currentExpiry (now + wholeSeconds bounds.maxHours)
  unchanged : extension.addedHours = 0 → extension.newExpiry = currentExpiry
  billed : extension.addedHours ≠ 0 → 0 < extension.addedHours ∧
    max now currentExpiry < extension.newExpiry ∧
    Near (1 / 2 ^ 53 + 1 / 10 ^ 27)
      (secondsBetween (max now currentExpiry) extension.newExpiry)
      (extension.addedHours * secondsPerHour)
  nines : ∀ k : Int, extension.addedHours ≠ 0 →
    extension.newExpiry - max now currentExpiry = 9000000 * k →
    extension.addedHours * secondsPerHour =
      secondsBetween (max now currentExpiry) extension.newExpiry

theorem extended_clampTo {currentExpiry now target : Instant} {bounds : LeaseBounds}
    (reaches : Reaches now bounds.maxHours) :
    Extended currentExpiry now bounds
      (clampTo currentExpiry now target (now + wholeSeconds bounds.maxHours)) := by
  set ceiling : Instant := now + wholeSeconds bounds.maxHours with ceiling_eq
  rcases clampTo_cases currentExpiry now target ceiling with
    ⟨same, _⟩ | ⟨ends, late, hours, positive⟩
  · rw [same]
    exact ⟨le_rfl, le_max_left _ _, fun _ => rfl, fun added => absurd rfl added,
      fun _ added => absurd rfl added⟩
  · have base := max_lt_iff.1 late
    refine ⟨?_, ?_, ?_, ?_, ?_⟩
    · rw [ends]
      exact base.2.le
    · rw [ends]
      exact (min_le_right _ _).trans (le_max_right _ _)
    · intro zero
      exact absurd zero positive.ne'
    · intro _
      rw [ends, hours]
      rw [hours] at positive
      exact ⟨positive, late, addedHours_near _⟩
    · intro k _ multiple
      rw [ends] at multiple ⊢
      rw [hours]
      refine addedHours_exact multiple ?_
      have short : ∀ w : Int, |w| ≤ 86400000000000000000 → ceiling = now + w →
          |min target ceiling - max now currentExpiry| ≤ 86400000000000000000 := by
        intro w small same
        have upper := min_le_right target ceiling
        have lower := le_max_left now currentExpiry
        rw [abs_le] at small ⊢
        constructor <;> linarith
      exact short _ (abs_wholeSeconds_le reaches.days) ceiling_eq

/-- A committed call keeps the lease or moves its end behind the later of the call and the former
end. -/
theorem leaseOf_afterCall_later (id : Uuid) (db : AllocDb) (call : RenewCall) :
    leaseOf (afterCall id db call) id = leaseOf db id ∨ ∃ before after,
      leaseOf db id = some before ∧ leaseOf (afterCall id db call) id = some after ∧
      max call.now before < after := by
  rcases leaseOf_afterCall id db call with same | ⟨expiry, hours, extension, leased, clamped, added, moved⟩
  · exact .inl same
  · right
    refine ⟨expiry, extension.newExpiry, leased, moved, ?_⟩
    rcases clamp_cases expiry hours call.now call.bounds with ⟨reaches, _, answer⟩ | ⟨_, e, raised, _⟩
    · rw [answer] at clamped
      obtain rfl := Except.ok.inj clamped
      exact ((extended_clampTo reaches).billed added.ne').2.1
    · rw [raised] at clamped
      cases clamped

theorem leaseOf_afterCalls (id : Uuid) (calls : List RenewCall) : ∀ {db : AllocDb} {start : Instant},
    leaseOf db id = some start →
    ∃ stop, leaseOf (afterCalls id db calls) id = some stop ∧ start ≤ stop := by
  induction calls with
  | nil =>
    intro db start leased
    exact ⟨start, leased, le_rfl⟩
  | cons call rest ih =>
    intro db start leased
    rcases leaseOf_afterCall_later id db call with same | ⟨before, after, was, is, later⟩
    · exact ih (same.trans leased)
    · rw [leased] at was
      obtain rfl := Option.some.inj was
      obtain ⟨stop, ends, order⟩ := ih is
      exact ⟨stop, ends, ((max_lt_iff.1 later).2.trans_le order).le⟩

theorem billedSpans_within (id : Uuid) (calls : List RenewCall) : ∀ (db : AllocDb),
    (billedSpans id db calls).Pairwise (fun a b => a.2 ≤ b.1) ∧
    ∀ span ∈ billedSpans id db calls, span.1 < span.2 ∧
      (∃ start, leaseOf db id = some start ∧ start ≤ span.1) ∧
      ∃ stop, leaseOf (afterCalls id db calls) id = some stop ∧ span.2 ≤ stop := by
  induction calls with
  | nil =>
    intro db
    exact ⟨.nil, by simp [billedSpans]⟩
  | cons call rest ih =>
    intro db
    obtain ⟨apart, within⟩ := ih (afterCall id db call)
    rcases leaseOf_afterCall_later id db call with same | ⟨before, after, was, is, later⟩
    · have nothing : billedSpan call.now (leaseOf db id) (leaseOf (afterCall id db call) id) =
          none := by
        rw [same]
        cases leaseOf db id <;> simp [billedSpan]
      have spans : billedSpans id db (call :: rest) =
          billedSpans id (afterCall id db call) rest := by
        rw [billedSpans, nothing]
        rfl
      rw [spans]
      refine ⟨apart, fun span inside => ?_⟩
      obtain ⟨long, ⟨start, leased, order⟩, ends⟩ := within span inside
      exact ⟨long, ⟨start, same.symm.trans leased, order⟩, ends⟩
    · have moved : before ≠ after := by
        have := (max_lt_iff.1 later).2
        exact this.ne
      have spans : billedSpans id db (call :: rest) =
          (max call.now before, after) :: billedSpans id (afterCall id db call) rest := by
        rw [billedSpans, was, is]
        simp [billedSpan, moved]
      rw [spans, List.pairwise_cons]
      refine ⟨⟨fun span inside => ?_, apart⟩, fun span inside => ?_⟩
      · obtain ⟨_, ⟨start, leased, order⟩, _⟩ := within span inside
        rw [is] at leased
        obtain rfl := Option.some.inj leased
        exact order
      · rcases List.mem_cons.1 inside with rfl | inside
        · exact ⟨later, ⟨before, was, le_max_right _ _⟩, leaseOf_afterCalls id rest is⟩
        · obtain ⟨long, ⟨start, leased, order⟩, ends⟩ := within span inside
          rw [is] at leased
          obtain rfl := Option.some.inj leased
          exact ⟨long, ⟨before, was, ((max_lt_iff.1 later).2.trans_le order).le⟩, ends⟩

def defaultBounds : LeaseBounds := ⟨4, 24⟩

theorem reaches_hour : Reaches 0 1 := ⟨by decide +kernel, by decide +kernel, by decide +kernel⟩

theorem reaches_day : Reaches 0 24 := ⟨by decide +kernel, by decide +kernel, by decide +kernel⟩

end Renewals

section Answers

def RenewCall.answer (call : RenewCall) (id : Uuid) (db : AllocDb) :
    Except AllocError RenewOutcome :=
  match Txn.exec (call.program id) db with
  | .ok (outcome, _) => .ok outcome
  | .error e => match e.category with
    | some category => .ok (.refused category none)
    | none => .error e

def Categorized (e : AllocError) : Prop := e.category.isSome

def replayOf (call : RenewCall) (db : AllocDb) : Option IdempotencyKey :=
  call.key.bind (fun key => (find db.idempotencyKeys (call.ctx.principal, key)).filter
    (fun stored => stored.kind = renewKind))

def KeysResolve (db : AllocDb) : Prop :=
  ∀ owner stored, find db.idempotencyKeys owner = some stored →
    (find db.allocations stored.allocationId).isSome

theorem raises_liftExcept {α : Type} {answer : Except AllocError α}
    (fine : ∀ e, answer = .error e → Categorized e) :
    Txn.Raises Categorized (liftExcept answer) := by
  cases answer with
  | ok a => exact Txn.raises_pure a
  | error e => exact Txn.raises_throw (fine e rfl)

theorem raises_quantizeKcu (value : ℚ) : Txn.Raises Categorized (liftExcept (quantizeKcu value)) := by
  apply raises_liftExcept
  intro e raised
  simp only [quantizeKcu] at raised
  split at raised
  · cases raised
  · cases raised
    rfl

theorem raises_costClassOf (a : Allocation) : Txn.Raises Categorized (costClassOf a) := by
  refine Txn.raises_bind Txn.raises_get fun db => ?_
  split
  · exact Txn.raises_pure _
  · exact Txn.raises_throw rfl

theorem raises_extensionEstimate (a : Allocation) (hours : ℚ) :
    Txn.Raises Categorized (extensionEstimate a hours) := by
  refine Txn.raises_bind ?_ fun _ => raises_quantizeKcu _
  unfold bookedRate
  split
  · refine Txn.raises_bind (raises_costClassOf a) fun costClass => ?_
    refine Txn.raises_bind ?_ fun coeff => ?_
    · refine Txn.raises_bind Txn.raises_get fun db => ?_
      split
      · exact Txn.raises_pure _
      · exact Txn.raises_throw rfl
    · exact Txn.raises_bind (Txn.raises_bind Txn.raises_get fun _ => Txn.raises_pure _)
        fun _ => Txn.raises_pure _
  · exact Txn.raises_throw rfl

theorem raises_withinBudget (project : String) (estimate : ℚ) :
    Txn.Raises Categorized (withinBudget project estimate) := by
  refine Txn.raises_bind Txn.raises_get fun db => ?_
  split <;> exact Txn.raises_pure _

theorem raises_applyRenew {ctx : RequestContext} {a : Allocation} (granted : a.project ∈ ctx.projects)
    (extension : LeaseExtension) (estimate : ℚ) (key : Option String) :
    Txn.Raises Categorized (applyRenew ctx a extension estimate key) := by
  refine Txn.raises_bind (Txn.raises_modify _) fun _ => ?_
  refine Txn.raises_bind ?_ fun _ => ?_
  · refine Txn.raises_bind (raises_quantizeKcu _) fun delta => ?_
    refine Txn.raises_bind (raises_costClassOf _) fun costClass => ?_
    refine Txn.raises_bind (Txn.raises_modify _) fun _ => ?_
    refine Txn.raises_bind Txn.raises_get fun db => ?_
    split
    · exact Txn.raises_throw rfl
    · exact Txn.raises_modify _
  · refine Txn.raises_bind ?_ fun _ => ?_
    · cases key with
      | none => exact Txn.raises_pure _
      | some k =>
        refine Txn.raises_bind (Txn.raises_acquire _) fun _ => ?_
        refine Txn.raises_bind Txn.raises_get fun db => ?_
        split
        · exact Txn.raises_throw rfl
        · exact Txn.raises_modify _
    · refine Txn.raises_bind ?_ fun _ => Txn.raises_pure _
      rw [record, if_pos granted]
      exact Txn.raises_modify _

theorem raises_afterClamp {ctx : RequestContext} {a : Allocation} (granted : a.project ∈ ctx.projects)
    (extension : LeaseExtension) (key : Option String) :
    Txn.Raises Categorized (do
      if extension.addedHours ≤ 0 then pure (.refused .configurationError none)
      else
        let estimate ← extensionEstimate a extension.addedHours
        if !(← withinBudget a.project estimate) then pure (.refused .allocationDenied none)
        else applyRenew ctx a extension estimate key) := by
  split
  · exact Txn.raises_pure _
  · refine Txn.raises_bind (raises_extensionEstimate _ _) fun estimate => ?_
    refine Txn.raises_bind (raises_withinBudget _ _) fun within => ?_
    split
    · exact Txn.raises_pure _
    · exact raises_applyRenew granted _ _ _

theorem answered_of_raises {p : AllocTxn RenewOutcome} (denials : Txn.Raises Categorized p)
    {call : RenewCall} {id : Uuid} {db : AllocDb}
    (same : Txn.exec (call.program id) db = Txn.exec p db) :
    ∃ outcome, call.answer id db = .ok outcome := by
  unfold RenewCall.answer
  rw [same]
  cases ran : Txn.exec p db with
  | ok result => exact ⟨result.1, rfl⟩
  | error e =>
    obtain ⟨category, known⟩ := Option.isSome_iff_exists.1 (denials db e ran)
    exact ⟨.refused category none, by simp [known]⟩

section Live

variable {call : RenewCall} {id : Uuid} {db : AllocDb} {hours : ℚ} {a : Allocation}

theorem exec_program (accepted : validateWindow call.extend = .ok hours)
    (found : find db.allocations id = some a) :
    Txn.exec (call.program id) db =
      Txn.exec (renewUnderProjectLock call.bounds call.ctx call.now id hours call.key) db := by
  unfold RenewCall.program renew
  rw [accepted]
  simp only [liftExcept, getAllocation, Txn.exec_bind, pure, Txn.exec, Txn.get, found, Txn.acquire]

theorem exec_replayIfSent (resolve : KeysResolve db) :
    ∃ replay, Txn.exec (replayIfSent call.ctx.principal call.key renewKind) db =
      .ok (replay, db) ∧ (replay = none ↔ replayOf call db = none) := by
  unfold replayIfSent replayOf
  cases call.key with
  | none => exact ⟨none, rfl, by simp⟩
  | some key =>
    simp only [resolveReplay, Txn.exec_bind, Txn.get, Txn.exec, Option.bind_some]
    cases stored : (find db.idempotencyKeys (call.ctx.principal, key)).filter
        (fun stored => stored.kind = renewKind) with
    | none => exact ⟨none, rfl, by simp⟩
    | some entry =>
      have kept := Option.filter_eq_some_iff.1 stored
      obtain ⟨row, present⟩ := Option.isSome_iff_exists.1 (resolve _ entry kept.1)
      refine ⟨some row, ?_, by simp⟩
      simp only [getAllocation, Txn.exec_bind, Txn.get, Txn.exec, pure, present]

def afterLease (call : RenewCall) (a : Allocation) (expiry : Instant) (hours : ℚ) :
    AllocTxn RenewOutcome := do
  let extension ← liftExcept (clampExtensionHours expiry hours call.now call.bounds)
  if extension.addedHours ≤ 0 then pure (.refused .configurationError none)
  else
    let estimate ← extensionEstimate a extension.addedHours
    if !(← withinBudget a.project estimate) then pure (.refused .allocationDenied none)
    else applyRenew call.ctx a extension estimate call.key

def RenewCall.Clamped (call : RenewCall) (id : Uuid) (db : AllocDb) : Prop :=
  ∀ before ∈ leaseOf db id, ∀ after ∈ leaseOf (afterCall id db call) id,
    after ≤ max before (call.now + wholeSeconds call.bounds.maxHours)

theorem clamped_call (call : RenewCall) (id : Uuid) (db : AllocDb) : call.Clamped id db := by
  intro before was after is
  rcases leaseOf_afterCall id db call with
    same | ⟨expiry, hours, extension, leased, clamped, _, moved⟩
  · rw [Option.mem_def, same, Option.mem_def.1 was] at is
    rw [← Option.some.inj is]
    exact le_max_left _ _
  · rw [Option.mem_def, leased] at was
    rw [Option.mem_def, moved] at is
    rw [← Option.some.inj was, ← Option.some.inj is]
    rcases clamp_cases expiry hours call.now call.bounds with ⟨reaches, _, answer⟩ | ⟨_, e, raised, _⟩
    · rw [answer] at clamped
      rw [← Except.ok.inj clamped]
      exact (extended_clampTo reaches).notLater
    · rw [raised] at clamped
      cases clamped

theorem answered_iff (accepted : validateWindow call.extend = .ok hours)
    (found : find db.allocations id = some a) (live : a.state.terminal = false)
    (granted : a.project ∈ call.ctx.projects) (resolve : KeysResolve db) :
    (∃ outcome, call.answer id db = .ok outcome) ↔
      (replayOf call db = none → ∀ expiry ∈ a.leaseExpiry,
        Reaches call.now call.bounds.maxHours ∧ Reaches expiry hours) := by
  have start := exec_program accepted found
  obtain ⟨replay, replayed, known⟩ := @exec_replayIfSent call db resolve
  cases replay with
  | some stored =>
    have repeats : replayOf call db ≠ none := fun absent => absurd (known.2 absent) nofun
    simp only [repeats, false_implies, iff_true]
    refine answered_of_raises (p := if stored.id = id then pure (.renewed stored) else
      pure (.refused .configurationError none)) ?_ ?_
    · split <;> exact Txn.raises_pure _
    · rw [start, renewUnderProjectLock, Txn.exec_bind, replayed]
  | none =>
    simp only [known.1 rfl, forall_true_left]
    cases leased : a.leaseExpiry with
    | none =>
      have onward : Txn.exec (call.program id) db =
          .ok (.refused .configurationError none, db) := by
        rw [start, renewUnderProjectLock, Txn.exec_bind, replayed]
        simp only [getAllocation, Txn.exec_bind, Txn.get, Txn.exec, pure, found, live,
          Bool.false_eq_true, if_false, leased]
      simp [RenewCall.answer, onward]
    | some expiry =>
      have onward : Txn.exec (call.program id) db =
          Txn.exec (afterLease call a expiry hours) db := by
        rw [start, renewUnderProjectLock, Txn.exec_bind, replayed]
        simp only [getAllocation, Txn.exec_bind, Txn.get, Txn.exec, pure, found, live,
          Bool.false_eq_true, if_false, leased]
        rw [afterLease, Txn.exec_bind]
        rfl
      simp only [Option.mem_def, Option.some.injEq, forall_eq']
      rcases clamp_cases expiry hours call.now call.bounds with
        ⟨first, second, answer⟩ | ⟨outside, e, raised, plain⟩
      · simp only [first, second, and_self, iff_true]
        refine answered_of_raises (raises_afterClamp granted
          (clampTo expiry call.now (expiry + wholeSeconds hours)
            (call.now + wholeSeconds call.bounds.maxHours)) call.key) ?_
        rw [onward, afterLease, answer, Txn.exec_bind]
        rfl
      · simp only [outside, iff_false]
        rintro ⟨outcome, answered⟩
        simp only [afterLease, raised, Txn.exec_bind, liftExcept, Txn.throw, Txn.exec] at onward
        simp [RenewCall.answer, onward, plain] at answered

/-- A call on a live allocation is answered unless it reaches the clamp with a time that the types
cannot hold: it repeats a stored result, or the ceiling and the target are times. -/
theorem renew_answered_iff (accepted : validateWindow call.extend = .ok hours)
    (found : find db.allocations id = some a) (live : a.state.terminal = false)
    (granted : a.project ∈ call.ctx.projects) (resolve : KeysResolve db) :
    ((∃ outcome, call.answer id db = .ok outcome) ∧ call.Clamped id db) ↔
      (replayOf call db = none → ∀ expiry ∈ a.leaseExpiry,
        Reaches call.now call.bounds.maxHours ∧ Reaches expiry hours) := by
  rw [answered_iff accepted found live granted resolve]
  exact and_iff_left (clamped_call call id db)

end Live

def leasedRow : Allocation :=
  { billedRow 0 with state := .active, leaseExpiry := some 0, activeEndedAt := none }

def leasedDb : AllocDb :=
  { billedDb 1 [] with allocations := Table.insert Table.empty leasedRow }

def renewCall (hours : ℚ) : RenewCall :=
  ⟨defaultBounds, ⟨"alice", ["demo"]⟩, 0, .hours hours, none⟩

theorem leasedDb_resolve : KeysResolve leasedDb := by
  intro owner stored present
  have none : find leasedDb.idempotencyKeys owner = none := rfl
  rw [none] at present
  cases present

theorem renew_answered_hour :
    (∃ outcome, (renewCall 1).answer 1 leasedDb = .ok outcome) ∧
      (renewCall 1).Clamped 1 leasedDb := by
  refine (renew_answered_iff (a := leasedRow) rfl rfl rfl (by decide) leasedDb_resolve).2 ?_
  intro _ expiry leased
  rw [← Option.some.inj leased]
  exact ⟨reaches_day, reaches_hour⟩

/-- A hundred billion hours are more days than a `timedelta` holds, though the ceiling is a day
away. -/
theorem long_extension_raises :
    validateWindow (renewCall 100000000000).extend = .ok 100000000000 ∧
    find leasedDb.allocations 1 = some leasedRow ∧ leasedRow.state.terminal = false ∧
    ¬ ∃ outcome, (renewCall 100000000000).answer 1 leasedDb = .ok outcome := by
  refine ⟨rfl, rfl, rfl, ?_⟩
  rw [answered_iff (a := leasedRow) rfl rfl rfl (by decide) leasedDb_resolve]
  intro reaches
  have few := (reaches rfl 0 rfl).2.days
  revert few
  decide +kernel

end Answers

end Kdive.Capacity
