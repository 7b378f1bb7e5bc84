import Kdive.Jobs.Fencing

/-!
The abandoned-job sweep. Its candidate `SELECT` and its `UPDATE` are two transactions, and
the `UPDATE` repeats only the state of the row. What the sweep decided at the read is
therefore still true at the write exactly as long as no worker renews or reclaims the
candidate in between.
-/
namespace Kdive.Jobs
open Table

variable {credential : String → List UInt8}

def Event.sweeps : Event → Bool
  | .sweepWrite _ => true
  | .sweepUnowned _ => true
  | _ => false

def Justified (credential : String → List UInt8) (w : World) (e : Event) : Prop :=
  e.sweeps = true → ∀ id j j', find w.db.jobs id = some j → j.state = .running →
    find (step credential w e).db.jobs id = some j' → j'.state = .failed →
    j.lapsed w.clock = true ∧ j.maxAttempts ≤ j.attempt

def Undisturbed (credential : String → List UInt8) (w : World) (e : Event) : Prop :=
  ((∃ loop lease, e = .heartbeat loop lease) ∨
    ∃ loop lease facts pick, e = .claim loop lease facts pick) →
  ∀ sweep id, id ∈ w.candidates sweep →
    find (step credential w e).db.jobs id = find w.db.jobs id

def CandidatesLapsed (w : World) : Prop :=
  ∀ sweep id j, id ∈ w.candidates sweep → find w.db.jobs id = some j → j.state = .running →
    j.lapsed w.clock = true ∧ j.maxAttempts ≤ j.attempt

theorem lapsed_mono {j : Job} {now later : Instant} (order : now ≤ later)
    (lapsed : j.lapsed now = true) : j.lapsed later = true := by
  unfold Job.lapsed at lapsed ⊢
  split at lapsed
  · simp only [decide_eq_true_eq] at lapsed ⊢
    exact Int.lt_of_lt_of_le lapsed order
  · cases lapsed

theorem zombie_abandoned {db : QueueDb} {now : Instant} {id : Uuid} {j : Job}
    (member : id ∈ zombieIds db now) (found : find db.jobs id = some j) :
    abandoned now j = true := by
  simp only [zombieIds, List.mem_map, List.mem_filter] at member
  obtain ⟨k, ⟨held, zombie⟩, key⟩ := member
  rw [← row_unique held (find_mem found) (key.trans (find_key found).symm)]
  exact zombie

theorem running_unchanged {w : World} {e : Event} {id : Uuid} {j' : Job}
    (steady : ∀ loop lease, e ≠ .heartbeat loop lease)
    (idle : ∀ loop lease facts pick, e ≠ .claim loop lease facts pick)
    (found : find (step credential w e).db.jobs id = some j') (running : j'.state = .running) :
    find w.db.jobs id = some j' := by
  generalize table : (step credential w e).db.jobs = jobs at found
  have effect := step_table credential w e
  rw [table] at effect
  cases effect with
  | same => exact found
  | ends p f keeps _ ends =>
    rw [find_update] at found
    obtain ⟨j, here, rfl⟩ := Option.map_eq_some_iff.mp found
    split at running
    · exact absurd running (ends j).2.2
    · rename_i miss
      rw [if_neg miss]
      exact here
  | renew loop lease p shape => exact absurd shape (steady loop lease)
  | enqueue request newId shape =>
    rcases find_admitted found with ⟨j, here, rfl | ⟨_, rfl⟩⟩ | ⟨queued, _⟩
    · exact here
    · simp [recycled] at running
    · simp [queued] at running
  | claim loop lease facts pick k shape => exact absurd shape (idle loop lease facts pick)

theorem commit_frame (w : World) (outcome : Except QueueError QueueDb) :
    (w.commit outcome).clock = w.clock ∧ (w.commit outcome).candidates = w.candidates := by
  cases outcome <;> exact ⟨rfl, rfl⟩

/-- The clock only advances, and a candidate after an event was one before it unless the
event is the read that put it there. -/
theorem candidates_origin {w : World} {e : Event} :
    w.clock ≤ (step credential w e).clock ∧
    ∀ sweep id, id ∈ (step credential w e).candidates sweep → id ∈ w.candidates sweep ∨
      ∃ age, e = .sweepRead sweep age ∧ id ∈ zombieIds w.db (w.clock - age) := by
  cases e with
  | tick elapsed => exact ⟨Int.le_add_of_nonneg_right (Int.natCast_nonneg elapsed), fun sweep id member => .inl member⟩
  | register | terminate | drop | sweepUnowned =>
    exact ⟨Int.le_refl _, fun sweep id member => .inl member⟩
  | enqueue | cancel =>
    simp only [step, (commit_frame w _).1, (commit_frame w _).2]
    exact ⟨Int.le_refl _, fun sweep id member => .inl member⟩
  | heartbeat | complete | fail =>
    simp only [step]
    split
    · simp only [(commit_frame w _).1, (commit_frame w _).2]
      exact ⟨Int.le_refl _, fun sweep id member => .inl member⟩
    · exact ⟨Int.le_refl _, fun sweep id member => .inl member⟩
  | claim loop lease facts pick =>
    simp only [step]
    split <;> exact ⟨Int.le_refl _, fun sweep id member => .inl member⟩
  | sweepRead other age =>
    refine ⟨Int.le_refl _, fun sweep id member => ?_⟩
    simp only [step] at member
    by_cases same : sweep = other
    · subst same
      rw [Function.update_self] at member
      exact .inr ⟨age, rfl, member⟩
    · rw [Function.update_of_ne same] at member
      exact .inl member
  | sweepWrite other =>
    simp only [step]
    split
    · rename_i jobId rest pending
      refine ⟨Int.le_refl _, fun sweep id member => .inl ?_⟩
      by_cases same : sweep = other
      · subst same
        simp only [Function.update_self] at member
        rw [pending]
        exact List.mem_cons_of_mem jobId member
      · simpa only [Function.update_of_ne same] using member
    · exact ⟨Int.le_refl _, fun sweep id member => .inl member⟩

theorem candidates_step {w : World} {e : Event} (lapsed : CandidatesLapsed w)
    (undisturbed : Undisturbed credential w e) : CandidatesLapsed (step credential w e) := by
  intro sweep id j member found running
  obtain ⟨order, origin⟩ := @candidates_origin credential w e
  rcases origin sweep id member with old | ⟨age, rfl, read⟩
  · have before : find w.db.jobs id = some j := by
      by_cases active : (∃ loop lease, e = .heartbeat loop lease) ∨
          ∃ loop lease facts pick, e = .claim loop lease facts pick
      · rw [← undisturbed active sweep id old]
        exact found
      · push Not at active
        exact running_unchanged active.1 active.2 found running
    obtain ⟨late, exhausted⟩ := lapsed sweep id j old before running
    exact ⟨lapsed_mono order late, exhausted⟩
  · have zombie := zombie_abandoned read found
    simp only [abandoned, Bool.and_eq_true, decide_eq_true_eq] at zombie
    obtain ⟨⟨⟨⟨_, late⟩, exhausted⟩, _⟩, _⟩ := zombie
    exact ⟨lapsed_mono (Int.sub_le_self _ (Int.natCast_nonneg age)) late, exhausted⟩

theorem justified_step {w : World} (lapsed : CandidatesLapsed w) (e : Event) :
    Justified credential w e := by
  intro sweeps id j j' found running after failed
  cases e with
  | tick | register | terminate | enqueue | claim | heartbeat | complete | fail | drop | cancel
  | sweepRead => simp [Event.sweeps] at sweeps
  | sweepWrite sweep =>
    simp only [step] at after
    split at after
    · rename_i jobId rest pending
      by_cases same : id = jobId
      · subst same
        exact lapsed sweep id j (by rw [pending]; exact List.mem_cons_self) found running
      · exfalso
        simp only [deadLetterZombie] at after
        split at after
        · simp [found] at after
          subst after
          simp [running] at failed
        · split at after
          · have other : ¬ j.id = jobId := by rw [find_key found]; exact same
            simp [found, other] at after
            subst after
            simp [running] at failed
          · simp [found] at after
            subst after
            simp [running] at failed
    · simp [found] at after
      subst after
      simp [running] at failed
  | sweepUnowned unowned =>
    simp only [step, deadLetterUnownedExternalBootJobs, find_update, found, Option.map_some,
      Option.some.injEq] at after
    split at after
    · rename_i hit
      simp only [unownedExhausted, Bool.and_eq_true, decide_eq_true_eq] at hit
      obtain ⟨⟨⟨⟨_, exhausted⟩, late⟩, _⟩, _⟩ := hit
      exact ⟨late, exhausted⟩
    · subst after
      simp [running] at failed

/-- In every history in which no worker renews or reclaims a job between the sweep's
candidate read and its write, every job the sweep fails has lapsed and is out of attempts
at the write. -/
theorem undisturbed_sweep_justified (start : World) (fresh : ∀ sweep, start.candidates sweep = [])
    (history : List Event)
    (undisturbed : Trace.Along (step credential) (Undisturbed credential) start history) :
    Trace.Along (step credential) (Justified credential) start history := by
  refine Trace.along_of_invariant (fun w e => candidates_step) ?_ ?_ undisturbed
  · intro w e lapsed _
    exact justified_step lapsed e
  · intro sweep id j member
    simp [fresh] at member

/-- A heartbeat arrives between the read and the write: the job is failed with a minute of
its lease left. -/
def renewedInGap : List Event :=
  sampleClaimed 1 ++ [.tick 61000000, .sweepRead 0 0, .heartbeat sampleLoop 60000000]

theorem renewed_job_is_dead_lettered :
    ¬ Justified sampleCredential (run sampleCredential sampleWorld renewedInGap)
      (.sweepWrite 0) := by
  intro justified
  have late := (justified rfl 7 _ _ rfl rfl rfl rfl).1
  revert late
  decide

theorem undisturbed_sample_sweep :
    Trace.Along (step sampleCredential) (Justified sampleCredential) sampleWorld
      (sampleClaimed 1 ++ [.tick 61000000, .sweepRead 0 0, .sweepWrite 0]) := by
  refine undisturbed_sweep_justified sampleWorld (fun _ => rfl) _ ?_
  refine ⟨?_, ?_, ?_, ?_, ?_, ?_, trivial⟩
  -- The only claim comes before any sweep has read anything.
  case refine_3 =>
    intro _ sweep id member
    cases member
  all_goals
    rintro (⟨_, _, shape⟩ | ⟨_, _, _, _, shape⟩) <;> cases shape

end Kdive.Jobs
