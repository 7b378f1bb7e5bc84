import Mathlib.Data.List.Induction
import Kdive.Jobs.History

/-!
The attempt fence over whole histories. Recycling resets the attempt counter, so an
attempt number alone does not name an execution; what does is that a row keeps its lane,
that a lane of a worker has one loop, and that a loop holds one claim.
-/
namespace Kdive.Jobs
open Table

section Rows

def Ends (f : Job → Job) : Prop :=
  ∀ j, (f j).dedupKey = j.dedupKey ∧ (f j).dispatchLane = j.dispatchLane ∧
    (f j).state ≠ .running

theorem ends_completed (resultRef : Option String) : Ends (completed resultRef) := by
  intro j
  simp [completed]

theorem ends_failed (category : ErrorCategory) (context : List (String × String))
    (terminal : Bool) : Ends (failedOrRequeued category context terminal) := by
  intro j
  unfold failedOrRequeued
  split <;> simp

theorem ends_canceled : Ends canceled := by
  intro j
  simp [canceled]

theorem ends_deadLettered : Ends deadLettered := by
  intro j
  simp [deadLettered]

inductive TableStep (credential : String → List UInt8) (w : World) (e : Event) :
    Keyed Job Uuid Job.id → Prop where
  | same : claimTaken credential w e = none → TableStep credential w e w.db.jobs
  | ends (p : Job → Bool) (f : Job → Job) (keeps : ∀ j, (f j).id = j.id) :
      claimTaken credential w e = none → Ends f →
      TableStep credential w e (Table.update w.db.jobs p f keeps)
  | renew (loop : Loop) (lease : Duration) (p : Job → Bool) : e = .heartbeat loop lease →
      TableStep credential w e (Table.update w.db.jobs p (renewed (w.clock + lease) w.clock)
        (renewed_id (w.clock + lease) w.clock))
  | enqueue (request : EnqueueRequest) (newId : Uuid) : e = .enqueue request newId →
      TableStep credential w e
        (recycleJob (insertJob w.db.jobs request newId w.clock) request w.clock)
  | claim (loop : Loop) (lease : Duration) (facts : ClaimFacts) (pick : Option Uuid) (j : Job) :
      e = .claim loop lease facts pick → w.held loop = none → find w.db.jobs j.id = some j →
      j.dispatchLane = loop.lane →
      authenticated w.db (credential loop.worker) = some loop.worker →
      claimTaken credential w e = some ⟨w.claims, j.id, j.attempt + 1⟩ →
      TableStep credential w e (Table.update w.db.jobs (fun k => k.id = j.id)
        (claimed loop.worker (w.clock + lease) w.clock)
        (claimed_id loop.worker (w.clock + lease) w.clock))

theorem claim_inversion {db db' : QueueDb} {r : ClaimRequest} {facts : ClaimFacts}
    {pick : Option Uuid} {now : Instant} {j' : Job}
    (handed : claimWorkerJob db r facts pick now = .ok (db', some j')) :
    ∃ j, find db.jobs j.id = some j ∧ j.dispatchLane ∈ r.acceptedLanes ∧
      authenticated db r.credentialHash = some r.workerId ∧
      j' = claimed r.workerId (now + r.lease) now j ∧
      db' = db.updateJobs (fun k => k.id = j.id) (claimed r.workerId (now + r.lease) now)
        (claimed_id r.workerId (now + r.lease) now) := by
  unfold claimWorkerJob at handed
  split at handed
  · cases handed
  · split at handed
    · simp at handed
    · rename_i known
      split at handed
      · cases handed
      · split at handed
        · simp at handed
        · rename_i j found
          split at handed
          · rename_i eligible
            simp only [Except.ok.injEq, Prod.mk.injEq, Option.some.injEq] at handed
            obtain ⟨row, here⟩ : ∃ i, pick = some i ∧ find db.jobs i = some j := by
              simpa [Option.bind_eq_some_iff] using found
            have key := find_key here.2
            refine ⟨j, ?_, ?_, ?_, handed.2.symm, handed.1.symm⟩
            · rw [key]
              exact here.2
            · simp only [oldestClaimable, claimable, Bool.and_eq_true, decide_eq_true_eq] at eligible
              exact eligible.1.1.1.1.2
            · simpa using known
          · simp at handed

theorem commit_table {credential : String → List UInt8} {w : World} {e : Event}
    {outcome : Except QueueError QueueDb} (idle : claimTaken credential w e = none)
    (effect : ∀ db, outcome = .ok db → db.jobs = w.db.jobs ∨ ∃ p f keeps,
      db.jobs = Table.update w.db.jobs p f keeps ∧ Ends f) :
    TableStep credential w e (w.commit outcome).db.jobs := by
  cases outcome with
  | error _ => exact .same idle
  | ok db =>
    rcases effect db rfl with same | ⟨p, f, keeps, after, ends⟩
    · simp only [World.commit, same]
      exact .same idle
    · simp only [World.commit, after]
      exact .ends p f keeps idle ends

theorem heartbeat_effect {db : QueueDb} {jobId : Uuid} {hash : List UInt8} {attempt : Nat}
    {lease : Duration} {now : Instant} {db' : QueueDb}
    (committed : (heartbeatWorkerJob db jobId hash attempt lease now).map Prod.fst = .ok db') :
    db' = db ∨ ∃ worker, authenticated db hash = some worker ∧
      db' = db.updateJobs (fenced jobId worker attempt) (renewed (now + lease) now)
        (renewed_id (now + lease) now) := by
  unfold heartbeatWorkerJob at committed
  split at committed
  · cases committed
  · split at committed
    · exact .inl (Except.ok.inj committed).symm
    · rename_i worker known
      split at committed
      · exact .inl (Except.ok.inj committed).symm
      · split at committed
        · cases committed
        · exact .inr ⟨worker, known, (Except.ok.inj committed).symm⟩

theorem complete_effect {db : QueueDb} {jobId : Uuid} {hash : List UInt8} {attempt : Nat}
    {resultRef : Option String} {captureClosed : Job → Bool} {db' : QueueDb}
    (committed : completeWorkerJob db jobId hash attempt resultRef captureClosed = .ok db') :
    db' = db ∨ ∃ worker, authenticated db hash = some worker ∧
      db' = db.updateJobs (fun j => fenced jobId worker attempt j && finalizable captureClosed j)
        (completed resultRef) (completed_id resultRef) := by
  unfold completeWorkerJob at committed
  split at committed
  · cases committed
  · split at committed
    · exact .inl (Except.ok.inj committed).symm
    · rename_i worker known
      exact .inr ⟨worker, known, (Except.ok.inj committed).symm⟩

theorem fail_effect {db : QueueDb} {jobId : Uuid} {hash : List UInt8} {attempt : Nat}
    {category : ErrorCategory} {context : List (String × String)} {terminal : Bool}
    {captureClosed : Job → Bool} {db' : QueueDb}
    (committed : failWorkerJob db jobId hash attempt category context terminal captureClosed =
      .ok db') :
    db' = db ∨ ∃ worker, authenticated db hash = some worker ∧
      db' = db.updateJobs (fun j => fenced jobId worker attempt j && finalizable captureClosed j)
        (failedOrRequeued category context terminal)
        (failedOrRequeued_id category context terminal) := by
  unfold failWorkerJob at committed
  split at committed
  · cases committed
  · split at committed
    · exact .inl (Except.ok.inj committed).symm
    · rename_i worker known
      exact .inr ⟨worker, known, (Except.ok.inj committed).symm⟩

theorem cancel_effect {db : QueueDb} {jobId : Uuid} {db' : QueueDb}
    (committed : cancelJob db jobId = .ok db') :
    db' = db.updateJobs (fun k => k.id = jobId) canceled canceled_id := by
  unfold cancelJob at committed
  split at committed
  · cases committed
  · split at committed
    · exact (Except.ok.inj committed).symm
    · cases committed

theorem take_inversion {credential : String → List UInt8} {w : World} {loop : Loop}
    {lease : Duration} {facts : ClaimFacts} {pick : Option Uuid} {db : QueueDb} {c : Claim}
    (taken : takeClaim credential w loop lease facts pick = some (db, c)) :
    w.held loop = none ∧ ∃ j, find w.db.jobs j.id = some j ∧ j.dispatchLane = loop.lane ∧
      authenticated w.db (credential loop.worker) = some loop.worker ∧
      c = ⟨w.claims, j.id, j.attempt + 1⟩ ∧
      db = w.db.updateJobs (fun k => k.id = j.id)
        (claimed loop.worker (w.clock + lease) w.clock)
        (claimed_id loop.worker (w.clock + lease) w.clock) := by
  unfold takeClaim at taken
  split at taken
  · cases taken
  · rename_i free
    split at taken
    · rename_i db' j' handed
      obtain ⟨j, found, lane, known, rfl, rfl⟩ := claim_inversion handed
      simp only [Option.some.injEq, Prod.mk.injEq] at taken
      refine ⟨free, j, found, ?_, known, taken.2.symm, taken.1.symm⟩
      simpa [Loop.request] using lane
    · cases taken
    · cases taken

theorem step_table (credential : String → List UInt8) (w : World) (e : Event) :
    TableStep credential w e (step credential w e).db.jobs := by
  cases e with
  | tick elapsed => exact .same rfl
  | register row =>
    simp only [step, registerIncarnation]
    split <;> exact .same rfl
  | terminate hash => exact .same rfl
  | enqueue request newId =>
    simp only [step, enqueueWithStatus]
    split
    · exact .same rfl
    · split
      · exact .same rfl
      · exact .enqueue request newId rfl
  | claim loop lease facts pick =>
    simp only [step]
    split
    · rename_i db c taken
      obtain ⟨free, j, found, lane, known, rfl, rfl⟩ := take_inversion taken
      exact .claim loop lease facts pick j rfl free found lane known (by simp [claimTaken, taken])
    · rename_i refused
      exact .same (by simp [claimTaken, refused])
  | heartbeat loop lease =>
    simp only [step]
    split
    · cases outcome : (heartbeatWorkerJob w.db _ _ _ lease w.clock).map Prod.fst with
      | error _ => exact .same rfl
      | ok db =>
        rcases heartbeat_effect outcome with rfl | ⟨worker, _, rfl⟩
        · exact .same rfl
        · exact .renew loop lease _ rfl
    · exact .same rfl
  | complete loop resultRef captureClosed =>
    simp only [step]
    split
    · refine commit_table rfl ?_
      intro db committed
      rcases complete_effect committed with rfl | ⟨worker, _, rfl⟩
      · exact .inl rfl
      · exact .inr ⟨_, _, completed_id resultRef, rfl, ends_completed resultRef⟩
    · exact .same rfl
  | fail loop category context terminal captureClosed =>
    simp only [step]
    split
    · refine commit_table rfl ?_
      intro db committed
      rcases fail_effect committed with rfl | ⟨worker, _, rfl⟩
      · exact .inl rfl
      · exact .inr ⟨_, _, failedOrRequeued_id category context terminal, rfl,
          ends_failed category context terminal⟩
    · exact .same rfl
  | drop loop => exact .same rfl
  | cancel jobId =>
    refine commit_table rfl ?_
    intro db committed
    exact .inr ⟨_, _, canceled_id, by rw [cancel_effect committed]; rfl, ends_canceled⟩
  | sweepRead sweep age => exact .same rfl
  | sweepWrite sweep =>
    simp only [step]
    split
    · simp only [deadLetterZombie]
      split
      · exact .same rfl
      · split
        · exact .ends _ _ deadLettered_id rfl ends_deadLettered
        · exact .same rfl
    · exact .same rfl
  | sweepUnowned unowned => exact .ends _ _ deadLettered_id rfl ends_deadLettered

theorem find_admitted {jobs : Keyed Job Uuid Job.id} {request : EnqueueRequest} {newId id : Uuid}
    {now : Instant} {j' : Job}
    (found : find (recycleJob (insertJob jobs request newId now) request now) id = some j') :
    (∃ j, find jobs id = some j ∧ (j' = j ∨ j.dedupKey = request.dedupKey ∧
      j' = recycled (dispatchLaneForKind request.kind) request.payload now j)) ∨
    (j'.state = .queued ∧ j'.dedupKey = request.dedupKey ∧
      j'.dispatchLane = dispatchLaneForKind request.kind) := by
  have inserted : ∀ j, find (insertJob jobs request newId now) id = some j →
      find jobs id = some j ∨ j = freshJob request newId now := by
    intro j here
    unfold insertJob at here
    split at here
    · exact .inl here
    · rcases mem_insert (find_mem here) with old | ⟨new, _⟩
      · rw [← find_key here]
        exact .inl (find_of_mem old)
      · exact .inr new
  unfold recycleJob at found
  split at found
  · rcases inserted j' found with old | rfl
    · exact .inl ⟨j', old, .inl rfl⟩
    · exact .inr ⟨rfl, rfl, rfl⟩
  · rw [find_update] at found
    obtain ⟨j, here, rfl⟩ := Option.map_eq_some_iff.mp found
    rcases inserted j here with old | rfl
    · refine .inl ⟨j, old, ?_⟩
      split
      · rename_i hit
        simp only [Bool.and_eq_true, decide_eq_true_eq] at hit
        exact .inr ⟨hit.1, rfl⟩
      · exact .inl rfl
    · refine .inr ?_
      split <;> exact ⟨rfl, rfl, rfl⟩

theorem find_admitted_keeps {jobs : Keyed Job Uuid Job.id} {request : EnqueueRequest}
    {newId id : Uuid} {now : Instant} {j : Job} (held : find jobs id = some j) :
    ∃ j', find (recycleJob (insertJob jobs request newId now) request now) id = some j' ∧
      j'.dedupKey = j.dedupKey := by
  have inserted : find (insertJob jobs request newId now) id = some j := by
    unfold insertJob
    split
    · exact held
    · by_cases same : newId = id
      · have taken : find jobs (freshJob request newId now).id = some j := by
          rw [show (freshJob request newId now).id = id from same]
          exact held
        rw [insert_taken taken]
        exact held
      · rw [find_insert_other (by simpa [freshJob] using same)]
        exact held
  unfold recycleJob
  split
  · exact ⟨j, inserted, rfl⟩
  · rw [find_update, inserted]
    refine ⟨_, rfl, ?_⟩
    simp only
    split <;> rfl

theorem row_persists {credential : String → List UInt8} {w : World} {e : Event} {id : Uuid}
    {j : Job} (held : find w.db.jobs id = some j) :
    ∃ j', find (step credential w e).db.jobs id = some j' ∧ j'.dedupKey = j.dedupKey := by
  generalize table : (step credential w e).db.jobs = jobs
  have effect := step_table credential w e
  rw [table] at effect
  cases effect with
  | same => exact ⟨j, held, rfl⟩
  | ends p f keeps idle ends =>
    rw [find_update, held]
    refine ⟨_, rfl, ?_⟩
    simp only
    split
    · exact (ends j).1
    · rfl
  | renew loop lease p =>
    rw [find_update, held]
    refine ⟨_, rfl, ?_⟩
    simp only
    split <;> rfl
  | enqueue request newId => exact find_admitted_keeps held
  | claim loop lease facts pick k =>
    rw [find_update, held]
    refine ⟨_, rfl, ?_⟩
    simp only
    split <;> rfl

/-- Where a running row comes from: the claim this event took, or an execution that was
already under way for the same worker and that no claim of this event replaced. -/
theorem running_origin {credential : String → List UInt8} {w : World} {e : Event} {id : Uuid}
    {j' : Job} {worker : String} (found : find (step credential w e).db.jobs id = some j')
    (running : j'.state = .running) (owner : j'.workerId = some worker) :
    (∃ lane lease facts pick, e = .claim ⟨worker, lane⟩ lease facts pick ∧
      w.held ⟨worker, lane⟩ = none ∧ j'.dispatchLane = lane ∧
      ∃ c, claimTaken credential w e = some c ∧ c.jobId = id) ∨
    ((∀ c, claimTaken credential w e = some c → c.jobId ≠ id) ∧
      ∃ j, find w.db.jobs id = some j ∧ j.state = .running ∧ j.workerId = some worker) := by
  generalize table : (step credential w e).db.jobs = jobs at found
  have effect := step_table credential w e
  rw [table] at effect
  cases effect with
  | same idle => exact .inr ⟨by simp [idle], j', found, running, owner⟩
  | ends p f keeps idle ends =>
    rw [find_update] at found
    obtain ⟨j, here, rfl⟩ := Option.map_eq_some_iff.mp found
    refine .inr ⟨by simp [idle], j, here, ?_⟩
    split at running
    · exact absurd running (ends j).2.2
    · rename_i miss
      rw [if_neg miss] at owner
      exact ⟨running, owner⟩
  | renew loop lease p shape =>
    subst shape
    rw [find_update] at found
    obtain ⟨j, here, rfl⟩ := Option.map_eq_some_iff.mp found
    refine .inr ⟨by simp [claimTaken], j, here, ?_⟩
    split at running
    · rename_i hit
      rw [if_pos hit] at owner
      exact ⟨running, owner⟩
    · rename_i miss
      rw [if_neg miss] at owner
      exact ⟨running, owner⟩
  | enqueue request newId shape =>
    subst shape
    refine .inr ⟨by simp [claimTaken], ?_⟩
    rcases find_admitted found with ⟨j, here, rfl | ⟨_, rfl⟩⟩ | ⟨queued, _⟩
    · exact ⟨j', here, running, owner⟩
    · simp [recycled] at running
    · simp [queued] at running
  | claim loop lease facts pick k shape free here lane known taken =>
    rw [find_update] at found
    obtain ⟨j, row, rfl⟩ := Option.map_eq_some_iff.mp found
    by_cases hit : j.id = k.id
    · have key : j.id = id := find_key row
      have same : j = k := by
        rw [key] at hit
        rw [hit, here] at row
        exact (Option.some.inj row).symm
      subst same
      simp only [decide_true, if_true, claimed, Option.some.injEq] at owner
      subst owner
      refine .inl ⟨loop.lane, lease, facts, pick, shape, free, ?_, _, taken, ?_⟩
      · simpa [claimed] using lane
      · exact key
    · simp only [hit, decide_false, Bool.false_eq_true, if_false] at running owner
      refine .inr ⟨?_, j, row, running, owner⟩
      intro c here'
      rw [taken] at here'
      cases here'
      rw [← find_key row]
      exact fun same => hit same.symm

end Rows

section Histories

variable {credential : String → List UInt8} {start : World}

/-- `c` is the most recent claim of its row, and the row has not left `running` since. -/
def Latest (credential : String → List UInt8) (start : World) (history : List Event)
    (c : Claim) : Prop :=
  ∃ before e after, history = before ++ e :: after ∧
    claimTaken credential (run credential start before) e = some c ∧
    (∀ p e' s, after = p ++ e' :: s → ∀ d,
      claimTaken credential (run credential start (before ++ e :: p)) e' = some d →
      d.jobId ≠ c.jobId) ∧
    (∀ p s, after = p ++ s → ∃ j,
      find (run credential start (before ++ e :: p)).db.jobs c.jobId = some j ∧
      j.state = .running)

theorem latest_claim {history : List Event} {e : Event} {c : Claim} {j : Job}
    (taken : claimTaken credential (run credential start history) e = some c)
    (found : find (run credential start (history ++ [e])).db.jobs c.jobId = some j)
    (running : j.state = .running) : Latest credential start (history ++ [e]) c := by
  refine ⟨history, e, [], by simp, taken, ?_, ?_⟩
  · intro p e' s split
    simp at split
  · intro p s split
    obtain ⟨rfl, _⟩ := List.append_eq_nil_iff.mp split.symm
    exact ⟨j, found, running⟩

theorem latest_extend {history : List Event} {e : Event} {c : Claim} {j : Job}
    (latest : Latest credential start history c)
    (other : ∀ d, claimTaken credential (run credential start history) e = some d →
      d.jobId ≠ c.jobId)
    (found : find (run credential start (history ++ [e])).db.jobs c.jobId = some j)
    (running : j.state = .running) : Latest credential start (history ++ [e]) c := by
  obtain ⟨before, first, after, rfl, taken, alone, ran⟩ := latest
  have regroup : (before ++ first :: after) ++ [e] = before ++ first :: (after ++ [e]) := by simp
  refine ⟨before, first, after ++ [e], regroup, taken, ?_, ?_⟩
  · intro p e' s split d claims
    rcases List.eq_nil_or_concat s with rfl | ⟨s', last, rfl⟩
    · obtain ⟨rfl, same⟩ := List.append_inj' split rfl
      cases same
      exact other d claims
    · rw [List.concat_eq_append, ← List.cons_append, ← List.append_assoc] at split
      exact alone p e' s' (List.append_inj' split rfl).1 d claims
  · intro p s split
    rcases List.eq_nil_or_concat s with rfl | ⟨s', last, rfl⟩
    · rw [List.append_nil] at split
      rw [← split, ← regroup]
      exact ⟨j, found, running⟩
    · rw [List.concat_eq_append, ← List.append_assoc] at split
      exact ran p s' (List.append_inj' split rfl).1

def Routed (laneOf : String → Lane) (history : List Event) : Prop :=
  ∀ request newId, Event.enqueue request newId ∈ history →
    dispatchLaneForKind request.kind = laneOf request.dedupKey

/-- Nothing is claimed yet, and the rows already there are on the lane of their key. -/
structure Initial (laneOf : String → Lane) (w : World) : Prop where
  idle : ∀ loop, w.held loop = none
  lanes : ∀ id j, find w.db.jobs id = some j → j.dispatchLane = laneOf j.dedupKey

/-- The invariant: rows stay on the lane of their key, held claims name rows of their own
lane, credentials stay bound, and a row a loop's worker is running is the loop's claim. -/
structure Sound (credential : String → List UInt8) (laneOf : String → Lane) (start : World)
    (history : List Event) : Prop where
  lanes : ∀ id j, find (run credential start history).db.jobs id = some j →
    j.dispatchLane = laneOf j.dedupKey
  heldLane : ∀ loop c, (run credential start history).held loop = some c →
    ∃ j, find (run credential start history).db.jobs c.jobId = some j ∧
      laneOf j.dedupKey = loop.lane
  bound : ∀ loop c, (run credential start history).held loop = some c →
    ∃ row, find (run credential start history).db.incarnations (credential loop.worker) =
      some row ∧ row.incarnation = loop.worker
  latest : ∀ loop c j, (run credential start history).held loop = some c →
    find (run credential start history).db.jobs c.jobId = some j → j.state = .running →
    j.workerId = some loop.worker → Latest credential start history c

theorem commit_held (w : World) (outcome : Except QueueError QueueDb) :
    (w.commit outcome).held = w.held := by
  cases outcome <;> rfl

/-- A claim a loop holds after an event was held before it, or is the one it just took. -/
theorem held_origin {w : World} {e : Event} {loop : Loop} {c : Claim}
    (held : (step credential w e).held loop = some c) :
    w.held loop = some c ∨ ∃ lease facts pick, e = .claim loop lease facts pick ∧
      claimTaken credential w e = some c := by
  cases e with
  | tick | register | terminate | sweepRead | sweepUnowned => exact .inl held
  | enqueue | cancel =>
    simp only [step, commit_held] at held
    exact .inl held
  | claim other lease facts pick =>
    simp only [step] at held
    split at held
    · rename_i db d taken
      by_cases same : loop = other
      · subst same
        simp only [Function.update_self, Option.some.injEq] at held
        refine .inr ⟨lease, facts, pick, rfl, ?_⟩
        simp [claimTaken, taken, held]
      · simp only [Function.update_of_ne same] at held
        exact .inl held
    · exact .inl held
  | heartbeat | complete | fail =>
    simp only [step] at held
    split at held
    · rw [commit_held] at held
      exact .inl held
    · exact .inl held
  | drop other =>
    simp only [step] at held
    by_cases same : loop = other
    · subst same
      simp at held
    · rw [Function.update_of_ne same] at held
      exact .inl held
  | sweepWrite sweep =>
    simp only [step] at held
    split at held <;> exact .inl held

/-- An event that is neither a registration nor a termination leaves the workers alone. -/
theorem incarnations_kept {w : World} {e : Event} :
    (step credential w e).db.incarnations = w.db.incarnations ∨
      (∃ row, e = .register row) ∨ ∃ hash, e = .terminate hash := by
  cases e with
  | tick | drop | sweepRead | sweepUnowned => exact .inl rfl
  | register row => exact .inr (.inl ⟨row, rfl⟩)
  | terminate hash => exact .inr (.inr ⟨hash, rfl⟩)
  | enqueue request newId =>
    refine .inl ?_
    simp only [step, enqueueWithStatus]
    repeat' split
    all_goals rfl
  | claim loop lease facts pick =>
    refine .inl ?_
    simp only [step]
    split
    · rename_i db c taken
      obtain ⟨_, j, _, _, _, _, rfl⟩ := take_inversion taken
      rfl
    · rfl
  | heartbeat loop lease =>
    refine .inl ?_
    simp only [step]
    split
    · cases outcome : (heartbeatWorkerJob w.db _ _ _ lease w.clock).map Prod.fst with
      | error _ => rfl
      | ok db =>
        rcases heartbeat_effect outcome with rfl | ⟨_, _, rfl⟩ <;> rfl
    · rfl
  | complete loop resultRef captureClosed =>
    refine .inl ?_
    simp only [step]
    split
    · cases outcome : completeWorkerJob w.db _ _ _ resultRef captureClosed with
      | error _ => rfl
      | ok db =>
        rcases complete_effect outcome with rfl | ⟨_, _, rfl⟩ <;> rfl
    · rfl
  | fail loop category context terminal captureClosed =>
    refine .inl ?_
    simp only [step]
    split
    · cases outcome : failWorkerJob w.db _ _ _ category context terminal captureClosed with
      | error _ => rfl
      | ok db =>
        rcases fail_effect outcome with rfl | ⟨_, _, rfl⟩ <;> rfl
    · rfl
  | cancel jobId =>
    refine .inl ?_
    simp only [step]
    cases outcome : cancelJob w.db jobId with
    | error _ => rfl
    | ok db =>
      rw [cancel_effect outcome]
      rfl
  | sweepWrite sweep =>
    refine .inl ?_
    simp only [step]
    split
    · simp only [deadLetterZombie]
      repeat' split
      all_goals rfl
    · rfl

theorem binding_persists {w : World} {e : Event} {hash : List UInt8} {row : Incarnation}
    (bound : find w.db.incarnations hash = some row) :
    ∃ row', find (step credential w e).db.incarnations hash = some row' ∧
      row'.incarnation = row.incarnation := by
  rcases @incarnations_kept credential w e with
    same | ⟨new, rfl⟩ | ⟨other, rfl⟩
  · exact ⟨row, by rw [same]; exact bound, rfl⟩
  · refine ⟨row, ?_, rfl⟩
    simp only [step, registerIncarnation]
    split
    · exact bound
    · by_cases same : new.credentialHash = hash
      · subst same
        rw [insert_taken bound]
        exact bound
      · rw [find_insert_other same]
        exact bound
  · simp only [step, terminateIncarnation, find_update, bound]
    refine ⟨_, rfl, ?_⟩
    simp only
    split <;> rfl

theorem lanes_step {laneOf : String → Lane} {w : World} {e : Event}
    (lanes : ∀ id j, find w.db.jobs id = some j → j.dispatchLane = laneOf j.dedupKey)
    (routed : ∀ request newId, e = .enqueue request newId →
      dispatchLaneForKind request.kind = laneOf request.dedupKey) :
    ∀ id j, find (step credential w e).db.jobs id = some j →
      j.dispatchLane = laneOf j.dedupKey := by
  intro id j' found
  generalize table : (step credential w e).db.jobs = jobs at found
  have effect := step_table credential w e
  rw [table] at effect
  cases effect with
  | same => exact lanes id j' found
  | ends p f keeps idle ends =>
    rw [find_update] at found
    obtain ⟨j, here, rfl⟩ := Option.map_eq_some_iff.mp found
    split
    · obtain ⟨key, lane, _⟩ := ends j
      rw [key, lane]
      exact lanes id j here
    · exact lanes id j here
  | renew loop lease p =>
    rw [find_update] at found
    obtain ⟨j, here, rfl⟩ := Option.map_eq_some_iff.mp found
    split <;> exact lanes id j here
  | enqueue request newId shape =>
    rcases find_admitted found with ⟨j, here, rfl | ⟨key, rfl⟩⟩ | ⟨_, key, lane⟩
    · exact lanes id j' here
    · simp only [recycled, key]
      exact routed request newId shape
    · rw [lane, key]
      exact routed request newId shape
  | claim loop lease facts pick k =>
    rw [find_update] at found
    obtain ⟨j, here, rfl⟩ := Option.map_eq_some_iff.mp found
    split <;> exact lanes id j here

theorem claim_facts {w : World} {loop : Loop} {lease : Duration} {facts : ClaimFacts}
    {pick : Option Uuid} {c : Claim}
    (taken : claimTaken credential w (.claim loop lease facts pick) = some c) :
    w.held loop = none ∧
    (∃ row, find w.db.incarnations (credential loop.worker) = some row ∧
      row.incarnation = loop.worker) ∧
    ∃ j, find w.db.jobs c.jobId = some j ∧ j.dispatchLane = loop.lane ∧
      ∃ j', find (step credential w (.claim loop lease facts pick)).db.jobs c.jobId = some j' ∧
        j'.state = .running ∧ j'.dedupKey = j.dedupKey := by
  simp only [claimTaken, Option.map_eq_some_iff] at taken
  obtain ⟨⟨db, d⟩, taken, rfl⟩ := taken
  have outcome := taken
  obtain ⟨free, j, found, lane, known, rfl, rfl⟩ := take_inversion taken
  refine ⟨free, ?_, j, found, lane, ?_⟩
  · unfold authenticated at known
    split at known
    · rename_i row here
      split at known
      · exact ⟨row, here, Option.some.inj known⟩
      · cases known
    · cases known
  · simp only [step, outcome, QueueDb.updateJobs, find_update, found]
    exact ⟨_, rfl, by simp [claimed], by simp [claimed]⟩

theorem sound_run {laneOf : String → Lane} (initial : Initial laneOf start)
    (history : List Event) (routed : Routed laneOf history) :
    Sound credential laneOf start history := by
  -- Events are consumed from the end, so that the whole past is at hand at each one.
  induction history using List.reverseRecOn with
  | nil =>
    exact ⟨initial.lanes, by simp [initial.idle], by simp [initial.idle], by simp [initial.idle]⟩
  | append_singleton history e ih =>
    have past : Sound credential laneOf start history :=
      ih (fun request newId member => routed request newId (by simp [member]))
    have here : ∀ request newId, e = .enqueue request newId →
        dispatchLaneForKind request.kind = laneOf request.dedupKey :=
      fun request newId shape => routed request newId (by simp [shape])
    refine ⟨?_, ?_, ?_, ?_⟩
    · rw [run_snoc]
      exact lanes_step past.lanes here
    · intro loop c held
      rw [run_snoc] at held ⊢
      rcases held_origin held with old | ⟨lease, facts, pick, rfl, taken⟩
      · obtain ⟨j, found, lane⟩ := past.heldLane loop c old
        obtain ⟨j', after, key⟩ := row_persists found
        exact ⟨j', after, by rw [key]; exact lane⟩
      · obtain ⟨_, _, j, found, lane, j', after, _, key⟩ := claim_facts taken
        exact ⟨j', after, by rw [key, ← past.lanes _ j found]; exact lane⟩
    · intro loop c held
      rw [run_snoc] at held ⊢
      rcases held_origin held with old | ⟨lease, facts, pick, rfl, taken⟩
      · obtain ⟨row, found, name⟩ := past.bound loop c old
        obtain ⟨row', after, kept⟩ := binding_persists found
        exact ⟨row', after, by rw [kept]; exact name⟩
      · obtain ⟨_, ⟨row, found, name⟩, _⟩ := claim_facts taken
        obtain ⟨row', after, kept⟩ := binding_persists found
        exact ⟨row', after, by rw [kept]; exact name⟩
    · intro loop c j held found running owner
      rw [run_snoc] at held
      rcases held_origin held with old | ⟨lease, facts, pick, rfl, taken⟩
      · have origin := found
        rw [run_snoc] at origin
        rcases running_origin origin running owner with
          ⟨lane, lease, facts, pick, rfl, free, sameLane, d, taken, sameJob⟩ | ⟨other, k, before, ran, kept⟩
        · -- The new claim of the row comes from the row's lane, hence from this very loop.
          obtain ⟨k, before, mine⟩ := past.heldLane loop c old
          obtain ⟨j', after, key⟩ := row_persists before
          rw [origin, Option.some.injEq] at after
          subst after
          have onLane := lanes_step past.lanes here c.jobId j origin
          rw [sameLane, key, mine] at onLane
          subst onLane
          rw [old] at free
          cases free
        · exact latest_extend (past.latest loop c k old before ran kept) other found running
      · exact latest_claim taken found running

theorem authenticated_bound {db : QueueDb} {hash : List UInt8} {row : Incarnation}
    {worker : String} (bound : find db.incarnations hash = some row)
    (known : authenticated db hash = some worker) : worker = row.incarnation := by
  simp only [authenticated, bound] at known
  split at known
  · exact (Option.some.inj known).symm
  · cases known

theorem commit_changes {w : World} {outcome : Except QueueError QueueDb} {id : Uuid}
    (changed : find (w.commit outcome).db.jobs id ≠ find w.db.jobs id) :
    ∃ db, outcome = .ok db ∧ find db.jobs id ≠ find w.db.jobs id := by
  cases outcome with
  | error _ => exact absurd rfl changed
  | ok db => exact ⟨db, rfl, changed⟩

theorem update_changes {db : QueueDb} {p : Job → Bool} {f : Job → Job}
    {keeps : ∀ j, (f j).id = j.id} {id : Uuid}
    (changed : find (db.updateJobs p f keeps).jobs id ≠ find db.jobs id) :
    ∃ j, find db.jobs id = some j ∧ p j = true := by
  rw [QueueDb.updateJobs, find_update] at changed
  cases found : find db.jobs id with
  | none => simp [found] at changed
  | some j =>
    refine ⟨j, rfl, ?_⟩
    by_contra miss
    simp [found, miss] at changed

theorem settle_fenced {w : World} {e : Event} {loop : Loop} {id : Uuid}
    (settles : e.settles loop = true)
    (changed : find (step credential w e).db.jobs id ≠ find w.db.jobs id) :
    ∃ c worker j, w.held loop = some c ∧ authenticated w.db (credential loop.worker) = some worker ∧
      find w.db.jobs id = some j ∧ fenced c.jobId worker c.attempt j = true := by
  cases e with
  | tick | register | terminate | enqueue | claim | drop | cancel | sweepRead | sweepWrite
  | sweepUnowned => simp [Event.settles] at settles
  | heartbeat other lease =>
    simp only [Event.settles, decide_eq_true_eq] at settles
    subst settles
    simp only [step] at changed
    split at changed
    · rename_i c held
      obtain ⟨db, outcome, changed⟩ := commit_changes changed
      rcases heartbeat_effect outcome with rfl | ⟨worker, known, rfl⟩
      · exact absurd rfl changed
      · obtain ⟨j, found, hit⟩ := update_changes changed
        exact ⟨c, worker, j, held, known, found, hit⟩
    · exact absurd rfl changed
  | complete other resultRef captureClosed =>
    simp only [Event.settles, decide_eq_true_eq] at settles
    subst settles
    simp only [step] at changed
    split at changed
    · rename_i c held
      obtain ⟨db, outcome, changed⟩ := commit_changes changed
      rcases complete_effect outcome with rfl | ⟨worker, known, rfl⟩
      · exact absurd rfl changed
      · obtain ⟨j, found, hit⟩ := update_changes changed
        exact ⟨c, worker, j, held, known, found, (Bool.and_eq_true _ _ ▸ hit).1⟩
    · exact absurd rfl changed
  | fail other category context terminal captureClosed =>
    simp only [Event.settles, decide_eq_true_eq] at settles
    subst settles
    simp only [step] at changed
    split at changed
    · rename_i c held
      obtain ⟨db, outcome, changed⟩ := commit_changes changed
      rcases fail_effect outcome with rfl | ⟨worker, known, rfl⟩
      · exact absurd rfl changed
      · obtain ⟨j, found, hit⟩ := update_changes changed
        exact ⟨c, worker, j, held, known, found, (Bool.and_eq_true _ _ ▸ hit).1⟩
    · exact absurd rfl changed

/-- As long as the rows of a key stand on one lane, a heartbeat, completion or failure that changes
a row is issued for the most recent claim of that row, and the row has been running ever since. A
worker whose execution was replaced, however often the attempt counter was reset in between,
changes nothing. -/
theorem settlement_is_latest (laneOf : String → Lane) (initial : Initial laneOf start)
    (history : List Event) (routed : Routed laneOf history) (loop : Loop) (e : Event)
    (settles : e.settles loop = true) (id : Uuid)
    (changed : find (run credential start (history ++ [e])).db.jobs id ≠
      find (run credential start history).db.jobs id) :
    ∃ c, (run credential start history).held loop = some c ∧ c.jobId = id ∧
      Latest credential start history c := by
  rw [run_snoc] at changed
  obtain ⟨c, worker, j, held, known, found, hit⟩ := settle_fenced settles changed
  have sound : Sound credential laneOf start history := sound_run initial history routed
  obtain ⟨row, bound, name⟩ := sound.bound loop c held
  have same : worker = loop.worker := (authenticated_bound bound known).trans name
  simp only [fenced, Bool.and_eq_true, decide_eq_true_eq] at hit
  obtain ⟨⟨⟨key, owner⟩, _⟩, running⟩ := hit
  have sameJob : c.jobId = id := key.symm.trans (find_key found)
  refine ⟨c, held, sameJob, ?_⟩
  rw [← sameJob] at found
  exact sound.latest loop c j held found running (by rw [owner, same])

theorem settlement_of_sample_claim :
    ∃ c, (run sampleCredential sampleWorld (sampleClaimed 3)).held sampleLoop = some c ∧
      c.jobId = 7 ∧ Latest sampleCredential sampleWorld (sampleClaimed 3) c := by
  refine settlement_is_latest (fun _ => .default) ⟨fun _ => rfl, ?_⟩ (sampleClaimed 3) ?_
    sampleLoop (.heartbeat sampleLoop 120000000) rfl 7 (by decide)
  · intro id j found
    cases found
  · intro request newId member
    simp only [sampleClaimed, sampleJob, List.mem_cons, Event.enqueue.injEq, reduceCtorEq,
      List.not_mem_nil, or_false, false_or] at member
    rw [member.1]
    rfl

/-- A snapshot job from before its kind had a lane of its own. -/
def legacyRow : Job :=
  { freshJob ⟨.snapshot, ⟨false, false, none, ""⟩, "", "s:snapshot:a", 3, .terminalOrCanceled⟩ 7 0 with
    dispatchLane := .default }

def legacyWorld : World :=
  { sampleWorld with db := ⟨Table.insert Table.empty legacyRow,
      Table.insert Table.empty ⟨"local:worker", List.replicate 32 7, 4, true⟩, Table.empty⟩ }

def fencedLoop : Loop := ⟨"local:worker", .stateFenced⟩

/-- The job is claimed, canceled and asked for again: its row moves to the other lane, with its
attempts counted from the start, and the other loop of the worker claims it. -/
def movedHistory : List Event :=
  [.claim sampleLoop 60000000 sampleFacts (some 7), .cancel 7,
    .enqueue ⟨.snapshot, ⟨false, false, none, ""⟩, "", "s:snapshot:a", 3, .terminalOrCanceled⟩ 8,
    .claim fencedLoop 60000000 sampleFacts (some 7)]

theorem held_movedHistory :
    (run sampleCredential legacyWorld movedHistory).held sampleLoop = some ⟨0, 7, 1⟩ := by
  decide +kernel

theorem not_latest_movedHistory : ¬ Latest sampleCredential legacyWorld movedHistory ⟨0, 7, 1⟩ := by
  rintro ⟨before, e, after, whole, taken, alone, -⟩
  have second : claimTaken sampleCredential (run sampleCredential legacyWorld
      (movedHistory.take 3)) (.claim fencedLoop 60000000 sampleFacts (some 7)) =
      some ⟨1, 7, 1⟩ := by decide +kernel
  rcases before with _ | ⟨_, _ | ⟨_, _ | ⟨_, _ | ⟨_, before⟩⟩⟩⟩
  · obtain ⟨rfl, rfl⟩ := List.cons.inj whole
    exact alone [_, _] _ [] rfl _ second rfl
  · simp only [movedHistory, List.cons_append, List.nil_append, List.cons.injEq] at whole
    obtain ⟨-, rfl, -⟩ := whole
    cases taken
  · simp only [movedHistory, List.cons_append, List.nil_append, List.cons.injEq] at whole
    obtain ⟨-, -, rfl, -⟩ := whole
    cases taken
  · simp only [movedHistory, List.cons_append, List.nil_append, List.cons.injEq] at whole
    obtain ⟨rfl, rfl, rfl, rfl, -⟩ := whole
    cases second.symm.trans taken
  · simp [movedHistory] at whole

/-- The first loop still holds its claim, under the attempt number of the new one. -/
theorem stale_loop_settles :
    ¬ ∀ (credential : String → List UInt8) (start : World) (history : List Event) (loop : Loop)
      (e : Event) (id : Uuid), (∀ loop, start.held loop = none) → e.settles loop = true →
      find (run credential start (history ++ [e])).db.jobs id ≠
        find (run credential start history).db.jobs id →
      ∃ c, (run credential start history).held loop = some c ∧ c.jobId = id ∧
        Latest credential start history c := by
  intro claim
  obtain ⟨c, held, -, latest⟩ := claim sampleCredential legacyWorld movedHistory sampleLoop
    (.complete sampleLoop none (fun _ => true)) 7 (fun _ => rfl) rfl (by decide +kernel)
  rw [held_movedHistory] at held
  obtain rfl := Option.some.inj held
  exact not_latest_movedHistory latest

end Histories

end Kdive.Jobs
