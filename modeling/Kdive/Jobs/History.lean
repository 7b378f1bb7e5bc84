import Kdive.Jobs.Queue
import Kdive.Lib.Trace

/-!
Histories of the job queue. A world is the database together with what every worker lane
loop and every running sweep remembers between two statements. Loops obey the discipline
of the worker: at most one claim is held, and it is settled only with its own attempt
number. Everything else may happen in any order and any number of times.
-/
namespace Kdive.Jobs
open Table

structure Loop where
  worker : String
  lane : Lane
  deriving DecidableEq

/-- What a loop keeps of a claim it made. `number` counts the claims of the history. -/
structure Claim where
  number : Nat
  jobId : Uuid
  attempt : Nat
  deriving DecidableEq

structure World where
  db : QueueDb
  clock : Instant
  claims : Nat
  held : Loop → Option Claim
  candidates : Nat → List Uuid

inductive Event where
  | tick (elapsed : Nat)
  | register (row : Incarnation)
  | terminate (hash : List UInt8)
  | enqueue (request : EnqueueRequest) (newId : Uuid)
  | claim (loop : Loop) (lease : Duration) (facts : ClaimFacts) (pick : Option Uuid)
  | heartbeat (loop : Loop) (lease : Duration)
  | complete (loop : Loop) (resultRef : Option String) (captureClosed : Job → Bool)
  | fail (loop : Loop) (category : ErrorCategory) (context : List (String × String))
      (terminal : Bool) (captureClosed : Job → Bool)
  | drop (loop : Loop)
  | cancel (jobId : Uuid)
  | sweepRead (sweep : Nat) (age : Nat)
  | sweepWrite (sweep : Nat)
  | sweepUnowned (unowned : Job → Bool)

section Steps

-- The credential each worker process was started with.
variable (credential : String → List UInt8)

def World.commit (w : World) (outcome : Except QueueError QueueDb) : World :=
  match outcome with
  | .ok db => { w with db := db }
  | .error _ => w

def Loop.request (loop : Loop) (lease : Duration) : ClaimRequest :=
  { workerId := loop.worker, credentialHash := credential loop.worker, lease := lease
    acceptedLanes := [loop.lane] }

def takeClaim (w : World) (loop : Loop) (lease : Duration) (facts : ClaimFacts)
    (pick : Option Uuid) : Option (QueueDb × Claim) :=
  match w.held loop with
  | some _ => none
  | none =>
    match claimWorkerJob w.db (loop.request credential lease) facts pick w.clock with
    | .ok (db, some j) => some (db, ⟨w.claims, j.id, j.attempt⟩)
    | .ok (_, none) => none
    | .error _ => none

def registerIncarnation (db : QueueDb) (row : Incarnation) : QueueDb :=
  if db.incarnations.rows.any (fun w => w.incarnation = row.incarnation) then db
  else { db with incarnations := Table.insert db.incarnations row }

def step (w : World) : Event → World
  | .tick elapsed => { w with clock := w.clock + elapsed }
  | .register row => { w with db := registerIncarnation w.db row }
  | .terminate hash => { w with db := terminateIncarnation w.db hash }
  | .enqueue request newId => w.commit (enqueueWithStatus w.db request newId w.clock)
  | .claim loop lease facts pick =>
    match takeClaim credential w loop lease facts pick with
    | some (db, claim) => { w with
        db := db, claims := w.claims + 1, held := Function.update w.held loop (some claim) }
    | none => w
  | .heartbeat loop lease =>
    match w.held loop with
    | some c => w.commit ((heartbeatWorkerJob w.db c.jobId (credential loop.worker) c.attempt lease
        w.clock).map Prod.fst)
    | none => w
  | .complete loop resultRef captureClosed =>
    match w.held loop with
    | some c => w.commit (completeWorkerJob w.db c.jobId (credential loop.worker) c.attempt
        resultRef captureClosed)
    | none => w
  | .fail loop category context terminal captureClosed =>
    match w.held loop with
    | some c => w.commit (failWorkerJob w.db c.jobId (credential loop.worker) c.attempt category
        context terminal captureClosed)
    | none => w
  | .drop loop => { w with held := Function.update w.held loop none }
  | .cancel jobId => w.commit (cancelJob w.db jobId)
  | .sweepRead sweep age =>
    { w with candidates := Function.update w.candidates sweep (zombieIds w.db (w.clock - age)) }
  | .sweepWrite sweep =>
    match w.candidates sweep with
    | jobId :: rest =>
      { w with
        db := deadLetterZombie w.db jobId
        candidates := Function.update w.candidates sweep rest }
    | [] => w
  | .sweepUnowned unowned =>
    { w with db := deadLetterUnownedExternalBootJobs w.db unowned w.clock }

def run (w : World) (history : List Event) : World := Trace.run (step credential) w history

@[simp] theorem run_nil (w : World) : run credential w [] = w := rfl

theorem run_snoc (w : World) (history : List Event) (e : Event) :
    run credential w (history ++ [e]) = step credential (run credential w history) e :=
  Trace.run_snoc (step credential) w history e

def claimTaken (w : World) : Event → Option Claim
  | .claim loop lease facts pick => (takeClaim credential w loop lease facts pick).map Prod.snd
  | _ => none

def Event.settles (e : Event) (loop : Loop) : Bool :=
  match e with
  | .heartbeat l _ => decide (l = loop)
  | .complete l _ _ => decide (l = loop)
  | .fail l _ _ _ _ => decide (l = loop)
  | _ => false

end Steps

section Sample

def sampleLoop : Loop := ⟨"local:worker", .default⟩

def sampleCredential : String → List UInt8 := fun _ => List.replicate 32 7

def sampleWorld : World :=
  { db := ⟨empty, empty, empty⟩, clock := 0, claims := 0, held := fun _ => none
    candidates := fun _ => [] }

def sampleFacts : ClaimFacts :=
  ⟨fun _ => false, fun _ => false, fun _ => true, fun _ => false⟩

def sampleJob (maxAttempts : Int) (recycle : JobRecyclePolicy) : Event :=
  .enqueue ⟨.power, ⟨false, false, none, ""⟩, "", "s:power:on", maxAttempts, recycle⟩ 7

def sampleClaimed (maxAttempts : Int) : List Event :=
  [.register ⟨"local:worker", List.replicate 32 7, 4, true⟩, sampleJob maxAttempts .never,
    .claim sampleLoop 60000000 sampleFacts (some 7)]

end Sample

end Kdive.Jobs
