import Kdive.Capacity.Reads
import Kdive.Lib.Trace

/-!
The running total of a budget against the ledger. Every transaction moves both by the same
amount: a ledger row and its charge are written together or not at all, and no other
statement touches either, save the upsert that keeps the total.
-/
namespace Kdive.Capacity
open Table Txn

def ledgerTotal (db : AllocDb) (project : String) : ℚ :=
  ((db.ledger.filter (fun e => e.project = project)).map LedgerEntry.kcuDelta).sum

def spentOf (db : AllocDb) (project : String) : ℚ :=
  ((find db.budgets project).map Budget.spentKcu).getD 0

structure Balanced (s t : AllocDb) : Prop where
  difference : ∀ p, ledgerTotal t p - spentOf t p = ledgerTotal s p - spentOf s p
  budgets : ∀ p, (find s.budgets p).isSome → (find t.budgets p).isSome

instance : Std.Refl Balanced := ⟨fun _ => ⟨fun _ => rfl, fun _ present => present⟩⟩

instance : IsTrans AllocDb Balanced :=
  ⟨fun _ _ _ first second =>
    ⟨fun p => (second.difference p).trans (first.difference p),
      fun p present => second.budgets p (first.budgets p present)⟩⟩

theorem balanced_quiet {s t : AllocDb} (ledger : t.ledger = s.ledger) (budgets : t.budgets = s.budgets) :
    Balanced s t := by
  constructor
  · intro p
    simp only [ledgerTotal, spentOf, ledger, budgets]
  · intro p present
    rw [budgets]
    exact present

section Writes

theorem ledgerTotal_append (db : AllocDb) (entry : LedgerEntry) (project : String) :
    ledgerTotal (db.appendLedger entry) project =
      ledgerTotal db project + if entry.project = project then entry.kcuDelta else 0 := by
  unfold ledgerTotal AllocDb.appendLedger
  split
  · rename_i mine
    simp [List.filter_append, mine]
  · rename_i other
    simp [List.filter_append, other]

theorem find_charge (db : AllocDb) (project other : String) (delta : ℚ) :
    find (db.charge project delta).budgets other =
      (find db.budgets other).map (fun b => if b.project = project then b.charge delta else b) := by
  simp [AllocDb.charge]

theorem spentOf_charge {db : AllocDb} {project : String} {b : Budget} (delta : ℚ)
    (present : find db.budgets project = some b) (other : String) :
    spentOf (db.charge project delta) other =
      spentOf db other + if project = other then delta else 0 := by
  unfold spentOf
  rw [find_charge]
  by_cases same : project = other
  · subst same
    have key : b.project = project := find_key present
    simp [present, key, Budget.charge]
  · rw [if_neg same, add_zero]
    cases found : find db.budgets other with
    | none => rfl
    | some c =>
      have key : c.project = other := find_key found
      have apart : c.project ≠ project := fun clash => same (clash.symm.trans key)
      simp [apart]

theorem find_upsertBudget (db : AllocDb) (project other : String) (limit : ℚ) :
    find (db.upsertBudget project limit).budgets other =
      if other = project then
        some (((find db.budgets other).map (Budget.withLimit limit)).getD ⟨project, limit, 0⟩)
      else find db.budgets other := by
  unfold AllocDb.upsertBudget
  simp only
  have changed : ∀ c, find db.budgets other = some c → c.project = other := fun c => find_key
  by_cases same : other = project
  · subst same
    rw [if_pos rfl]
    cases found : find db.budgets other with
    | none => rw [find_insert_self] <;> simp [found]
    | some c =>
      have key := changed c found
      rw [insert_taken (s := c.withLimit limit)] <;> simp [found, key]
  · rw [if_neg same, find_insert_other (Ne.symm same), find_update]
    cases found : find db.budgets other with
    | none => rfl
    | some c =>
      have apart : c.project ≠ project := fun clash => same ((changed c found).symm.trans clash)
      simp [apart]

theorem balanced_upsertBudget (db : AllocDb) (project : String) (limit : ℚ) :
    Balanced db (db.upsertBudget project limit) := by
  constructor
  · intro p
    have ledger : ledgerTotal (db.upsertBudget project limit) p = ledgerTotal db p := rfl
    have spent : spentOf (db.upsertBudget project limit) p = spentOf db p := by
      unfold spentOf
      rw [find_upsertBudget]
      split
      · cases find db.budgets p <;> rfl
      · rfl
    rw [ledger, spent]
  · intro p present
    rw [find_upsertBudget]
    split
    · rfl
    · exact present

end Writes

section Programs

theorem balanced_record (ctx : RequestContext) (project tool : String) (id : Uuid)
    (transition : Transition) : Keeps Balanced (record ctx project tool id transition) := by
  unfold record
  split
  · exact keeps_modify fun _ => balanced_quiet rfl rfl
  · exact keeps_throw _

theorem balanced_recordSystem (principal project tool : String) (id : Uuid)
    (transition : Transition) :
    Keeps Balanced (recordSystem principal project tool id transition) :=
  keeps_modify fun _ => balanced_quiet rfl rfl

theorem balanced_writer (actor : Actor) (project tool : String) (id : Uuid)
    (transition : Transition) : Keeps Balanced (actor.writer project tool id transition) := by
  cases actor with
  | member ctx => exact balanced_record ctx project tool id transition
  | platform principal => exact balanced_recordSystem principal project tool id transition

theorem balanced_updateState (id : Uuid) (state : AllocationState) :
    Keeps Balanced (updateState id state) := by
  refine keeps_bind (keeps_reads (reads_getAllocation id)) fun found => ?_
  cases found with
  | none => exact keeps_throw _
  | some a =>
    dsimp only
    split
    · exact keeps_modify fun _ => balanced_quiet rfl rfl
    · exact keeps_throw _

theorem balanced_writeDelta (a : Allocation) (event : LedgerEventType) (delta : ℚ) :
    Keeps Balanced (writeDelta a event delta) := by
  refine keeps_bind (keeps_reads (reads_costClassOf a)) fun costClass => ?_
  intro s answer t ran
  -- Between the two writes the sides differ; the charge is reached only with a budget row.
  simp only [applyToSpent, exec_bind, Txn.modify, Txn.get, exec] at ran
  split at ran
  · cases ran
  · rename_i b present
    simp only [exec, Except.ok.injEq, Prod.mk.injEq] at ran
    obtain ⟨_, rfl⟩ := ran
    constructor
    · intro p
      rw [spentOf_charge delta present p]
      have total := ledgerTotal_append s ⟨a.project, a.id, a.resourceId, costClass, event, delta⟩ p
      simp only at total
      have appended : spentOf (s.appendLedger ⟨a.project, a.id, a.resourceId, costClass, event,
          delta⟩) p = spentOf s p := rfl
      have charged : ∀ u : AllocDb, ledgerTotal (u.charge a.project delta) p = ledgerTotal u p :=
        fun u => rfl
      rw [charged, total, appended]
      ring
    · intro p there
      rw [find_charge, Option.isSome_map]
      exact there

theorem balanced_reserve (a : Allocation) (estimate : ℚ) : Keeps Balanced (reserve a estimate) :=
  keeps_bind (keeps_reads (reads_liftExcept _)) fun delta => balanced_writeDelta a .reserved delta

theorem balanced_reconcile (a : Allocation) : Keeps Balanced (reconcile a) := by
  refine keeps_bind keeps_get fun db => ?_
  split
  · exact keeps_pure _
  · refine keeps_bind (keeps_bind keeps_get fun _ => keeps_pure _) fun reserved => ?_
    refine keeps_bind (keeps_reads (reads_actualCost a)) fun actual => ?_
    refine keeps_bind (keeps_reads (reads_liftExcept _)) fun delta => ?_
    exact keeps_bind (balanced_writeDelta a .reconciled delta) fun _ => keeps_pure _

theorem balanced_stampActiveEnded (a : Allocation) (ended : Instant) :
    Keeps Balanced (stampActiveEnded a ended) := by
  refine keeps_bind (keeps_reads (reads_getAllocation a.id)) fun found => ?_
  split
  · exact keeps_pure _
  · exact keeps_bind (keeps_modify fun _ => balanced_quiet rfl rfl) fun _ => keeps_pure _

theorem balanced_recordKeyIfSent (principal project kind : String) (key : Option String) (id : Uuid) :
    Keeps Balanced (recordKeyIfSent principal key project kind id) := by
  cases key with
  | none => exact keeps_pure _
  | some k =>
    refine keeps_bind (keeps_acquire _) fun _ => ?_
    refine keeps_bind keeps_get fun db => ?_
    split
    · exact keeps_throw _
    · exact keeps_modify fun _ => balanced_quiet rfl rfl

theorem balanced_insertAllocation (row : Allocation) : Keeps Balanced (insertAllocation row) := by
  refine keeps_bind (keeps_acquire _) fun _ => ?_
  refine keeps_bind keeps_get fun db => ?_
  split
  · exact keeps_throw _
  · exact keeps_modify fun _ => balanced_quiet rfl rfl

theorem balanced_grant (request : AllocationRequest) (now : Instant) (id : Uuid)
    (windowHours estimate : ℚ) (devices : List PCIeClaim) :
    Keeps Balanced (grant request now id windowHours estimate devices) := by
  refine keeps_bind (balanced_insertAllocation _) fun _ => ?_
  refine keeps_bind (balanced_reserve _ estimate) fun _ => ?_
  refine keeps_bind (balanced_recordKeyIfSent _ _ _ _ id) fun _ => ?_
  exact keeps_bind (balanced_record _ _ _ id _) fun _ => keeps_pure _

theorem balanced_enqueue (request : AllocationRequest) (now : Instant) (id : Uuid) :
    Keeps Balanced (enqueue request now id) := by
  refine keeps_bind (keeps_reads (reads_withinPendingQuota _)) fun within => ?_
  split
  · exact keeps_pure _
  · refine keeps_bind (balanced_insertAllocation _) fun _ => ?_
    refine keeps_bind (balanced_recordKeyIfSent _ _ _ _ id) fun _ => ?_
    exact keeps_bind (balanced_record _ _ _ id _) fun _ => keeps_pure _

theorem balanced_denyOrEnqueue (request : AllocationRequest) (now : Instant) (id : Uuid)
    (denial : Denial) (estimate : ℚ) :
    Keeps Balanced (denyOrEnqueue request now id denial estimate) := by
  unfold denyOrEnqueue
  split
  · exact balanced_enqueue request now id
  · exact keeps_bind (keeps_reads (reads_enrichFundingDenial _ _ _)) fun _ => keeps_pure _

theorem balanced_admitUnderProjectLock (request : AllocationRequest) (now : Instant) (id : Uuid)
    (windowHours estimate : ℚ) :
    Keeps Balanced (admitUnderProjectLock request now id windowHours estimate) := by
  refine keeps_bind (keeps_reads (reads_replayIfSent _ requestKind _)) fun replay => ?_
  cases replay with
  | some stored =>
    dsimp only
    split <;> exact keeps_pure _
  | none =>
    refine keeps_bind (keeps_acquire _) fun _ => ?_
    refine keeps_bind (keeps_reads (reads_admissionGate request estimate)) fun gate => ?_
    cases gate with
    | denied denial => exact balanced_denyOrEnqueue request now id denial estimate
    | devices claims => exact balanced_grant request now id windowHours estimate claims

theorem balanced_requestAllocation (bounds : LeaseBounds) (request : AllocationRequest)
    (now : Instant) (id : Uuid) : Keeps Balanced (requestAllocation bounds request now id) := by
  refine keeps_bind keeps_get fun db => ?_
  split
  · exact keeps_pure _
  · refine keeps_bind ?_ fun _ => keeps_pure _
    refine keeps_bind (keeps_reads (reads_priceWindowAndEstimate bounds _)) fun priced => ?_
    exact keeps_bind (keeps_acquire _) fun _ => balanced_admitUnderProjectLock _ now id _ _

theorem balanced_failQueued (a : Allocation) (category : ErrorCategory) (tool : String) :
    Keeps Balanced (failQueued a category tool) := by
  refine keeps_bind (balanced_updateState a.id .failed) fun _ => ?_
  refine keeps_bind (keeps_modify fun _ => balanced_quiet rfl rfl) fun _ => ?_
  exact balanced_recordSystem _ _ _ _ _

theorem balanced_grantQueued (a : Allocation) (resource : Uuid) (now : Instant)
    (windowHours estimate : ℚ) (devices : List PCIeClaim) :
    Keeps Balanced (grantQueued a resource now windowHours estimate devices) := by
  unfold grantQueued
  dsimp only
  split
  · exact keeps_throw _
  · refine keeps_bind keeps_get fun db => ?_
    split
    · exact keeps_pure _
    · refine keeps_bind (keeps_modify fun _ => balanced_quiet rfl rfl) fun _ => ?_
      refine keeps_bind (balanced_reserve _ estimate) fun _ => ?_
      exact keeps_bind (balanced_recordSystem _ _ _ _ _) fun _ => keeps_pure _

theorem balanced_placeOrTerminate (bounds : LeaseBounds) (now : Instant) (a : Allocation)
    (hosts : List Resource) : Keeps Balanced (placeOrTerminate bounds now a hosts) := by
  induction hosts with
  | nil => exact keeps_pure _
  | cons r rest ih =>
    refine keeps_bind ?_ fun attempt => ?_
    · refine keeps_bind (keeps_reads (reads_liftExcept _)) fun request => ?_
      refine keeps_bind (keeps_reads (reads_priceWindowAndEstimate bounds request)) fun priced => ?_
      refine keeps_bind (keeps_acquire _) fun _ => ?_
      refine keeps_bind (keeps_acquire _) fun _ => ?_
      refine keeps_bind (keeps_reads (reads_admissionGate _ _)) fun gate => ?_
      cases gate with
      | denied denial =>
        dsimp only
        split
        · exact keeps_bind (balanced_failQueued a _ _) fun _ => keeps_pure _
        · exact keeps_pure _
      | devices claims =>
        exact keeps_bind (balanced_grantQueued a r.id now _ _ claims) fun _ => keeps_pure _
    · cases attempt with
      | granted => exact keeps_pure _
      | terminated => exact keeps_pure _
      | wait => exact ih

theorem balanced_promoteOne (bounds : LeaseBounds) (now : Instant) (id : Uuid) :
    Keeps Balanced (promoteOne bounds now id) := by
  refine keeps_bind (keeps_reads (reads_getAllocation id)) fun found => ?_
  cases found with
  | none => exact keeps_pure _
  | some candidate =>
    refine keeps_bind (keeps_acquire _) fun _ => ?_
    refine keeps_bind (keeps_reads (reads_getAllocation id)) fun again => ?_
    split
    · exact keeps_pure _
    · refine keeps_bind (keeps_reads (reads_candidateHosts _)) fun hosts => ?_
      exact keeps_bind (balanced_placeOrTerminate bounds now _ hosts) fun _ => keeps_pure _

theorem balanced_reapOne (selected now : Instant) (maxWait : Duration) (id : Uuid) :
    Keeps Balanced (reapOne selected now maxWait id) := by
  refine keeps_bind (keeps_reads (reads_getAllocation id)) fun found => ?_
  split
  · exact keeps_pure _
  · refine keeps_bind (keeps_acquire _) fun _ => ?_
    refine keeps_bind (keeps_acquire _) fun _ => ?_
    refine keeps_bind (keeps_reads (reads_getAllocation id)) fun again => ?_
    split
    · exact keeps_pure _
    · refine keeps_bind (keeps_reads (reads_getAllocation id)) fun locked => ?_
      cases locked with
      | none => exact keeps_pure _
      | some a => exact keeps_bind (balanced_failQueued a _ _) fun _ => keeps_pure _

variable (actor : Actor)

theorem balanced_transitionAndAudit (id : Uuid) (source target : AllocationState)
    (project : String) :
    Keeps Balanced (transitionAndAudit actor.writer id source target project) :=
  keeps_bind (balanced_updateState id target) fun _ => balanced_writer actor _ _ _ _

theorem balanced_closeOut (a : Allocation) (project : String) :
    Keeps Balanced (closeOut actor.writer a project) := by
  refine keeps_bind (balanced_transitionAndAudit actor _ _ _ _) fun _ => ?_
  exact keeps_bind (balanced_reconcile a) fun _ => keeps_pure _

theorem balanced_releaseHeld (now : Instant) (a : Allocation) (project : String) :
    Keeps Balanced (releaseHeld actor.writer now a project) := by
  refine keeps_bind (balanced_transitionAndAudit actor _ _ _ _) fun _ => ?_
  refine keeps_bind (balanced_stampActiveEnded a now) fun stamped => ?_
  exact balanced_closeOut actor stamped project

theorem balanced_releaseAllocation (boot : BootGuard) (now : Instant) (id : Uuid) :
    Keeps Balanced (releaseAllocation boot actor.writer now id) := by
  refine keeps_bind (keeps_reads (reads_getAllocation id)) fun found => ?_
  cases found with
  | none => exact keeps_pure _
  | some a =>
    refine keeps_bind (keeps_acquire _) fun _ => ?_
    refine keeps_bind (keeps_acquire _) fun _ => ?_
    refine keeps_bind (keeps_reads (reads_getAllocation id)) fun again => ?_
    cases again with
    | none => exact keeps_pure _
    | some current =>
      have refusedOr : ∀ next : Option Uuid → AllocTxn ReleaseOutcome,
          (∀ system, Keeps Balanced (next (some system))) → Keeps Balanced (next none) →
          Keeps Balanced (releaseRefused boot id >>= next) := by
        intro next denied kept
        refine keeps_bind (keeps_reads (reads_releaseRefused boot id)) fun refused => ?_
        cases refused with
        | none => exact kept
        | some system => exact denied system
      dsimp only
      split
      · exact keeps_pure _
      · exact keeps_pure _
      · exact keeps_pure _
      · exact keeps_bind (balanced_transitionAndAudit actor _ _ _ _) fun _ => keeps_pure _
      · exact refusedOr _ (fun _ => keeps_throw _) (balanced_releaseHeld actor now current _)
      · exact refusedOr _ (fun _ => keeps_throw _) (balanced_releaseHeld actor now current _)
      · exact refusedOr _ (fun _ => keeps_throw _) (balanced_closeOut actor current _)

theorem balanced_reclaimUnderLock (boot : BootGuard) (now : Instant) (precondition : Bool)
    (id : Uuid) (project : String) :
    Keeps Balanced (reclaimUnderLock boot actor.writer now precondition id project) := by
  refine keeps_bind (keeps_acquire _) fun _ => ?_
  refine keeps_bind (keeps_acquire _) fun _ => ?_
  refine keeps_bind (keeps_reads (reads_getAllocation id)) fun found => ?_
  cases found with
  | none => exact keeps_pure _
  | some current =>
    dsimp only
    split
    · exact keeps_pure _
    · split
      · exact keeps_pure _
      · split
        · exact keeps_pure _
        · refine keeps_bind (keeps_reads (reads_releaseRefused boot id)) fun refused => ?_
          cases refused with
          | none => exact balanced_releaseHeld actor now current project
          | some system => exact keeps_pure _

theorem balanced_reclaimOrphanedActive (boot : BootGuard) (now : Instant) (stillOrphaned : Bool)
    (id : Uuid) : Keeps Balanced (reclaimOrphanedActive boot now stillOrphaned id) := by
  refine keeps_bind (keeps_reads (reads_getAllocation id)) fun found => ?_
  split
  · exact keeps_pure _
  · exact balanced_reclaimUnderLock (.platform systemPrincipal) boot now stillOrphaned id _

theorem balanced_expireOne (boot : BootGuard) (selected now : Instant) (id : Uuid) :
    Keeps Balanced (expireOne boot selected now id) := by
  refine keeps_bind (keeps_reads (reads_getAllocation id)) fun found => ?_
  split
  · exact keeps_pure _
  · refine keeps_bind (keeps_acquire _) fun _ => ?_
    refine keeps_bind (keeps_acquire _) fun _ => ?_
    refine keeps_bind (keeps_reads (reads_getAllocation id)) fun live => ?_
    split
    · exact keeps_pure _
    · refine keeps_bind (keeps_reads (reads_getAllocation id)) fun lapsed => ?_
      split
      · exact keeps_pure _
      · refine keeps_bind (keeps_reads (reads_guardExternalBootRelease boot id)) fun refused => ?_
        cases refused with
        | some system => exact keeps_pure _
        | none =>
          refine keeps_bind (balanced_stampActiveEnded _ now) fun stamped => ?_
          refine keeps_bind (balanced_updateState id .expired) fun _ => ?_
          refine keeps_bind (balanced_recordSystem _ _ _ _ _) fun _ => ?_
          exact keeps_bind (balanced_reconcile stamped) fun _ => keeps_pure _

theorem balanced_applyRenew (ctx : RequestContext) (a : Allocation) (extension : LeaseExtension)
    (estimate : ℚ) (key : Option String) :
    Keeps Balanced (applyRenew ctx a extension estimate key) := by
  refine keeps_bind (keeps_modify fun _ => balanced_quiet rfl rfl) fun _ => ?_
  refine keeps_bind (balanced_reserve _ estimate) fun _ => ?_
  refine keeps_bind (balanced_recordKeyIfSent _ _ _ key _) fun _ => ?_
  exact keeps_bind (balanced_record ctx _ _ _ _) fun _ => keeps_pure _

theorem balanced_renew (bounds : LeaseBounds) (ctx : RequestContext) (now : Instant) (id : Uuid)
    (extend : WindowInput) (key : Option String) :
    Keeps Balanced (renew bounds ctx now id extend key) := by
  refine keeps_bind (keeps_reads (reads_liftExcept _)) fun hours => ?_
  refine keeps_bind (keeps_reads (reads_getAllocation id)) fun found => ?_
  cases found with
  | none => exact keeps_pure _
  | some a =>
    refine keeps_bind (keeps_acquire _) fun _ => ?_
    refine keeps_bind (keeps_reads (reads_replayIfSent _ renewKind key)) fun replay => ?_
    split
    · split <;> exact keeps_pure _
    · refine keeps_bind (keeps_reads (reads_getAllocation id)) fun again => ?_
      cases again with
      | none => exact keeps_pure _
      | some current =>
        dsimp only
        split
        · exact keeps_pure _
        · split
          · exact keeps_pure _
          · refine keeps_bind (keeps_reads (reads_liftExcept _)) fun extension => ?_
            split
            · exact keeps_pure _
            · refine keeps_bind (keeps_reads (reads_extensionEstimate _ _)) fun estimate => ?_
              refine keeps_bind (keeps_reads (reads_withinBudget _ _)) fun within => ?_
              split
              · exact keeps_pure _
              · exact balanced_applyRenew ctx current _ estimate key

theorem balanced_activate (ctx : RequestContext) (id systemId : Uuid) (accel : Option String)
    (withinQuota : Bool) : Keeps Balanced (activate ctx id systemId accel withinQuota) := by
  refine keeps_bind (keeps_reads (reads_getAllocation id)) fun found => ?_
  cases found with
  | none => exact keeps_pure _
  | some probe =>
    dsimp only
    split
    · exact keeps_pure _
    · refine keeps_bind (keeps_acquire _) fun _ => ?_
      refine keeps_bind (keeps_acquire _) fun _ => ?_
      refine keeps_bind (keeps_reads (reads_getAllocation id)) fun again => ?_
      cases again with
      | none => exact keeps_pure _
      | some a =>
        refine keeps_bind keeps_get fun db => ?_
        split
        · exact keeps_pure _
        · split
          · exact keeps_pure _
          · refine keeps_bind (keeps_modify fun _ => balanced_quiet rfl rfl) fun _ => ?_
            refine keeps_bind (balanced_record ctx _ _ _ _) fun _ => ?_
            refine keeps_bind (balanced_updateState id .active) fun _ => ?_
            exact keeps_bind (balanced_record ctx _ _ _ _) fun _ => keeps_pure _

theorem balanced_setBudget (ctx : RequestContext) (project : String) (limit : ℚ) :
    Keeps Balanced (setBudget ctx project limit) := by
  unfold setBudget
  split
  · exact keeps_pure _
  · refine keeps_bind (keeps_modify fun s => balanced_upsertBudget s project limit) fun _ => ?_
    exact keeps_bind (balanced_record ctx _ _ _ _) fun _ => keeps_pure _

theorem balanced_setQuota (ctx : RequestContext) (project : String)
    (maxConcurrent maxPending : Int) :
    Keeps Balanced (setQuota ctx project maxConcurrent maxPending) := by
  unfold setQuota
  split
  · exact keeps_pure _
  · refine keeps_bind (keeps_modify fun _ => balanced_quiet rfl rfl) fun _ => ?_
    exact keeps_bind (balanced_record ctx _ _ _ _) fun _ => keeps_pure _

end Programs

theorem balanced_program (op : Operation) : Keeps Balanced op.program := by
  have unanswer : ∀ {α : Type} {p : AllocTxn α}, Keeps Balanced p →
      Keeps Balanced (unanswered p) := fun kept => keeps_bind kept fun _ => keeps_pure ()
  cases op with
  | request bounds input now id => exact unanswer (balanced_requestAllocation bounds input now id)
  | promote bounds now id => exact unanswer (balanced_promoteOne bounds now id)
  | reapQueued selected now maxWait id => exact unanswer (balanced_reapOne selected now maxWait id)
  | release boot actor now id => exact unanswer (balanced_releaseAllocation actor boot now id)
  | reclaim boot now orphaned id =>
    exact unanswer (balanced_reclaimOrphanedActive boot now orphaned id)
  | expire boot selected now id => exact unanswer (balanced_expireOne boot selected now id)
  | renew bounds ctx now id extend key =>
    exact unanswer (balanced_renew bounds ctx now id extend key)
  | activate ctx id systemId accel within =>
    exact unanswer (balanced_activate ctx id systemId accel within)
  | openBilling system id now =>
    exact keeps_bind (keeps_acquire _) fun _ => keeps_modify fun _ => balanced_quiet rfl rfl
  | setBudget ctx project limit => exact unanswer (balanced_setBudget ctx project limit)
  | setQuota ctx project maxConcurrent maxPending =>
    exact unanswer (balanced_setQuota ctx project maxConcurrent maxPending)
  | changeCatalog change => exact keeps_modify fun _ => balanced_quiet rfl rfl

section Runs

def serial (db : AllocDb) (op : Operation) : AllocDb := commit op.program db

def Accounted (project : String) (db : AllocDb) : Prop :=
  ∃ b, find db.budgets project = some b ∧ b.spentKcu = ledgerTotal db project

theorem accounted_of_balanced {project : String} {s t : AllocDb} (kept : Balanced s t)
    (accounted : Accounted project s) : Accounted project t := by
  obtain ⟨b, found, agrees⟩ := accounted
  have present : (find t.budgets project).isSome := kept.budgets project (by rw [found]; rfl)
  obtain ⟨c, found'⟩ := Option.isSome_iff_exists.mp present
  refine ⟨c, found', ?_⟩
  have difference := kept.difference project
  simp only [spentOf, found, found', Option.map_some, Option.getD_some] at difference
  linarith

theorem accounted_serial {project : String} {db : AllocDb} (accounted : Accounted project db)
    (op : Operation) : Accounted project (serial db op) :=
  accounted_of_balanced (keeps_commit (balanced_program op) db) accounted

/-- The running total equals the ledger after every commit of every serial run, and a
transaction that raises leaves both as they were. -/
theorem spent_equals_ledger {project : String} {init : AllocDb} {b : Budget}
    (funded : find init.budgets project = some b) (unspent : b.spentKcu = 0)
    (unused : ∀ e ∈ init.ledger, e.project ≠ project) (ops : List Operation) :
    Trace.Along serial (fun db op => Accounted project (serial db op) ∧
      ∀ e, exec op.program db = .error e →
        (serial db op).budgets = db.budgets ∧ (serial db op).ledger = db.ledger) init ops := by
  have start : Accounted project init := by
    refine ⟨b, funded, ?_⟩
    have none : init.ledger.filter (fun e => e.project = project) = [] := by
      simpa using unused
    rw [unspent, ledgerTotal, none]
    rfl
  have keeps : ∀ db op, Accounted project db → True → Accounted project (serial db op) :=
    fun db op accounted _ => accounted_serial accounted op
  refine Trace.along_of_invariant keeps ?_ start (Trace.along_of_forall (fun _ _ => trivial) init ops)
  intro db op accounted _
  refine ⟨accounted_serial accounted op, ?_⟩
  intro e raised
  rw [serial, commit_of_raise raised]
  exact ⟨rfl, rfl⟩

def sampleHost : Resource where
  id := 7
  createdAt := 0
  kind := "local"
  pool := none
  costClass := "local"
  status := .available
  cordoned := false
  ownerProject := none
  affinityAllowlist := []
  allocationCap := some 1
  vcpus := some 8
  memoryMb := some 16384
  diskGb := none
  guestArches := []
  pcieDevices := []

def sampleDb (limit : ℚ) : AllocDb where
  allocations := Table.empty
  resources := Table.insert Table.empty sampleHost
  budgets := Table.insert Table.empty ⟨"demo", limit, 0⟩
  quotas := Table.insert Table.empty ⟨"demo", 1, 1⟩
  costClasses := Table.insert Table.empty ⟨"local", 1⟩
  systems := Table.empty
  idempotencyKeys := Table.empty
  ledger := []
  audit := []

def sampleBounds : LeaseBounds := ⟨1, 4⟩

def sampleRequest : AllocationRequest where
  ctx := ⟨"alice", ["demo"]⟩
  resource := sampleHost
  project := "demo"
  selector := ⟨1, 0⟩
  window := none
  idempotencyKey := none
  diskGb := none
  shape := none
  pcieSpecs := []
  onCapacity := .deny
  requestedKind := none
  requestedResourceId := none
  requestedPool := none
  arch := none

def sampleRun : List Operation :=
  [.request sampleBounds sampleRequest 0 1, .setBudget ⟨"root", ["demo"]⟩ "demo" 3,
    .renew sampleBounds ⟨"alice", ["demo"]⟩ 1000000 1 (.hours 1) none,
    .release ⟨fun _ => false, none⟩ (.member ⟨"alice", ["demo"]⟩) 2000000 1]

theorem sample_spent_equals_ledger :
    Trace.Along serial (fun db op => Accounted "demo" (serial db op) ∧
      ∀ e, exec op.program db = .error e →
        (serial db op).budgets = db.budgets ∧ (serial db op).ledger = db.ledger)
      (sampleDb 10) sampleRun :=
  spent_equals_ledger (b := ⟨"demo", 10, 0⟩) (by decide) rfl (by decide) sampleRun

end Runs

end Kdive.Capacity
