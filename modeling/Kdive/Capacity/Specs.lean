import Kdive.Capacity.Lifecycle

/-!
What the statements of the allocation services do to the writes of their transaction, one
specification for each, whatever the other transactions do between them.
-/
namespace Kdive.Capacity
open Table Txn

variable {steady : Prop} {H : Set LockScope} {s : AllocDb} {w : AllocDb → AllocDb}

/-- The same allocations, ledger and budgets, whatever else is written. -/
def Agree (v w : AllocDb → AllocDb) : Prop :=
  ∀ db, (v db).allocations = (w db).allocations ∧ (v db).ledger = (w db).ledger ∧
    (v db).budgets = (w db).budgets

theorem Agree.refl (w : AllocDb → AllocDb) : Agree w w := fun _ => ⟨rfl, rfl, rfl⟩

theorem Agree.trans {u v w : AllocDb → AllocDb} (first : Agree u v) (second : Agree v w) :
    Agree u w := by
  intro db
  obtain ⟨allocations, ledger, budgets⟩ := first db
  obtain ⟨allocations', ledger', budgets'⟩ := second db
  exact ⟨allocations.trans allocations', ledger.trans ledger', budgets.trans budgets'⟩

section Ledger

theorem wp_liftExcept {α : Type} {Q : α → Set LockScope → (AllocDb → AllocDb) → AllocDb → Prop}
    {answer : Except AllocError α} (post : ∀ a, answer = .ok a → Q a H w s) :
    wp (capacity steady) Q (liftExcept answer) H w s := by
  cases answer with
  | ok a => exact post a rfl
  | error e => trivial

variable {Q : Unit → Set LockScope → (AllocDb → AllocDb) → AllocDb → Prop}

theorem wp_getAllocation
    {Q : Option Allocation → Set LockScope → (AllocDb → AllocDb) → AllocDb → Prop} {id : Uuid}
    (post : ∀ t, (capacity steady).Sound t → Rely steady H s t →
      Q (find (w t).allocations id) H w t) :
    wp (capacity steady) Q (getAllocation id) H w s := by
  simp only [getAllocation, wp_bind, wp_get, wp_pure]
  exact post

theorem wp_record {ctx : RequestContext} {project tool : String} {id : Uuid}
    {transition : Transition} (post : ∀ v, Agree v w → Q () H v s) :
    wp (capacity steady) Q (record ctx project tool id transition) H w s := by
  unfold record
  split
  · exact post _ fun _ => ⟨rfl, rfl, rfl⟩
  · trivial

theorem wp_recordSystem {principal project tool : String} {id : Uuid} {transition : Transition}
    (post : ∀ v, Agree v w → Q () H v s) :
    wp (capacity steady) Q (recordSystem principal project tool id transition) H w s :=
  post _ fun _ => ⟨rfl, rfl, rfl⟩

theorem wp_writer {actor : Actor} {project tool : String} {id : Uuid} {transition : Transition}
    (post : ∀ v, Agree v w → Q () H v s) :
    wp (capacity steady) Q (actor.writer project tool id transition) H w s := by
  cases actor with
  | member ctx => exact wp_record post
  | platform principal => exact wp_recordSystem post

theorem wp_updateState {id : Uuid} {state : AllocationState}
    (post : ∀ t a, (capacity steady).Sound t → Rely steady H s t →
      find (w t).allocations id = some a → state ∈ a.state.next →
      Q () H (fun db => (w db).updateAllocation id (Allocation.moveTo state)
        (Allocation.moveTo_id state)) t) :
    wp (capacity steady) Q (updateState id state) H w s := by
  rw [updateState, wp_bind]
  apply wp_getAllocation
  intro t sound moved
  split
  · trivial
  · rename_i a found
    split
    · rename_i legal
      exact post t a sound moved found legal
    · trivial

def charged (w : AllocDb → AllocDb) (entry : LedgerEntry) (db : AllocDb) : AllocDb :=
  ((w db).appendLedger entry).charge entry.project entry.kcuDelta

theorem wp_writeDelta {a : Allocation} {event : LedgerEventType} {delta : ℚ}
    (post : ∀ t entry, (capacity steady).Sound t → Rely steady H s t → entry.project = a.project →
      entry.allocationId = a.id → entry.eventType = event → entry.kcuDelta = delta →
      (∃ b, find (w t).budgets a.project = some b) → Q () H (charged w entry) t) :
    wp (capacity steady) Q (writeDelta a event delta) H w s := by
  simp only [writeDelta, costClassOf, applyToSpent, wp_bind, wp_get, wp_modify]
  intro t _ moved
  split
  · rename_i host _
    simp only [wp_pure]
    intro u sound moved'
    split
    · trivial
    · rename_i b present
      exact post u ⟨a.project, a.id, a.resourceId, host.costClass, event, delta⟩ sound
        (rely_trans moved moved') rfl rfl rfl rfl ⟨b, present⟩
  · trivial

theorem wp_reserve {a : Allocation} {estimate : ℚ}
    (post : ∀ t entry, (capacity steady).Sound t → Rely steady H s t → entry.project = a.project →
      entry.allocationId = a.id → entry.eventType = .reserved →
      quantizeKcu estimate = .ok entry.kcuDelta →
      (∃ b, find (w t).budgets a.project = some b) → Q () H (charged w entry) t) :
    wp (capacity steady) Q (reserve a estimate) H w s := by
  rw [reserve, wp_bind]
  apply wp_liftExcept
  intro delta rounded
  apply wp_writeDelta
  intro t entry sound moved project id event amount funded
  exact post t entry sound moved project id event (by rw [amount]; exact rounded) funded

theorem wp_reconcile {Q : ℚ → Set LockScope → (AllocDb → AllocDb) → AllocDb → Prop}
    {a : Allocation}
    (metered : ∀ t, (capacity steady).Sound t → Rely steady H s t →
      ∃ b, find (w t).budgets a.project = some b)
    (post : ∀ K t entry, H ⊆ K → (capacity steady).Sound t → Rely steady H s t →
      entry.project = a.project → entry.allocationId = a.id → entry.eventType = .reconciled →
      Q entry.kcuDelta K (charged w entry) t) :
    wp (capacity steady) Q (reconcile a) H w s := by
  simp only [reconcile, wp_bind, wp_get]
  intro t sound moved
  obtain ⟨b, present⟩ := metered t sound moved
  rw [present]
  simp only [wp_bind, reservedSum, wp_get, wp_pure]
  intro u sound' moved'
  apply wp_reads (reads_actualCost a) sound'
  intro actual K t' grown sound'' moved''
  apply wp_liftExcept
  intro delta _
  apply wp_writeDelta
  intro v entry last moved₃ project id event amount _
  subst amount
  refine post K v entry grown last ?_ project id event
  exact rely_trans moved (rely_trans moved' (rely_trans moved'' (rely_mono grown moved₃)))

end Ledger

section Rows

/-- The writes touch the row of `target` only, as `h` says, and neither ledger nor budgets. -/
structure Rewrites (w : AllocDb → AllocDb) (target : Uuid)
    (h : Option Allocation → Option Allocation) : Prop where
  row : ∀ db, find (w db).allocations target = h (find db.allocations target)
  others : ∀ db other, other ≠ target → find (w db).allocations other = find db.allocations other
  ledger : ∀ db, (w db).ledger = db.ledger
  budgets : ∀ db, (w db).budgets = db.budgets

variable {target : Uuid} {h : Option Allocation → Option Allocation}

theorem rewrites_nothing (target : Uuid) : Rewrites id target id :=
  ⟨fun _ => rfl, fun _ _ _ => rfl, fun _ => rfl, fun _ => rfl⟩

theorem Rewrites.agree {v : AllocDb → AllocDb} (rewrites : Rewrites w target h) (agree : Agree v w) :
    Rewrites v target h := by
  constructor
  · intro db
    rw [(agree db).1, rewrites.row]
  · intro db other apart
    rw [(agree db).1, rewrites.others db other apart]
  · intro db
    rw [(agree db).2.1, rewrites.ledger]
  · intro db
    rw [(agree db).2.2, rewrites.budgets]

theorem Rewrites.updates (rewrites : Rewrites w target h) {p : Allocation → Bool}
    {f : Allocation → Allocation} (keeps : ∀ a, (f a).id = a.id)
    (only : ∀ a, p a = true → a.id = target) :
    Rewrites (fun db => (w db).updateAllocations p f keeps) target
      (fun old => (h old).map (fun a => if p a then f a else a)) := by
  constructor
  · intro db
    simp only [AllocDb.updateAllocations, find_update, rewrites.row]
  · intro db other apart
    simp only [AllocDb.updateAllocations, find_update, rewrites.others db other apart]
    cases found : find db.allocations other with
    | none => rfl
    | some a =>
      have key : a.id = other := find_key found
      have skipped : p a = false := by
        rw [Bool.eq_false_iff]
        intro hit
        exact apart (key.symm.trans (only a hit))
      simp [skipped]
  · exact rewrites.ledger
  · exact rewrites.budgets

theorem Rewrites.inserts {row : Allocation} (rewrites : Rewrites w row.id h) :
    Rewrites (fun db => (w db).insertAllocation row) row.id (fun old => some ((h old).getD row)) := by
  constructor
  · intro db
    have before := rewrites.row db
    simp only [AllocDb.insertAllocation]
    cases taken : h (find db.allocations row.id) with
    | none =>
      rw [taken] at before
      rw [find_insert_self before]
      rfl
    | some a =>
      rw [taken] at before
      rw [insert_taken before, before]
      rfl
  · intro db other apart
    simp only [AllocDb.insertAllocation]
    rw [find_insert_other (Ne.symm apart), rewrites.others db other apart]
  · exact rewrites.ledger
  · exact rewrites.budgets

variable {v : AllocDb → AllocDb} {T : AllocDb} {old : Option Allocation} (new : Allocation)

theorem Rewrites.move (rewrites : Rewrites w target h) (agree : Agree v w)
    (before : find T.allocations target = old) (made : h old = some new)
    (project : .project new.project ∈ H) (key : old = none → .allocationKey target ∈ H)
    (legal : Legal steady H T old new []) : Move steady H T (v T) := by
  have rewrites := rewrites.agree agree
  refine .change target old new [] ⟨before, ?_, rewrites.others T, ?_, ?_, ?_, ?_, project, key, legal⟩
  · rw [rewrites.row, before, made]
  · rw [rewrites.ledger, List.append_nil]
  · intro e member
    cases member
  · intro p
    rw [rewrites.budgets]
    cases find T.budgets p with
    | none => rfl
    | some b => simp [Budget.charge]
  · intro some
    exact absurd rfl some

theorem Rewrites.move_charged {entry : LedgerEntry} (rewrites : Rewrites w target h)
    (agree : Agree v (charged w entry)) (before : find T.allocations target = old)
    (made : h old = some new) (owner : entry.project = new.project) (mine : entry.allocationId = target)
    (funded : ∃ b, find T.budgets new.project = some b) (project : .project new.project ∈ H)
    (key : old = none → .allocationKey target ∈ H) (legal : Legal steady H T old new [entry]) :
    Move steady H T (v T) := by
  obtain ⟨allocations, ledger, budgets⟩ := agree T
  refine .change target old new [entry] ⟨before, ?_, ?_, ?_, ?_, ?_, ?_, project, key, legal⟩
  · rw [allocations]
    change find (w T).allocations target = some new
    rw [rewrites.row, before, made]
  · intro other apart
    rw [allocations]
    exact rewrites.others T other apart
  · rw [ledger]
    change (w T).ledger ++ [entry] = T.ledger ++ [entry]
    rw [rewrites.ledger]
  · intro e member
    rw [List.mem_singleton] at member
    subst member
    exact ⟨owner, mine⟩
  · intro p
    rw [budgets, charged, find_charge, owner]
    change (find (w T).budgets p).map _ = _
    rw [rewrites.budgets]
    simp
  · intro _
    obtain ⟨b, present⟩ := funded
    rw [present]
    rfl

theorem commits_still {α : Type} {a : α} (agree : Agree v id) :
    Commits (capacity steady) a H v s := by
  intro t _ _
  obtain ⟨allocations, ledger, budgets⟩ := agree t
  exact .quiet (.refl_of_eq allocations ledger budgets)

end Rows

end Kdive.Capacity
