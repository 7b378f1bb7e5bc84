import Kdive.Capacity.Ending

/-!
The ledger of one allocation over every interleaving of the operations: reservations while it
holds its slot, one reconciliation in the transaction that ends it, and nothing afterwards.
-/
namespace Kdive.Capacity
open Table Txn

def starts (p : AllocTxn Unit) : Prop := ∃ op : Operation, p = op.program

theorem safe_starts {steady : Prop} (p : AllocTxn Unit) (begun : starts p) :
    Safe (capacity steady) p := by
  obtain ⟨op, rfl⟩ := begun
  exact safe_program op

/-- Nothing has been allocated or charged yet; everything else is arbitrary. -/
structure Unused (db : AllocDb) : Prop where
  allocations : db.allocations = Table.empty
  ledger : db.ledger = []

theorem lifecycle_unused {steady : Prop} {db : AllocDb} (unused : Unused db) :
    Lifecycle steady db := by
  have missing : ∀ id, find db.allocations id = none := by
    intro id
    rw [unused.allocations]
    exact find_empty id
  have absent : ∀ {id a}, find db.allocations id = some a → False := by
    intro id a found
    rw [missing id] at found
    cases found
  refine ⟨?_, ?_, ?_, ?_, ?_, ?_⟩
  · intro e member
    rw [unused.ledger] at member
    cases member
  · intro e member
    rw [unused.ledger] at member
    cases member
  · intro id a found
    exact (absent found).elim
  · intro id a found
    exact (absent found).elim
  · intro id id' a a' r found
    exact (absent found).elim
  · intro _ id a found
    exact (absent found).elim

section Events

def Received (db : AllocDb) (id : Uuid) : Prop :=
  ∃ e ∈ entriesOf db id, e.eventType = .reserved

def Closed (db : AllocDb) (id : Uuid) : Prop :=
  ∃ a, find db.allocations id = some a ∧ (a.state = .released ∨ a.state = .expired)

def Open (db : AllocDb) (id : Uuid) : Prop :=
  ∃ a, find db.allocations id = some a ∧ a.state.terminal = false

def reconciledCount (db : AllocDb) (id : Uuid) : Nat :=
  (entriesOf db id).countP (fun e => e.eventType = .reconciled)

theorem reconciledCount_eq (db : AllocDb) (id : Uuid) :
    reconciledCount db id = (eventsOf db id).count .reconciled := by
  rw [reconciledCount, eventsOf, List.count, List.countP_map]
  rfl

theorem received_iff (db : AllocDb) (id : Uuid) :
    Received db id ↔ LedgerEventType.reserved ∈ eventsOf db id := by
  simp [Received, eventsOf]

theorem count_reserved {events : List LedgerEventType} (reserved : Reserved events) :
    events.count .reconciled = 0 := by
  rw [List.count_eq_zero]
  intro member
  cases reserved.2 _ member

theorem count_settled {events : List LedgerEventType} (settled : Settled events) :
    events.count .reconciled = 1 := by
  obtain ⟨reservations, reserved, rfl⟩ := settled
  rw [List.count_append, count_reserved reserved]
  rfl

variable {steady : Prop} {db : AllocDb} {id : Uuid}

theorem settled_of_received {state : AllocationState} {events : List LedgerEventType}
    (fits : Fits state events) (ended : state = .released ∨ state = .expired)
    (charged : LedgerEventType.reserved ∈ events) : Settled events := by
  rcases ended with rfl | rfl
  · rcases fits with none | settled
    · rw [none] at charged
      cases charged
    · exact settled
  · exact fits

theorem ended_of_reconciled {state : AllocationState} {events : List LedgerEventType}
    (fits : Fits state events) (member : LedgerEventType.reconciled ∈ events) :
    (state = .released ∨ state = .expired) ∧ Settled events := by
  have none : events ≠ [] := List.ne_nil_of_mem member
  have unsettled : ¬ Reserved events := fun reserved => by cases reserved.2 _ member
  cases state with
  | requested => exact (none fits).elim
  | failed => exact (none fits).elim
  | granted => exact (unsettled fits).elim
  | active => exact (unsettled fits).elim
  | releasing => exact (unsettled fits).elim
  | expired => exact ⟨.inr rfl, fits⟩
  | released => exact ⟨.inl rfl, fits.resolve_left none⟩

theorem reserved_of_settled {events : List LedgerEventType} (settled : Settled events) :
    LedgerEventType.reserved ∈ events := by
  obtain ⟨reservations, ⟨some, all⟩, rfl⟩ := settled
  obtain ⟨event, more, rfl⟩ := List.exists_cons_of_ne_nil some
  have first := all event List.mem_cons_self
  rw [first]
  exact List.mem_append_left _ List.mem_cons_self

theorem reconciledCount_of_closed (life : Lifecycle steady db) (received : Received db id)
    (closed : Closed db id) : reconciledCount db id = 1 := by
  obtain ⟨a, found, ended⟩ := closed
  rw [reconciledCount_eq]
  exact count_settled (settled_of_received (life.fits id a found) ended
    ((received_iff db id).mp received))

theorem received_closed_of_reconciled (life : Lifecycle steady db)
    (member : LedgerEventType.reconciled ∈ eventsOf db id) : Received db id ∧ Closed db id := by
  cases found : find db.allocations id with
  | none =>
    rw [life.events_missing found] at member
    cases member
  | some a =>
    obtain ⟨ended, settled⟩ := ended_of_reconciled (life.fits id a found) member
    exact ⟨(received_iff db id).mpr (reserved_of_settled settled), a, found, ended⟩

theorem reconciledCount_otherwise (life : Lifecycle steady db)
    (not : ¬ (Received db id ∧ Closed db id)) : reconciledCount db id = 0 := by
  rw [reconciledCount_eq, List.count_eq_zero]
  exact fun member => not (received_closed_of_reconciled life member)

end Events

section Steps

variable {steady : Prop} {H : Set LockScope} {s t : AllocDb} {id : Uuid}

/-- A move that adds a reconciliation ends the allocation; none adds to an ended one. -/
theorem entries_of_move (move : Move steady H s t) :
    entriesOf t id = entriesOf s id ∨
      (∃ e, entriesOf t id = entriesOf s id ++ [e] ∧ e.eventType = .reconciled ∧ Open s id ∧
        Closed t id) ∨
      (∃ entries, entriesOf t id = entriesOf s id ++ entries ∧ ¬ Closed s id ∧
        ∀ e ∈ entries, e.eventType = .reserved) := by
  cases move with
  | quiet quiet => exact .inl (by rw [entriesOf, quiet.ledger]; rfl)
  | change target old new entries change =>
    by_cases same : id = target
    · subst same
      have added := entriesOf_change change
      have before := change.before
      -- Whatever may receive a reservation is not an ended row.
      have running : ∀ a, find s.allocations id = some a → a.state.occupying ∨ a.state = .requested →
          ¬ Closed s id := by
        intro a found state closed
        obtain ⟨a', found', ended⟩ := closed
        rw [found, Option.some.injEq] at found'
        subst found'
        rcases ended with ended | ended <;> rw [ended] at state <;> simp [AllocationState.occupying] at state
      cases change.legal with
      | enqueue =>
        rw [List.append_nil] at added
        exact .inl added
      | grant old _ resource entry queued _ _ _ event =>
        refine .inr (.inr ⟨_, added, ?_, by simpa using event⟩)
        cases old with
        | none =>
          rintro ⟨a, found, _⟩
          rw [before] at found
          cases found
        | some q => exact running q before (.inr (queued q rfl).1)
      | drop =>
        rw [List.append_nil] at added
        exact .inl added
      | hold old _ _ busy _ _ _ _ reserved =>
        exact .inr (.inr ⟨_, added, running old before (.inl busy), reserved⟩)
      | finish old _ entry busy ended _ event =>
        exact .inr (.inl ⟨entry, added, event, ⟨old, before, live_of_occupies busy⟩,
          ⟨new, change.after, ended⟩⟩)
    · exact .inl (entriesOf_change_other change same)

end Steps

/-- Over every interleaving from an unused database: the reconciliation of an allocation is
there exactly when it was charged and ended, it is written by the step that ends it, and its
ledger does not change afterwards. -/
theorem one_reconciliation {init : AllocDb} (unused : Unused init)
    {c : Config AllocDb LockScope AllocError Unit}
    (reachable : Reachable starts (fun _ _ => True) init c) (id : Uuid) :
    (Received c.db id ∧ Closed c.db id → reconciledCount c.db id = 1) ∧
    (¬ (Received c.db id ∧ Closed c.db id) → reconciledCount c.db id = 0) ∧
    ∀ c', Step starts c c' →
      (reconciledCount c'.db id ≠ reconciledCount c.db id → Open c.db id ∧ Closed c'.db id) ∧
      (Received c.db id → Open c.db id → Closed c'.db id →
        reconciledCount c'.db id = reconciledCount c.db id + 1) ∧
      (0 < reconciledCount c.db id → entriesOf c'.db id = entriesOf c.db id) := by
  have run : Reachable starts (capacity False).assumes init c :=
    reachable.mono fun _ _ _ impossible => impossible.elim
  have life : ∀ {d}, Reachable starts (capacity False).assumes init d → Lifecycle False d.db :=
    inv_of_reachable safe_starts (lifecycle_unused unused)
  refine ⟨fun both => reconciledCount_of_closed (life run) both.1 both.2,
    reconciledCount_otherwise (life run), ?_⟩
  intro c' step
  have next : Lifecycle False c'.db := life (.step c c' run step fun impossible => impossible.elim)
  have moved : entriesOf c'.db id = entriesOf c.db id ∨
      (∃ e, entriesOf c'.db id = entriesOf c.db id ++ [e] ∧ e.eventType = .reconciled ∧
        Open c.db id ∧ Closed c'.db id) ∨
      (∃ entries, entriesOf c'.db id = entriesOf c.db id ++ entries ∧ ¬ Closed c.db id ∧
        ∀ e ∈ entries, e.eventType = .reserved) := by
    rcases step_allowed safe_starts (lifecycle_unused unused) run step with same | ⟨H, move⟩
    · exact .inl (by rw [same])
    · exact entries_of_move move
  refine ⟨?_, ?_, ?_⟩
  · intro changed
    rcases moved with same | ⟨e, _, _, started, ended⟩ | ⟨entries, added, _, reserved⟩
    · exact absurd (by rw [reconciledCount, reconciledCount, same]) changed
    · exact ⟨started, ended⟩
    · refine absurd ?_ changed
      have none : entries.countP (fun e => e.eventType = .reconciled) = 0 := by
        rw [List.countP_eq_zero]
        intro e member
        simp [reserved e member]
      rw [reconciledCount, added, List.countP_append, none, Nat.add_zero]
      rfl
  · intro received started ended
    have before : reconciledCount c.db id = 0 := by
      refine reconciledCount_otherwise (life run) fun both => ?_
      obtain ⟨a, found, live⟩ := started
      obtain ⟨a', found', past⟩ := both.2
      rw [found, Option.some.injEq] at found'
      subst found'
      rw [terminal_of_ended (past.elim .inl fun lapsed => .inr (.inr lapsed))] at live
      cases live
    have kept : Received c'.db id := by
      obtain ⟨e, member, event⟩ := received
      refine ⟨e, ?_, event⟩
      rcases moved with same | ⟨_, added, _⟩ | ⟨_, added, _⟩
      · rw [same]
        exact member
      · rw [added]
        exact List.mem_append_left _ member
      · rw [added]
        exact List.mem_append_left _ member
    rw [before, reconciledCount_of_closed next kept ended]
  · intro settled
    have closed : Closed c.db id := by
      by_contra opened
      have none : reconciledCount c.db id = 0 :=
        reconciledCount_otherwise (life run) fun both => opened both.2
      omega
    rcases moved with same | ⟨_, _, _, started, _⟩ | ⟨_, _, opened, _⟩
    · exact same
    · obtain ⟨a, found, live⟩ := started
      obtain ⟨a', found', past⟩ := closed
      rw [found, Option.some.injEq] at found'
      subst found'
      rw [terminal_of_ended (past.elim .inl fun lapsed => .inr (.inr lapsed))] at live
      cases live
    · exact absurd closed opened

theorem reachable_serial {init s : AllocDb}
    (reachable : Reachable starts (fun _ _ => True) init ⟨s, fun _ => none⟩) (ops : List Operation) :
    Reachable starts (fun _ _ => True) init ⟨Trace.run serial s ops, fun _ => none⟩ := by
  induction ops generalizing s with
  | nil => exact reachable
  | cons op rest ih => exact ih (reachable_commit ⟨op, rfl⟩ trivial trivial reachable)

/-- Requested, renewed and released: two reservations and their one reconciliation. -/
theorem sample_reconciled_once :
    eventsOf (Trace.run serial (sampleDb 10) sampleRun) 1 = [.reserved, .reserved, .reconciled] ∧
      reconciledCount (Trace.run serial (sampleDb 10) sampleRun) 1 = 1 := by
  refine ⟨by decide +kernel, ?_⟩
  have run : Reachable starts _ (sampleDb 10) _ := reachable_serial (.init trivial) sampleRun
  refine (one_reconciliation ⟨rfl, rfl⟩ run 1).1 ⟨?_, ?_⟩
  · rw [received_iff]
    decide +kernel
  · have state : (find (Trace.run serial (sampleDb 10) sampleRun).allocations 1).map
        Allocation.state = some .released := by decide +kernel
    obtain ⟨a, found, released⟩ := Option.map_eq_some_iff.mp state
    exact ⟨a, found, .inl released⟩

end Kdive.Capacity
