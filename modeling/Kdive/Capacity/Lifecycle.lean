import Kdive.Capacity.Accounting

/-!
What a transaction on the allocation tables may do, whoever runs it: leave them alone up to a
billing stamp, or move one allocation along its life, with the ledger rows that go with the
move. From this follow the shape of the ledger of every allocation and what a holder of the
PROJECT and RESOURCE locks can rely on.
-/
namespace Kdive.Capacity
open Table Txn

/-- The row without its billing start, which the readiness of a System stamps at any time. -/
def Allocation.unstamped (a : Allocation) : Allocation := { a with activeStartedAt := none }

section Limits

def QuotaFree (db : AllocDb) (project : String) : Prop :=
  ∃ q, find db.quotas project = some q ∧
    ((projectOccupying db project).length : Int) < q.maxConcurrentAllocations

def Affordable (db : AllocDb) (project : String) (amount : ℚ) : Prop :=
  ∃ b, find db.budgets project = some b ∧ b.spentKcu + amount ≤ b.limitKcu

def HostFree (db : AllocDb) (resource : Uuid) : Prop :=
  ∃ host cap, find db.resources resource = some host ∧ host.allocationCap = some cap ∧
    (resourceOccupying db resource).length < cap

def DevicesFree (db : AllocDb) (resource : Uuid) (devices : List PCIeClaim) : Prop :=
  ∀ id a, find db.allocations id = some a → a.resourceId = some resource →
    a.state.terminal = false → ∀ d ∈ devices, ∀ c ∈ a.pcieClaim, d.bdf ≠ c.bdf

/-- Room for one more allocation; `steady` stands for the assumptions on the run under which
the gate's answers about the limits still hold at the commit. -/
structure Room (steady : Prop) (db : AllocDb) (project : String) (resource : Uuid) (amount : ℚ)
    (devices : List PCIeClaim) : Prop where
  free : DevicesFree db resource devices
  distinct : steady → (devices.map PCIeClaim.bdf).Nodup
  quota : steady → QuotaFree db project
  budget : steady → Affordable db project amount
  host : steady → HostFree db resource

structure NotLowered (s t : AllocDb) : Prop where
  limits : ∀ p b, find s.budgets p = some b →
    ∃ b', find t.budgets p = some b' ∧ b.limitKcu ≤ b'.limitKcu
  quotas : ∀ p q, find s.quotas p = some q → ∃ q', find t.quotas p = some q' ∧
    q.maxConcurrentAllocations ≤ q'.maxConcurrentAllocations
  caps : ∀ id host, find s.resources id = some host → ∃ host', find t.resources id = some host' ∧
    ∀ cap, host.allocationCap = some cap → ∃ cap', host'.allocationCap = some cap' ∧ cap ≤ cap'

theorem NotLowered.refl (s : AllocDb) : NotLowered s s where
  limits := fun _ b found => ⟨b, found, le_refl _⟩
  quotas := fun _ q found => ⟨q, found, le_refl _⟩
  caps := fun _ host found => ⟨host, found, fun cap here => ⟨cap, here, le_refl _⟩⟩

theorem NotLowered.trans {s t u : AllocDb} (first : NotLowered s t) (second : NotLowered t u) :
    NotLowered s u := by
  constructor
  · intro p b found
    obtain ⟨b', found', le⟩ := first.limits p b found
    obtain ⟨b'', found'', le'⟩ := second.limits p b' found'
    exact ⟨b'', found'', le.trans le'⟩
  · intro p q found
    obtain ⟨q', found', le⟩ := first.quotas p q found
    obtain ⟨q'', found'', le'⟩ := second.quotas p q' found'
    exact ⟨q'', found'', le.trans le'⟩
  · intro id host found
    obtain ⟨host', found', le⟩ := first.caps id host found
    obtain ⟨host'', found'', le'⟩ := second.caps id host' found'
    refine ⟨host'', found'', ?_⟩
    intro cap here
    obtain ⟨cap', here', lower⟩ := le cap here
    obtain ⟨cap'', here'', lower'⟩ := le' cap' here'
    exact ⟨cap'', here'', lower.trans lower'⟩

def DistinctDevices (db : AllocDb) : Prop :=
  ∀ host ∈ db.resources.rows, (host.pcieDevices.map PCIeDescriptor.bdf).Nodup

def RoundingSafe (db : AllocDb) : Prop :=
  ∀ b ∈ db.budgets.rows, ∀ amount, quantizeKcu amount = .ok amount →
    amount ≤ decimal (b.limitKcu - b.spentKcu) → amount ≤ b.limitKcu - b.spentKcu

structure Unlowered (s t : AllocDb) : Prop where
  lowered : NotLowered s t
  distinct : DistinctDevices t

structure Steady (s t : AllocDb) : Prop extends Unlowered s t where
  rounding : RoundingSafe t

end Limits

section Moves

variable (steady : Prop) (H : Set LockScope)

/-- One step in the life of an allocation: the row before, the row after, the ledger rows. -/
inductive Legal (db : AllocDb) : Option Allocation → Allocation → List LedgerEntry → Prop where
  | enqueue (new) : new.state = .requested → new.resourceId = none → new.leaseExpiry = none →
      new.pcieClaim = [] → Legal db none new []
  | grant (old new resource entry) :
      (∀ q, old = some q → q.state = .requested ∧ q.project = new.project) →
      new.state = .granted → new.resourceId = some resource → .resource resource ∈ H →
      entry.eventType = .reserved →
      Room steady db new.project resource entry.kcuDelta new.pcieClaim → Legal db old new [entry]
  | drop (old new) : old.state = .requested → new.state = .released ∨ new.state = .failed →
      new.project = old.project → Legal db (some old) new []
  | hold (old new entries) : old.occupies → new.occupies → new.project = old.project →
      new.resourceId = old.resourceId → new.pcieClaim = old.pcieClaim →
      (∀ e ∈ entries, e.eventType = .reserved) → Legal db (some old) new entries
  | finish (old new entry) : old.occupies → new.state = .released ∨ new.state = .expired →
      new.project = old.project → entry.eventType = .reconciled → Legal db (some old) new [entry]

structure Change (s t : AllocDb) (id : Uuid) (old : Option Allocation) (new : Allocation)
    (entries : List LedgerEntry) : Prop where
  before : find s.allocations id = old
  after : find t.allocations id = some new
  others : ∀ other, other ≠ id → find t.allocations other = find s.allocations other
  ledger : t.ledger = s.ledger ++ entries
  owned : ∀ e ∈ entries, e.project = new.project ∧ e.allocationId = id
  budgets : ∀ p, find t.budgets p = (find s.budgets p).map (fun b =>
    if b.project = new.project then b.charge (entries.map LedgerEntry.kcuDelta).sum else b)
  funded : entries ≠ [] → (find s.budgets new.project).isSome
  project : .project new.project ∈ H
  key : old = none → .allocationKey id ∈ H
  legal : Legal steady H s old new entries

structure Quiet (s t : AllocDb) : Prop where
  rows : ∀ id, (find t.allocations id).map Allocation.unstamped =
    (find s.allocations id).map Allocation.unstamped
  ledger : t.ledger = s.ledger
  budgets : ∀ p b, find s.budgets p = some b →
    ∃ b', find t.budgets p = some b' ∧ b'.spentKcu = b.spentKcu

inductive Move (s t : AllocDb) : Prop where
  | quiet : Quiet s t → Move s t
  | change (id old new entries) : Change steady H s t id old new entries → Move s t

structure Rely (s t : AllocDb) : Prop where
  unlowered : steady → NotLowered s t
  budgets : ∀ p b, find s.budgets p = some b → ∃ b', find t.budgets p = some b' ∧
    (.project p ∈ H → b'.spentKcu = b.spentKcu)
  rows : ∀ id a, find s.allocations id = some a → ∃ a', find t.allocations id = some a' ∧
    a'.project = a.project ∧ (.project a.project ∈ H → a'.unstamped = a.unstamped)
  fresh : ∀ id a', find t.allocations id = some a' → .project a'.project ∈ H →
    ∃ a, find s.allocations id = some a
  unused : ∀ id, .allocationKey id ∈ H → find s.allocations id = none →
    find t.allocations id = none
  occupancy : ∀ id a' r, find t.allocations id = some a' → a'.resourceId = some r →
    .resource r ∈ H → a'.state.terminal = false →
    ∃ a, find s.allocations id = some a ∧ a.resourceId = some r ∧ a.pcieClaim = a'.pcieClaim ∧
      a.state.terminal = false ∧ (a'.occupies → a.occupies)

end Moves

section Rows

variable {a b : Allocation} (same : a.unstamped = b.unstamped)
include same

theorem state_of_unstamped : a.state = b.state := by
  have kept := congrArg Allocation.state same
  exact kept

theorem project_of_unstamped : a.project = b.project := by
  have kept := congrArg Allocation.project same
  exact kept

theorem resource_of_unstamped : a.resourceId = b.resourceId := by
  have kept := congrArg Allocation.resourceId same
  exact kept

theorem claim_of_unstamped : a.pcieClaim = b.pcieClaim := by
  have kept := congrArg Allocation.pcieClaim same
  exact kept

theorem lease_of_unstamped : a.leaseExpiry = b.leaseExpiry := by
  have kept := congrArg Allocation.leaseExpiry same
  exact kept

theorem occupies_of_unstamped : a.occupies = b.occupies := by
  unfold Allocation.occupies
  rw [state_of_unstamped same]

end Rows

theorem Quiet.row {s t : AllocDb} (quiet : Quiet s t) {id : Uuid} {a : Allocation}
    (found : find s.allocations id = some a) :
    ∃ a', find t.allocations id = some a' ∧ a'.unstamped = a.unstamped := by
  have kept := quiet.rows id
  rw [found, Option.map_some] at kept
  exact Option.map_eq_some_iff.mp kept

theorem Quiet.row_back {s t : AllocDb} (quiet : Quiet s t) {id : Uuid} {a' : Allocation}
    (found : find t.allocations id = some a') :
    ∃ a, find s.allocations id = some a ∧ a.unstamped = a'.unstamped := by
  have kept := quiet.rows id
  rw [found, Option.map_some] at kept
  exact Option.map_eq_some_iff.mp kept.symm

theorem Quiet.refl_of_eq {s t : AllocDb} (allocations : t.allocations = s.allocations)
    (ledger : t.ledger = s.ledger) (budgets : t.budgets = s.budgets) : Quiet s t where
  rows := fun id => by rw [allocations]
  ledger := ledger
  budgets := fun p b found => ⟨b, by rw [budgets]; exact found, rfl⟩

section Relies

variable {steady : Prop} {H K : Set LockScope} {s t u : AllocDb}

theorem rely_refl (s : AllocDb) : Rely steady H s s where
  unlowered := fun _ => .refl s
  budgets := fun _ b found => ⟨b, found, fun _ => rfl⟩
  rows := fun _ a found => ⟨a, found, rfl, fun _ => rfl⟩
  fresh := fun _ a found _ => ⟨a, found⟩
  unused := fun _ _ free => free
  occupancy := fun _ a _ found on _ live => ⟨a, found, on, rfl, live, fun occupies => occupies⟩

theorem rely_trans (first : Rely steady H s t) (second : Rely steady H t u) :
    Rely steady H s u := by
  constructor
  · intro assumed
    exact (first.unlowered assumed).trans (second.unlowered assumed)
  · intro p b found
    obtain ⟨b', found', same⟩ := first.budgets p b found
    obtain ⟨b'', found'', same'⟩ := second.budgets p b' found'
    exact ⟨b'', found'', fun held => (same' held).trans (same held)⟩
  · intro id a found
    obtain ⟨a', found', project, same⟩ := first.rows id a found
    obtain ⟨a'', found'', project', same'⟩ := second.rows id a' found'
    refine ⟨a'', found'', project'.trans project, ?_⟩
    intro held
    rw [← project] at held
    exact (same' held).trans (same (project ▸ held))
  · intro id a'' found held
    obtain ⟨a', found'⟩ := second.fresh id a'' found held
    obtain ⟨_, again, project, _⟩ := second.rows id a' found'
    rw [found, Option.some.injEq] at again
    subst again
    exact first.fresh id a' found' (project ▸ held)
  · intro id held free
    exact second.unused id held (first.unused id held free)
  · intro id a'' r found on held live
    obtain ⟨a', found', on', claim', live', occupies'⟩ := second.occupancy id a'' r found on held live
    obtain ⟨a, found₀, on₀, claim, live₀, occupies⟩ :=
      first.occupancy id a' r found' on' held live'
    exact ⟨a, found₀, on₀, claim.trans claim', live₀, fun busy => occupies (occupies' busy)⟩

theorem rely_mono (fewer : H ⊆ K) (rely : Rely steady K s t) : Rely steady H s t where
  unlowered := rely.unlowered
  budgets := fun p b found => by
    obtain ⟨b', found', same⟩ := rely.budgets p b found
    exact ⟨b', found', fun held => same (fewer held)⟩
  rows := fun id a found => by
    obtain ⟨a', found', project, same⟩ := rely.rows id a found
    exact ⟨a', found', project, fun held => same (fewer held)⟩
  fresh := fun id a' found held => rely.fresh id a' found (fewer held)
  unused := fun id held free => rely.unused id (fewer held) free
  occupancy := fun id a' r found on held live => rely.occupancy id a' r found on (fewer held) live

theorem rely_of_quiet (quiet : Quiet s t) (unlowered : steady → NotLowered s t) :
    Rely steady K s t := by
  refine ⟨unlowered, ?_, ?_, ?_, ?_, ?_⟩
  · intro p b found
    obtain ⟨b', found', same⟩ := quiet.budgets p b found
    exact ⟨b', found', fun _ => same⟩
  · intro id a found
    obtain ⟨a', found', same⟩ := quiet.row found
    exact ⟨a', found', project_of_unstamped same, fun _ => same⟩
  · intro id a' found _
    obtain ⟨a, found', _⟩ := quiet.row_back found
    exact ⟨a, found'⟩
  · intro id _ free
    have kept := quiet.rows id
    rw [free, Option.map_none] at kept
    exact Option.map_eq_none_iff.mp kept
  · intro id a' r found on _ live
    obtain ⟨a, found', same⟩ := quiet.row_back found
    refine ⟨a, found', ?_, claim_of_unstamped same, ?_, ?_⟩
    · rw [resource_of_unstamped same]
      exact on
    · rw [state_of_unstamped same]
      exact live
    · rw [occupies_of_unstamped same]
      exact fun busy => busy

theorem Legal.project {db : AllocDb} {old new : Allocation} {entries : List LedgerEntry}
    (legal : Legal steady H db (some old) new entries) : new.project = old.project := by
  cases legal with
  | grant _ _ resource entry queued => exact (queued old rfl).2.symm
  | drop _ _ _ _ project => exact project
  | hold _ _ _ _ _ project => exact project
  | finish _ _ entry _ _ project => exact project

theorem live_of_occupies {a : Allocation} (occupies : a.occupies) : a.state.terminal = false := by
  unfold Allocation.occupies AllocationState.occupying at occupies
  cases h : a.state <;> rw [h] at occupies <;> first | rfl | cases occupies

theorem terminal_of_ended {state : AllocationState}
    (ended : state = .released ∨ state = .failed ∨ state = .expired) : state.terminal = true := by
  rcases ended with rfl | rfl | rfl <;> rfl

theorem rely_of_change {id : Uuid} {old : Option Allocation} {new : Allocation}
    {entries : List LedgerEntry} (change : Change steady H s t id old new entries)
    (unlowered : steady → NotLowered s t) (apart : Disjoint H K) : Rely steady K s t := by
  have exclusive : ∀ l, l ∈ H → l ∉ K := fun l here there => Set.disjoint_left.mp apart here there
  refine ⟨unlowered, ?_, ?_, ?_, ?_, ?_⟩
  · intro p b found
    have after := change.budgets p
    rw [found, Option.map_some] at after
    refine ⟨_, after, ?_⟩
    intro held
    have other : b.project ≠ new.project := by
      intro same
      rw [find_key found] at same
      subst same
      exact exclusive _ change.project held
    rw [if_neg other]
  · intro other a found
    by_cases same : other = id
    · subst same
      have legal := change.legal
      rw [← change.before, found] at legal
      refine ⟨new, change.after, legal.project, ?_⟩
      intro held
      rw [← legal.project] at held
      exact absurd held (exclusive _ change.project)
    · exact ⟨a, by rw [change.others other same]; exact found, rfl, fun _ => rfl⟩
  · intro other a' found held
    by_cases same : other = id
    · subst same
      rw [change.after, Option.some.injEq] at found
      subst found
      exact absurd held (exclusive _ change.project)
    · rw [change.others other same] at found
      exact ⟨a', found⟩
  · intro other held free
    by_cases same : other = id
    · subst same
      rw [change.before] at free
      exact absurd held (exclusive _ (change.key free))
    · rw [change.others other same]
      exact free
  · intro other a' r found on held live
    by_cases same : other = id
    · subst same
      rw [change.after, Option.some.injEq] at found
      subst found
      -- Only a grant puts a row on a host, and it holds the lock of that host.
      have before := change.before
      cases change.legal with
      | enqueue _ _ nowhere =>
        rw [nowhere] at on
        cases on
      | grant _ _ resource entry queued state placed locked =>
        rw [placed, Option.some.injEq] at on
        subst on
        exact absurd held (exclusive _ locked)
      | drop old _ _ ended =>
        rw [terminal_of_ended (ended.elim .inl fun failed => .inr (.inl failed))] at live
        cases live
      | hold old _ _ busy busy' _ place claim =>
        exact ⟨old, before, place ▸ on, claim.symm, live_of_occupies busy, fun _ => busy⟩
      | finish old _ entry _ ended =>
        rw [terminal_of_ended (ended.elim .inl fun lapsed => .inr (.inr lapsed))] at live
        cases live
    · rw [change.others other same] at found
      exact ⟨a', found, on, rfl, live, fun busy => busy⟩

end Relies

section Invariant

def entriesOf (db : AllocDb) (id : Uuid) : List LedgerEntry :=
  db.ledger.filter (fun e => e.allocationId = id)

def eventsOf (db : AllocDb) (id : Uuid) : List LedgerEventType :=
  (entriesOf db id).map LedgerEntry.eventType

def Reserved (events : List LedgerEventType) : Prop := events ≠ [] ∧ ∀ e ∈ events, e = .reserved

def Settled (events : List LedgerEventType) : Prop :=
  ∃ reservations, Reserved reservations ∧ events = reservations ++ [.reconciled]

def Fits (state : AllocationState) (events : List LedgerEventType) : Prop :=
  match state with
  | .requested => events = []
  | .failed => events = []
  | .granted => Reserved events
  | .active => Reserved events
  | .releasing => Reserved events
  | .expired => Settled events
  | .released => events = [] ∨ Settled events

structure Lifecycle (steady : Prop) (db : AllocDb) : Prop where
  owner : ∀ e ∈ db.ledger, ∃ a, find db.allocations e.allocationId = some a
  funded : ∀ e ∈ db.ledger, ∃ a b, find db.allocations e.allocationId = some a ∧
    find db.budgets a.project = some b
  queued : ∀ id a, find db.allocations id = some a → a.state = .requested →
    a.leaseExpiry = none ∧ a.resourceId = none
  fits : ∀ id a, find db.allocations id = some a → Fits a.state (eventsOf db id)
  claims : ∀ id id' a a' r, find db.allocations id = some a → find db.allocations id' = some a' →
    id ≠ id' → a.resourceId = some r → a'.resourceId = some r → a.state.terminal = false →
    a'.state.terminal = false → ∀ c ∈ a.pcieClaim, ∀ c' ∈ a'.pcieClaim, c.bdf ≠ c'.bdf
  own : steady → ∀ id a, find db.allocations id = some a → a.state.terminal = false →
    (a.pcieClaim.map PCIeClaim.bdf).Nodup

variable {steady : Prop} {H : Set LockScope} {s t : AllocDb}

theorem fits_of_occupies {state : AllocationState} {events : List LedgerEventType}
    (occupies : state.occupying) : Fits state events ↔ Reserved events := by
  cases state <;> first | exact Iff.rfl | cases occupies

theorem fits_legal {db : AllocDb} {old : Option Allocation} {new : Allocation}
    {entries : List LedgerEntry} {events : List LedgerEventType}
    (legal : Legal steady H db old new entries)
    (before : match old with
      | none => events = []
      | some a => Fits a.state events) :
    Fits new.state (events ++ entries.map LedgerEntry.eventType) := by
  cases legal with
  | enqueue _ state =>
    rw [state]
    simpa [Fits] using before
  | grant _ _ resource entry queued state placed locked event =>
    have none : events = [] := by
      cases old with
      | none => exact before
      | some q =>
        simp only [(queued q rfl).1] at before
        exact before
    rw [state, none]
    exact ⟨by simp, by simp [event]⟩
  | drop old _ queued ended =>
    simp only [queued] at before
    have none : events = [] := before
    subst none
    rcases ended with state | state
    · rw [state]
      exact .inl rfl
    · rw [state]
      rfl
  | hold old _ _ busy busy' _ _ _ reserved =>
    rw [fits_of_occupies busy']
    have held := (fits_of_occupies busy).mp before
    refine ⟨by simp [held.1], ?_⟩
    intro event member
    rcases List.mem_append.mp member with earlier | later
    · exact held.2 event earlier
    · obtain ⟨entry, written, rfl⟩ := List.mem_map.mp later
      exact reserved entry written
  | finish old _ entry busy ended _ reconciled =>
    have settled : Settled (events ++ [entry].map LedgerEntry.eventType) :=
      ⟨events, (fits_of_occupies busy).mp before, by simp [reconciled]⟩
    rcases ended with state | state
    · rw [state]
      exact .inr settled
    · rw [state]
      exact settled

theorem entriesOf_change {id : Uuid} {old : Option Allocation} {new : Allocation}
    {entries : List LedgerEntry} (change : Change steady H s t id old new entries) :
    entriesOf t id = entriesOf s id ++ entries := by
  have all : entries.filter (fun e => e.allocationId = id) = entries := by
    rw [List.filter_eq_self]
    intro e member
    simpa using (change.owned e member).2
  rw [entriesOf, change.ledger, List.filter_append, all]
  rfl

theorem entriesOf_change_other {id other : Uuid} {old : Option Allocation} {new : Allocation}
    {entries : List LedgerEntry} (change : Change steady H s t id old new entries)
    (apart : other ≠ id) : entriesOf t other = entriesOf s other := by
  have none : entries.filter (fun e => e.allocationId = other) = [] := by
    rw [List.filter_eq_nil_iff]
    intro e member mine
    simp only [decide_eq_true_eq] at mine
    exact apart (mine.symm.trans (change.owned e member).2)
  rw [entriesOf, change.ledger, List.filter_append, none, List.append_nil]
  rfl

theorem Lifecycle.events_missing {id : Uuid} (life : Lifecycle steady s)
    (missing : find s.allocations id = none) : eventsOf s id = [] := by
  have none : entriesOf s id = [] := by
    rw [entriesOf, List.filter_eq_nil_iff]
    intro e member mine
    simp only [decide_eq_true_eq] at mine
    obtain ⟨a, found⟩ := life.owner e member
    rw [mine, missing] at found
    cases found
  rw [eventsOf, none]
  rfl

theorem Lifecycle.budget_of_occupies {id : Uuid} {a : Allocation} (life : Lifecycle steady s)
    (found : find s.allocations id = some a) (busy : a.occupies) :
    ∃ b, find s.budgets a.project = some b := by
  have fits := (fits_of_occupies busy).mp (life.fits id a found)
  obtain ⟨event, more, shape⟩ := List.exists_cons_of_ne_nil fits.1
  have member : event ∈ eventsOf s id := by rw [shape]; exact List.mem_cons_self
  obtain ⟨entry, written, _⟩ := List.mem_map.mp member
  obtain ⟨inLedger, mine⟩ := List.mem_filter.mp written
  simp only [decide_eq_true_eq] at mine
  obtain ⟨a', b, found', funded⟩ := life.funded entry inLedger
  rw [mine, found, Option.some.injEq] at found'
  subst found'
  exact ⟨b, funded⟩

theorem lifecycle_quiet (life : Lifecycle steady s) (quiet : Quiet s t) : Lifecycle steady t := by
  constructor
  · intro e member
    rw [quiet.ledger] at member
    obtain ⟨a, found⟩ := life.owner e member
    obtain ⟨a', found', _⟩ := quiet.row found
    exact ⟨a', found'⟩
  · intro e member
    rw [quiet.ledger] at member
    obtain ⟨a, b, found, funded⟩ := life.funded e member
    obtain ⟨a', found', same⟩ := quiet.row found
    obtain ⟨b', funded', _⟩ := quiet.budgets a.project b funded
    exact ⟨a', b', found', by rw [project_of_unstamped same]; exact funded'⟩
  · intro id a' found state
    obtain ⟨a, found', same⟩ := quiet.row_back found
    rw [← state_of_unstamped same] at state
    rw [← lease_of_unstamped same, ← resource_of_unstamped same]
    exact life.queued id a found' state
  · intro id a' found
    obtain ⟨a, found', same⟩ := quiet.row_back found
    rw [eventsOf, entriesOf, quiet.ledger, ← state_of_unstamped same]
    exact life.fits id a found'
  · intro id id' a a' r found found' apart on on' live live'
    obtain ⟨b, was, same⟩ := quiet.row_back found
    obtain ⟨b', was', same'⟩ := quiet.row_back found'
    rw [← claim_of_unstamped same, ← claim_of_unstamped same']
    rw [← resource_of_unstamped same] at on
    rw [← resource_of_unstamped same'] at on'
    rw [← state_of_unstamped same] at live
    rw [← state_of_unstamped same'] at live'
    exact life.claims id id' b b' r was was' apart on on' live live'
  · intro assumed id a' found live
    obtain ⟨a, found', same⟩ := quiet.row_back found
    rw [← state_of_unstamped same] at live
    rw [← claim_of_unstamped same]
    exact life.own assumed id a found' live

section Changing

variable {id : Uuid} {old : Option Allocation} {new : Allocation} {entries : List LedgerEntry}

/-- A row of the new table is the changed one or was there before. -/
theorem Change.split (change : Change steady H s t id old new entries) {other : Uuid} {a : Allocation}
    (found : find t.allocations other = some a) :
    (other = id ∧ a = new) ∨ (other ≠ id ∧ find s.allocations other = some a) := by
  by_cases same : other = id
  · subst same
    rw [change.after, Option.some.injEq] at found
    exact .inl ⟨rfl, found.symm⟩
  · exact .inr ⟨same, by rw [← change.others other same]; exact found⟩

theorem Change.budget (change : Change steady H s t id old new entries) {p : String} {b : Budget}
    (found : find s.budgets p = some b) : ∃ b', find t.budgets p = some b' :=
  ⟨_, by rw [change.budgets p, found, Option.map_some]⟩

theorem Change.legal_of_found (change : Change steady H s t id old new entries) {a : Allocation}
    (found : find s.allocations id = some a) : Legal steady H s (some a) new entries := by
  have legal := change.legal
  rw [← change.before, found] at legal
  exact legal

theorem Change.owner (change : Change steady H s t id old new entries) (life : Lifecycle steady s) :
    ∀ e ∈ t.ledger, ∃ a, find t.allocations e.allocationId = some a := by
  intro e member
  rw [change.ledger] at member
  rcases List.mem_append.mp member with earlier | written
  · obtain ⟨a, found⟩ := life.owner e earlier
    by_cases same : e.allocationId = id
    · exact ⟨new, by rw [same]; exact change.after⟩
    · exact ⟨a, by rw [change.others _ same]; exact found⟩
  · exact ⟨new, by rw [(change.owned e written).2]; exact change.after⟩

theorem Change.keeps_funded (change : Change steady H s t id old new entries)
    (life : Lifecycle steady s) : ∀ e ∈ t.ledger, ∃ a b,
      find t.allocations e.allocationId = some a ∧ find t.budgets a.project = some b := by
  intro e member
  rw [change.ledger] at member
  rcases List.mem_append.mp member with earlier | written
  · obtain ⟨a, b, found, funded⟩ := life.funded e earlier
    obtain ⟨b', funded'⟩ := change.budget funded
    by_cases same : e.allocationId = id
    · rw [same] at found ⊢
      exact ⟨new, b', change.after, by rw [(change.legal_of_found found).project]; exact funded'⟩
    · exact ⟨a, b', by rw [change.others _ same]; exact found, funded'⟩
  · have charged := change.funded (List.ne_nil_of_mem written)
    obtain ⟨b, funded⟩ := Option.isSome_iff_exists.mp charged
    obtain ⟨b', funded'⟩ := change.budget funded
    exact ⟨new, b', by rw [(change.owned e written).2]; exact change.after, funded'⟩

theorem Legal.queued (legal : Legal steady H s old new entries) (state : new.state = .requested) :
    new.leaseExpiry = none ∧ new.resourceId = none := by
  cases legal with
  | enqueue _ _ nowhere unleased => exact ⟨unleased, nowhere⟩
  | grant _ _ resource entry queued granted =>
    rw [granted] at state
    cases state
  | drop _ _ _ ended => rcases ended with ended | ended <;> rw [ended] at state <;> cases state
  | hold _ _ _ _ busy =>
    rw [Allocation.occupies, state] at busy
    cases busy
  | finish _ _ entry _ ended =>
    rcases ended with ended | ended <;> rw [ended] at state <;> cases state

theorem Change.keeps_fits (change : Change steady H s t id old new entries)
    (life : Lifecycle steady s) : Fits new.state (eventsOf t id) := by
  rw [eventsOf, entriesOf_change change, List.map_append]
  refine fits_legal change.legal ?_
  have was := change.before
  cases old with
  | none => exact life.events_missing was
  | some a => exact life.fits id a was

/-- The changed row shares no device with the other rows of its resource. -/
theorem Change.free (change : Change steady H s t id old new entries) (life : Lifecycle steady s)
    {other : Uuid} {a : Allocation} {r : Uuid} (apart : other ≠ id)
    (found : find s.allocations other = some a) (on : new.resourceId = some r)
    (on' : a.resourceId = some r) (live : new.state.terminal = false)
    (live' : a.state.terminal = false) :
    ∀ c ∈ new.pcieClaim, ∀ c' ∈ a.pcieClaim, c.bdf ≠ c'.bdf := by
  have was := change.before
  cases change.legal with
  | enqueue _ _ nowhere =>
    rw [nowhere] at on
    cases on
  | grant _ _ resource entry queued state placed locked event room =>
    rw [placed, Option.some.injEq] at on
    subst on
    exact room.free other a found on' live'
  | drop _ _ _ ended =>
    rw [terminal_of_ended (ended.elim .inl fun failed => .inr (.inl failed))] at live
    cases live
  | hold a₀ _ _ busy busy' _ place claim =>
    rw [claim]
    exact life.claims id other a₀ a r was found (Ne.symm apart) (place ▸ on) on'
      (live_of_occupies busy) live'
  | finish _ _ entry _ ended =>
    rw [terminal_of_ended (ended.elim .inl fun lapsed => .inr (.inr lapsed))] at live
    cases live

theorem Change.keeps_claims (change : Change steady H s t id old new entries)
    (life : Lifecycle steady s) {first second : Uuid} {a a' : Allocation} {r : Uuid}
    (found : find t.allocations first = some a) (found' : find t.allocations second = some a')
    (apart : first ≠ second) (on : a.resourceId = some r) (on' : a'.resourceId = some r)
    (live : a.state.terminal = false) (live' : a'.state.terminal = false) :
    ∀ c ∈ a.pcieClaim, ∀ c' ∈ a'.pcieClaim, c.bdf ≠ c'.bdf := by
  intro c here c' there
  rcases change.split found with ⟨rfl, rfl⟩ | ⟨other, was⟩
  · rcases change.split found' with ⟨rfl, rfl⟩ | ⟨other', was'⟩
    · exact absurd rfl apart
    · exact change.free life other' was' on on' live live' c here c' there
  · rcases change.split found' with ⟨rfl, rfl⟩ | ⟨other', was'⟩
    · exact (change.free life other was on' on live' live c' there c here).symm
    · exact life.claims first second a a' r was was' apart on on' live live' c here c' there

theorem Change.keeps_own (change : Change steady H s t id old new entries)
    (life : Lifecycle steady s) (assumed : steady) (live : new.state.terminal = false) :
    (new.pcieClaim.map PCIeClaim.bdf).Nodup := by
  have was := change.before
  cases change.legal with
  | enqueue _ _ _ _ empty =>
    rw [empty]
    exact List.nodup_nil
  | grant _ _ resource entry queued state placed locked event room => exact room.distinct assumed
  | drop _ _ _ ended =>
    rw [terminal_of_ended (ended.elim .inl fun failed => .inr (.inl failed))] at live
    cases live
  | hold a₀ _ _ busy _ _ _ claim =>
    rw [claim]
    exact life.own assumed id a₀ was (live_of_occupies busy)
  | finish _ _ entry _ ended =>
    rw [terminal_of_ended (ended.elim .inl fun lapsed => .inr (.inr lapsed))] at live
    cases live

theorem lifecycle_change (life : Lifecycle steady s)
    (change : Change steady H s t id old new entries) : Lifecycle steady t where
  owner := change.owner life
  funded := change.keeps_funded life
  queued := by
    intro other a found state
    rcases change.split found with ⟨rfl, rfl⟩ | ⟨apart, found'⟩
    · exact change.legal.queued state
    · exact life.queued other a found' state
  fits := by
    intro other a found
    rcases change.split found with ⟨rfl, rfl⟩ | ⟨apart, found'⟩
    · exact change.keeps_fits life
    · rw [eventsOf, entriesOf_change_other change apart]
      exact life.fits other a found'
  claims := by
    intro first second a a' r found found' apart on on' live live'
    exact change.keeps_claims life found found' apart on on' live live'
  own := by
    intro assumed other a found live
    rcases change.split found with ⟨rfl, rfl⟩ | ⟨apart, found'⟩
    · exact change.keeps_own life assumed live
    · exact life.own assumed other a found' live

end Changing

end Invariant

/-- The discipline of the allocation services: what holds, what each may do under its locks,
and what it can rely on; the run may be assumed steady. -/
def capacity (steady : Prop) : Discipline AllocDb LockScope where
  inv := Lifecycle steady
  assumes := fun s t => steady → Steady s t
  rely := Rely steady
  guar := Move steady
  assumes_after := fun s t assumed given =>
    ⟨⟨.refl t, (assumed given).distinct⟩, (assumed given).rounding⟩
  rely_refl := fun _ s => rely_refl s
  rely_trans := fun _ _ _ _ => rely_trans
  rely_mono := fun _ _ _ _ => rely_mono
  guar_inv := by
    intro H s t life move _
    cases move with
    | quiet quiet => exact lifecycle_quiet life quiet
    | change id old new entries change => exact lifecycle_change life change
  guar_rely := by
    intro H K s t _ move assumed apart
    have unlowered : steady → NotLowered s t := fun given => (assumed given).lowered
    cases move with
    | quiet quiet => exact rely_of_quiet quiet unlowered
    | change id old new entries change => exact rely_of_change change unlowered apart

end Kdive.Capacity
