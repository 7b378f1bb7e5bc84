import Kdive.Capacity.Settlement

/-!
Grants against the limits, over every interleaving: at the commit of a grant the host is
within its cap, the project within its quota and its budget, and the devices claimed on one
host are pairwise distinct. The budget holds only while the rounding of the remaining amount
to the decimal context does not carry it past an amount that can be charged.
-/
namespace Kdive.Capacity
open Table Txn

structure Granted (s t : AllocDb) (id : Uuid) (a : Allocation) (resource : Uuid) : Prop where
  row : find t.allocations id = some a
  occupies : a.occupies
  placed : a.resourceId = some resource
  new : ∀ old, find s.allocations id = some old → old.occupies = false

structure WithinLimits (db : AllocDb) (a : Allocation) (resource : Uuid) : Prop where
  host : ∃ host cap, find db.resources resource = some host ∧ host.allocationCap = some cap ∧
    (resourceOccupying db resource).length ≤ cap
  quota : ∃ q, find db.quotas a.project = some q ∧
    ((projectOccupying db a.project).length : Int) ≤ q.maxConcurrentAllocations
  budget : ∃ b, find db.budgets a.project = some b ∧ b.spentKcu ≤ b.limitKcu

def DisjointClaims (db : AllocDb) : Prop :=
  ∀ resource, ((claimsOn db resource).map PCIeClaim.bdf).Nodup

section Steps

variable {H : Set LockScope} {s t : AllocDb} {id : Uuid}

theorem disjointClaims_of_lifecycle (life : Lifecycle True s) : DisjointClaims s := by
  intro resource
  unfold claimsOn
  rw [List.map_flatMap, List.nodup_flatMap]
  have listed : ∀ a ∈ s.allocations.rows.filter
      (fun a => a.resourceId = some resource ∧ ¬ a.state.terminal),
      find s.allocations a.id = some a ∧ a.resourceId = some resource ∧
        a.state.terminal = false := by
    intro a member
    obtain ⟨row, hit⟩ := List.mem_filter.mp member
    obtain ⟨on, live⟩ := of_decide_eq_true hit
    exact ⟨find_of_mem row, on, by simpa using live⟩
  constructor
  · intro a member
    obtain ⟨found, _, live⟩ := listed a member
    exact life.own trivial a.id a found live
  · have distinct : (s.allocations.rows.filter
        (fun a => a.resourceId = some resource ∧ ¬ a.state.terminal)).Pairwise
        (fun a b => a.id ≠ b.id) :=
      (List.pairwise_map.mp s.allocations.distinct).sublist List.filter_sublist
    refine distinct.imp_of_mem ?_
    intro a b here there apart
    obtain ⟨found, on, live⟩ := listed a here
    obtain ⟨found', on', live'⟩ := listed b there
    rw [Function.onFun, List.disjoint_left]
    intro bdf left right
    obtain ⟨c, claimed, rfl⟩ := List.mem_map.mp left
    obtain ⟨c', claimed', same⟩ := List.mem_map.mp right
    exact life.claims a.id b.id a b resource found found' apart on on' live live' c claimed c'
      claimed' same.symm

theorem filter_length_le_succ (p : Allocation → Bool)
    (others : ∀ other, other ≠ id → find t.allocations other = find s.allocations other) :
    (t.allocations.rows.filter p).length ≤ (s.allocations.rows.filter p).length + 1 := by
  have distinct : ((t.allocations.rows.filter p).map Allocation.id).Nodup :=
    t.allocations.distinct.sublist (List.filter_sublist.map _)
  have inside : (t.allocations.rows.filter p).map Allocation.id ⊆
      id :: (s.allocations.rows.filter p).map Allocation.id := by
    intro other member
    obtain ⟨a, listed, rfl⟩ := List.mem_map.mp member
    obtain ⟨row, hit⟩ := List.mem_filter.mp listed
    by_cases same : a.id = id
    · rw [same]
      exact List.mem_cons_self
    · have found := find_of_mem row
      rw [others a.id same] at found
      exact List.mem_cons_of_mem _ (List.mem_map.mpr
        ⟨a, List.mem_filter.mpr ⟨find_mem found, hit⟩, rfl⟩)
  have fewer := (List.subperm_of_subset distinct inside).length_le
  simpa using fewer

theorem granted_change {a : Allocation} {resource : Uuid} (move : Move True H s t)
    (granted : Granted s t id a resource) :
    ∃ old entry, Change True H s t id old a [entry] ∧
      Room True s a.project resource entry.kcuDelta a.pcieClaim := by
  have was : ∀ old, find s.allocations id = some old → old.occupies → False := by
    intro old found busy
    rw [granted.new old found] at busy
    cases busy
  have occupies := granted.occupies
  cases move with
  | quiet quiet =>
    obtain ⟨old, found, same⟩ := quiet.row_back granted.row
    exact (was old found (by rw [occupies_of_unstamped same]; exact occupies)).elim
  | change target old new entries change =>
    by_cases same : id = target
    · subst same
      have row := granted.row
      rw [change.after, Option.some.injEq] at row
      subst row
      have before := change.before
      cases legal : change.legal with
      | enqueue _ state =>
        rw [Allocation.occupies, state] at occupies
        cases occupies
      | grant _ _ place entry _ _ placed _ _ room =>
        have here := granted.placed
        rw [placed, Option.some.injEq] at here
        subst here
        exact ⟨old, entry, change, room⟩
      | drop _ _ _ ended =>
        rcases ended with ended | ended <;> rw [Allocation.occupies, ended] at occupies <;>
          cases occupies
      | hold old _ _ busy => exact (was old before busy).elim
      | finish old _ _ busy => exact (was old before busy).elim
    · have row := granted.row
      rw [change.others id same] at row
      exact (was a row occupies).elim

theorem withinLimits_of_granted {a : Allocation} {resource : Uuid} (move : Move True H s t)
    (unlowered : NotLowered s t) (granted : Granted s t id a resource) :
    WithinLimits t a resource := by
  obtain ⟨old, entry, change, room⟩ := granted_change move granted
  constructor
  · obtain ⟨host, cap, found, advertised, below⟩ := room.host trivial
    obtain ⟨host', found', raised⟩ := unlowered.caps resource host found
    obtain ⟨cap', advertised', le⟩ := raised cap advertised
    have counted : (resourceOccupying t resource).length ≤ (resourceOccupying s resource).length + 1 :=
      filter_length_le_succ _ change.others
    exact ⟨host', cap', found', advertised', by omega⟩
  · obtain ⟨q, found, below⟩ := room.quota trivial
    obtain ⟨q', found', raised⟩ := unlowered.quotas a.project q found
    have counted : (projectOccupying t a.project).length ≤ (projectOccupying s a.project).length + 1 :=
      filter_length_le_succ _ change.others
    exact ⟨q', found', by omega⟩
  · obtain ⟨b, found, within⟩ := room.budget trivial
    have key : b.project = a.project := find_key found
    refine ⟨b.charge entry.kcuDelta, ?_, within⟩
    rw [change.budgets, found]
    simp [key]

end Steps

/-- In every run whose steps are all steady, at the commit of every grant the cap, the quota
and the budget hold, and after every commit the claimed devices are distinct. -/
theorem grants_within_limits {init : AllocDb} (unused : Unused init)
    {c c' : Config AllocDb LockScope AllocError Unit}
    (reachable : Reachable starts Steady init c) (step : Step starts c c')
    (kept : Steady c.db c'.db) :
    (∀ id a resource, Granted c.db c'.db id a resource → WithinLimits c'.db a resource) ∧
      DisjointClaims c'.db := by
  have run : Reachable starts (capacity True).assumes init c :=
    reachable.mono fun _ _ steady _ => steady
  have start : Lifecycle True init := lifecycle_unused unused
  refine ⟨?_, ?_⟩
  · intro id a resource granted
    rcases step_allowed safe_starts start run step with same | ⟨H, move⟩
    · have row := granted.row
      rw [same] at row
      have fresh := granted.new a row
      rw [granted.occupies] at fresh
      cases fresh
    · exact withinLimits_of_granted move kept.lowered granted
  · exact disjointClaims_of_lifecycle
      (inv_of_reachable safe_starts start (.step c c' run step fun _ => kept))

theorem roundingSafe_of_exact {db : AllocDb} (held : ∀ b ∈ db.budgets.rows,
    decimal (b.limitKcu - b.spentKcu) = b.limitKcu - b.spentKcu) : RoundingSafe db := by
  intro b member amount _ within
  rw [held b member] at within
  exact within

section Sample

theorem notLowered_of_charge {s t : AllocDb} (project : String) (delta : ℚ)
    (budgets : t.budgets = (s.charge project delta).budgets) (quotas : t.quotas = s.quotas)
    (resources : t.resources = s.resources) : NotLowered s t := by
  constructor
  · intro p b found
    rw [budgets, find_charge, found]
    refine ⟨_, rfl, ?_⟩
    dsimp only
    split <;> exact le_refl _
  · intro p q found
    exact ⟨q, by rw [quotas]; exact found, le_refl _⟩
  · intro id host found
    exact ⟨host, by rw [resources]; exact found, fun cap here => ⟨cap, here, le_refl _⟩⟩

def sampleGrant (limit : ℚ) : AllocDb :=
  serial (sampleDb limit) (.request sampleBounds sampleRequest 0 1)

def sampleRow : Allocation := grantedRow sampleRequest 0 1 1 []

theorem sample_distinct {db : AllocDb} {limit : ℚ}
    (resources : db.resources = (sampleDb limit).resources) : DistinctDevices db := by
  intro host member
  rw [resources] at member
  rcases mem_insert member with none | ⟨only, _⟩
  · cases none
  · rw [only]
    exact List.nodup_nil

theorem sample_unused (limit : ℚ) : Unused (sampleDb limit) := ⟨rfl, rfl⟩

theorem sample_step {limit : ℚ} {ok : AllocDb → AllocDb → Prop}
    (fine : ok (sampleDb limit) (sampleDb limit))
    (ran : exec (Operation.program (.request sampleBounds sampleRequest 0 1)) (sampleDb limit) =
      .ok ((), sampleGrant limit)) :
    ∃ c, Reachable starts ok (sampleDb limit) c ∧ c.db = sampleDb limit ∧
      Step starts c ⟨sampleGrant limit, fun _ => none⟩ :=
  step_commit ⟨_, rfl⟩ fine (.init fine) ran

theorem sample_granted {limit : ℚ} {c : Config AllocDb LockScope AllocError Unit}
    (before : c.db = sampleDb limit)
    (row : find (sampleGrant limit).allocations 1 = some sampleRow) :
    Granted c.db (sampleGrant limit) 1 sampleRow 7 := by
  refine ⟨row, rfl, rfl, ?_⟩
  intro old found
  rw [before] at found
  cases found

theorem sample_grant_within_limits :
    ∃ c, Reachable starts Steady (sampleDb 10) c ∧ Granted c.db (sampleGrant 10) 1 sampleRow 7 ∧
      WithinLimits (sampleGrant 10) sampleRow 7 := by
  have start : Steady (sampleDb 10) (sampleDb 10) :=
    ⟨⟨.refl _, sample_distinct rfl⟩, roundingSafe_of_exact (by decide +kernel)⟩
  obtain ⟨c, reachable, before, step⟩ := sample_step start (by decide +kernel)
  have granted := sample_granted before (by decide +kernel)
  have kept : Steady c.db (sampleGrant 10) := by
    have resources : (sampleGrant 10).resources = (sampleDb 10).resources := by decide +kernel
    rw [before]
    exact ⟨⟨notLowered_of_charge "demo" 1 (by decide +kernel) (by decide +kernel) resources,
      sample_distinct resources⟩, roundingSafe_of_exact (by decide +kernel)⟩
  exact ⟨c, reachable, granted, (grants_within_limits (sample_unused 10) reachable step kept).1 1
    sampleRow 7 granted⟩

def ninesLimit : ℚ := 99999999999999999999999999999 / 100000000000000000000000000000

theorem rounded_budget_overspends :
    ¬ ∀ (init : AllocDb) (c c' : Config AllocDb LockScope AllocError Unit), Unused init →
      Reachable starts Unlowered init c → Step starts c c' → Unlowered c.db c'.db →
      (∀ id a resource, Granted c.db c'.db id a resource → WithinLimits c'.db a resource) ∧
        DisjointClaims c'.db := by
  intro claim
  have start : Unlowered (sampleDb ninesLimit) (sampleDb ninesLimit) :=
    ⟨.refl _, sample_distinct rfl⟩
  obtain ⟨c, reachable, before, step⟩ := sample_step start (by decide +kernel)
  have kept : Unlowered c.db (sampleGrant ninesLimit) := by
    have resources : (sampleGrant ninesLimit).resources = (sampleDb ninesLimit).resources := by
      decide +kernel
    rw [before]
    exact ⟨notLowered_of_charge "demo" 1 (by decide +kernel) (by decide +kernel) resources,
      sample_distinct resources⟩
  have granted := sample_granted before (by decide +kernel)
  obtain ⟨b, found, within⟩ := ((claim _ c _ (sample_unused ninesLimit) reachable step kept).1 1
    sampleRow 7 granted).budget
  have charged : find (sampleGrant ninesLimit).budgets "demo" = some ⟨"demo", ninesLimit, 1⟩ := by
    decide +kernel
  have same : b = ⟨"demo", ninesLimit, 1⟩ := Option.some.inj (found.symm.trans charged)
  subst same
  have exceeds : ¬ (1 : ℚ) ≤ ninesLimit := by decide +kernel
  exact exceeds within

end Sample

end Kdive.Capacity
