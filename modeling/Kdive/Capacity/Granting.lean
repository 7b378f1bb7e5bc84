import Kdive.Capacity.Gate

/-!
Admission and the queue respect the discipline: run in any interleaving, what they commit is
one of the moves their locks allow, with room for every grant at its commit.
-/
namespace Kdive.Capacity
open Table Txn

variable {steady : Prop} {H : Set LockScope} {s : AllocDb} {w : AllocDb → AllocDb}

section Admission

theorem wp_recordKeyIfSent {Q : Unit → Set LockScope → (AllocDb → AllocDb) → AllocDb → Prop}
    {principal project kind : String} {key : Option String} {id : Uuid}
    (sound : (capacity steady).Sound s)
    (post : ∀ K v t, H ⊆ K → Agree v w → (capacity steady).Sound t → Rely steady H s t →
      Q () K v t) :
    wp (capacity steady) Q (recordKeyIfSent principal key project kind id) H w s := by
  cases key with
  | none => exact post H w s (Set.Subset.refl H) (.refl w) sound (rely_refl s)
  | some k =>
    simp only [recordKeyIfSent, recordKey, wp_bind, wp_acquire, wp_get]
    intro t _ moved u sound' moved'
    have grown := Set.subset_insert (LockScope.idempotencyKey principal k) H
    split
    · trivial
    · exact post _ _ u grown (fun _ => ⟨rfl, rfl, rfl⟩) sound'
        (rely_trans moved (rely_mono grown moved'))

theorem wp_priceWindowAndEstimate
    {Q : ℚ × ℚ → Set LockScope → (AllocDb → AllocDb) → AllocDb → Prop} {bounds : LeaseBounds}
    {request : AllocationRequest}
    (post : ∀ hours estimate t, (capacity steady).Sound t → Rely steady H s t →
      quantizeKcu estimate = .ok estimate → Q (hours, estimate) H w t) :
    wp (capacity steady) Q (priceWindowAndEstimate bounds request) H w s := by
  rw [priceWindowAndEstimate, wp_bind]
  apply wp_liftExcept
  intro hours _
  rw [wp_bind]
  apply wp_liftExcept
  intro _ _
  rw [wp_bind]
  apply wp_liftExcept
  intro _ _
  rw [wp_bind]
  apply wp_liftExcept
  intro _ _
  simp only [resolveCoeff, wp_bind, wp_get]
  intro t sound moved
  split
  · simp only [wp_pure]
    apply wp_liftExcept
    intro accel _
    apply wp_liftExcept
    intro estimate rounded
    exact post hours estimate t sound moved (quantizeKcu_idempotent rounded)
  · trivial

/-- A row is inserted under the entry of its key, so it is still missing at the commit. -/
theorem wp_insertAllocation {Q : Unit → Set LockScope → (AllocDb → AllocDb) → AllocDb → Prop}
    {row : Allocation}
    (post : ∀ t, (capacity steady).Sound t → Rely steady H s t →
      find t.allocations row.id = none →
      Q () (insert (.allocationKey row.id) H) (fun db => db.insertAllocation row) t) :
    wp (capacity steady) Q (insertAllocation row) H id s := by
  simp only [insertAllocation, wp_bind, wp_acquire, wp_get]
  intro t _ moved u sound moved'
  have grown := Set.subset_insert (LockScope.allocationKey row.id) H
  split
  · trivial
  · rename_i missing
    exact post u sound (rely_trans moved (rely_mono grown moved')) missing

variable {request : AllocationRequest} {now : Instant} {newId : Uuid}

theorem inserts_row (row : Allocation) :
    Rewrites (fun db => db.insertAllocation row) row.id (fun old => some (old.getD row)) :=
  (rewrites_nothing row.id).inserts

theorem wp_grant {windowHours estimate : ℚ} {devices : List PCIeClaim}
    (held : .project request.project ∈ H) (locked : .resource request.resource.id ∈ H)
    (recordable : quantizeKcu estimate = .ok estimate)
    (room : Room steady s request.project request.resource.id estimate devices) :
    wp (capacity steady) (Commits (capacity steady))
      (grant request now newId windowHours estimate devices) H id s := by
  rw [grant, wp_bind]
  apply wp_insertAllocation
  intro t₁ sound₁ moved₁ missing
  rw [wp_bind]
  apply wp_reserve
  intro t₂ entry sound₂ moved₂ owner mine event amount funded
  rw [wp_bind]
  apply wp_recordKeyIfSent sound₂
  intro K v t₃ grown agree sound₃ moved₃
  rw [wp_bind]
  apply wp_record
  intro v' agree' T _ moved₄
  -- From the insertion to the commit the key and both locks are held.
  have fewer := Set.subset_insert (LockScope.allocationKey newId) H
  have later : Rely steady (insert (.allocationKey newId) H) t₂ T :=
    rely_trans moved₃ (rely_mono grown moved₄)
  have whole : Rely steady (insert (.allocationKey newId) H) t₁ T := rely_trans moved₂ later
  have absent : find T.allocations newId = none :=
    whole.unused newId (Set.mem_insert _ H) missing
  obtain ⟨b, present⟩ := funded
  obtain ⟨b', present', _⟩ := later.budgets request.project b present
  have charge : entry.kcuDelta = estimate := by
    rw [recordable, Except.ok.injEq] at amount
    exact amount.symm
  have there : Room steady T request.project request.resource.id entry.kcuDelta devices := by
    rw [charge]
    exact room_rely (rely_trans moved₁ (rely_mono fewer whole)) held locked room
  refine (inserts_row (grantedRow request now newId windowHours devices)).move_charged _
    (agree'.trans agree) absent rfl owner mine ⟨b', present'⟩ (grown (fewer held))
    (fun _ => grown (Set.mem_insert _ H)) ?_
  refine .grant none _ request.resource.id entry ?_ rfl rfl (grown (fewer locked)) event there
  intro q impossible
  cases impossible

theorem wp_enqueue (sound : (capacity steady).Sound s) (held : .project request.project ∈ H) :
    wp (capacity steady) (Commits (capacity steady)) (enqueue request now newId) H id s := by
  rw [enqueue, wp_bind]
  refine wp_reads (reads_withinPendingQuota request.project) sound ?_
  intro within K t grown sound₁ _
  split
  · exact commits_still (.refl id)
  rw [wp_bind]
  apply wp_insertAllocation
  intro t₁ _ _ missing
  rw [wp_bind]
  apply wp_recordKeyIfSent (by assumption)
  intro K' v t₂ grown' agree _ moved₂
  rw [wp_bind]
  apply wp_record
  intro v' agree' T _ moved₃
  have fewer := Set.subset_insert (LockScope.allocationKey newId) K
  have absent : find T.allocations newId = none :=
    (rely_trans moved₂ (rely_mono grown' moved₃)).unused newId (Set.mem_insert _ K) missing
  exact (inserts_row (queuedRow request now newId)).move _ (agree'.trans agree) absent rfl
    (grown' (fewer (grown held))) (fun _ => grown' (Set.mem_insert _ K))
    (.enqueue _ rfl rfl rfl rfl)

theorem wp_denyOrEnqueue {denial : Denial} {estimate : ℚ} (sound : (capacity steady).Sound s)
    (held : .project request.project ∈ H) :
    wp (capacity steady) (Commits (capacity steady))
      (denyOrEnqueue request now newId denial estimate) H id s := by
  unfold denyOrEnqueue
  split
  · exact wp_enqueue sound held
  · rw [wp_bind]
    refine wp_reads (reads_enrichFundingDenial _ _ _) sound ?_
    intro enriched K t _ _ _
    exact commits_still (.refl id)

theorem wp_admitUnderProjectLock {windowHours estimate : ℚ} (sound : (capacity steady).Sound s)
    (held : .project request.project ∈ H) (known : steady → HostKnown s request.resource)
    (recordable : quantizeKcu estimate = .ok estimate) :
    wp (capacity steady) (Commits (capacity steady))
      (admitUnderProjectLock request now newId windowHours estimate) H id s := by
  rw [admitUnderProjectLock, wp_bind]
  refine wp_reads (reads_replayIfSent _ _ _) sound ?_
  intro replay K t grown _ moved
  cases replay with
  | some stored =>
    dsimp only
    split <;> exact commits_still (.refl id)
  | none =>
    simp only [wp_bind, wp_acquire]
    intro u sound' moved'
    have fewer := Set.subset_insert (LockScope.resource request.resource.id) K
    have relied := rely_trans moved (rely_mono grown moved')
    have held' := fewer (grown held)
    have locked := Set.mem_insert (LockScope.resource request.resource.id) K
    apply wp_admissionGate sound' held' locked
      (fun assumed => hostKnown_rely assumed relied (known assumed)) recordable
    · intro denial t' sound'' _
      exact wp_denyOrEnqueue sound'' held'
    · intro claims t' _ _ room
      exact wp_grant held' locked recordable room

theorem safe_requestAllocation (bounds : LeaseBounds) (request : AllocationRequest)
    (now : Instant) (newId : Uuid) :
    Safe (capacity steady) (requestAllocation bounds request now newId) := by
  intro s _
  simp only [requestAllocation, admitAllocation, wp_bind, wp_get]
  intro t sound _
  split
  · exact commits_still (.refl id)
  rename_i host found
  have known : steady → HostKnown t host :=
    fun assumed => hostKnown_of_mem assumed sound (find_mem found)
  simp only [wp_bind]
  apply wp_priceWindowAndEstimate
  intro hours estimate t₁ _ moved₁ recordable
  rw [wp_acquire]
  intro t₂ sound₂ moved₂
  have relied := rely_trans moved₁ moved₂
  refine wp_mono (wp_admitUnderProjectLock sound₂ (Set.mem_insert _ _)
    (fun assumed => hostKnown_rely assumed relied (known assumed)) recordable) ?_
  intro outcome K v u commits
  exact commits

end Admission

section Held

def Current (s : AllocDb) (a : Allocation) : Prop :=
  ∃ a₀, find s.allocations a.id = some a₀ ∧ a₀.unstamped = a.unstamped

theorem current_of_find {id : Uuid} {a : Allocation} (found : find s.allocations id = some a) :
    Current s a := by
  have key : a.id = id := find_key found
  exact ⟨a, by rw [key]; exact found, rfl⟩

theorem current_rely {t : AllocDb} {a : Allocation} (held : .project a.project ∈ H)
    (rely : Rely steady H s t) (current : Current s a) : Current t a := by
  obtain ⟨a₀, found, same⟩ := current
  obtain ⟨a₁, found', _, same'⟩ := rely.rows a.id a₀ found
  exact ⟨a₁, found', (same' (by rw [project_of_unstamped same]; exact held)).trans same⟩

theorem project_fixed {t : AllocDb} {id : Uuid} {a a' : Allocation} (rely : Rely steady H s t)
    (found : find s.allocations id = some a) (found' : find t.allocations id = some a') :
    a'.project = a.project := by
  obtain ⟨b, there, project, _⟩ := rely.rows id a found
  rw [found', Option.some.injEq] at there
  subst there
  exact project

/-- The locks a row read without a lock led to are those of the row read under them. -/
theorem locked_row {t t₁ t₂ t₃ : AllocDb} {id : Uuid} {probe a : Allocation}
    (found : find t.allocations id = some probe) (moved₁ : Rely steady ∅ t t₁)
    (moved₂ : Rely steady (insert (.project probe.project) ∅) t₁ t₂)
    (moved₃ : Rely steady (insert (.allocation id) (insert (.project probe.project) ∅)) t₂ t₃)
    (found' : find t₃.allocations id = some a) :
    .project a.project ∈
      (insert (.allocation id) (insert (.project probe.project) ∅) : Set LockScope) := by
  have unlocked : Rely steady ∅ t t₃ := rely_trans moved₁ (rely_trans
    (rely_mono (Set.empty_subset _) moved₂) (rely_mono (Set.empty_subset _) moved₃))
  rw [project_fixed unlocked found found']
  exact Set.mem_insert_of_mem _ (Set.mem_insert _ _)

variable {target : Uuid} {h : Option Allocation → Option Allocation}

theorem Rewrites.update (rewrites : Rewrites w target h) {f : Allocation → Allocation}
    (keeps : ∀ a, (f a).id = a.id) :
    Rewrites (fun db => (w db).updateAllocation target f keeps) target
      (fun old => (h old).map (fun a => if a.id = target then f a else a)) := by
  have updated := rewrites.updates (p := fun a => a.id = target) keeps
    fun a hit => of_decide_eq_true hit
  simp only [decide_eq_true_eq] at updated
  exact updated

end Held

section Queue

variable {a : Allocation} {now : Instant} {bounds : LeaseBounds}

theorem wp_failQueued {Q : Unit → Set LockScope → (AllocDb → AllocDb) → AllocDb → Prop}
    {category : ErrorCategory} {tool : String} (held : .project a.project ∈ H)
    (current : Current s a) (queued : a.state = .requested)
    (post : ∀ v t, Commits (capacity steady) () H v t → Q () H v t) :
    wp (capacity steady) Q (failQueued a category tool) H id s := by
  rw [failQueued, wp_bind]
  apply wp_updateState
  intro t _ _ moved _ _
  simp only [wp_bind, wp_modify]
  apply wp_recordSystem
  intro v agree
  refine post v t ?_
  intro T _ moved'
  obtain ⟨a₀, found, same⟩ := current_rely held (rely_trans moved moved') current
  have key : a₀.id = a.id := find_key found
  have project := project_of_unstamped same
  have rewritten := ((rewrites_nothing a.id).update (Allocation.moveTo_id .failed)).update
    (Allocation.failWith_id category)
  refine rewritten.move ((a₀.moveTo .failed).failWith category) agree found ?_ ?_ ?_ ?_
  · simp [key]
  · change LockScope.project a₀.project ∈ H
    rw [project]
    exact held
  · intro impossible
    cases impossible
  · exact .drop a₀ _ ((state_of_unstamped same).trans queued) (.inr rfl) rfl

theorem wp_grantQueued {Q : Bool → Set LockScope → (AllocDb → AllocDb) → AllocDb → Prop}
    {resource : Uuid} {windowHours estimate : ℚ} {devices : List PCIeClaim}
    (held : .project a.project ∈ H) (locked : .resource resource ∈ H)
    (current : Current s a) (queued : a.state = .requested)
    (recordable : quantizeKcu estimate = .ok estimate)
    (room : Room steady s a.project resource estimate devices)
    (missed : ∀ t, (capacity steady).Sound t → Rely steady H s t → Q false H id t)
    (granted : ∀ v t, Commits (capacity steady) () H v t → Q true H v t) :
    wp (capacity steady) Q (grantQueued a resource now windowHours estimate devices) H id s := by
  unfold grantQueued
  simp only [queued]
  rw [if_neg (by decide)]
  simp only [wp_bind, wp_get]
  intro t₁ sound₁ moved₁
  split
  · exact missed t₁ sound₁ moved₁
  simp only [wp_bind, wp_modify]
  apply wp_reserve
  intro t₂ entry _ moved₂ owner mine event amount funded
  apply wp_recordSystem
  intro v agree
  refine granted v t₂ ?_
  intro T _ moved₃
  have whole := rely_trans moved₁ (rely_trans moved₂ moved₃)
  obtain ⟨a₀, found, same⟩ := current_rely held whole current
  have project := project_of_unstamped same
  have state := (state_of_unstamped same).trans queued
  have key : a₀.id = a.id := find_key found
  obtain ⟨b, present⟩ := funded
  obtain ⟨b', present', _⟩ := moved₃.budgets a.project b present
  have charge : entry.kcuDelta = estimate := by
    rw [recordable, Except.ok.injEq] at amount
    exact amount.symm
  have rewritten := (rewrites_nothing a.id).updates
    (p := fun row => row.id = a.id ∧ row.state = .requested)
    (Allocation.grantOn_id resource (leaseEnd now windowHours) devices)
    fun row hit => (of_decide_eq_true hit).1
  refine rewritten.move_charged (a₀.grantOn resource (leaseEnd now windowHours) devices)
    agree found ?_ (owner.trans project.symm) mine ⟨b', ?_⟩ ?_ ?_ ?_
  · simp [key, state]
  · change find T.budgets a₀.project = some b'
    rw [project]
    exact present'
  · change LockScope.project a₀.project ∈ H
    rw [project]
    exact held
  · intro impossible
    cases impossible
  · refine .grant (some a₀) _ resource entry ?_ rfl rfl locked event ?_
    · intro q known
      rw [Option.some.injEq] at known
      subst known
      exact ⟨state, rfl⟩
    · change Room steady T a₀.project resource entry.kcuDelta devices
      rw [charge, project]
      exact room_rely whole held locked room

theorem requestFromQueued_ok {r : Resource} {request : AllocationRequest}
    (rebuilt : requestFromQueued a r = .ok request) :
    request.project = a.project ∧ request.resource = r := by
  unfold requestFromQueued at rebuilt
  split at rebuilt
  · cases rebuilt
  · cases rebuilt
    exact ⟨rfl, rfl⟩

theorem wp_tryOneHost {Q : HostAttempt → Set LockScope → (AllocDb → AllocDb) → AllocDb → Prop}
    {r : Resource} (held : .project a.project ∈ H) (current : Current s a)
    (queued : a.state = .requested) (known : steady → HostKnown s r)
    (wait : ∀ K t, H ⊆ K → (capacity steady).Sound t → Rely steady H s t → Q .wait K id t)
    (ended : ∀ attempt K v t, attempt ≠ .wait → Commits (capacity steady) () K v t →
      Q attempt K v t) :
    wp (capacity steady) Q (tryOneHost bounds now a r) H id s := by
  rw [tryOneHost, wp_bind]
  apply wp_liftExcept
  intro request rebuilt
  obtain ⟨project, rfl⟩ := requestFromQueued_ok rebuilt
  rw [wp_bind]
  apply wp_priceWindowAndEstimate
  intro hours estimate t₁ _ moved₁ recordable
  simp only [wp_bind, wp_acquire]
  intro t₂ _ moved₂ t₃ sound₃ moved₃
  have first := Set.subset_insert (LockScope.resource request.resource.id) H
  have second := Set.subset_insert (LockScope.allocation a.id) (insert (.resource request.resource.id) H)
  have grown := first.trans second
  have relied : Rely steady H s t₃ := rely_trans moved₁ (rely_trans moved₂ (rely_mono first moved₃))
  have held' := grown held
  have locked := second (Set.mem_insert (LockScope.resource request.resource.id) H)
  have current' := current_rely held relied current
  apply wp_admissionGate sound₃ (by rw [project]; exact held') locked
    (fun assumed => hostKnown_rely assumed relied (known assumed)) recordable
  · intro denial t₄ sound₄ moved₄
    have relied' := rely_trans relied (rely_mono grown moved₄)
    dsimp only
    split
    · rw [wp_bind]
      apply wp_failQueued held' (current_rely held' moved₄ current') queued
      intro v t commits
      exact ended .terminated _ v t (by decide) commits
    · exact wait _ t₄ grown sound₄ relied'
  · intro claims t₄ _ moved₄ room
    rw [project] at room
    rw [wp_bind]
    apply wp_grantQueued held' locked (current_rely held' moved₄ current') queued recordable room
    · intro t sound moved
      exact wait _ t grown sound (rely_trans relied (rely_mono grown (rely_trans moved₄ moved)))
    · intro v t commits
      exact ended .granted _ v t (by decide) commits

theorem wp_placeOrTerminate {hosts : List Resource} (sound : (capacity steady).Sound s)
    (held : .project a.project ∈ H) (current : Current s a) (queued : a.state = .requested)
    (known : steady → ∀ r ∈ hosts, HostKnown s r) :
    wp (capacity steady) (Commits (capacity steady)) (placeOrTerminate bounds now a hosts) H id s := by
  induction hosts generalizing H s with
  | nil => exact commits_still (.refl id)
  | cons r rest ih =>
    rw [placeOrTerminate, wp_bind]
    apply wp_tryOneHost held current queued (fun assumed => known assumed r List.mem_cons_self)
    · intro K t grown sound' moved
      refine ih sound' (grown held) (current_rely held moved current) ?_
      intro assumed r' member
      exact hostKnown_rely assumed moved (known assumed r' (List.mem_cons_of_mem r member))
    · intro attempt K v t past commits
      cases attempt with
      | granted => exact commits
      | terminated => exact commits
      | wait => exact absurd rfl past

theorem wp_withFreeDevices {Q : List Resource → Set LockScope → (AllocDb → AllocDb) → AllocDb → Prop}
    {specs : List String} {hosts : List Resource} (sound : (capacity steady).Sound s)
    (post : ∀ kept t, (∀ r ∈ kept, r ∈ hosts) → (capacity steady).Sound t → Rely steady H s t →
      Q kept H id t) :
    wp (capacity steady) Q (withFreeDevices specs hosts) H id s := by
  induction hosts generalizing s Q with
  | nil => exact post [] s (fun _ member => member) sound (rely_refl s)
  | cons r rest ih =>
    simp only [withFreeDevices, activeClaims, wp_bind, wp_get, wp_pure]
    intro t sound' moved
    apply wp_liftExcept
    intro resolution _
    apply ih sound'
    intro kept u inside sound'' moved'
    refine post _ u ?_ sound'' (rely_trans moved moved')
    intro r' member
    split at member
    · rcases List.mem_cons.mp member with rfl | later
      · exact List.mem_cons_self
      · exact List.mem_cons_of_mem r (inside r' later)
    · exact List.mem_cons_of_mem r (inside r' member)

theorem schedulableCandidates_mem {db : AllocDb} {request : PlacementRequest} {r : Resource}
    (member : r ∈ schedulableCandidates db request) : r ∈ db.resources.rows := by
  have labelled : ∀ label project arch, r ∈ labelCandidates db label project arch →
      r ∈ db.resources.rows := by
    intro label project arch listed
    obtain ⟨sorted, _⟩ := List.mem_filter.mp listed
    exact (List.mem_filter.mp (List.mem_mergeSort.mp sorted)).1
  unfold schedulableCandidates at member
  split at member
  · split at member
    · cases member
    · rename_i host found
      split at member
      · rw [List.mem_singleton] at member
        subst member
        exact find_mem found
      · cases member
  · exact labelled _ _ _ member
  · exact labelled _ _ _ member
  · cases member

theorem wp_candidateHosts {Q : List Resource → Set LockScope → (AllocDb → AllocDb) → AllocDb → Prop}
    (sound : (capacity steady).Sound s)
    (post : ∀ hosts t, (capacity steady).Sound t → Rely steady H s t →
      (steady → ∀ r ∈ hosts, HostKnown t r) → Q hosts H id t) :
    wp (capacity steady) Q (candidateHosts a) H id s := by
  unfold candidateHosts
  split
  · refine post [] s sound (rely_refl s) ?_
    intro _ r member
    cases member
  · simp only [resolvePlacementCandidates, wp_bind, wp_get, id]
    intro t sound' moved
    have known : ∀ request, steady → ∀ r ∈ schedulableCandidates t request, HostKnown t r :=
      fun _ assumed r member => hostKnown_of_mem assumed sound' (schedulableCandidates_mem member)
    split
    · exact post _ t sound' moved (known _)
    · apply wp_withFreeDevices sound'
      intro kept u inside sound'' moved'
      refine post kept u sound'' (rely_trans moved moved') ?_
      intro assumed r member
      exact hostKnown_rely assumed moved' (known _ assumed r (inside r member))

theorem safe_promoteOne (bounds : LeaseBounds) (now : Instant) (id : Uuid) :
    Safe (capacity steady) (promoteOne bounds now id) := by
  intro s _
  rw [promoteOne, wp_bind]
  apply wp_getAllocation
  intro t _ _
  split
  · exact commits_still (.refl _)
  rename_i candidate found
  simp only [wp_bind, wp_acquire]
  intro t₁ _ moved₁
  apply wp_getAllocation
  intro t₂ sound₂ moved₂
  split
  · exact commits_still (.refl _)
  rename_i a again
  obtain ⟨found', queued⟩ := Option.filter_eq_some_iff.mp again
  have project := project_fixed (rely_trans moved₁ (rely_mono (Set.empty_subset _) moved₂)) found found'
  have held : .project a.project ∈ (insert (.project candidate.project) ∅ : Set LockScope) := by
    rw [project]
    exact Set.mem_insert _ _
  simp only [wp_bind]
  apply wp_candidateHosts sound₂
  intro hosts t₃ sound₃ moved₃ known
  refine wp_mono (wp_placeOrTerminate sound₃ held
    (current_rely held moved₃ (current_of_find found')) (of_decide_eq_true queued) known) ?_
  intro granted K v u commits
  exact commits

theorem safe_reapOne (selected now : Instant) (maxWait : Duration) (id : Uuid) :
    Safe (capacity steady) (reapOne selected now maxWait id) := by
  intro s _
  rw [reapOne, wp_bind]
  apply wp_getAllocation
  intro t _ _
  split
  · exact commits_still (.refl _)
  rename_i candidate chosen
  have found := (Option.filter_eq_some_iff.mp chosen).1
  simp only [wp_bind, wp_acquire]
  intro t₁ _ moved₁ t₂ _ moved₂
  apply wp_getAllocation
  intro t₃ _ moved₃
  split
  · exact commits_still (.refl _)
  rename_i b checked
  obtain ⟨foundB, aged⟩ := Option.filter_eq_some_iff.mp checked
  rw [wp_bind]
  apply wp_getAllocation
  intro t₄ _ moved₄
  split
  · exact commits_still (.refl _)
  rename_i a found'
  have held := locked_row found moved₁ moved₂ moved₃ foundB
  have held' := locked_row found moved₁ moved₂ (rely_trans moved₃ moved₄) found'
  -- The second look at the row, under its project's lock, sees what the first one saw.
  have queued : a.state = .requested := by
    obtain ⟨a', there, _, same⟩ := moved₄.rows id b foundB
    have unique : a = a' := Option.some.inj (found'.symm.trans there)
    rw [unique, state_of_unstamped (same held)]
    exact (of_decide_eq_true aged).1
  rw [wp_bind]
  apply wp_failQueued held' (current_of_find found') queued
  intro v u commits
  exact commits

end Queue

end Kdive.Capacity
