import Kdive.Capacity.Granting

/-!
Releases, expiries, renewals and the remaining operations respect the discipline, and with
them every transaction on the allocation tables.
-/
namespace Kdive.Capacity
open Table Txn

variable {steady : Prop} {H : Set LockScope} {s : AllocDb} {w : AllocDb → AllocDb}

section Ending

variable {a b : Allocation} {h : Option Allocation → Option Allocation}

def Carries (target : Uuid) (h : Option Allocation → Option Allocation) : Prop :=
  ∀ a₀ : Allocation, a₀.id = target → ∃ new, h (some a₀) = some new ∧ new.id = target ∧
    new.project = a₀.project

theorem carries_nothing (target : Uuid) : Carries target id := fun a₀ key => ⟨a₀, rfl, key, rfl⟩

theorem Carries.update {target : Uuid} (carries : Carries target h)
    {f : Allocation → Allocation} (ids : ∀ a, (f a).id = a.id)
    (projects : ∀ a, (f a).project = a.project) :
    Carries target (fun old => (h old).map (fun a => if a.id = target then f a else a)) := by
  intro a₀ key
  obtain ⟨new, made, key', project⟩ := carries a₀ key
  refine ⟨f new, ?_, (ids new).trans key', (projects new).trans project⟩
  simp [made, key']

def Ends (target : Uuid) (h : Option Allocation → Option Allocation) : Prop :=
  ∀ a₀ : Allocation, a₀.id = target → ∃ new, h (some a₀) = some new ∧
    new.project = a₀.project ∧ (new.state = .released ∨ new.state = .expired)

theorem Carries.ends {target : Uuid} (carries : Carries target h) {state : AllocationState}
    (ended : state = .released ∨ state = .expired) :
    Ends target (fun old => (h old).map (fun a => if a.id = target then a.moveTo state else a)) := by
  intro a₀ key
  obtain ⟨new, made, key', project⟩ := carries a₀ key
  refine ⟨new.moveTo state, ?_, project, ended⟩
  simp [made, key']

theorem wp_settle {Q : ℚ → Set LockScope → (AllocDb → AllocDb) → AllocDb → Prop}
    (held : .project a.project ∈ H) (current : Current s a) (busy : a.occupies)
    (same : b.id = a.id) (sameProject : b.project = a.project) (rewrites : Rewrites w a.id h)
    (ends : Ends a.id h)
    (post : ∀ delta K v t, Commits (capacity steady) () K v t → Q delta K v t) :
    wp (capacity steady) Q (reconcile b) H w s := by
  have funded : ∀ {t}, (capacity steady).Sound t → Rely steady H s t →
      ∃ c, find t.budgets a.project = some c := by
    intro t sound moved
    obtain ⟨a₀, found, unstamped⟩ := current_rely held moved current
    rw [← project_of_unstamped unstamped]
    refine sound.inv.budget_of_occupies found ?_
    rw [occupies_of_unstamped unstamped]
    exact busy
  apply wp_reconcile
  · intro t sound moved
    obtain ⟨c, present⟩ := funded sound moved
    rw [rewrites.budgets, sameProject]
    exact ⟨c, present⟩
  · intro K t entry grown _ moved owner mine event
    refine post entry.kcuDelta K _ t ?_
    intro T sound' moved'
    have whole := rely_trans moved (rely_mono grown moved')
    obtain ⟨a₀, found, unstamped⟩ := current_rely held whole current
    obtain ⟨last, made, kept, ended⟩ := ends a₀ (find_key found)
    obtain ⟨c, present⟩ := funded sound' whole
    have lastProject : last.project = a.project := kept.trans (project_of_unstamped unstamped)
    refine rewrites.move_charged last (.refl _) found made ?_ (mine.trans same) ?_ ?_ ?_ ?_
    · exact owner.trans (sameProject.trans lastProject.symm)
    · rw [lastProject]
      exact ⟨c, present⟩
    · rw [lastProject]
      exact grown held
    · intro impossible
      cases impossible
    · refine .finish a₀ last entry ?_ ended kept event
      rw [occupies_of_unstamped unstamped]
      exact busy

theorem wp_closeOut (actor : Actor) {project : String} (held : .project a.project ∈ H)
    (current : Current s a) (busy : a.occupies) (same : b.id = a.id)
    (sameProject : b.project = a.project) (rewrites : Rewrites w a.id h)
    (carries : Carries a.id h) :
    wp (capacity steady) (Commits (capacity steady)) (closeOut actor.writer b project) H w s := by
  simp only [closeOut, transitionAndAudit, wp_bind]
  rw [same]
  apply wp_updateState
  intro t _ _ moved _ _
  apply wp_writer
  intro v agree
  apply wp_settle held (current_rely held moved current) busy same sameProject
    ((rewrites.update (Allocation.moveTo_id .released)).agree agree) (carries.ends (.inl rfl))
  intro delta K v' u commits
  exact commits

theorem wp_stampActiveEnded {Q : Allocation → Set LockScope → (AllocDb → AllocDb) → AllocDb → Prop}
    {ended : Instant} (rewrites : Rewrites w a.id h) (carries : Carries a.id h)
    (post : ∀ b v h' t, b.id = a.id → b.project = a.project → Rewrites v a.id h' →
      Carries a.id h' → Rely steady H s t → Q b H v t) :
    wp (capacity steady) Q (stampActiveEnded a ended) H w s := by
  rw [stampActiveEnded, wp_bind]
  apply wp_getAllocation
  intro t _ moved
  split
  · exact post a w h t rfl rfl rewrites carries moved
  · simp only [wp_bind, wp_modify]
    exact post _ _ _ t rfl rfl (rewrites.update (Allocation.endedAt_id ended))
      (carries.update (Allocation.endedAt_id ended) fun _ => rfl) moved

theorem wp_releaseHeld (actor : Actor) {now : Instant} {project : String}
    (held : .project a.project ∈ H) (current : Current s a) (busy : a.occupies) :
    wp (capacity steady) (Commits (capacity steady)) (releaseHeld actor.writer now a project) H id
      s := by
  simp only [releaseHeld, transitionAndAudit, wp_bind]
  apply wp_updateState
  intro t _ _ moved _ _
  apply wp_writer
  intro v agree
  have rewritten := ((rewrites_nothing a.id).update (Allocation.moveTo_id .releasing)).agree agree
  apply wp_stampActiveEnded rewritten
    ((carries_nothing a.id).update (Allocation.moveTo_id .releasing) fun _ => rfl)
  intro b v' h' u same sameProject rewritten' carries moved'
  exact wp_closeOut actor held (current_rely held (rely_trans moved moved') current) busy same sameProject
    rewritten' carries

theorem safe_releaseAllocation (boot : BootGuard) (actor : Actor) (now : Instant) (id : Uuid) :
    Safe (capacity steady) (releaseAllocation boot actor.writer now id) := by
  intro s _
  rw [releaseAllocation, wp_bind]
  apply wp_getAllocation
  intro t _ _
  split
  · exact commits_still (.refl _)
  rename_i probe found
  simp only [releaseLocked, wp_bind, wp_acquire]
  intro t₁ _ moved₁ t₂ _ moved₂
  apply wp_getAllocation
  intro t₃ sound₃ moved₃
  split
  · exact commits_still (.refl _)
  rename_i a found'
  have key : a.id = id := find_key found'
  have held := locked_row found moved₁ moved₂ moved₃ found'
  have current := current_of_find found'
  split
  · exact commits_still (.refl _)
  · exact commits_still (.refl _)
  · exact commits_still (.refl _)
  · rename_i queued
    simp only [transitionAndAudit, wp_bind]
    apply wp_updateState
    intro t₄ _ _ moved₄ _ _
    apply wp_writer
    intro v agree T _ moved₅
    obtain ⟨a₀, there, same⟩ := current_rely held (rely_trans moved₄ moved₅) current
    rw [key] at there
    have key' : a₀.id = id := find_key there
    refine ((rewrites_nothing id).update (Allocation.moveTo_id .released)).move (a₀.moveTo .released)
      agree there ?_ ?_ ?_ ?_
    · simp [key']
    · change LockScope.project a₀.project ∈ _
      rw [project_of_unstamped same]
      exact held
    · intro impossible
      cases impossible
    · exact .drop a₀ _ ((state_of_unstamped same).trans queued) (.inl rfl) rfl
  all_goals
    rename_i state
    have busy : a.occupies := by
      rw [Allocation.occupies, state]
      rfl
    rw [wp_bind]
    refine wp_reads (reads_releaseRefused boot id) sound₃ ?_
    intro refused K u grown _ moved₄
    have current' := current_rely held moved₄ current
    cases refused with
    | some system => trivial
    | none =>
      first
      | exact wp_releaseHeld actor (grown held) current' busy
      | exact wp_closeOut actor (grown held) current' busy rfl rfl (rewrites_nothing a.id)
          (carries_nothing a.id)

theorem safe_reclaimOrphanedActive (boot : BootGuard) (now : Instant) (stillOrphaned : Bool)
    (id : Uuid) : Safe (capacity steady) (reclaimOrphanedActive boot now stillOrphaned id) := by
  intro s _
  rw [reclaimOrphanedActive, wp_bind]
  apply wp_getAllocation
  intro t _ _
  split
  · exact commits_still (.refl _)
  rename_i probe chosen
  have found := (Option.filter_eq_some_iff.mp chosen).1
  simp only [reclaimUnderLock, wp_bind, wp_acquire]
  intro t₁ _ moved₁ t₂ _ moved₂
  apply wp_getAllocation
  intro t₃ sound₃ moved₃
  split
  · exact commits_still (.refl _)
  rename_i a found'
  have held := locked_row found moved₁ moved₂ moved₃ found'
  split
  · exact commits_still (.refl _)
  split
  · exact commits_still (.refl _)
  rename_i releasable
  split
  · exact commits_still (.refl _)
  rw [wp_bind]
  refine wp_reads (reads_releaseRefused boot id) sound₃ ?_
  intro refused K u grown _ moved₄
  cases refused with
  | some system => exact commits_still (.refl _)
  | none =>
    have busy : a.occupies := by
      unfold Allocation.occupies
      by_cases granted : a.state = .granted
      · rw [granted]
        rfl
      · have active : a.state = .active := by
          by_contra other
          exact releasable ⟨granted, other⟩
        rw [active]
        rfl
    exact wp_releaseHeld (.platform systemPrincipal) (grown held)
      (current_rely held moved₄ (current_of_find found')) busy

theorem occupies_of_lease {a : Allocation} {id : Uuid} {expiry : Instant}
    (sound : (capacity steady).Sound s) (found : find s.allocations id = some a)
    (live : a.state.terminal = false) (leased : a.leaseExpiry = some expiry) : a.occupies := by
  have queued := sound.inv.queued id a found
  rw [leased] at queued
  unfold Allocation.occupies
  cases state : a.state with
  | requested => cases (queued state).1
  | granted => rfl
  | active => rfl
  | releasing => rfl
  | released => rw [state] at live; cases live
  | expired => rw [state] at live; cases live
  | failed => rw [state] at live; cases live

theorem safe_expireOne (boot : BootGuard) (selected now : Instant) (id : Uuid) :
    Safe (capacity steady) (expireOne boot selected now id) := by
  intro s _
  rw [expireOne, wp_bind]
  apply wp_getAllocation
  intro t _ _
  split
  · exact commits_still (.refl _)
  rename_i probe chosen
  have found := (Option.filter_eq_some_iff.mp chosen).1
  simp only [wp_bind, wp_acquire]
  intro t₁ _ moved₁ t₂ _ moved₂
  apply wp_getAllocation
  intro t₃ sound₃ moved₃
  split
  · exact commits_still (.refl _)
  rename_i a checked
  obtain ⟨found', live⟩ := Option.filter_eq_some_iff.mp checked
  have held := locked_row found moved₁ moved₂ moved₃ found'
  have current := current_of_find found'
  have key : a.id = id := find_key found'
  rw [wp_bind]
  apply wp_getAllocation
  intro t₄ sound₄ moved₄
  split
  · exact commits_still (.refl _)
  rename_i c elapsed
  obtain ⟨found'', lapsed⟩ := Option.filter_eq_some_iff.mp elapsed
  -- The lease that lapsed is that of the row read before it, so the row holds a slot.
  have busy : a.occupies := by
    obtain ⟨a', there, _, same⟩ := moved₄.rows id a found'
    have unique : c = a' := Option.some.inj (found''.symm.trans there)
    have leased : c.leaseExpiry = a.leaseExpiry := by
      rw [unique]
      exact lease_of_unstamped (same held)
    unfold leaseElapsed at lapsed
    rw [leased] at lapsed
    cases expiry : a.leaseExpiry with
    | none =>
      rw [expiry] at lapsed
      cases lapsed
    | some lease => exact occupies_of_lease sound₃ found' (by simpa using live) expiry
  rw [wp_bind]
  refine wp_reads (reads_guardExternalBootRelease boot id) sound₄ ?_
  intro refused K u grown _ moved₅
  cases refused with
  | some system => exact commits_still (.refl _)
  | none =>
    rw [wp_bind]
    apply wp_stampActiveEnded (rewrites_nothing a.id) (carries_nothing a.id)
    intro b v h' t₆ same sameProject rewritten carries moved₆
    rw [wp_bind, ← key]
    apply wp_updateState
    intro t₇ _ _ moved₇ _ _
    rw [wp_bind]
    apply wp_recordSystem
    intro v' agree
    rw [wp_bind]
    have current' := current_rely held (rely_trans moved₄ moved₅) current
    apply wp_settle (grown held) (current_rely (grown held) (rely_trans moved₆ moved₇) current') busy
      same sameProject ((rewritten.update (Allocation.moveTo_id .expired)).agree agree)
      (carries.ends (.inr rfl))
    intro delta K' v'' t commits
    exact commits

end Ending

section Renewal

theorem wp_applyRenew {ctx : RequestContext} {a : Allocation} {extension : LeaseExtension}
    {estimate : ℚ} {key : Option String} (held : .project a.project ∈ H) (current : Current s a)
    (busy : a.occupies) :
    wp (capacity steady) (Commits (capacity steady)) (applyRenew ctx a extension estimate key) H id
      s := by
  simp only [applyRenew, wp_bind, wp_modify]
  apply wp_reserve
  intro t₁ entry sound₁ moved₁ owner mine event _ funded
  apply wp_recordKeyIfSent sound₁
  intro K v t₂ grown agree _ moved₂
  apply wp_record
  intro v' agree' T _ moved₃
  have later := rely_trans moved₂ (rely_mono grown moved₃)
  obtain ⟨a₀, found, same⟩ := current_rely held (rely_trans moved₁ later) current
  have project := project_of_unstamped same
  have row : a₀.id = a.id := find_key found
  have busy' : a₀.occupies := by
    rw [occupies_of_unstamped same]
    exact busy
  obtain ⟨b, present⟩ := funded
  obtain ⟨b', present', _⟩ := later.budgets a.project b present
  have rewritten := (rewrites_nothing a.id).update (Allocation.extendTo_id extension.newExpiry)
  refine rewritten.move_charged (a₀.extendTo extension.newExpiry) (agree'.trans agree) found ?_
    (owner.trans project.symm) mine ⟨b', ?_⟩ ?_ ?_ ?_
  · simp [row]
  · change find T.budgets a₀.project = some b'
    rw [project]
    exact present'
  · change LockScope.project a₀.project ∈ K
    rw [project]
    exact grown held
  · intro impossible
    cases impossible
  · refine .hold a₀ _ [entry] busy' busy' rfl rfl rfl ?_
    intro e member
    rw [List.mem_singleton] at member
    rw [member]
    exact event

theorem safe_renew (bounds : LeaseBounds) (ctx : RequestContext) (now : Instant) (id : Uuid)
    (extend : WindowInput) (key : Option String) :
    Safe (capacity steady) (renew bounds ctx now id extend key) := by
  intro s _
  rw [renew, wp_bind]
  apply wp_liftExcept
  intro hours _
  rw [wp_bind]
  apply wp_getAllocation
  intro t _ _
  split
  · exact commits_still (.refl _)
  rename_i probe found
  simp only [renewUnderProjectLock, wp_bind, wp_acquire]
  intro t₁ sound₁ moved₁
  refine wp_reads (reads_replayIfSent _ _ _) sound₁ ?_
  intro replay K t₂ grown _ moved₂
  cases replay with
  | some stored =>
    dsimp only
    split <;> exact commits_still (.refl _)
  | none =>
    dsimp only
    rw [wp_bind]
    apply wp_getAllocation
    intro t₃ sound₃ moved₃
    split
    · exact commits_still (.refl _)
    rename_i a found'
    have unlocked : Rely steady ∅ t t₃ := rely_trans moved₁ (rely_trans
      (rely_mono (Set.empty_subset _) moved₂) (rely_mono (Set.empty_subset _) moved₃))
    have held : LockScope.project a.project ∈ K := by
      rw [project_fixed unlocked found found']
      exact grown (Set.mem_insert _ _)
    split
    · exact commits_still (.refl _)
    rename_i live
    split
    · exact commits_still (.refl _)
    rename_i expiry leased
    have busy := occupies_of_lease sound₃ found' (by simpa using live) leased
    rw [wp_bind]
    apply wp_liftExcept
    intro extension _
    split
    · exact commits_still (.refl _)
    rw [wp_bind]
    refine wp_reads (reads_extensionEstimate _ _) sound₃ ?_
    intro estimate K₄ t₄ grown₄ sound₄ moved₄
    rw [wp_bind]
    refine wp_reads (reads_withinBudget _ _) sound₄ ?_
    intro within K₅ t₅ grown₅ _ moved₅
    split
    · exact commits_still (.refl _)
    have current := current_rely held (rely_trans moved₄ (rely_mono grown₄ moved₅))
      (current_of_find found')
    exact wp_applyRenew (grown₅ (grown₄ held)) current busy

end Renewal

section Others

theorem safe_activate (ctx : RequestContext) (target systemId : Uuid) (accel : Option String)
    (withinQuota : Bool) :
    Safe (capacity steady) (activate ctx target systemId accel withinQuota) := by
  intro s _
  rw [activate, wp_bind]
  apply wp_getAllocation
  intro t _ _
  split
  · exact commits_still (.refl _)
  rename_i probe found
  split
  · exact commits_still (.refl _)
  simp only [wp_bind, wp_acquire]
  intro t₁ _ moved₁ t₂ _ moved₂
  apply wp_getAllocation
  intro t₃ _ moved₃
  split
  · exact commits_still (.refl _)
  rename_i a found'
  have held := locked_row found moved₁ moved₂ moved₃ found'
  have key : a.id = target := find_key found'
  simp only [wp_bind, wp_get]
  intro t₄ _ moved₄
  split
  · exact commits_still (.refl _)
  split
  · exact commits_still (.refl _)
  rename_i ready
  have granted : a.state = .granted := by
    by_contra other
    exact ready (.inl other)
  simp only [wp_bind, wp_modify]
  apply wp_record
  intro v agree
  apply wp_updateState
  intro t₅ _ _ moved₅ _ _
  apply wp_record
  intro v' agree' T _ moved₆
  have current := current_rely held (rely_trans moved₄ (rely_trans moved₅ moved₆))
    (current_of_find found')
  obtain ⟨a₀, there, same⟩ := current
  rw [key] at there
  have row : a₀.id = target := find_key there
  have state := (state_of_unstamped same).trans granted
  have quiet : Agree v id := agree.trans fun _ => ⟨rfl, rfl, rfl⟩
  have rewritten := ((rewrites_nothing target).agree quiet).update (Allocation.moveTo_id .active)
  refine rewritten.move (a₀.moveTo .active) agree' there ?_ ?_ ?_ ?_
  · simp [row]
  · change LockScope.project a₀.project ∈ _
    rw [project_of_unstamped same]
    exact held
  · intro impossible
    cases impossible
  · refine .hold a₀ _ [] ?_ rfl rfl rfl rfl ?_
    · rw [Allocation.occupies, state]
      rfl
    · intro e member
      cases member

theorem safe_openBillingInterval (system target : Uuid) (now : Instant) :
    Safe (capacity steady) (openBillingInterval system target now) := by
  intro s _
  simp only [openBillingInterval, wp_bind, wp_acquire, wp_modify]
  intro t _ _ T _ _
  refine .quiet ⟨?_, rfl, fun p b found => ⟨b, found, rfl⟩⟩
  intro id
  simp only [AllocDb.updateAllocations, find_update, Option.map_map]
  congr 1
  funext a
  simp only [Function.comp_apply]
  split <;> rfl

theorem safe_setBudget (ctx : RequestContext) (project : String) (limit : ℚ) :
    Safe (capacity steady) (setBudget ctx project limit) := by
  intro s _
  unfold setBudget
  split
  · exact commits_still (.refl _)
  simp only [wp_bind, wp_modify]
  apply wp_record
  intro v agree T _ _
  obtain ⟨allocations, ledger, budgets⟩ := agree T
  refine .quiet ⟨?_, ledger, ?_⟩
  · intro id
    rw [allocations]
    rfl
  · intro p b found
    rw [budgets]
    change ∃ b', find (T.upsertBudget project limit).budgets p = some b' ∧ _
    rw [find_upsertBudget]
    split
    · exact ⟨b.withLimit limit, by rw [found]; rfl, rfl⟩
    · exact ⟨b, found, rfl⟩

theorem safe_setQuota (ctx : RequestContext) (project : String) (maxConcurrent maxPending : Int) :
    Safe (capacity steady) (setQuota ctx project maxConcurrent maxPending) := by
  intro s _
  unfold setQuota
  split
  · exact commits_still (.refl _)
  simp only [wp_bind, wp_modify]
  apply wp_record
  intro v agree
  exact commits_still (agree.trans fun _ => ⟨rfl, rfl, rfl⟩)

end Others

theorem safe_unanswered {α : Type} {p : AllocTxn α} (safe : Safe (capacity steady) p) :
    Safe (capacity steady) (unanswered p) := by
  intro s sound
  rw [unanswered, wp_bind]
  exact wp_mono (safe s sound) fun _ _ _ _ commits => commits

theorem safe_program (op : Operation) : Safe (capacity steady) op.program := by
  cases op with
  | request bounds input now id => exact safe_unanswered (safe_requestAllocation bounds input now id)
  | promote bounds now id => exact safe_unanswered (safe_promoteOne bounds now id)
  | reapQueued selected now maxWait id =>
    exact safe_unanswered (safe_reapOne selected now maxWait id)
  | release boot actor now id => exact safe_unanswered (safe_releaseAllocation boot actor now id)
  | reclaim boot now orphaned id =>
    exact safe_unanswered (safe_reclaimOrphanedActive boot now orphaned id)
  | expire boot selected now id => exact safe_unanswered (safe_expireOne boot selected now id)
  | renew bounds ctx now id extend key =>
    exact safe_unanswered (safe_renew bounds ctx now id extend key)
  | activate ctx id systemId accel within =>
    exact safe_unanswered (safe_activate ctx id systemId accel within)
  | openBilling system id now => exact safe_openBillingInterval system id now
  | setBudget ctx project limit => exact safe_unanswered (safe_setBudget ctx project limit)
  | setQuota ctx project maxConcurrent maxPending =>
    exact safe_unanswered (safe_setQuota ctx project maxConcurrent maxPending)
  | changeCatalog change =>
    intro s _
    exact commits_still (a := ()) fun _ => ⟨rfl, rfl, rfl⟩

end Kdive.Capacity
