import Kdive.Runs.Admission

/-!
One live Run to a System. A transaction that binds holds the SYSTEM lock from before it counts the
live Runs until its commit, and only such a transaction binds; a Run that is over stays over, and a
binding that is set stays set.
-/
namespace Kdive.Runs
open Table

section Invariant

def LiveOn (db : RunDb) (run system : Uuid) : Prop :=
  ∃ r, find db.runs run = some r ∧ r.systemId = some system ∧ r.state ∈ runNonTerminal

def OneLiveRun (db : RunDb) : Prop :=
  ∀ system a b, LiveOn db a system → LiveOn db b system → a = b

structure Continues (r r' : Run) : Prop where
  project : r'.project = r.project
  targetKind : r'.targetKind = r.targetKind
  bound : ∀ system, r.systemId = some system → r'.systemId = some system
  live : r'.state ∈ runNonTerminal → r.state ∈ runNonTerminal

def RunsContinue (s t : RunDb) : Prop :=
  ∀ id r, find s.runs id = some r → ∃ r', find t.runs id = some r' ∧ Continues r r'

def SystemsContinue (s t : RunDb) : Prop :=
  ∀ id r, find s.systems id = some r → ∃ r', find t.systems id = some r' ∧
    r'.project = r.project ∧ r'.allocationId = r.allocationId

def Hosts (db : RunDb) (system : Uuid) (project : String) (kind : ResourceKind) : Prop :=
  ∃ s a resource, find db.systems system = some s ∧ s.state = .ready ∧ s.project = project ∧
    find db.allocations s.allocationId = some a ∧ a.state = .active ∧
    a.resourceId.bind (find db.resources) = some resource ∧
    ResourceKind.parse resource.kind = some kind

def BindsOne (H : Set LockScope) (s t : RunDb) : Prop :=
  ∃ binding : Option (Uuid × Uuid),
    (∀ id r system, find t.runs id = some r → r.systemId = some system →
      (∃ old, find s.runs id = some old ∧ old.systemId = some system) ∨
        binding = some (id, system)) ∧
    ∀ id system, binding = some (id, system) → .system system ∈ H ∧ (∀ a, ¬ LiveOn s a system) ∧
      ∃ r, find t.runs id = some r ∧ Hosts t system r.project r.targetKind

structure Guarantee (H : Set LockScope) (s t : RunDb) : Prop where
  continues : RunsContinue s t
  binds : BindsOne H s t
  rows : ∀ id, .runRow id ∉ H → find t.runs id = find s.runs id
  systems : ∀ id, .system id ∉ H → find t.systems id = find s.systems id
  systemsContinue : SystemsContinue s t
  allocations : ∀ id, .allocation id ∉ H → find t.allocations id = find s.allocations id
  resources : t.resources = s.resources

structure Rely (H : Set LockScope) (s t : RunDb) : Prop where
  continues : RunsContinue s t
  quiet : ∀ system, .system system ∈ H → ∀ id, LiveOn t id system → LiveOn s id system
  rows : ∀ id, .runRow id ∈ H → find t.runs id = find s.runs id
  systems : ∀ id, .system id ∈ H → find t.systems id = find s.systems id
  systemsContinue : SystemsContinue s t
  allocations : ∀ id, .allocation id ∈ H → find t.allocations id = find s.allocations id
  resources : t.resources = s.resources

variable {H K : Set LockScope} {s t u : RunDb}

theorem Continues.refl (r : Run) : Continues r r :=
  ⟨rfl, rfl, fun _ bound => bound, fun live => live⟩

theorem Continues.trans {r r' r'' : Run} (first : Continues r r') (second : Continues r' r'') :
    Continues r r'' where
  project := second.project.trans first.project
  targetKind := second.targetKind.trans first.targetKind
  bound system isBound := second.bound system (first.bound system isBound)
  live isLive := first.live (second.live isLive)

theorem RunsContinue.refl (s : RunDb) : RunsContinue s s :=
  fun _ r found => ⟨r, found, Continues.refl r⟩

theorem RunsContinue.trans (first : RunsContinue s t) (second : RunsContinue t u) :
    RunsContinue s u := by
  intro id r found
  obtain ⟨r', found', continues⟩ := first id r found
  obtain ⟨r'', found'', continues'⟩ := second id r' found'
  exact ⟨r'', found'', continues.trans continues'⟩

theorem SystemsContinue.refl (s : RunDb) : SystemsContinue s s :=
  fun _ r found => ⟨r, found, rfl, rfl⟩

theorem SystemsContinue.trans (first : SystemsContinue s t) (second : SystemsContinue t u) :
    SystemsContinue s u := by
  intro id r found
  obtain ⟨r', found', project, allocation⟩ := first id r found
  obtain ⟨r'', found'', project', allocation'⟩ := second id r' found'
  exact ⟨r'', found'', project'.trans project, allocation'.trans allocation⟩

theorem Rely.refl (H : Set LockScope) (s : RunDb) : Rely H s s where
  continues := RunsContinue.refl s
  quiet _ _ _ live := live
  rows _ _ := rfl
  systems _ _ := rfl
  systemsContinue := SystemsContinue.refl s
  allocations _ _ := rfl
  resources := rfl

theorem Rely.trans (first : Rely H s t) (second : Rely H t u) : Rely H s u where
  continues := first.continues.trans second.continues
  quiet system held id live := first.quiet system held id (second.quiet system held id live)
  rows id held := (second.rows id held).trans (first.rows id held)
  systems id held := (second.systems id held).trans (first.systems id held)
  systemsContinue := first.systemsContinue.trans second.systemsContinue
  allocations id held := (second.allocations id held).trans (first.allocations id held)
  resources := second.resources.trans first.resources

theorem Rely.mono (fewer : H ⊆ K) (rely : Rely K s t) : Rely H s t where
  continues := rely.continues
  quiet system held := rely.quiet system (fewer held)
  rows id held := rely.rows id (fewer held)
  systems id held := rely.systems id (fewer held)
  systemsContinue := rely.systemsContinue
  allocations id held := rely.allocations id (fewer held)
  resources := rely.resources

theorem Guarantee.live {H : Set LockScope} (guarantee : Guarantee H s t) {id system : Uuid}
    (live : LiveOn t id system) : LiveOn s id system ∨
      (.system system ∈ H ∧ (∀ a, ¬ LiveOn s a system) ∧
        ∀ a, LiveOn t a system → LiveOn s a system ∨ a = id) := by
  obtain ⟨binding, bound, hosted⟩ := guarantee.binds
  have step {a : Uuid} (live : LiveOn t a system) : LiveOn s a system ∨ binding = some (a, system) := by
    obtain ⟨r, found, isBound, isLive⟩ := live
    rcases bound a r system found isBound with ⟨old, found', isBound'⟩ | new
    · obtain ⟨r', found'', continues⟩ := guarantee.continues a old found'
      obtain rfl := Option.some.inj (found.symm.trans found'')
      exact .inl ⟨old, found', isBound', continues.live isLive⟩
    · exact .inr new
  rcases step live with old | new
  · exact .inl old
  · obtain ⟨locked, none, _⟩ := hosted id system new
    refine .inr ⟨locked, none, ?_⟩
    intro a other
    rcases step other with old | new'
    · exact .inl old
    · right
      exact (Prod.mk.inj (Option.some.inj (new'.symm.trans new))).1

theorem Guarantee.oneLiveRun (guarantee : Guarantee H s t) (one : OneLiveRun s) : OneLiveRun t := by
  intro system a b live live'
  rcases guarantee.live live with old | ⟨_, none, others⟩
  · rcases guarantee.live live' with old' | ⟨_, none, _⟩
    · exact one system a b old old'
    · exact absurd old (none a)
  · rcases others b live' with old | same
    · exact absurd old (none b)
    · exact same.symm

theorem Guarantee.rely (guarantee : Guarantee H s t) (apart : Disjoint H K) : Rely K s t where
  continues := guarantee.continues
  quiet system held id live := by
    rcases guarantee.live live with old | ⟨locked, _⟩
    · exact old
    · exact absurd held (Set.disjoint_left.mp apart locked)
  rows id held := guarantee.rows id (Set.disjoint_right.mp apart held)
  systems id held := guarantee.systems id (Set.disjoint_right.mp apart held)
  systemsContinue := guarantee.systemsContinue
  allocations id held := guarantee.allocations id (Set.disjoint_right.mp apart held)
  resources := guarantee.resources

def bindingDiscipline : Txn.Discipline RunDb LockScope where
  inv := OneLiveRun
  assumes _ _ := True
  rely := Rely
  guar := Guarantee
  assumes_after _ _ _ := trivial
  rely_refl := Rely.refl
  rely_trans _ _ _ _ first second := first.trans second
  rely_mono _ _ _ _ fewer rely := rely.mono fewer
  guar_inv _ _ _ one guarantee _ := guarantee.oneLiveRun one
  guar_rely _ _ _ _ _ guarantee _ apart := guarantee.rely apart

end Invariant

section Guarantees

variable {H : Set LockScope} {s t u : RunDb}

theorem Hosts.same {system : Uuid} {project : String} {kind : ResourceKind}
    (hosts : Hosts s system project kind) (systems : t.systems = s.systems)
    (allocations : t.allocations = s.allocations) (resources : t.resources = s.resources) :
    Hosts t system project kind := by
  unfold Hosts at hosts ⊢
  rw [systems, allocations, resources]
  exact hosts

theorem guarantee_of_same (runs : t.runs = s.runs) (systems : t.systems = s.systems)
    (allocations : t.allocations = s.allocations) (resources : t.resources = s.resources) :
    Guarantee H s t := by
  constructor
  · intro id r found
    exact ⟨r, by rw [runs]; exact found, Continues.refl r⟩
  · refine ⟨none, ?_, ?_⟩
    · intro id r system found bound
      rw [runs] at found
      exact .inl ⟨r, found, bound⟩
    · intro id system none
      cases none
  · intro id _
    rw [runs]
  · intro id _
    rw [systems]
  · intro id r found
    exact ⟨r, by rw [systems]; exact found, rfl, rfl⟩
  · intro id _
    rw [allocations]
  · exact resources

def MayBind (H : Set LockScope) (s : RunDb) (system : Uuid) (project : String) (kind : ResourceKind) :
    Prop :=
  .system system ∈ H ∧ (∀ a, ¬ LiveOn s a system) ∧ Hosts s system project kind

theorem insert_guarantee (run : Run) (runs : t.runs = Table.insert s.runs run)
    (systems : t.systems = s.systems) (allocations : t.allocations = s.allocations)
    (resources : t.resources = s.resources) (fresh : find s.runs run.id = none)
    (locked : .runRow run.id ∈ H)
    (mayBind : ∀ system, run.systemId = some system →
      MayBind H s system run.project run.targetKind) : Guarantee H s t := by
  have self : find t.runs run.id = some run := by
    rw [runs]
    exact find_insert_self fresh
  have others {id : Uuid} (other : id ≠ run.id) : find t.runs id = find s.runs id := by
    rw [runs]
    exact find_insert_other (Ne.symm other)
  constructor
  · intro id r found
    by_cases isNew : id = run.id
    · rw [isNew, fresh] at found
      cases found
    · exact ⟨r, by rw [others isNew]; exact found, Continues.refl r⟩
  · refine ⟨run.systemId.map (fun system => (run.id, system)), ?_, ?_⟩
    · intro id r system found bound
      by_cases isNew : id = run.id
      · subst isNew
        obtain rfl := Option.some.inj (self.symm.trans found)
        right
        rw [bound]
        rfl
      · rw [others isNew] at found
        exact .inl ⟨r, found, bound⟩
    · intro id system isBinding
      obtain ⟨system', bound, same⟩ := Option.map_eq_some_iff.mp isBinding
      obtain ⟨rfl, rfl⟩ := Prod.mk.inj same
      obtain ⟨held, none, hosts⟩ := mayBind system' bound
      exact ⟨held, none, run, self, hosts.same systems allocations resources⟩
  · intro id unlocked
    refine others ?_
    rintro rfl
    exact unlocked locked
  · intro id _
    rw [systems]
  · intro id r found
    exact ⟨r, by rw [systems]; exact found, rfl, rfl⟩
  · intro id _
    rw [allocations]
  · exact resources

theorem update_guarantee (run : Uuid) {p : Run → Bool} {f : Run → Run}
    {keeps : ∀ r, (f r).id = r.id} (only : ∀ r, p r = true → r.id = run)
    (locked : .runRow run ∈ H)
    (continues : ∀ r, find s.runs run = some r → p r = true → Continues r (f r))
    (mayBind : ∀ r system, find s.runs run = some r → p r = true → (f r).systemId = some system →
      r.systemId = some system ∨ MayBind H s system (f r).project (f r).targetKind) :
    Guarantee H s (s.updateRuns p f keeps) := by
  have after (id : Uuid) : find (s.updateRuns p f keeps).runs id =
      (find s.runs id).map (fun r => if p r then f r else r) := find_update s.runs p f keeps id
  have others {id : Uuid} (other : id ≠ run) :
      find (s.updateRuns p f keeps).runs id = find s.runs id := by
    rw [after]
    cases found : find s.runs id with
    | none => rfl
    | some r =>
      have missed : p r = false := by
        by_contra hit
        exact other ((find_key found).symm.trans (only r (by simpa using hit)))
      simp [missed]
  constructor
  · intro id r found
    by_cases isRun : id = run
    · subst isRun
      rw [after, found]
      cases hit : p r with
      | true => exact ⟨f r, by simp [hit], continues r found hit⟩
      | false => exact ⟨r, by simp [hit], Continues.refl r⟩
    · exact ⟨r, by rw [others isRun]; exact found, Continues.refl r⟩
  · by_cases fresh : ∃ r system, find s.runs run = some r ∧ p r = true ∧
        (f r).systemId = some system ∧ r.systemId ≠ some system
    · obtain ⟨r, system, found, hit, bound, unbound⟩ := fresh
      have here : find (s.updateRuns p f keeps).runs run = some (f r) := by
        rw [after, found]
        simp [hit]
      refine ⟨some (run, system), ?_, ?_⟩
      · intro id r' system' found' bound'
        by_cases isRun : id = run
        · subst isRun
          obtain rfl := Option.some.inj (here.symm.trans found')
          rw [bound] at bound'
          obtain rfl := Option.some.inj bound'
          exact .inr rfl
        · rw [others isRun] at found'
          exact .inl ⟨r', found', bound'⟩
      · intro id system' same
        obtain ⟨rfl, rfl⟩ := Prod.mk.inj (Option.some.inj same)
        rcases mayBind r system found hit bound with old | ⟨held, none, hosts⟩
        · exact absurd old unbound
        · exact ⟨held, none, f r, here, hosts.same rfl rfl rfl⟩
    · refine ⟨none, ?_, ?_⟩
      · intro id r' system found bound
        left
        by_cases isRun : id = run
        · subst isRun
          rw [after, Option.map_eq_some_iff] at found
          obtain ⟨r, found, same⟩ := found
          refine ⟨r, found, ?_⟩
          cases hit : p r with
          | true =>
            rw [hit, if_pos rfl] at same
            by_contra unbound
            exact fresh ⟨r, system, found, hit, same ▸ bound, unbound⟩
          | false =>
            simp only [hit, Bool.false_eq_true, if_false] at same
            rw [same]
            exact bound
        · rw [others isRun] at found
          exact ⟨r', found, bound⟩
      · intro id system none
        cases none
  · intro id unlocked
    refine others ?_
    rintro rfl
    exact unlocked locked
  · intro id _
    rfl
  · exact SystemsContinue.refl s
  · intro id _
    rfl
  · rfl

theorem setSystemState_guarantee {id : Uuid} {state : SystemState} (locked : .system id ∈ H) :
    Guarantee H s (s.setSystemState id state) := by
  have after (k : Uuid) : find (s.setSystemState id state).systems k = (find s.systems k).map
      (fun r => if r.id = id then { r with state := state } else r) := by
    simp [RunDb.setSystemState]
  refine ⟨RunsContinue.refl s, ⟨none, ?_, ?_⟩, fun _ _ => rfl, ?_, ?_, fun _ _ => rfl, rfl⟩
  · intro k r system found bound
    exact .inl ⟨r, found, bound⟩
  · intro k system none
    cases none
  · intro k unlocked
    rw [after]
    cases found : find s.systems k with
    | none => rfl
    | some r =>
      have other : r.id ≠ id := by
        intro same
        rw [find_key found] at same
        exact unlocked (same ▸ locked)
      simp [other]
  · intro k r found
    rw [after, found]
    refine ⟨_, rfl, ?_⟩
    dsimp only
    split <;> exact ⟨rfl, rfl⟩

theorem setAllocationState_guarantee {id : Uuid} {state : AllocationState}
    (locked : .allocation id ∈ H) : Guarantee H s (s.setAllocationState id state) := by
  refine ⟨RunsContinue.refl s, ⟨none, ?_, ?_⟩, fun _ _ => rfl, fun _ _ => rfl,
    SystemsContinue.refl s, ?_, rfl⟩
  · intro k r system found bound
    exact .inl ⟨r, found, bound⟩
  · intro k system none
    cases none
  · intro k unlocked
    have after : find (s.setAllocationState id state).allocations k = (find s.allocations k).map
        (fun a => if a.id = id then { a with state := state } else a) := by
      simp [RunDb.setAllocationState]
    rw [after]
    cases found : find s.allocations k with
    | none => rfl
    | some a =>
      have other : a.id ≠ id := by
        intro same
        rw [find_key found] at same
        exact unlocked (same ▸ locked)
      simp [other]

end Guarantees

section Reads

theorem reads_check (blocked : Option RunCreateError) : Txn.Reads (check blocked) := by
  cases blocked <;> trivial

theorem reads_getRun (id : Uuid) : Txn.Reads (getRun id) := fun _ => trivial

theorem reads_getInvestigation (id : Uuid) : Txn.Reads (getInvestigation id) := fun _ => trivial

theorem reads_requireRole (ctx : RequestContext) (project : String) (role : Role) :
    Txn.Reads (requireRole ctx project role) := by
  unfold requireRole
  split
  · trivial
  · split <;> trivial

theorem reads_resolveInvestigation (ctx : RequestContext) (id : Uuid) :
    Txn.Reads (resolveInvestigation ctx id) := by
  refine Txn.reads_bind (reads_getInvestigation id) ?_
  intro found
  cases found with
  | none => trivial
  | some inv =>
    dsimp only
    split
    · trivial
    · exact Txn.reads_bind (reads_requireRole ctx inv.project .contributor) (fun _ => trivial)

theorem reads_openInvestigation (id objectId : Uuid) : Txn.Reads (openInvestigation id objectId) := by
  refine Txn.reads_bind (reads_getInvestigation id) ?_
  intro found
  cases found with
  | none => trivial
  | some inv =>
    dsimp only
    split <;> trivial

theorem reads_checkExternalBootAdmission (boot : BootGuard) (system : Uuid) :
    Txn.Reads (checkExternalBootAdmission boot system) := by
  unfold checkExternalBootAdmission
  split <;> trivial

theorem reads_resolveSelectedBuild (investigation : Uuid) (buildRef : Option String)
    (kind : ResourceKind) (profile : BuildProfile) (objectId : Uuid) (serverTime : Instant) :
    Txn.Reads (resolveSelectedBuild investigation buildRef kind profile objectId serverTime) := by
  cases buildRef with
  | none => trivial
  | some ref =>
    unfold resolveSelectedBuild
    dsimp only
    split
    · trivial
    · refine Txn.reads_bind Txn.reads_get ?_
      intro db
      split
      · split <;> trivial
      · split
        · trivial
        · split
          · trivial
          · split <;> trivial

theorem reads_terminalResponse (run : Run) : Txn.Reads (terminalResponse run) :=
  Txn.reads_bind (reads_getRun run.id) (fun _ => trivial)

theorem reads_lockBoundSystem (system : Option Uuid) : Txn.Reads (lockBoundSystem system) := by
  cases system <;> trivial

end Reads

section Specs

variable {H : Set LockScope} {s t : RunDb} {α : Type}

abbrev Post (α : Type) := α → Set LockScope → (RunDb → RunDb) → RunDb → Prop

/-- The locks of the targets are held, and the System is still on the Allocation that was read. -/
structure Placed (H : Set LockScope) (s : RunDb) (targets : RunHostTargets) : Prop where
  system : .system targets.systemId ∈ H
  allocation : .allocation targets.allocationId ∈ H
  row : ∃ r, find s.systems targets.systemId = some r ∧ r.allocationId = targets.allocationId

structure Fit (H : Set LockScope) (s : RunDb) (targets : RunHostTargets) (project : String) :
    Prop where
  system : .system targets.systemId ∈ H
  allocation : .allocation targets.allocationId ∈ H
  ready : ∃ r a, find s.systems targets.systemId = some r ∧ r.state = .ready ∧
    r.project = project ∧ r.allocationId = targets.allocationId ∧
    find s.allocations targets.allocationId = some a ∧ a.state = .active
  unused : ∀ id, ¬ LiveOn s id targets.systemId

theorem Fit.rely {K : Set LockScope} {targets : RunHostTargets} {project : String}
    (fit : Fit H s targets project) (more : H ⊆ K) (rely : Rely H s t) : Fit K t targets project where
  system := more fit.system
  allocation := more fit.allocation
  ready := by
    obtain ⟨r, a, found, ready, isProject, placed, found', active⟩ := fit.ready
    refine ⟨r, a, ?_, ready, isProject, placed, ?_, active⟩
    · rw [rely.systems _ fit.system]
      exact found
    · rw [rely.allocations _ fit.allocation]
      exact found'
  unused id live := fit.unused id (rely.quiet _ fit.system id live)

def KindOf (s : RunDb) (system : Uuid) (kind : ResourceKind) : Prop :=
  (resourceOf s system).bind (fun r => ResourceKind.parse r.kind) = some kind

theorem Fit.kind {targets : RunHostTargets} {project : String} {kind : ResourceKind}
    (fit : Fit H s targets project) (isKind : KindOf s targets.systemId kind) (rely : Rely H s t) :
    KindOf t targets.systemId kind := by
  obtain ⟨r, a, found, _, _, placed, found', _⟩ := fit.ready
  have system := rely.systems _ fit.system
  have allocation := rely.allocations _ fit.allocation
  unfold KindOf resourceOf at isKind ⊢
  rw [found] at isKind system
  rw [system, rely.resources]
  simp only [Option.bind_eq_bind, Option.bind_some] at isKind ⊢
  rw [placed] at isKind ⊢
  rw [allocation]
  exact isKind

theorem Fit.mayBind {targets : RunHostTargets} {project : String} {kind : ResourceKind}
    (fit : Fit H s targets project) (isKind : KindOf s targets.systemId kind) :
    MayBind H s targets.systemId project kind := by
  refine ⟨fit.system, fit.unused, ?_⟩
  obtain ⟨r, a, found, ready, isProject, placed, found', active⟩ := fit.ready
  unfold KindOf resourceOf at isKind
  rw [found] at isKind
  simp only [Option.bind_eq_bind, Option.bind_some, placed, found'] at isKind
  obtain ⟨resource, isResource, parsed⟩ := Option.bind_eq_some_iff.mp isKind
  exact ⟨r, a, resource, found, ready, isProject, placed ▸ found', active, isResource, parsed⟩

theorem noLive_of_count {system : Uuid} (none : ¬ 0 < countNonTerminalRuns s system) (id : Uuid) :
    ¬ LiveOn s id system := by
  rintro ⟨r, found, bound, live⟩
  apply none
  unfold countNonTerminalRuns
  rw [List.length_pos_iff_exists_mem]
  exact ⟨r, List.mem_filter.mpr ⟨find_mem found, decide_eq_true ⟨bound, live⟩⟩⟩

theorem hostableSystem_ok {system : Option SystemRow} {id : Uuid} {r : SystemRow}
    (ok : hostableSystem system id = .ok r) : system = some r ∧ r.state = .ready := by
  unfold hostableSystem at ok
  split at ok
  · cases ok
  · split at ok
    · cases ok
    · split at ok
      · cases ok
      · rename_i hostable
        cases ok
        exact ⟨rfl, by simpa [runHostable] using hostable⟩

theorem hostableAllocation_ok {alloc : Option Capacity.Allocation} {system : Uuid} {now : Instant}
    {a : Capacity.Allocation} (ok : hostableAllocation alloc system now = .ok a) :
    alloc = some a ∧ a.state = .active := by
  unfold hostableAllocation at ok
  split at ok
  · cases ok
  · split at ok
    · cases ok
    · rename_i hostable
      split at ok
      · cases ok
      · cases ok
        exact ⟨rfl, by simpa [allocHostable] using hostable⟩

theorem wp_orRefuse {result : Except RunCreateError α} {Q : Post α} {w : RunDb → RunDb}
    (next : ∀ a, result = .ok a → Q a H w s) :
    Txn.wp bindingDiscipline Q (orRefuse result) H w s := by
  cases result with
  | error e => trivial
  | ok a => exact next a rfl

theorem checkHostPreconditions_wp {targets : RunHostTargets} {project : String} {now : Instant}
    {Q : Post (SystemRow × Capacity.Allocation)} (placed : Placed H s targets)
    (next : ∀ found t, bindingDiscipline.Sound t → Rely H s t → Fit H t targets project →
      Q found H id t) :
    Txn.wp bindingDiscipline Q (checkHostPreconditions targets project now) H id s := by
  unfold checkHostPreconditions getSystem getAllocation
  simp only [Txn.wp_bind, Txn.wp_get, Txn.wp_pure]
  intro s₁ _ rely₁
  refine wp_orRefuse ?_
  intro system isHostable
  obtain ⟨found, ready⟩ := hostableSystem_ok isHostable
  intro s₂ _ rely₂
  refine wp_orRefuse ?_
  intro alloc isHostable'
  obtain ⟨found', active⟩ := hostableAllocation_ok isHostable'
  split
  · trivial
  · rename_i isProject
    simp only [Txn.wp_bind, Txn.wp_get]
    intro s₃ sound rely₃
    split
    · trivial
    · rename_i none
      refine next (system, alloc) s₃ sound ((rely₁.trans rely₂).trans rely₃) ?_
      refine ⟨placed.system, placed.allocation, ?_, noLive_of_count none⟩
      refine ⟨system, alloc, ?_, ready, not_not.mp isProject, ?_, ?_, active⟩
      · rw [(rely₂.trans rely₃).systems _ placed.system]
        exact found
      · obtain ⟨r, isRow, onAllocation⟩ := placed.row
        have same := rely₁.systems _ placed.system
        have row : find s₁.systems targets.systemId = some r := same.trans isRow
        rw [show find s₁.systems targets.systemId = some system from found] at row
        rw [Option.some.inj row]
        exact onAllocation
      · rw [rely₃.allocations _ placed.allocation]
        exact found'

theorem resourceKindForSystem_wp {system : Uuid} {Q : Post ResourceKind}
    (next : ∀ kind t, bindingDiscipline.Sound t → Rely H s t → KindOf t system kind →
      Q kind H id t) :
    Txn.wp bindingDiscipline Q (resourceKindForSystem system) H id s := by
  unfold resourceKindForSystem
  simp only [Txn.wp_bind, Txn.wp_get]
  intro t sound rely
  split
  · rename_i kind isKind
    exact next kind t sound rely isKind
  · trivial

def Resolved (s : RunDb) (targets : RunHostTargets) : Prop :=
  ∃ r, find s.systems targets.systemId = some r ∧ r.allocationId = targets.allocationId

theorem Resolved.rely {targets : RunHostTargets} (resolved : Resolved s targets)
    (rely : Rely H s t) : Resolved t targets := by
  obtain ⟨r, found, onAllocation⟩ := resolved
  obtain ⟨r', found', _, same⟩ := rely.systemsContinue _ r found
  exact ⟨r', found', same.trans onAllocation⟩

theorem lockTargets_wp {targets : RunHostTargets} {p : RunTxn α} {Q : Post α}
    (resolved : Resolved s targets)
    (next : ∀ K t, bindingDiscipline.Sound t → RunsContinue s t → Placed K t targets →
      Txn.wp bindingDiscipline Q p K id t) :
    Txn.wp bindingDiscipline Q (do
      Txn.acquire (.allocation targets.allocationId)
      Txn.acquire (.system targets.systemId)
      Txn.acquire (.investigation targets.investigationId)
      p) H id s := by
  simp only [Txn.wp_bind, Txn.wp_acquire]
  intro s₁ _ rely₁ s₂ _ rely₂ s₃ sound rely₃
  refine next _ s₃ sound (rely₁.continues.trans (rely₂.continues.trans rely₃.continues))
    ⟨?_, ?_, ((resolved.rely rely₁).rely rely₂).rely rely₃⟩
  · simp
  · simp

theorem resolveAllocation_wp {system : SystemRow} {Q : Post Capacity.Allocation}
    (next : ∀ a t, bindingDiscipline.Sound t → Rely H s t → a.id = system.allocationId →
      Q a H id t) :
    Txn.wp bindingDiscipline Q (resolveAllocation system) H id s := by
  unfold resolveAllocation getAllocation
  simp only [Txn.wp_bind, Txn.wp_get, Txn.wp_pure]
  intro t sound rely
  split
  · trivial
  · rename_i a found
    split
    · trivial
    · exact next a t sound rely (find_key found)

theorem resolveSystem_wp {ctx : RequestContext} {investigation system : Uuid} {project : String}
    {Q : Post (RunHostTargets × String)}
    (next : ∀ a t, bindingDiscipline.Sound t → Rely H s t → Resolved t ⟨investigation, system, a⟩ →
      Q (⟨investigation, system, a⟩, project) H id t) :
    Txn.wp bindingDiscipline Q (do
      match ← getSystem system with
      | none => refuse (configFailure system [])
      | some s =>
        if s.project ∉ ctx.projects ∨ s.project ≠ project then refuse (configFailure system [])
        else do
          let alloc ← resolveAllocation s
          pure (⟨investigation, system, alloc.id⟩, project)) H id s := by
  unfold getSystem
  simp only [Txn.wp_bind, Txn.wp_get, Txn.wp_pure]
  intro s₁ _ rely₁
  split
  · trivial
  · rename_i r found
    split
    · trivial
    · simp only [Txn.wp_bind, Txn.wp_pure]
      refine resolveAllocation_wp ?_
      intro a s₂ sound rely₂ onAllocation
      have resolved : Resolved s₁ ⟨investigation, system, a.id⟩ := ⟨r, found, onAllocation.symm⟩
      exact next a.id s₂ sound (rely₁.trans rely₂) (resolved.rely rely₂)

theorem resolveTargets_wp {ctx : RequestContext} {investigation system : Uuid}
    {Q : Post (RunHostTargets × String)} (sound : bindingDiscipline.Sound s)
    (next : ∀ a project K t, bindingDiscipline.Sound t → Resolved t ⟨investigation, system, a⟩ →
      Q (⟨investigation, system, a⟩, project) K id t) :
    Txn.wp bindingDiscipline Q (resolveTargets ctx investigation system) H id s := by
  unfold resolveTargets
  rw [Txn.wp_bind]
  refine Txn.wp_reads (reads_resolveInvestigation ctx investigation) sound ?_
  intro inv K t _ sound _
  refine resolveSystem_wp ?_
  intro a u sound _ resolved
  exact next a inv.project K u sound resolved

theorem resolveBindTargets_wp {ctx : RequestContext} {run system : Uuid}
    {Q : Post (RunHostTargets × String)}
    (next : ∀ r a K t, bindingDiscipline.Sound t → (∃ r', find t.runs run = some r' ∧ Continues r r') →
      Resolved t ⟨r.investigationId, system, a⟩ →
      Q (⟨r.investigationId, system, a⟩, r.project) K id t) :
    Txn.wp bindingDiscipline Q (resolveBindTargets ctx run system) H id s := by
  unfold resolveBindTargets getRun
  simp only [Txn.wp_bind, Txn.wp_get, Txn.wp_pure]
  intro s₁ sound rely₁
  split
  · trivial
  · rename_i r found
    split
    · trivial
    · rw [Txn.wp_bind]
      refine Txn.wp_reads (reads_requireRole ctx r.project .contributor) sound ?_
      intro _ K s₂ _ sound rely₂
      rw [Txn.wp_bind]
      refine Txn.wp_reads (reads_check (runBindableError r)) sound ?_
      intro _ L s₃ _ sound rely₃
      refine resolveSystem_wp ?_
      intro a s₄ sound rely₄ resolved
      refine next r a L s₄ sound ?_ resolved
      exact (rely₂.continues.trans (rely₃.continues.trans rely₄.continues)) run r found

end Specs

section Operations

variable {H : Set LockScope} {s t : RunDb}

theorem insertCreatedRun_wp (run : Run) (selected : Option InvestigationBuild) (inv : Investigation)
    (now : Instant) (mayBind : ∀ t, Rely H s t → ∀ system, run.systemId = some system →
      MayBind H t system run.project run.targetKind) :
    Txn.wp bindingDiscipline (Txn.Commits bindingDiscipline) (do
      insertCreatedRun run selected
      flipInvestigationIfOpen inv now
      pure run) H id s := by
  unfold insertCreatedRun flipInvestigationIfOpen
  split
  · trivial
  · unfold getRun
    simp only [Txn.wp_bind, Txn.wp_acquire, Txn.wp_get, Txn.wp_pure, id_eq]
    intro s₁ _ rely₁ s₂ _ rely₂
    cases fresh : find s₂.runs run.id with
    | some taken => trivial
    | none =>
      intro u _ rely
      have grown : H ⊆ insert (LockScope.runRow run.id) H := Set.subset_insert _ _
      have since : Rely H s u := rely₁.trans ((rely₂.trans rely).mono grown)
      have stillFresh : find u.runs run.id = none := by
        rw [rely.rows _ (Set.mem_insert _ _)]
        exact fresh
      refine insert_guarantee run rfl rfl rfl rfl stillFresh (Set.mem_insert _ _) ?_
      intro system bound
      obtain ⟨held, none, hosts⟩ := mayBind u since system bound
      exact ⟨grown held, none, hosts⟩

theorem createLocked_wp {boot : BootGuard} {request : RunCreateRequest} {targets : RunHostTargets}
    {project : String} {now : Instant} {run : Uuid} (resolved : Resolved s targets) :
    Txn.wp bindingDiscipline (Txn.Commits bindingDiscipline)
      (createLocked boot request targets project now run) H id s := by
  unfold createLocked
  refine lockTargets_wp resolved ?_
  intro K t _ _ placed
  rw [Txn.wp_bind]
  refine checkHostPreconditions_wp placed ?_
  rintro ⟨system, alloc⟩ s₁ sound _ fit
  simp only [Txn.wp_bind]
  refine Txn.wp_reads (reads_check _) sound ?_
  intro _ K₂ s₂ more₂ sound rely₂
  have fit := fit.rely more₂ rely₂
  refine Txn.wp_reads (reads_checkExternalBootAdmission boot targets.systemId) sound ?_
  intro _ K₃ s₃ more₃ sound rely₃
  have fit := fit.rely more₃ rely₃
  refine Txn.wp_reads (reads_openInvestigation _ _) sound ?_
  intro inv K₄ s₄ more₄ sound rely₄
  have fit := fit.rely more₄ rely₄
  refine resourceKindForSystem_wp ?_
  intro kind s₅ sound rely₅ isKind
  have fit := fit.rely (Set.Subset.refl _) rely₅
  split
  · trivial
  · rw [Txn.wp_bind]
    refine Txn.wp_reads (reads_resolveSelectedBuild _ _ _ _ _ _) sound ?_
    intro selected K₆ s₆ more₆ sound rely₆
    have isKind := fit.kind isKind rely₆
    have fit := fit.rely more₆ rely₆
    refine insertCreatedRun_wp _ selected inv now ?_
    rintro u rely system ⟨rfl⟩
    exact (fit.rely (Set.Subset.refl _) rely).mayBind (fit.kind isKind rely)

theorem createUnbound_wp {ctx : RequestContext} {request : RunCreateRequest}
    {available : List ResourceKind} {now : Instant} {run : Uuid}
    (sound : bindingDiscipline.Sound s) :
    Txn.wp bindingDiscipline (Txn.Commits bindingDiscipline)
      (createUnbound ctx request available now run) H id s := by
  unfold createUnbound
  rw [Txn.wp_bind]
  refine wp_orRefuse ?_
  intro kind _
  split
  · trivial
  · simp only [Txn.wp_bind]
    refine Txn.wp_reads (reads_resolveInvestigation _ _) sound ?_
    intro inv K t _ sound _
    simp only [Txn.wp_acquire]
    intro t₁ sound _
    refine Txn.wp_reads (reads_openInvestigation _ _) sound ?_
    intro locked L t₂ _ sound _
    refine Txn.wp_reads (reads_resolveSelectedBuild _ _ _ _ _ _) sound ?_
    intro selected M t₃ _ sound _
    have unbound := insertCreatedRun_wp (H := M) (s := t₃)
      (createdRun run request inv.project none kind selected) selected locked now
      (fun _ _ system bound => by cases bound)
    simpa only [Txn.wp_bind] using unbound

theorem createRun_safe (boot : BootGuard) (ctx : RequestContext) (request : RunCreateRequest)
    (available : List ResourceKind) (now : Instant) (run : Uuid) :
    Txn.Safe bindingDiscipline (createRun boot ctx request available now run) := by
  intro s sound
  unfold createRun
  split
  · exact createUnbound_wp sound
  · rw [Txn.wp_bind]
    refine resolveTargets_wp sound ?_
    intro a project K t _ resolved
    exact createLocked_wp resolved

theorem bindSystem_wp (run system : Uuid) {r : Run} {project : String}
    (isProject : r.project = project)
    (continues : ∃ r', find s.runs run = some r' ∧ Continues r r')
    (mayBind : ∀ t, Rely H s t → MayBind H t system project r.targetKind) :
    Txn.wp bindingDiscipline (Txn.Commits bindingDiscipline) (do
      if ← bindSystem run system then pure () else refuse (alreadyBoundFailure run)) H id s := by
  unfold bindSystem getRun
  simp only [Txn.wp_bind, Txn.wp_acquire, Txn.wp_get, Txn.wp_pure, id_eq]
  intro s₁ _ rely₁ s₂ _ rely₂
  split
  · rename_i unbound
    simp only [Txn.wp_bind, Txn.wp_modify, Txn.wp_pure, if_true]
    intro u _ rely
    have grown : H ⊆ insert (LockScope.runRow run) H := Set.subset_insert _ _
    have since : Rely H s u := rely₁.trans ((rely₂.trans rely).mono grown)
    obtain ⟨held, none, hosts⟩ := mayBind u since
    refine update_guarantee run ?_ (Set.mem_insert _ _) ?_ ?_
    · intro row hit
      exact (of_decide_eq_true hit).1
    · intro row found hit
      have isNone := (of_decide_eq_true hit).2
      refine ⟨rfl, rfl, ?_, fun live => live⟩
      intro system' bound
      rw [isNone] at bound
      cases bound
    · rintro row system' found hit ⟨rfl⟩
      right
      obtain ⟨r₀, found₀, before⟩ := continues
      obtain ⟨r₁, found₁, after⟩ := since.continues run r₀ found₀
      obtain rfl := Option.some.inj (found.symm.trans found₁)
      have whole := before.trans after
      refine ⟨grown held, none, ?_⟩
      dsimp only
      rw [whole.project, whole.targetKind, isProject]
      exact hosts
  · trivial

theorem bindLocked_wp {boot : BootGuard} {run : Uuid} {targets : RunHostTargets} {r₀ : Run}
    {requirement : ReuseRequirement} {now : Instant} (resolved : Resolved s targets)
    (continues : ∃ r', find s.runs run = some r' ∧ Continues r₀ r') :
    Txn.wp bindingDiscipline (Txn.Commits bindingDiscipline)
      (bindLocked boot run targets r₀.project requirement now) H id s := by
  unfold bindLocked
  refine lockTargets_wp resolved ?_
  intro K s₁ _ continues₁ placed
  unfold getRun
  simp only [Txn.wp_bind, Txn.wp_acquire, Txn.wp_get, Txn.wp_pure, id_eq]
  intro s₂ _ rely₂ s₃ sound rely₃
  split
  · trivial
  · rename_i r found
    have before : Continues r₀ r := by
      obtain ⟨r', found', first⟩ := continues
      have later := rely₃.continues
      obtain ⟨r'', found'', second⟩ :=
        (continues₁.trans (rely₂.continues.trans later)) run r' found'
      obtain rfl := Option.some.inj (found.symm.trans found'')
      exact first.trans second
    have grown : K ⊆ insert (LockScope.run run) K := Set.subset_insert _ _
    have placed' : Placed (insert (LockScope.run run) K) s₃ targets := by
      refine ⟨grown placed.system, grown placed.allocation, ?_⟩
      have resolved' : Resolved s₁ targets := placed.row
      exact (resolved'.rely rely₂).rely rely₃
    simp only [Txn.wp_bind]
    refine Txn.wp_reads (reads_check _) sound ?_
    intro _ L s₄ more₄ sound₄ rely₄
    have placed₄ : Placed L s₄ targets := by
      refine ⟨more₄ placed'.system, more₄ placed'.allocation, ?_⟩
      have resolved' : Resolved s₃ targets := placed'.row
      exact resolved'.rely rely₄
    refine checkHostPreconditions_wp placed₄ ?_
    rintro ⟨system, alloc⟩ s₅ sound₅ rely₅ fit
    refine resourceKindForSystem_wp ?_
    intro kind s₆ sound₆ rely₆ isKind
    have fit := fit.rely (Set.Subset.refl _) rely₆
    split
    · trivial
    · rename_i sameKind
      simp only [Txn.wp_bind]
      refine Txn.wp_reads (reads_check _) sound₆ ?_
      intro _ M s₇ more₇ sound₇ rely₇
      have isKind := fit.kind isKind rely₇
      have fit := fit.rely more₇ rely₇
      refine Txn.wp_reads (reads_checkExternalBootAdmission boot targets.systemId) sound₇ ?_
      intro _ N s₈ more₈ _ rely₈
      have isKind := fit.kind isKind rely₈
      have fit := fit.rely more₈ rely₈
      have here : ∃ r', find s₈.runs run = some r' ∧ Continues r r' :=
        (rely₄.continues.trans (rely₅.continues.trans (rely₆.continues.trans
          (rely₇.continues.trans rely₈.continues)))) run r found
      have bound := bindSystem_wp (H := N) (s := s₈) run targets.systemId before.project here (fun u rely => by
          rw [← not_not.mp sameKind]
          exact (fit.rely (Set.Subset.refl _) rely).mayBind (fit.kind isKind rely))
      simpa only [Txn.wp_bind] using bound

theorem bindRun_safe (boot : BootGuard) (ctx : RequestContext) (run system : Uuid)
    (requirement : ReuseRequirement) (now : Instant) :
    Txn.Safe bindingDiscipline (bindRun boot ctx run system requirement now) := by
  intro s sound
  unfold bindRun
  rw [Txn.wp_bind]
  refine resolveBindTargets_wp ?_
  intro r a K t _ continues resolved
  exact bindLocked_wp resolved continues

theorem live_of_next {state target : RunState} (legal : target ∈ state.next)
    (live : target ∈ runNonTerminal) : state ∈ runNonTerminal := by
  cases state <;> simp_all [RunState.next, runNonTerminal]

theorem wp_commits_reads {α : Type} {p : RunTxn α} (reads : Txn.Reads p)
    (sound : bindingDiscipline.Sound s) :
    Txn.wp bindingDiscipline (Txn.Commits bindingDiscipline) p H id s := by
  refine Txn.wp_reads reads sound ?_
  intro a K t _ _ _ u _ _
  exact guarantee_of_same rfl rfl rfl rfl

theorem updateRunState_wp {run : Uuid} {target : RunState} {α : Type}
    {k : Option RunState → RunTxn α} (reads : ∀ answer, Txn.Reads (k answer)) :
    Txn.wp bindingDiscipline (Txn.Commits bindingDiscipline) (updateRunState run target >>= k) H id s := by
  unfold updateRunState getRun
  simp only [Txn.wp_bind, Txn.wp_acquire, Txn.wp_get, Txn.wp_pure, id_eq]
  intro s₁ _ rely₁ s₂ sound₂ rely₂
  cases found : find s₂.runs run with
  | none => trivial
  | some r =>
    dsimp only
    split
    · rename_i legal
      simp only [Txn.wp_bind, Txn.wp_modify, Txn.wp_pure]
      refine Txn.wp_reads (reads (some target)) sound₂ ?_
      intro a K t more _ rely₃ u _ rely₄
      have held : LockScope.runRow run ∈ insert (LockScope.runRow run) H := Set.mem_insert _ _
      have still : find u.runs run = some r := by
        rw [rely₄.rows run (more held), rely₃.rows run held]
        exact found
      refine update_guarantee run ?_ (more held) ?_ ?_
      · intro row hit
        simpa using hit
      · intro row found' _
        obtain rfl := Option.some.inj (still.symm.trans found')
        exact ⟨rfl, rfl, fun _ bound => bound, fun live => live_of_next legal live⟩
      · intro row system found' _ bound
        exact .inl bound
    · exact wp_commits_reads (reads none) sound₂

theorem cancelRun_safe (boot : BootGuard) (ctx : RequestContext) (run : Uuid) :
    Txn.Safe bindingDiscipline (cancelRun boot ctx run) := by
  intro s sound
  unfold cancelRun
  rw [Txn.wp_bind]
  refine Txn.wp_reads (reads_getRun run) sound ?_
  intro found K t _ sound _
  cases found with
  | none => exact wp_commits_reads trivial sound
  | some row =>
    dsimp only
    split
    · exact wp_commits_reads trivial sound
    · rw [Txn.wp_bind]
      refine Txn.wp_reads (reads_requireRole _ _ _) sound ?_
      intro _ K t _ sound _
      unfold cancelLocked
      rw [Txn.wp_bind]
      refine Txn.wp_reads (reads_lockBoundSystem _) sound ?_
      intro _ K t _ sound _
      rw [Txn.wp_bind]
      refine Txn.wp_reads (Txn.reads_acquire _) sound ?_
      intro _ K t _ sound _
      rw [Txn.wp_bind]
      refine Txn.wp_reads (reads_getRun row.id) sound ?_
      intro locked K t _ sound _
      split
      · exact wp_commits_reads (reads_terminalResponse row) sound
      · split
        · exact wp_commits_reads trivial sound
        · split
          · exact wp_commits_reads trivial sound
          · refine updateRunState_wp ?_
            intro answer
            cases answer with
            | none => exact reads_terminalResponse row
            | some state => trivial

theorem completeBuild_safe (run investigation : Uuid) (accepted : Bool)
    (kernelRef debuginfoRef buildRef : Option String) :
    Txn.Safe bindingDiscipline
      (completeBuild run investigation accepted kernelRef debuginfoRef buildRef) := by
  intro s sound
  unfold completeBuild getRun
  simp only [Txn.wp_bind, Txn.wp_acquire, Txn.wp_get, Txn.wp_pure, id_eq]
  intro s₁ _ _ s₂ _ _ s₃ _ _ s₄ sound _
  cases found : find s₄.runs run with
  | none => trivial
  | some r =>
    dsimp only
    split
    · exact wp_commits_reads trivial sound
    · split
      · trivial
      · intro u _ _
        refine update_guarantee run ?_ (Set.mem_insert _ _) ?_ ?_
        · intro row hit
          exact (of_decide_eq_true hit).1
        · intro row _ _
          exact ⟨rfl, rfl, fun _ bound => bound, fun live => by simp [runNonTerminal] at live⟩
        · intro row system _ _ bound
          exact .inl bound

theorem transitionAllocation_safe (id : Uuid) (target : AllocationState) :
    Txn.Safe bindingDiscipline (transitionAllocation id target) := by
  intro s sound
  unfold transitionAllocation getAllocation
  simp only [Txn.wp_bind, Txn.wp_acquire, Txn.wp_get, Txn.wp_pure, id_eq]
  intro s₁ _ _ s₂ _ _
  split
  · trivial
  · split
    · intro u _ _
      exact setAllocationState_guarantee (Set.mem_insert _ _)
    · trivial

theorem transitionSystem_safe (id : Uuid) (target : SystemState) :
    Txn.Safe bindingDiscipline (transitionSystem id target) := by
  intro s sound
  unfold transitionSystem getSystem
  simp only [Txn.wp_bind, Txn.wp_acquire, Txn.wp_get, Txn.wp_pure, id_eq]
  intro s₁ _ _ s₂ _ _
  split
  · trivial
  · split
    · intro u _ _
      exact setSystemState_guarantee (Set.mem_insert _ _)
    · trivial

theorem unanswered_safe {α : Type} {p : RunTxn α} (safe : Txn.Safe bindingDiscipline p) :
    Txn.Safe bindingDiscipline (unanswered p) := by
  intro s sound
  unfold unanswered
  rw [Txn.wp_bind]
  exact Txn.wp_mono (safe s sound) (fun _ _ _ _ commits => commits)

theorem operation_safe (operation : Operation) :
    Txn.Safe bindingDiscipline operation.program := by
  cases operation with
  | create boot ctx request available now id =>
    exact unanswered_safe (createRun_safe boot ctx request available now id)
  | bind boot ctx run system requirement now => exact bindRun_safe boot ctx run system requirement now
  | cancel boot ctx run => exact unanswered_safe (cancelRun_safe boot ctx run)
  | completeBuild run investigation accepted kernelRef debuginfoRef buildRef =>
    exact completeBuild_safe run investigation accepted kernelRef debuginfoRef buildRef
  | transitionRun run target =>
    intro s _
    exact updateRunState_wp (fun _ => trivial)
  | transitionAllocation id target => exact transitionAllocation_safe id target
  | transitionSystem id target => exact transitionSystem_safe id target

end Operations

section Main

/-- In every interleaving of these transactions, from tables with at most one live Run to a System:
every System has at most one live Run; a binding that is set stays; and whatever commit binds a Run,
by creating it or by `runs.bind`, finds its System ready on an active Allocation, of the Run's
project and of its target kind. -/
theorem one_live_run_per_system (init : RunDb) (one : OneLiveRun init)
    (c : Txn.Config RunDb LockScope RunError Unit)
    (reachable : Txn.Reachable starts (fun _ _ => True) init c) :
    (∀ r ∈ c.db.runs.rows, ∀ r' ∈ c.db.runs.rows, r.state ∈ runNonTerminal →
      r'.state ∈ runNonTerminal → ∀ system, r.systemId = some system → r'.systemId = some system →
      r = r') ∧
    ∀ c', Txn.Step starts c c' →
      (∀ r ∈ c.db.runs.rows, ∀ system, r.systemId = some system →
        ∃ r' ∈ c'.db.runs.rows, r'.id = r.id ∧ r'.systemId = some system) ∧
      ∀ r' ∈ c'.db.runs.rows, ∀ system, r'.systemId = some system →
        (∃ r ∈ c.db.runs.rows, r.id = r'.id ∧ r.systemId = some system) ∨
          Hosts c'.db system r'.project r'.targetKind := by
  have safe : ∀ p, starts p → Txn.Safe bindingDiscipline p := by
    rintro p ⟨operation, rfl⟩
    exact operation_safe operation
  constructor
  · have holds : OneLiveRun c.db := Txn.inv_of_reachable safe one reachable
    intro r isRow r' isRow' live live' system bound bound'
    have same := holds system r.id r'.id ⟨r, find_of_mem isRow, bound, live⟩
      ⟨r', find_of_mem isRow', bound', live'⟩
    exact row_unique isRow isRow' same
  · intro c' step
    rcases Txn.step_allowed safe one reachable step with same | ⟨H, guarantee⟩
    · rw [same]
      exact ⟨fun r isRow system bound => ⟨r, isRow, rfl, bound⟩,
        fun r isRow system bound => .inl ⟨r, isRow, rfl, bound⟩⟩
    · constructor
      · intro r isRow system bound
        obtain ⟨r', found, continues⟩ := guarantee.continues r.id r (find_of_mem isRow)
        exact ⟨r', find_mem found, find_key found, continues.bound system bound⟩
      · intro r' isRow system bound
        obtain ⟨binding, changes, hosted⟩ := guarantee.binds
        rcases changes r'.id r' system (find_of_mem isRow) bound with ⟨r, found, before⟩ | new
        · exact .inl ⟨r, find_mem found, find_key found, before⟩
        · obtain ⟨_, _, row, found, hosts⟩ := hosted r'.id system new
          obtain rfl := Option.some.inj (found.symm.trans (find_of_mem isRow))
          exact .inr hosts

section Sample

def sampleDb : RunDb where
  runs := Table.empty
  systems := Table.insert Table.empty
    ⟨7, "kernel", 3, .ready, .integer 2, .integer 2048, .integer 20⟩
  allocations := Table.insert Table.empty
    { id := 3, createdAt := 0, principal := "ada", project := "kernel", resourceId := some 2,
      state := .active, leaseExpiry := none, requestedVcpus := none, requestedMemoryGb := none,
      requestedDiskGb := none, requestedArch := none, shape := none, pcieClaim := [],
      requestedPcieSpecs := [], requestedKind := none, requestedResourceId := none,
      requestedPool := none, activeStartedAt := none, activeEndedAt := none,
      failureCategory := none }
  resources := Table.insert Table.empty
    { id := 2, createdAt := 0, kind := "local-libvirt", pool := none, costClass := "small",
      status := .available, cordoned := false, ownerProject := none, affinityAllowlist := [],
      allocationCap := none, vcpus := none, memoryMb := none, diskGb := none, guestArches := [],
      pcieDevices := [] }
  investigations := Table.insert Table.empty ⟨5, "kernel", .opened, none⟩
  builds := []
  tombstones := []

def sampleCreate : Operation :=
  .create (fun _ => false) ⟨"ada", ["kernel"], fun _ => some .contributor⟩
    ⟨5, ⟨"x86_64", "profile"⟩, some 7, none, none, ⟨none, none, none, []⟩, none, none⟩ [] 10 11

theorem sample_binding_stays :
    ((Txn.commit sampleCreate.program sampleDb).runs.rows.map (fun r => (r.id, r.systemId)) =
      [(11, some 7)]) ∧
    ∀ c', Txn.Step starts ⟨Txn.commit sampleCreate.program sampleDb, fun _ => none⟩ c' →
      ∃ r ∈ c'.db.runs.rows, r.id = 11 ∧ r.systemId = some 7 := by
  have one : OneLiveRun sampleDb := by
    rintro system a b ⟨r, found, _⟩ _
    cases found
  have created : (Txn.commit sampleCreate.program sampleDb).runs.rows.map
      (fun r => (r.id, r.systemId)) = [(11, some 7)] := by decide +kernel
  refine ⟨created, ?_⟩
  intro c' step
  have reachable : Txn.Reachable starts (fun _ _ => True) sampleDb
      ⟨Txn.commit sampleCreate.program sampleDb, fun _ => none⟩ :=
    Txn.reachable_commit ⟨sampleCreate, rfl⟩ trivial trivial (.init trivial)
  have row : (11, some 7) ∈ (Txn.commit sampleCreate.program sampleDb).runs.rows.map
      (fun r => (r.id, r.systemId)) := by
    rw [created]
    exact List.mem_singleton_self _
  obtain ⟨r, isRow, same⟩ := List.mem_map.mp row
  obtain ⟨isId, bound⟩ := Prod.mk.inj same
  obtain ⟨r', isRow', sameId, bound'⟩ :=
    ((one_live_run_per_system sampleDb one _ reachable).2 c' step).1 r isRow 7 bound
  exact ⟨r', isRow', sameId.trans isId, bound'⟩

end Sample

end Main

end Kdive.Runs
