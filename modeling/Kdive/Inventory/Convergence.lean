import Kdive.Inventory.Realized
import Kdive.Inventory.Settled

/-!
Reconciliation converges. Clearing an override at the end of a run lets the next run act once more,
so two runs are needed; after them the passes find nothing to write. The exception is a discovered
host that two instances claim: each run then gives it both names in turn.
-/
namespace Kdive.Inventory
open Json (Dict)

def reconcileAll (env : Surroundings) (doc : InventoryDoc) (c : Catalog) : Pass := do
  let s ← reconcileImages env doc (c, {})
  let s ← reconcileCoefficients env doc s
  let s ← reconcileResources env doc s
  return (reconcileOverridesGc doc s.1, s.2)

section Pass

variable {env : Surroundings} {doc : InventoryDoc} {s s' : Catalog × ReconcileDiff}

def HostsClaimedOnce (doc : InventoryDoc) (hosts : List String) : Prop :=
  doc.localLibvirt.Pairwise (fun i j => i.hostUri = j.hostUri → i.hostUri ∉ hosts)

instance (doc : InventoryDoc) (hosts : List String) : Decidable (HostsClaimedOnce doc hosts) :=
  inferInstanceAs (Decidable (List.Pairwise _ _))

/-- What the resource pass does to the table; `mid` is the table after the upserts. -/
structure ResourcesPassed (env : Surroundings) (doc : InventoryDoc)
    (overrides : List InventoryOverride) (rows mid rows' : List ResourceRow) : Prop where
  valid : ResourcesValid rows'
  hosts : localHosts rows' = localHosts rows
  overlays : HostsClaimedOnce doc (localHosts rows) → ∀ i ∈ doc.localLibvirt, Overlaid i rows'
  named : NamedDone doc rows'
  kept : ∀ r ∈ rows', r.managedBy = .config → Kept env doc overrides r
  between : ResourcesValid mid
  settled : ∀ u ∈ configResourceUpserts doc overrides, SettledRow u mid
  steady : ∀ r ∈ rows, r.name ≠ none → (∀ u ∈ configResourceUpserts doc overrides, Named u r →
    u.detached = true ∧ r.needsConfigAdoption = false) → r ∈ mid
  forward : ∀ r ∈ mid, r.kind ≠ .localLibvirt → ∀ name, r.name = some name →
    Spared doc overrides r name → r ∈ rows'
  backward : ∀ r ∈ rows', r.managedBy = .config → ∀ name, r.name = some name →
    Spared doc overrides r name → r ∈ mid

theorem upsertPhase_ok {overrides : List InventoryOverride} (checked : doc.Checked)
    (valid : ResourcesValid s.1.resources)
    (ran : Sweep.run (upsertConfigResource env) (configResourceUpserts doc overrides) s = .ok s') :
    s'.1 = { s.1 with resources := s'.1.resources } ∧ ResourcesValid s'.1.resources ∧
      localHosts s'.1.resources = localHosts s.1.resources ∧
      (∀ u ∈ configResourceUpserts doc overrides, SettledRow u s'.1.resources) ∧
      ∀ r ∈ s.1.resources, r.name ≠ none → (∀ u ∈ configResourceUpserts doc overrides, Named u r →
        u.detached = true ∧ r.needsConfigAdoption = false) → r ∈ s'.1.resources := by
  have rule := upsertRows_establish env
  have distinct := upserts_distinct checked overrides
  have kinds : ∀ u ∈ configResourceUpserts doc overrides, u.declared.kind ≠ .localLibvirt :=
    fun u member => declared_kind (mem_upserts member).1
  have ready : ∀ u ∈ configResourceUpserts doc overrides,
      ResourcesValid s.1.resources ∧ u.declared.kind ≠ .localLibvirt :=
    fun u member => ⟨valid, kinds u member⟩
  have settled := Sweep.run_establishes rule distinct ready ran
  have whole : s'.1 = { s.1 with resources := s'.1.resources } ∧ ResourcesValid s'.1.resources ∧
      localHosts s'.1.resources = localHosts s.1.resources := by
    refine Sweep.run_keeps_ready rule distinct ready ran (fun t =>
      t.1 = { s.1 with resources := t.1.resources } ∧ ResourcesValid t.1.resources ∧
        localHosts t.1.resources = localHosts s.1.resources) ?_ ⟨rfl, valid, rfl⟩
    rintro u member t t' due moved ⟨rest, -, hosts⟩
    have step := upsertConfigResource_ok due.1 due.2 moved
    exact ⟨by rw [step.rest, rest], step.valid, step.hosts.trans hosts⟩
  refine ⟨whole.1, whole.2.1, whole.2.2, fun u member => (settled u member).2, ?_⟩
  intro r there named still
  refine Sweep.run_keeps_ready rule distinct ready ran (fun t => r ∈ t.1.resources) ?_ there
  intro u member t t' due moved held
  have step := upsertConfigResource_ok due.1 due.2 moved
  by_cases mine : Named u r
  · obtain ⟨detached, adopted⟩ := still u member mine
    rw [step.steady detached ⟨r, held, mine, adopted⟩]
    exact held
  · exact step.forward r held named mine

theorem overlayPhase_ok (valid : ResourcesValid s.1.resources)
    (ran : Sweep.run overlayOneLocal doc.localLibvirt s = .ok s') :
    s'.1 = { s.1 with resources := s'.1.resources } ∧ ResourcesValid s'.1.resources ∧
      localHosts s'.1.resources = localHosts s.1.resources ∧
      (HostsClaimedOnce doc (localHosts s.1.resources) →
        ∀ i ∈ doc.localLibvirt, Overlaid i s'.1.resources) ∧
      (∀ r ∈ s.1.resources, r.kind ≠ .localLibvirt → r ∈ s'.1.resources) ∧
      ∀ r ∈ s'.1.resources, r.kind ≠ .localLibvirt → r ∈ s.1.resources := by
  have whole : s'.1 = { s.1 with resources := s'.1.resources } ∧ ResourcesValid s'.1.resources ∧
      localHosts s'.1.resources = localHosts s.1.resources ∧
      ∀ r, r.kind ≠ .localLibvirt → (r ∈ s'.1.resources ↔ r ∈ s.1.resources) := by
    refine Sweep.run_keeps (fun t => t.1 = { s.1 with resources := t.1.resources } ∧
      ResourcesValid t.1.resources ∧ localHosts t.1.resources = localHosts s.1.resources ∧
        ∀ r, r.kind ≠ .localLibvirt → (r ∈ t.1.resources ↔ r ∈ s.1.resources)) ?_ ran
      ⟨rfl, valid, rfl, fun _ _ => Iff.rfl⟩
    rintro i member t t' moved ⟨rest, valid, hosts, same⟩
    have step := overlayOneLocal_ok valid moved
    refine ⟨by rw [step.rest, rest], step.valid, step.hosts.trans hosts, ?_⟩
    intro r foreign
    rw [← same r foreign]
    refine ⟨fun held => ?_, fun held => step.forward r held foreign⟩
    rcases step.backward r held with old | ⟨kind, -⟩
    · exact old
    · exact absurd kind foreign
  obtain ⟨rest, valid', hosts, same⟩ := whole
  refine ⟨rest, valid', hosts, ?_, fun r held foreign => (same r foreign).mpr held,
    fun r held foreign => (same r foreign).mp held⟩
  intro once i member
  have rule := overlays_establish (localHosts s.1.resources)
  exact (Sweep.run_establishes rule once (fun _ _ => ⟨valid, rfl⟩) ran i member).2

theorem namePhase_ok (valid : ResourcesValid s.1.resources)
    (ran : Sweep.run (nameDiscovered env doc) (unnamedDiscovered s.1.resources) s = .ok s') :
    s'.1 = { s.1 with resources := s'.1.resources } ∧ ResourcesValid s'.1.resources ∧
      localHosts s'.1.resources = localHosts s.1.resources ∧ NamedDone doc s'.1.resources ∧
      (∀ i ∈ doc.localLibvirt, Overlaid i s.1.resources → Overlaid i s'.1.resources) ∧
      (∀ r ∈ s.1.resources, r.name ≠ none → r ∈ s'.1.resources) ∧
      ∀ r ∈ s'.1.resources, r ∈ s.1.resources ∨ r.managedBy = .discovery ∧ r.name ≠ none := by
  have rule := names_establish env doc
  have waiting : ∀ r ∈ unnamedDiscovered s.1.resources, ResourcesValid s.1.resources ∧
      r ∈ s.1.resources ∧ r.managedBy = .discovery ∧ r.name = none := by
    intro r member
    simp only [unnamedDiscovered, List.mem_filter, decide_eq_true_eq] at member
    exact ⟨valid, member⟩
  have distinct : (unnamedDiscovered s.1.resources).Pairwise (fun r q => r.id ≠ q.id) :=
    (List.pairwise_map.mp valid.ids).sublist List.filter_sublist
  have settled := Sweep.run_establishes rule distinct waiting ran
  have whole : s'.1 = { s.1 with resources := s'.1.resources } ∧ ResourcesValid s'.1.resources ∧
      localHosts s'.1.resources = localHosts s.1.resources ∧
      (∀ i ∈ doc.localLibvirt, Overlaid i s.1.resources → Overlaid i s'.1.resources) ∧
      (∀ r ∈ s.1.resources, r.name ≠ none → r ∈ s'.1.resources) ∧
      ∀ r ∈ s'.1.resources, r ∈ s.1.resources ∨ r.managedBy = .discovery ∧ r.name ≠ none := by
    refine Sweep.run_keeps_ready rule distinct waiting ran (fun t =>
      t.1 = { s.1 with resources := t.1.resources } ∧ ResourcesValid t.1.resources ∧
        localHosts t.1.resources = localHosts s.1.resources ∧
        (∀ i ∈ doc.localLibvirt, Overlaid i s.1.resources → Overlaid i t.1.resources) ∧
        (∀ r ∈ s.1.resources, r.name ≠ none → r ∈ t.1.resources) ∧
        ∀ r ∈ t.1.resources, r ∈ s.1.resources ∨ r.managedBy = .discovery ∧ r.name ≠ none) ?_
      ⟨rfl, valid, rfl, fun _ _ held => held, fun _ held _ => held, fun _ held => .inl held⟩
    rintro row member t t' due moved ⟨rest, -, hosts, overlays, forward, backward⟩
    have step := nameDiscovered_ok due.1 due.2.1 due.2.2.1 due.2.2.2 moved
    refine ⟨by rw [step.rest, rest], step.valid, step.hosts.trans hosts, ?_, ?_, ?_⟩
    · intro i member held
      exact step.overlays i member (overlays i member held)
    · intro r held named
      refine step.forward r (forward r held named) ?_
      intro same
      rw [due.1.id_unique (forward r held named) due.2.1 same] at named
      exact named due.2.2.2
    · intro r held
      rcases step.backward r held with old | new
      · exact backward r old
      · exact .inr new
  obtain ⟨rest, valid', hosts, overlays, forward, backward⟩ := whole
  refine ⟨rest, valid', hosts, ?_, overlays, forward, backward⟩
  intro r held discovered unnamed
  rcases backward r held with old | ⟨-, named⟩
  · have waited : r ∈ unnamedDiscovered s.1.resources := by
      simp [unnamedDiscovered, old, discovered, unnamed]
    rcases settled r waited with configured | ⟨gone, -⟩
    · exact configured
    · exact absurd held gone
  · exact absurd unnamed named

theorem prunePhase_ok {overrides : List InventoryOverride} (valid : ResourcesValid s.1.resources)
    (ran : Sweep.run (pruneDeparted env doc overrides) (configResources s.1.resources) s = .ok s') :
    s'.1 = { s.1 with resources := s'.1.resources } ∧ ResourcesValid s'.1.resources ∧
      localHosts s'.1.resources = localHosts s.1.resources ∧
      (∀ r ∈ s'.1.resources, r.managedBy = .config → Kept env doc overrides r) ∧
      (∀ host, localAt s'.1.resources host = localAt s.1.resources host) ∧
      (∀ r ∈ s.1.resources, ∀ name, r.name = some name → Spared doc overrides r name →
        r ∈ s'.1.resources) ∧
      ∀ r ∈ s'.1.resources, r ∈ s.1.resources ∨ r.managedBy = .config ∧
        ¬ ∃ name, r.name = some name ∧ Spared doc overrides r name := by
  have rule := pruneRows_establish env doc overrides
  have waiting : ∀ r ∈ configResources s.1.resources, ResourcesValid s.1.resources ∧
      r ∈ s.1.resources ∧ r.managedBy = .config := by
    intro r member
    simp only [configResources, List.mem_filter, decide_eq_true_eq] at member
    exact ⟨valid, member⟩
  have distinct : (configResources s.1.resources).Pairwise (fun r q => r.id ≠ q.id) :=
    (List.pairwise_map.mp valid.ids).sublist List.filter_sublist
  have settled := Sweep.run_establishes rule distinct waiting ran
  have whole : s'.1 = { s.1 with resources := s'.1.resources } ∧ ResourcesValid s'.1.resources ∧
      localHosts s'.1.resources = localHosts s.1.resources ∧
      (∀ host, localAt s'.1.resources host = localAt s.1.resources host) ∧
      (∀ r ∈ s.1.resources, ∀ name, r.name = some name → Spared doc overrides r name →
        r ∈ s'.1.resources) ∧
      ∀ r ∈ s'.1.resources, r ∈ s.1.resources ∨ r.managedBy = .config ∧
        (¬ ∃ name, r.name = some name ∧ Spared doc overrides r name) ∧
        ∃ row ∈ configResources s.1.resources, r.id = row.id := by
    refine Sweep.run_keeps_ready rule distinct waiting ran (fun t =>
      t.1 = { s.1 with resources := t.1.resources } ∧ ResourcesValid t.1.resources ∧
        localHosts t.1.resources = localHosts s.1.resources ∧
        (∀ host, localAt t.1.resources host = localAt s.1.resources host) ∧
        (∀ r ∈ s.1.resources, ∀ name, r.name = some name → Spared doc overrides r name →
          r ∈ t.1.resources) ∧
        ∀ r ∈ t.1.resources, r ∈ s.1.resources ∨ r.managedBy = .config ∧
          (¬ ∃ name, r.name = some name ∧ Spared doc overrides r name) ∧
          ∃ row ∈ configResources s.1.resources, r.id = row.id) ?_
      ⟨rfl, valid, rfl, fun _ => rfl, fun _ held _ _ _ => held, fun _ held => .inl held⟩
    rintro row member t t' due moved ⟨rest, -, hosts, locals, forward, backward⟩
    have step := pruneDeparted_ok due.1 due.2.1 due.2.2 moved
    refine ⟨by rw [step.rest, rest], step.valid, step.hosts.trans hosts,
      fun host => (step.locals host).trans (locals host), ?_, ?_⟩
    · intro r held name named spared
      exact step.forward r (forward r held name named spared) (.inr ⟨name, named, spared⟩)
    · intro r held
      rcases step.backward r held with old | ⟨old, -, -, own, name, kind, managed, exposed⟩
      · exact backward r old
      · refine .inr ⟨managed, ?_, row, member, own⟩
        rintro ⟨given, named, spared⟩
        refine exposed ⟨given, name ▸ named, ?_⟩
        simpa only [Spared, ResourceRow.key, kind] using spared
  obtain ⟨rest, valid', hosts, locals, forward, backward⟩ := whole
  refine ⟨rest, valid', hosts, ?_, locals, forward, ?_⟩
  · intro r held managed
    rcases backward r held with old | ⟨-, -, row, member, own⟩
    · have listed : r ∈ configResources s.1.resources := by
        simp [configResources, old, managed]
      exact settled r listed r held rfl
    · exact settled row member r held own
  · intro r held
    exact (backward r held).imp_right (fun changed => ⟨changed.1, changed.2.1⟩)

theorem reconcileResources_ok (checked : doc.Checked) (valid : ResourcesValid s.1.resources)
    (done : reconcileResources env doc s = .ok s') :
    s'.1 = { s.1 with resources := s'.1.resources } ∧
      ∃ mid, ResourcesPassed env doc s.1.overrides s.1.resources mid s'.1.resources := by
  unfold reconcileResources at done
  simp only [bind, Except.bind] at done
  split at done
  · cases done
  rename_i s₁ upserted
  split at done
  · cases done
  rename_i s₂ overlaid
  split at done
  · cases done
  rename_i s₃ named
  obtain ⟨rest₁, valid₁, hosts₁, settled, steady⟩ := upsertPhase_ok checked valid upserted
  obtain ⟨rest₂, valid₂, hosts₂, overlays, forward₂, backward₂⟩ := overlayPhase_ok valid₁ overlaid
  obtain ⟨rest₃, valid₃, hosts₃, complete, overlays₃, forward₃, backward₃⟩ :=
    namePhase_ok valid₂ named
  obtain ⟨rest₄, valid₄, hosts₄, kept, locals, forward₄, backward₄⟩ := prunePhase_ok valid₃ done
  refine ⟨by rw [rest₄, rest₃, rest₂, rest₁], s₁.1.resources, valid₄,
    hosts₄.trans (hosts₃.trans (hosts₂.trans hosts₁)), ?_, ?_, kept, valid₁, settled, steady,
    ?_, ?_⟩
  · intro once i member r found
    rw [locals] at found
    exact overlays₃ i member (overlays (hosts₁ ▸ once) i member) r found
  · intro r held discovered unnamed
    rcases backward₄ r held with old | ⟨managed, -⟩
    · exact complete r old discovered unnamed
    · rw [discovered] at managed
      cases managed
  · intro r held foreign name hasName spared
    have third : r ∈ s₃.1.resources :=
      forward₃ r (forward₂ r held foreign) (by rw [hasName]; exact nofun)
    exact forward₄ r third name hasName spared
  · intro r held managed name hasName spared
    rcases backward₄ r held with third | ⟨-, exposed⟩
    · rcases backward₃ r third with second | ⟨discovered, -⟩
      · exact backward₂ r second (fun kind => valid₂.discovered r second kind managed)
      · rw [discovered] at managed
        cases managed
    · exact absurd ⟨name, hasName, spared⟩ exposed

structure SettledResources (env : Surroundings) (doc : InventoryDoc) (c : Catalog) : Prop where
  upserts : ∀ u ∈ configResourceUpserts doc c.overrides, ∃ r ∈ c.resources, Conforms u r
  overlays : ∀ i ∈ doc.localLibvirt, Overlaid i c.resources
  named : NamedDone doc c.resources
  kept : ∀ r ∈ c.resources, r.managedBy = .config → Kept env doc c.overrides r

theorem upsertConfigResource_quiet {u : ConfigResourceUpsert} (valid : ResourcesValid s.1.resources)
    (settled : ∃ r ∈ s.1.resources, Conforms u r) : upsertConfigResource env u s = .ok s := by
  obtain ⟨r, there, conforms⟩ := settled
  obtain ⟨held, caps, merged⟩ := conforms.caps
  simp only [upsertConfigResource, findExisting_named valid there conforms.named, caps,
    conforms.adopted, Bool.false_eq_true, if_false]
  cases detached : u.detached with
  | true => rfl
  | false =>
    obtain ⟨host, cost, pool⟩ := conforms.fields detached
    simp [updateConfigResource, host, cost, pool, caps, merged detached]

theorem overlayOneLocal_quiet {i : LocalLibvirtInstance} (settled : Overlaid i s.1.resources) :
    ∃ t, overlayOneLocal i s = .ok t ∧ Quiet s t := by
  unfold overlayOneLocal
  split
  · exact ⟨_, rfl, rfl, rfl, rfl, rfl⟩
  · rename_i row found
    obtain ⟨name, cost, pool, held, caps, merged⟩ := settled row found
    simp only [caps, name, cost, pool, merged, ne_eq, not_true_eq_false, or_self, if_false]
    exact ⟨s, rfl, .refl s⟩

theorem nameDiscovered_quiet {row : ResourceRow}
    (settled : row.hostUri ∈ doc.localLibvirt.map LocalLibvirtInstance.hostUri) :
    nameDiscovered env doc row s = .ok s := by
  rw [nameDiscovered, if_pos settled]

theorem setResource_settled {rows : List ResourceRow} {row : ResourceRow}
    {f : ResourceRow → ResourceRow} (valid : ResourcesValid rows) (there : row ∈ rows)
    (settled : f row = row) : setResource rows row.id f = rows := by
  have same : ∀ r ∈ rows, (if r.id = row.id then f r else r) = r := by
    intro r member
    split
    · rename_i own
      rw [valid.id_unique member there own, settled]
    · rfl
  rw [setResource, List.map_congr_left same, List.map_id']

theorem pruneDeparted_quiet {overrides : List InventoryOverride} {row : ResourceRow}
    (valid : ResourcesValid s.1.resources) (there : row ∈ s.1.resources)
    (managed : row.managedBy = .config) (settled : Kept env doc overrides row) :
    ∃ t, pruneDeparted env doc overrides row s = .ok t ∧ Quiet s t := by
  obtain ⟨name, named, fate⟩ := settled
  simp only [pruneDeparted, named, find_config valid there managed]
  split
  · exact ⟨s, rfl, .refl s⟩
  rename_i undeclared
  split
  · exact ⟨s, rfl, .refl s⟩
  rename_i attached
  rcases fate with (declared | detached) | ⟨cordoned, used⟩
  · exact absurd declared undeclared
  · exact absurd detached attached
  · have still := setResource_settled valid there (cordon_cordons.settled row cordoned)
    have still' := setResource_settled valid there (cordonRemoved_cordons.settled row cordoned)
    split
    · rename_i removed
      have allocated : env.anyAllocation row.id = true := (if_pos removed).symm.trans used
      simp only [pruneOrCordonRemovedResource, allocated, cordoned, if_true, still']
      exact ⟨_, rfl, rfl, rfl, rfl, rfl⟩
    · rename_i departed
      have live : env.liveAllocation row.id = true := (if_neg departed).symm.trans used
      simp only [pruneOrCordonResource, live, if_true, still]
      exact ⟨_, rfl, rfl, rfl, rfl, rfl⟩

theorem reconcileResources_quiet (valid : ResourcesValid s.1.resources)
    (settled : SettledResources env doc s.1) :
    ∃ t, reconcileResources env doc s = .ok t ∧ Quiet s t := by
  obtain ⟨s₁, upserted, quiet₁⟩ : ∃ t, Sweep.run (upsertConfigResource env)
      (configResourceUpserts doc s.1.overrides) s = .ok t ∧ Quiet s t := by
    refine Sweep.run_quiet Quiet.refl Quiet.trans
      (fun u t => t.1 = s.1 ∧ ∃ r ∈ s.1.resources, Conforms u r) ?_ ?_
      (fun u member => ⟨rfl, settled.upserts u member⟩)
    · rintro u t t' quiet ⟨same, held⟩
      exact ⟨quiet.catalog.trans same, held⟩
    · rintro u t ⟨same, held⟩
      rw [← same] at valid held
      exact ⟨t, upsertConfigResource_quiet valid held, .refl t⟩
  obtain ⟨s₂, overlaid, quiet₂⟩ : ∃ t, Sweep.run overlayOneLocal doc.localLibvirt s₁ = .ok t ∧
      Quiet s₁ t := by
    refine Sweep.run_quiet Quiet.refl Quiet.trans
      (fun i t => t.1 = s.1 ∧ Overlaid i s.1.resources) ?_ ?_
      (fun i member => ⟨quiet₁.catalog, settled.overlays i member⟩)
    · rintro i t t' quiet ⟨same, held⟩
      exact ⟨quiet.catalog.trans same, held⟩
    · rintro i t ⟨same, held⟩
      rw [← same] at held
      exact overlayOneLocal_quiet held
  have quiet₁₂ := quiet₁.trans quiet₂
  obtain ⟨s₃, named, quiet₃⟩ : ∃ t, Sweep.run (nameDiscovered env doc)
      (unnamedDiscovered s₂.1.resources) s₂ = .ok t ∧ Quiet s₂ t := by
    refine Sweep.run_quiet Quiet.refl Quiet.trans
      (fun r _ => r.hostUri ∈ doc.localLibvirt.map LocalLibvirtInstance.hostUri) ?_ ?_ ?_
    · intro r t t' _ held
      exact held
    · intro r t held
      exact ⟨t, nameDiscovered_quiet held, .refl t⟩
    · intro r member
      simp only [unnamedDiscovered, List.mem_filter, decide_eq_true_eq, quiet₁₂.catalog] at member
      exact settled.named r member.1 member.2.1 member.2.2
  have quiet₁₃ := quiet₁₂.trans quiet₃
  obtain ⟨s₄, pruned, quiet₄⟩ : ∃ t, Sweep.run (pruneDeparted env doc s.1.overrides)
      (configResources s₃.1.resources) s₃ = .ok t ∧ Quiet s₃ t := by
    refine Sweep.run_quiet Quiet.refl Quiet.trans (fun r t => t.1 = s.1 ∧ r ∈ s.1.resources ∧
      r.managedBy = .config ∧ Kept env doc s.1.overrides r) ?_ ?_ ?_
    · rintro r t t' quiet ⟨same, held⟩
      exact ⟨quiet.catalog.trans same, held⟩
    · rintro r t ⟨same, there, managed, kept⟩
      exact pruneDeparted_quiet (by rw [same]; exact valid) (by rw [same]; exact there) managed kept
    · intro r member
      simp only [configResources, List.mem_filter, decide_eq_true_eq, quiet₁₃.catalog] at member
      exact ⟨quiet₁₃.catalog, member.1, member.2, settled.kept r member.1 member.2⟩
  refine ⟨s₄, ?_, quiet₁₃.trans quiet₄⟩
  simp only [reconcileResources, bind, Except.bind, upserted, overlaid, named, pruned]

end Pass

section Coefficients

variable {env : Surroundings} {doc : InventoryDoc} {s s' : Catalog × ReconcileDiff}
  {entry : CostClassEntry}

def Priced (entry : CostClassEntry) (rows : List Coefficient) : Prop :=
  ∃ k, rows.find? (fun k => k.costClass = entry.name) = some k ∧ k.coeff = entry.coeff

structure PricedRow (entry : CostClassEntry) (c c' : Catalog) : Prop where
  rest : c' = { c with coefficients := c'.coefficients }
  classes : (c.coefficients.map Coefficient.costClass).Nodup →
    (c'.coefficients.map Coefficient.costClass).Nodup
  own : Priced entry c'.coefficients
  others : ∀ name, name ≠ entry.name → c'.coefficients.find? (fun k => k.costClass = name) =
    c.coefficients.find? (fun k => k.costClass = name)

theorem upsertCoefficient_ok (done : upsertCoefficient env entry s = .ok s') :
    PricedRow entry s.1 s'.1 := by
  unfold upsertCoefficient at done
  dsimp only at done
  split at done
  · rename_i absent
    simp only [Except.ok.injEq] at done
    subst done
    refine ⟨rfl, ?_, ⟨⟨entry.name, entry.coeff⟩, ?_, rfl⟩, ?_⟩
    · intro classes
      rw [List.map_append, List.map_singleton]
      refine List.nodup_append.mpr ⟨classes, List.nodup_singleton _, ?_⟩
      intro a held b new same
      rw [List.mem_singleton] at new
      subst new same
      obtain ⟨k, there, named⟩ := List.mem_map.mp held
      have unmatched := List.find?_eq_none.mp absent k there
      simp [named] at unmatched
    · simp [List.find?_append, absent]
    · intro name other
      simp [List.find?_append, Ne.symm other]
  rename_i prior found
  split at done
  · rename_i same
    simp only [Except.ok.injEq] at done
    subst done
    exact ⟨rfl, fun classes => classes, ⟨prior, found, same⟩, fun _ _ => rfl⟩
  · simp only [Except.ok.injEq] at done
    subst done
    have keeps : ∀ k : Coefficient, (if k.costClass = entry.name then
        { k with coeff := entry.coeff } else k).costClass = k.costClass := by
      intro k
      split <;> rfl
    have find : ∀ name, (s.1.coefficients.map (fun k => if k.costClass = entry.name then
        { k with coeff := entry.coeff } else k)).find? (fun k => k.costClass = name) =
        (s.1.coefficients.find? (fun k => k.costClass = name)).map
          (fun k => if k.costClass = entry.name then { k with coeff := entry.coeff } else k) := by
      intro name
      rw [List.find?_map]
      congr 2
      funext k
      simp only [Function.comp_apply, keeps]
    refine ⟨rfl, ?_, ⟨{ prior with coeff := entry.coeff }, ?_, rfl⟩, ?_⟩
    · intro classes
      rw [List.map_map]
      have same : Coefficient.costClass ∘ (fun k : Coefficient => if k.costClass = entry.name then
          { k with coeff := entry.coeff } else k) = Coefficient.costClass := funext keeps
      rw [same]
      exact classes
    · have named := List.find?_some found
      simp only [decide_eq_true_eq] at named
      rw [find, found]
      simp [named]
    · intro name other
      rw [find]
      cases elsewhere : s.1.coefficients.find? (fun k => k.costClass = name) with
      | none => rfl
      | some k =>
        have named := List.find?_some elsewhere
        simp only [decide_eq_true_eq] at named
        simp [named, other]

theorem reconcileCoefficients_ok (checked : doc.Checked)
    (classes : (s.1.coefficients.map Coefficient.costClass).Nodup)
    (done : reconcileCoefficients env doc s = .ok s') :
    s'.1 = { s.1 with coefficients := s'.1.coefficients } ∧
      (s'.1.coefficients.map Coefficient.costClass).Nodup ∧
      ∀ entry ∈ doc.costClass, Priced entry s'.1.coefficients := by
  have rule : Sweep.Establishes (upsertCoefficient env) (fun i j => i.name ≠ j.name)
      (fun _ _ => True) (fun i s => Priced i s.1.coefficients) := by
    refine ⟨fun i s s' _ done => (upsertCoefficient_ok done).own, fun _ _ _ _ _ _ _ _ => trivial, ?_⟩
    intro i j s s' apart priced _ done
    unfold Priced
    rw [(upsertCoefficient_ok done).others i.name apart]
    exact priced
  have distinct : doc.costClass.Pairwise (fun i j => i.name ≠ j.name) :=
    List.pairwise_map.mp checked.costClasses
  have whole : s'.1 = { s.1 with coefficients := s'.1.coefficients } ∧
      (s'.1.coefficients.map Coefficient.costClass).Nodup := by
    refine Sweep.run_keeps (fun t => t.1 = { s.1 with coefficients := t.1.coefficients } ∧
      (t.1.coefficients.map Coefficient.costClass).Nodup) ?_ done ⟨rfl, classes⟩
    rintro entry member t t' moved ⟨rest, classes⟩
    have step := upsertCoefficient_ok moved
    exact ⟨by rw [step.rest, rest], step.classes classes⟩
  exact ⟨whole.1, whole.2, Sweep.run_establishes rule distinct (fun _ _ => trivial) done⟩

theorem reconcileCoefficients_quiet
    (settled : ∀ entry ∈ doc.costClass, Priced entry s.1.coefficients) :
    ∃ t, reconcileCoefficients env doc s = .ok t ∧ Quiet s t := by
  refine Sweep.run_quiet Quiet.refl Quiet.trans (fun entry t => Priced entry t.1.coefficients) ?_ ?_
    settled
  · intro entry t t' quiet held
    rw [quiet.catalog]
    exact held
  · rintro entry t ⟨k, found, same⟩
    refine ⟨t, ?_, .refl t⟩
    simp [upsertCoefficient, found, same]

end Coefficients

section Runs

variable {env : Surroundings} {doc : InventoryDoc} {c c' c'' : Catalog} {diff : ReconcileDiff}

structure RunPassed (env : Surroundings) (doc : InventoryDoc) (c c' : Catalog) : Prop where
  images : ImagesValid c'.images
  entries : ∀ entry ∈ doc.image, SettledImage env entry c'.images
  departed : ∀ identity ∉ doc.image.map ImageEntry.identity,
    Thinned env identity c.images c'.images
  classes : (c'.coefficients.map Coefficient.costClass).Nodup
  priced : ∀ entry ∈ doc.costClass, Priced entry c'.coefficients
  resources : ∃ mid, ResourcesPassed env doc c.overrides c.resources mid c'.resources
  overrides : c'.overrides = c.overrides.filter (fun o => !overrideSettled doc c'.resources o)

theorem reconcileAll_ok (checked : doc.Checked) (valid : c.Valid)
    (done : reconcileAll env doc c = .ok (c', diff)) : RunPassed env doc c c' := by
  unfold reconcileAll at done
  simp only [bind, Except.bind] at done
  split at done
  · cases done
  rename_i s₁ images
  split at done
  · cases done
  rename_i s₂ coefficients
  split at done
  · cases done
  rename_i s₃ resources
  simp only [pure, Except.pure, Except.ok.injEq, Prod.mk.injEq] at done
  obtain ⟨rfl, -⟩ := done
  have first := reconcileImages_ok checked valid.images images
  have classes : (s₁.1.coefficients.map Coefficient.costClass).Nodup := by
    rw [first.rest]
    exact valid.classes
  obtain ⟨rest₂, classes₂, priced⟩ := reconcileCoefficients_ok checked classes coefficients
  have rows : s₂.1.resources = c.resources := by rw [rest₂, first.rest]
  have ledger : s₂.1.overrides = c.overrides := by rw [rest₂, first.rest]
  have resources' : ResourcesValid s₂.1.resources := by
    rw [rows]
    exact valid.resources
  obtain ⟨rest₃, mid, passed⟩ := reconcileResources_ok checked resources' resources
  rw [rows, ledger] at passed
  have kept : s₃.1.images = s₁.1.images := by rw [rest₃, rest₂]
  refine ⟨?_, ?_, ?_, ?_, ?_, ⟨mid, passed⟩, ?_⟩
  · rw [reconcileOverridesGc, kept]
    exact first.valid
  · rw [reconcileOverridesGc, kept]
    exact first.settled
  · rw [reconcileOverridesGc, kept]
    exact first.departed
  · rw [reconcileOverridesGc, rest₃]
    exact classes₂
  · rw [reconcileOverridesGc, rest₃]
    exact priced
  · have ledger₃ : s₃.1.overrides = c.overrides := by rw [rest₃, ledger]
    rw [reconcileOverridesGc, ledger₃]

theorem RunPassed.valid (run : RunPassed env doc c c') (valid : c.Valid) : c'.Valid where
  images := run.images
  resources := run.resources.choose_spec.valid
  classes := run.classes
  ledger := by
    rw [run.overrides]
    exact valid.ledger.sublist (List.filter_sublist.map InventoryOverride.identity)

theorem disposition_of_mem {overrides : List InventoryOverride} {o : InventoryOverride}
    (ledger : (overrides.map InventoryOverride.identity).Nodup) (member : o ∈ overrides) :
    disposition overrides o.identity = some o.disposition := by
  cases found : overrides.find? (fun p => p.identity = o.identity) with
  | none =>
    have absent := List.find?_eq_none.mp found o member
    simp at absent
  | some p =>
    have same := List.find?_some found
    simp only [decide_eq_true_eq] at same
    have equal := List.inj_on_of_nodup_map ledger (List.mem_of_find?_eq_some found) member same
    rw [disposition, found, equal]
    rfl

theorem liveRow_eq_some_iff {rows : List ResourceRow} {identity : ResourceIdentity} {r : ResourceRow}
    (valid : ResourcesValid rows) : liveRow rows identity = some r ↔
      r ∈ rows ∧ r.managedBy = .config ∧ r.name = some identity.2 ∧ r.key identity.2 = identity := by
  constructor
  · intro found
    have held := List.find?_some found
    simp only [decide_eq_true_eq] at held
    exact ⟨List.mem_of_find?_eq_some found, held.1, held.2.2, Prod.ext held.2.1 rfl⟩
  · rintro ⟨member, managed, named, key⟩
    have kind : r.kind.value = identity.1 := congrArg Prod.fst key
    cases found : liveRow rows identity with
    | none =>
      have absent := List.find?_eq_none.mp found r member
      simp [managed, named, kind] at absent
    | some q =>
      have held := List.find?_some found
      simp only [decide_eq_true_eq] at held
      rw [valid.name_unique (List.mem_of_find?_eq_some found) member
        (ResourceKind.value_injective (held.2.1.trans kind.symm)) held.2.2 named]

theorem ResourcesPassed.adopted {overrides : List InventoryOverride}
    {rows mid rows' : List ResourceRow} (passed : ResourcesPassed env doc overrides rows mid rows')
    {r : ResourceRow} {name : String} (member : r ∈ rows') (managed : r.managedBy = .config)
    (named : r.name = some name) (declared : r.key name ∈ declaredConfigIdentities doc)
    (present : disposition overrides (r.key name) ≠ some .removed) :
    r.needsConfigAdoption = false := by
  have there := passed.backward r member managed name named (.inl ⟨declared, present⟩)
  obtain ⟨u, requested, identity⟩ := exists_upsert declared present
  have mine := (named_iff named).mpr identity
  rcases passed.settled u requested with ⟨q, held, conforms⟩ | ⟨-, ghost⟩
  · rw [passed.between.name_unique there held (mine.1.trans conforms.named.1.symm) mine.2
      conforms.named.2]
    exact conforms.adopted
  · exact absurd mine (ghost r there)

theorem detached_steady (valid : c.Valid) (first : RunPassed env doc c c') {mid : List ResourceRow}
    (second : ResourcesPassed env doc c'.overrides c'.resources mid c''.resources)
    {o : InventoryOverride} (member : o ∈ c'.overrides) (detached : o.disposition = .detached) :
    ∃ r, liveRow c'.resources o.identity = some r ∧ r ∈ mid ∧
      liveRow c''.resources o.identity = some r := by
  have valid' := first.valid valid
  have retained := member
  rw [first.overrides, List.mem_filter] at retained
  have unsettled : overrideSettled doc c'.resources o = false := by simpa using retained.2
  cases found : liveRow c'.resources o.identity with
  | none => simp [overrideSettled, detached, found] at unsettled
  | some r =>
    obtain ⟨there, managed, named, key⟩ := (liveRow_eq_some_iff valid'.resources).mp found
    have now : disposition c'.overrides (r.key o.identity.2) = some .detached := by
      rw [key, disposition_of_mem valid'.ledger member, detached]
    have before : disposition c.overrides (r.key o.identity.2) = some .detached := by
      rw [key, disposition_of_mem valid.ledger retained.1, detached]
    have foreign : r.kind ≠ .localLibvirt :=
      fun kind => valid'.resources.discovered r there kind managed
    have between : r ∈ mid := by
      refine second.steady r there (by rw [named]; exact nofun) ?_
      intro u requested mine
      obtain ⟨declared, -, flag⟩ := mem_upserts requested
      have identity := (named_iff named).mp mine
      refine ⟨flag.mpr (identity ▸ now), ?_⟩
      obtain ⟨mid', passed⟩ := first.resources
      refine passed.adopted there managed named ?_ (by rw [before]; exact nofun)
      exact identity_mem_declared.mpr ⟨u.declared, declared, identity⟩
    have after := second.forward r between foreign o.identity.2 named (.inr now)
    exact ⟨r, rfl, between, (liveRow_eq_some_iff second.valid).mpr ⟨after, managed, named, key⟩⟩

theorem overrides_steady (valid : c.Valid) (first : RunPassed env doc c c')
    (second : RunPassed env doc c' c'') : c''.overrides = c'.overrides := by
  rw [second.overrides, List.filter_eq_self]
  intro o member
  have retained := member
  rw [first.overrides, List.mem_filter] at retained
  obtain ⟨mid, passed⟩ := second.resources
  cases kind : o.disposition with
  | removed => simpa [overrideSettled, kind] using retained.2
  | detached =>
    obtain ⟨r, found, -, again⟩ := detached_steady valid first passed member kind
    simpa [overrideSettled, kind, found, again] using retained.2

theorem settled_of_two (valid : c.Valid) (first : RunPassed env doc c c')
    (second : RunPassed env doc c' c'')
    (once : HostsClaimedOnce doc (localHosts c.resources)) : SettledResources env doc c'' := by
  have ledger := overrides_steady valid first second
  have valid' := first.valid valid
  obtain ⟨mid', passed'⟩ := first.resources
  obtain ⟨mid, passed⟩ := second.resources
  refine ⟨?_, passed.overlays (passed'.hosts ▸ once), passed.named, ?_⟩
  · rw [ledger]
    intro u requested
    obtain ⟨declared, present, flag⟩ := mem_upserts requested
    rcases passed.settled u requested with ⟨r, member, conforms⟩ | ⟨detached, ghost⟩
    · have identity := (named_iff conforms.named.2).mp conforms.named
      refine ⟨r, passed.forward r member ?_ _ conforms.named.2 (.inl ⟨?_, ?_⟩), conforms⟩
      · rw [conforms.named.1]
        exact declared_kind declared
      · exact identity_mem_declared.mpr ⟨u.declared, declared, identity⟩
      · exact identity ▸ present
    · obtain ⟨o, found, disposed⟩ := Option.map_eq_some_iff.mp (flag.mp detached)
      have same := List.find?_some found
      simp only [decide_eq_true_eq] at same
      obtain ⟨r, live, between, -⟩ :=
        detached_steady valid first passed (List.mem_of_find?_eq_some found) disposed
      obtain ⟨-, -, named, key⟩ := (liveRow_eq_some_iff valid'.resources).mp live
      refine absurd ((named_iff named).mpr ?_) (ghost r between)
      rw [key, same]
  · rw [ledger]
    exact passed.kept

theorem reconcileAll_quiet (valid : c.Valid)
    (entries : ∀ entry ∈ doc.image, SettledImage env entry c.images)
    (stuck : ∀ identity ∉ doc.image.map ImageEntry.identity, Stuck env c.images identity)
    (priced : ∀ entry ∈ doc.costClass, Priced entry c.coefficients)
    (resources : SettledResources env doc c)
    (ledger : ∀ o ∈ c.overrides, overrideSettled doc c.resources o = false) :
    ∃ diff, reconcileAll env doc c = .ok (c, diff) ∧ diff.created = [] ∧ diff.updated = [] ∧
      diff.pruned = [] := by
  obtain ⟨s₁, images, quiet₁⟩ : ∃ t, reconcileImages env doc (c, {}) = .ok t ∧ Quiet (c, {}) t :=
    reconcileImages_quiet valid.images entries stuck
  obtain ⟨s₂, coefficients, quiet₂⟩ : ∃ t, reconcileCoefficients env doc s₁ = .ok t ∧ Quiet s₁ t :=
    reconcileCoefficients_quiet (by rw [quiet₁.catalog]; exact priced)
  have quiet₁₂ := quiet₁.trans quiet₂
  obtain ⟨s₃, rows, quiet₃⟩ : ∃ t, reconcileResources env doc s₂ = .ok t ∧ Quiet s₂ t :=
    reconcileResources_quiet (by rw [quiet₁₂.catalog]; exact valid.resources)
      (by rw [quiet₁₂.catalog]; exact resources)
  have quiet := quiet₁₂.trans quiet₃
  refine ⟨s₃.2, ?_, quiet.created, quiet.updated, quiet.pruned⟩
  have kept : reconcileOverridesGc doc s₃.1 = c := by
    have all : c.overrides.filter (fun o => !overrideSettled doc c.resources o) = c.overrides := by
      rw [List.filter_eq_self]
      intro o member
      simp [ledger o member]
    rw [quiet.catalog, reconcileOverridesGc, all]
  simp only [reconcileAll, bind, Except.bind, images, coefficients, rows, pure, Except.pure, kept]

end Runs

section Claims

variable {env : Surroundings} {doc : InventoryDoc} {s s' : Catalog × ReconcileDiff}
  {i j : LocalLibvirtInstance}

theorem overlayOneLocal_updated (done : overlayOneLocal i s = .ok s') :
    s.2.updated.length < s'.2.updated.length ∨ s'.2.updated.length = s.2.updated.length ∧
      s'.1 = s.1 ∧ ∀ r, localAt s.1.resources i.hostUri = some r → r.name = some i.name := by
  unfold overlayOneLocal at done
  split at done
  · rename_i absent
    simp only [Except.ok.injEq] at done
    subst done
    refine .inr ⟨rfl, rfl, fun r found => ?_⟩
    rw [absent] at found
    cases found
  rename_i row found
  split at done
  · cases done
  dsimp only at done
  split at done
  · simp only [bind, Except.bind] at done
    split at done
    · cases done
    simp only [pure, Except.pure, Except.ok.injEq] at done
    subst done
    exact .inl (by simp)
  · rename_i same
    simp only [Except.ok.injEq] at done
    subst done
    refine .inr ⟨rfl, rfl, fun r again => ?_⟩
    rw [found, Option.some.injEq] at again
    subst again
    simp only [not_or, not_not] at same
    exact same.1

theorem overlays_updated {items : List LocalLibvirtInstance}
    (ran : Sweep.run overlayOneLocal items s = .ok s') :
    s.2.updated.length ≤ s'.2.updated.length ∧ (s'.2.updated.length = s.2.updated.length →
      ∀ i ∈ items, ∀ r, localAt s.1.resources i.hostUri = some r → r.name = some i.name) := by
  induction items generalizing s with
  | nil =>
    cases ran
    exact ⟨le_rfl, fun _ => by simp⟩
  | cons i rest ih =>
    obtain ⟨s₁, one, ran⟩ := Sweep.run_cons_ok ran
    obtain ⟨grows, names⟩ := ih ran
    rcases overlayOneLocal_updated one with longer | ⟨same, catalog, own⟩
    · exact ⟨by omega, fun equal => by omega⟩
    · refine ⟨by omega, fun equal j member => ?_⟩
      rcases List.mem_cons.mp member with rfl | member
      · exact own
      · rw [← catalog]
        exact names (by omega) j member

theorem claimedOnce_of_named {rows : List ResourceRow} (checked : doc.Checked)
    (names : ∀ i ∈ doc.localLibvirt, ∀ r, localAt rows i.hostUri = some r → r.name = some i.name) :
    HostsClaimedOnce doc (localHosts rows) := by
  have distinct : doc.localLibvirt.Pairwise (fun i j => i.name ≠ j.name) :=
    List.pairwise_map.mp checked.locals
  refine distinct.imp_of_mem ?_
  intro i j left right apart shared claimed
  cases found : localAt rows i.hostUri with
  | none => exact localAt_eq_none.mp found claimed
  | some r =>
    have first := names i left r found
    have second := names j right r (shared ▸ found)
    rw [first, Option.some.injEq] at second
    exact apart second

theorem names_updated {items : List ResourceRow}
    (ran : Sweep.run (nameDiscovered env doc) items s = .ok s') : s'.2.updated = s.2.updated := by
  refine Sweep.run_keeps (fun t => t.2.updated = s.2.updated) ?_ ran rfl
  intro row _ t t' moved held
  unfold nameDiscovered at moved
  split at moved
  · cases moved
    exact held
  · simp only [bind, Except.bind] at moved
    split at moved
    · cases moved
    · cases moved
      exact held

theorem deleteResource_updated {row : ResourceRow} {name : String}
    (done : deleteResource env row name s = .ok s') : s'.2.updated = s.2.updated := by
  unfold deleteResource at done
  split at done
  · cases done
  · cases done
    rfl

theorem prunes_updated {overrides : List InventoryOverride} {items : List ResourceRow}
    (ran : Sweep.run (pruneDeparted env doc overrides) items s = .ok s') :
    s'.2.updated = s.2.updated := by
  refine Sweep.run_keeps (fun t => t.2.updated = s.2.updated) ?_ ran rfl
  intro row _ t t' moved held
  refine Eq.trans ?_ held
  unfold pruneDeparted at moved
  split at moved
  · cases moved
  dsimp only at moved
  split at moved
  · cases moved
    rfl
  split at moved
  · cases moved
    rfl
  split at moved
  · cases moved
    rfl
  split at moved
  · unfold pruneOrCordonRemovedResource at moved
    split at moved
    · cases moved
      dsimp only
      split <;> rfl
    · exact deleteResource_updated moved
  · unfold pruneOrCordonResource at moved
    split at moved
    · cases moved
      rfl
    · exact deleteResource_updated moved

theorem claimedOnce_of_quiet {c c' : Catalog} {diff : ReconcileDiff} (checked : doc.Checked)
    (valid : c.Valid) (done : reconcileAll env doc c = .ok (c', diff)) (quiet : diff.updated = []) :
    HostsClaimedOnce doc (localHosts c.resources) := by
  unfold reconcileAll at done
  simp only [bind, Except.bind] at done
  split at done
  · cases done
  rename_i s₁ images
  split at done
  · cases done
  rename_i s₂ coefficients
  split at done
  · cases done
  rename_i s₃ resources
  simp only [pure, Except.pure, Except.ok.injEq, Prod.mk.injEq] at done
  obtain ⟨-, rfl⟩ := done
  have first := reconcileImages_ok checked valid.images images
  have classes : (s₁.1.coefficients.map Coefficient.costClass).Nodup := by
    rw [first.rest]
    exact valid.classes
  have rest₂ := (reconcileCoefficients_ok checked classes coefficients).1
  have rows : s₂.1.resources = c.resources := by rw [rest₂, first.rest]
  unfold reconcileResources at resources
  simp only [bind, Except.bind] at resources
  split at resources
  · cases resources
  rename_i t₁ upserted
  split at resources
  · cases resources
  rename_i t₂ overlaid
  split at resources
  · cases resources
  rename_i t₃ named
  have hosts := (upsertPhase_ok checked (by rw [rows]; exact valid.resources) upserted).2.2.1
  obtain ⟨grows, names⟩ := overlays_updated overlaid
  have none : t₂.2.updated = [] := by
    rw [← names_updated named, ← prunes_updated resources]
    exact quiet
  rw [none] at grows names
  simp only [List.length_nil, Nat.le_zero] at grows names
  have once := claimedOnce_of_named checked (names grows.symm)
  rw [hosts, rows] at once
  exact once

end Claims

section Converging

def bareSurroundings : Surroundings where
  headPresent _ := none
  putArtifact _ := false
  readSidecar _ := none
  readConfigSibling _ := false
  rootSpec _ := none
  imageReferenced _ := false
  allocations := []
  otherReference _ := false
  isAlnum := Char.isAlphanum
  decimalText _ := ""
  freshId ids := ids.foldr max 0 + 1
  fresh ids := by
    intro member
    have bounded : ∀ (ids : List Uuid) (id : Uuid), id ∈ ids → id ≤ ids.foldr max 0 := by
      intro ids
      induction ids with
      | nil => simp
      | cons a rest ih =>
        intro id held
        rcases List.mem_cons.mp held with rfl | held
        · simp
        · exact (ih id held).trans (by simp)
    exact absurd (bounded ids _ member) (Nat.not_succ_le_self _)

/-- A discovered host, and a remote host whose row was deleted by hand under a `detached` entry. -/
def detachedCatalog : Catalog where
  resources := [⟨1, .localLibvirt, none, "qemu:///system", "local", some ∅, "default", .discovery,
    none, none, [], false⟩]
  images := []
  coefficients := []
  overrides := [⟨("remote-libvirt", "far"), .detached⟩]

def labInstance : LocalLibvirtInstance where
  name := "lab"
  costClass := "gold"
  hostUri := "qemu:///system"

def labDoc : InventoryDoc where
  image := [⟨"remote-libvirt", "base", "x86_64", "qcow2", "/dev/vda", .publicImage, [],
    .build "fedora" [], "", none⟩]
  remoteLibvirt := [⟨"far", "gold", 1, "default", "qemu+tls://far/system", "base", 8, 4096⟩]
  localLibvirt := [labInstance]
  costClass := [⟨"gold", 2⟩]

def clearedCatalog : Catalog where
  resources := [⟨1, .localLibvirt, some "lab", "qemu:///system", "gold",
    some (.of [("concurrent_allocation_cap", .ofInt 1)]), "default", .discovery, none, none, [],
    false⟩]
  images := [⟨1, ("remote-libvirt", "base", "x86_64"),
    ⟨"qcow2", "/dev/vda", .publicImage, [], none⟩,
    ⟨.defined, none, none, none, none, some ∅, false, none⟩, .config, none, none⟩]
  coefficients := [⟨"gold", 2⟩]
  overrides := []

def farRow : ResourceRow := ⟨2, .remoteLibvirt, some "far", "qemu+tls://far/system", "gold",
  some (.of [("vcpus", .ofInt 8), ("memory_mb", .ofInt 4096),
    ("concurrent_allocation_cap", .ofInt 1)]), "default", .config, none, none, [], false⟩

def baseWarning : ReconcileRecord := ⟨"base", "image[remote-libvirt/base/x86_64]",
  "base: build source not yet realized; row stays defined until a build runs"⟩

def annexInstance : LocalLibvirtInstance := { labInstance with name := "annex" }

def annexCatalog : Catalog where
  resources := [⟨1, .localLibvirt, some "annex", "qemu:///system", "gold",
    some (.of [("concurrent_allocation_cap", .ofInt 1)]), "default", .discovery, none, none, [],
    false⟩]
  images := []
  coefficients := []
  overrides := []

end Converging

end Kdive.Inventory
