import Kdive.Inventory.Convergence

/-!
The departed resources. A row that left the document is deleted unless a live allocation holds it
back, one that the ledger removes unless any allocation does. The foreign keys hold back more: an
allocation that has ended still refers to its resource, and the delete then fails and ends the pass.
-/
namespace Kdive.Inventory

section Pruning

variable {env : Surroundings} {doc : InventoryDoc} {overrides : List InventoryOverride}
  {row : ResourceRow} {s s' : Catalog × ReconcileDiff}

def Departed (doc : InventoryDoc) (overrides : List InventoryOverride) (r : ResourceRow) : Prop :=
  r.managedBy = .config ∧ ¬ ∃ name, r.name = some name ∧ Spared doc overrides r name

def Prunable (env : Surroundings) (doc : InventoryDoc) (overrides : List InventoryOverride)
    (r : ResourceRow) : Prop :=
  ∃ name, r.name = some name ∧ (Spared doc overrides r name ∨
    heldBack env overrides r name = true ∨ env.referenced r.id = false)

def DisposedOf (env : Surroundings) (r : ResourceRow) (rows : List ResourceRow) : Prop :=
  (env.referenced r.id = false → ∀ q ∈ rows, q.id ≠ r.id) ∧
    (env.referenced r.id = true → ∃ q ∈ rows, q.id = r.id ∧ q.cordoned = true)

theorem referenced_of_live {id : Uuid} (live : env.liveAllocation id = true) :
    env.referenced id = true := by
  rw [Surroundings.liveAllocation, List.any_eq_true] at live
  obtain ⟨allocation, member, live⟩ := live
  have any : env.anyAllocation id = true := by
    rw [Surroundings.anyAllocation, List.any_eq_true]
    refine ⟨allocation, member, ?_⟩
    simp only [decide_eq_true_eq] at live ⊢
    exact live.1
  rw [Surroundings.referenced, any]
  rfl

theorem referenced_of_heldBack {name : String} (held : heldBack env overrides row name = true) :
    env.referenced row.id = true := by
  rw [heldBack] at held
  split at held
  · rw [Surroundings.referenced, held]
    rfl
  · exact referenced_of_live held

theorem deleteResource_ok_iff {name : String} :
    (∃ s', deleteResource env row name s = .ok s') ↔ env.referenced row.id = false := by
  rw [deleteResource]
  split
  · rename_i referenced
    simp [referenced]
  · rename_i free
    simp [free]

/-- A config row is pruned unless it must be deleted and something refers to it. -/
theorem pruneDeparted_ok_iff (valid : ResourcesValid s.1.resources) (there : row ∈ s.1.resources)
    (managed : row.managedBy = .config) :
    (∃ s', pruneDeparted env doc overrides row s = .ok s') ↔ Prunable env doc overrides row := by
  rw [pruneDeparted]
  split
  · rename_i unnamed
    refine ⟨fun pruned => (by cases pruned.choose_spec), ?_⟩
    rintro ⟨name, named, -⟩
    rw [unnamed] at named
    cases named
  rename_i name named
  have prunable : Prunable env doc overrides row ↔ (Spared doc overrides row name ∨
      heldBack env overrides row name = true ∨ env.referenced row.id = false) := by
    constructor
    · rintro ⟨other, again, outcome⟩
      rw [named, Option.some.injEq] at again
      subst again
      exact outcome
    · intro outcome
      exact ⟨name, named, outcome⟩
  rw [prunable]
  dsimp only
  split
  · rename_i declared
    exact ⟨fun _ => .inl (.inl declared), fun _ => ⟨s, rfl⟩⟩
  rename_i undeclared
  split
  · rename_i detached
    exact ⟨fun _ => .inl (.inr detached), fun _ => ⟨s, rfl⟩⟩
  rename_i attached
  have exposed : ¬ Spared doc overrides row name := by
    rintro (declared | detached)
    · exact undeclared declared
    · exact attached detached
  simp only [find_config valid there managed]
  split
  · rename_i removed
    have held : heldBack env overrides row name = env.anyAllocation row.id := if_pos removed
    rw [pruneOrCordonRemovedResource, held]
    split
    · rename_i allocated
      exact ⟨fun _ => .inr (.inl allocated), fun _ => ⟨_, rfl⟩⟩
    · rename_i free
      rw [deleteResource_ok_iff]
      simp [exposed, free]
  · rename_i departed
    have held : heldBack env overrides row name = env.liveAllocation row.id := if_neg departed
    rw [pruneOrCordonResource, held]
    split
    · rename_i live
      exact ⟨fun _ => .inr (.inl live), fun _ => ⟨_, rfl⟩⟩
    · rename_i idle
      rw [deleteResource_ok_iff]
      simp [exposed, idle]

theorem disposedOf_cordoned {f : ResourceRow → ResourceRow} (cordons : Cordons f)
    (there : row ∈ s.1.resources) (referenced : env.referenced row.id = true) :
    DisposedOf env row (setResource s.1.resources row.id f) := by
  refine ⟨fun free => absurd (free.symm.trans referenced) nofun, fun _ => ?_⟩
  exact ⟨f row, set_own there, cordons.id row, cordons.cordoned row⟩

theorem disposedOf_deleted {name : String} (done : deleteResource env row name s = .ok s') :
    DisposedOf env row s'.1.resources := by
  have free := deleteResource_ok_iff.mp ⟨s', done⟩
  rw [deleteResource, if_neg (by simp [free])] at done
  obtain rfl := Except.ok.inj done
  refine ⟨fun _ q member => ?_, fun referenced => absurd (free.symm.trans referenced) nofun⟩
  exact of_decide_eq_true (List.mem_filter.mp member).2

/-- A departed row that was pruned is gone if nothing refers to it, and cordoned otherwise. -/
theorem pruneDeparted_disposes (valid : ResourcesValid s.1.resources) (there : row ∈ s.1.resources)
    (departed : Departed doc overrides row) (done : pruneDeparted env doc overrides row s = .ok s') :
    DisposedOf env row s'.1.resources := by
  obtain ⟨managed, exposed⟩ := departed
  rw [pruneDeparted] at done
  split at done
  · cases done
  rename_i name named
  dsimp only at done
  split at done
  · rename_i declared
    exact absurd ⟨name, named, .inl declared⟩ exposed
  split at done
  · rename_i detached
    exact absurd ⟨name, named, .inr detached⟩ exposed
  simp only [find_config valid there managed] at done
  split at done
  · rename_i removed
    rw [pruneOrCordonRemovedResource] at done
    split at done
    · rename_i allocated
      obtain rfl := Except.ok.inj done
      have held : heldBack env overrides row name = true := (if_pos removed).trans allocated
      exact disposedOf_cordoned cordonRemoved_cordons there (referenced_of_heldBack held)
    · exact disposedOf_deleted done
  · rename_i departed
    rw [pruneOrCordonResource] at done
    split at done
    · rename_i live
      obtain rfl := Except.ok.inj done
      have held : heldBack env overrides row name = true := (if_neg departed).trans live
      exact disposedOf_cordoned cordon_cordons there (referenced_of_heldBack held)
    · exact disposedOf_deleted done

theorem prunes_dispose (env : Surroundings) (doc : InventoryDoc)
    (overrides : List InventoryOverride) :
    Sweep.Establishes (pruneDeparted env doc overrides) (fun r q => r.id ≠ q.id)
      (fun r s => ResourcesValid s.1.resources ∧ r ∈ s.1.resources ∧ r.managedBy = .config)
      (fun r s => Departed doc overrides r → DisposedOf env r s.1.resources) where
  own := by
    intro r s s' ready done departed
    exact pruneDeparted_disposes ready.1 ready.2.1 departed done
  waiting := (pruneRows_establish env doc overrides).waiting
  done := by
    intro r q s s' apart disposed due done departed
    have step := pruneDeparted_ok due.1 due.2.1 due.2.2 done
    obtain ⟨gone, kept⟩ := disposed departed
    refine ⟨fun free p member own => ?_, fun referenced => ?_⟩
    · rcases step.backward p member with old | ⟨-, -, -, id, -⟩
      · exact gone free p old own
      · exact absurd (own.symm.trans id) apart
    · obtain ⟨p, member, own, cordoned⟩ := kept referenced
      refine ⟨p, step.forward p member (.inl ?_), own, cordoned⟩
      rw [own]
      exact apart

theorem configResources_ready (valid : ResourcesValid s.1.resources) :
    (configResources s.1.resources).Pairwise (fun r q => r.id ≠ q.id) ∧
    ∀ r ∈ configResources s.1.resources,
      ResourcesValid s.1.resources ∧ r ∈ s.1.resources ∧ r.managedBy = .config := by
  constructor
  · exact (List.pairwise_map.mp valid.ids).sublist List.filter_sublist
  · intro r member
    obtain ⟨there, managed⟩ := List.mem_filter.mp member
    exact ⟨valid, there, of_decide_eq_true managed⟩

theorem prunes_spare {r : ResourceRow} {rows : List ResourceRow}
    (listed : rows.Sublist (configResources s.1.resources)) (valid : ResourcesValid s.1.resources)
    (ran : Sweep.run (pruneDeparted env doc overrides) rows s = .ok s')
    (there : r ∈ s.1.resources) (stays : ¬ Departed doc overrides r) :
    ResourcesValid s'.1.resources ∧ r ∈ s'.1.resources := by
  obtain ⟨distinct, ready⟩ := configResources_ready valid
  refine Sweep.run_keeps_ready (prunes_dispose env doc overrides) (distinct.sublist listed)
    (fun q member => ready q (listed.subset member)) ran
    (fun t => ResourcesValid t.1.resources ∧ r ∈ t.1.resources) ?_ ⟨valid, there⟩
  rintro row - t t' due moved ⟨-, member⟩
  have step := pruneDeparted_ok due.1 due.2.1 due.2.2 moved
  refine ⟨step.valid, step.forward r member ?_⟩
  by_cases own : r.id = row.id
  · right
    rw [due.1.id_unique member due.2.1 own] at stays ⊢
    by_contra exposed
    exact stays ⟨due.2.2, exposed⟩
  · exact .inl own

def pruneAndClear (env : Surroundings) (doc : InventoryDoc) (overrides : List InventoryOverride)
    (s : Catalog × ReconcileDiff) : Pass := do
  let s ← Sweep.run (pruneDeparted env doc overrides) (configResources s.1.resources) s
  return (reconcileOverridesGc doc s.1, s.2)

def Disposes (env : Surroundings) (doc : InventoryDoc) (overrides : List InventoryOverride)
    (s : Catalog × ReconcileDiff) : Prop :=
  ∃ s', pruneAndClear env doc overrides s = .ok s' ∧ ∀ r ∈ s.1.resources,
    (Departed doc overrides r → DisposedOf env r s'.1.resources) ∧
    (env.liveAllocation r.id = true → ∃ q ∈ s'.1.resources, q.id = r.id)

/-- The departed resources are dealt with exactly when each can be. -/
theorem departed_disposed_iff (env : Surroundings) (doc : InventoryDoc)
    (overrides : List InventoryOverride) (s : Catalog × ReconcileDiff)
    (valid : ResourcesValid s.1.resources) :
    Disposes env doc overrides s ↔
      ∀ r ∈ s.1.resources, r.managedBy = .config → Prunable env doc overrides r := by
  obtain ⟨distinct, ready⟩ := configResources_ready valid
  have rule := prunes_dispose env doc overrides
  constructor
  · rintro ⟨s', done, -⟩ r member managed
    rw [pruneAndClear] at done
    cases ran : Sweep.run (pruneDeparted env doc overrides) (configResources s.1.resources) s with
    | error e =>
      rw [ran] at done
      cases done
    | ok final =>
      have listed : r ∈ configResources s.1.resources :=
        List.mem_filter.mpr ⟨member, decide_eq_true managed⟩
      obtain ⟨t, t', due, one⟩ := Sweep.run_took_ready rule distinct ready ran listed
      exact (pruneDeparted_ok_iff due.1 due.2.1 due.2.2).mp ⟨t', one⟩
  · intro prunable
    cases ran : Sweep.run (pruneDeparted env doc overrides) (configResources s.1.resources) s with
    | error e =>
      obtain ⟨r, listed, t, due, failed⟩ := Sweep.run_error_ready rule distinct ready ran
      obtain ⟨member, managed⟩ := List.mem_filter.mp listed
      obtain ⟨t', one⟩ := (pruneDeparted_ok_iff due.1 due.2.1 due.2.2).mpr
        (prunable r member (of_decide_eq_true managed))
      rw [one] at failed
      cases failed
    | ok final =>
      refine ⟨(reconcileOverridesGc doc final.1, final.2), by rw [pruneAndClear, ran]; rfl, ?_⟩
      intro r member
      have disposed := Sweep.run_establishes rule distinct ready ran
      refine ⟨fun departed => ?_, fun live => ?_⟩
      · exact disposed r (List.mem_filter.mpr ⟨member, decide_eq_true departed.1⟩) departed
      · by_cases departed : Departed doc overrides r
        · have referenced : env.referenced r.id = true :=
            referenced_of_live live
          obtain ⟨q, held, own, -⟩ := (disposed r (List.mem_filter.mpr
            ⟨member, decide_eq_true departed.1⟩) departed).2 referenced
          exact ⟨q, held, own⟩
        · have here := (prunes_spare (List.Sublist.refl _) valid ran member departed).2
          exact ⟨r, here, rfl⟩

end Pruning

section Samples

def retiredHost (id : Uuid) (name : String) : ResourceRow where
  id := id
  kind := .remoteLibvirt
  name := some name
  hostUri := "qemu+tls://" ++ name ++ "/system"
  costClass := "gold"
  capabilities := some ∅
  pool := "default"
  managedBy := .config

def retiredCatalog : Catalog where
  resources := [retiredHost 1 "used", retiredHost 2 "idle"]
  images := []
  coefficients := []
  overrides := []

def allocatedOnce (state : AllocationState) : Surroundings :=
  { bareSurroundings with allocations := [(1, state)] }

theorem active_host_disposed :
    Disposes (allocatedOnce .active) {} [] (retiredCatalog, {}) := by
  refine (departed_disposed_iff _ _ _ _ ?_).mpr ?_
  · constructor <;> decide
  · intro r member _
    have rows : r = retiredHost 1 "used" ∨ r = retiredHost 2 "idle" := by
      simpa [retiredCatalog] using member
    rcases rows with rfl | rfl
    · exact ⟨"used", rfl, .inr (.inl (by decide))⟩
    · exact ⟨"idle", rfl, .inr (.inr (by decide))⟩

theorem released_host_ends_pass :
    pruneAndClear (allocatedOnce .released) {} [] (retiredCatalog, {}) =
      .error .foreignKeyViolation ∧
    ¬ Disposes (allocatedOnce .released) {} [] (retiredCatalog, {}) := by
  have failed : pruneAndClear (allocatedOnce .released) {} [] (retiredCatalog, {}) =
      .error .foreignKeyViolation := by decide +kernel
  refine ⟨failed, ?_⟩
  rintro ⟨s', done, -⟩
  rw [failed] at done
  cases done

end Samples

end Kdive.Inventory
