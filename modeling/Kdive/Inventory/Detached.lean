import Kdive.Inventory.Departed

/-!
What a pass does to the live row of a detached identity. The ledger keeps the document from changing
the row's values where the row is the document's already; a row that has to be adopted first is given
the document's values with it.
-/
namespace Kdive.Inventory
open Json (Dict)

section Committed

structure RuntimeValues where
  costClass : String
  pool : String
  hostUri : String
  capabilities : Option Dict
  deriving DecidableEq

def ResourceRow.values (r : ResourceRow) : RuntimeValues :=
  ⟨r.costClass, r.pool, r.hostUri, r.capabilities⟩

/-- The parts of `reconcile_all` in their order. Each commits on its own, and the prune commits row
by row: it is cut after `pruned` rows. -/
def reconcileParts (env : Surroundings) (doc : InventoryDoc) (overrides : List InventoryOverride)
    (pruned : Nat) : List (Catalog × ReconcileDiff → Pass) :=
  [reconcileImages env doc, reconcileCoefficients env doc,
    Sweep.run (upsertConfigResource env) (configResourceUpserts doc overrides),
    Sweep.run overlayOneLocal doc.localLibvirt,
    fun s => Sweep.run (nameDiscovered env doc) (unnamedDiscovered s.1.resources) s,
    fun s => Sweep.run (pruneDeparted env doc overrides)
      ((configResources s.1.resources).take pruned) s,
    fun s => .ok (reconcileOverridesGc doc s.1, s.2)]

def reconcileUpTo (env : Surroundings) (doc : InventoryDoc) (parts pruned : Nat) (c : Catalog) :
    Pass :=
  Sweep.run (fun part s => part s) ((reconcileParts env doc c.overrides pruned).take parts) (c, {})

end Committed

section Written

variable {env : Surroundings} {doc : InventoryDoc} {s s' : Catalog × ReconcileDiff}
  {r : ResourceRow}

instance (u : ConfigResourceUpsert) (r : ResourceRow) : Decidable (Named u r) :=
  inferInstanceAs (Decidable (_ ∧ _))

def adoptedBy (upserts : List ConfigResourceUpsert) (r : ResourceRow) : ResourceRow :=
  match upserts.find? (fun u => Named u r) with
  | some u =>
    if r.needsConfigAdoption then
      r.adopted u.declared (mergedCaps u (r.capabilities.getD ∅))
    else r
  | none => r

def overlaidWith (r : ResourceRow) (i : LocalLibvirtInstance) : ResourceRow :=
  r.overlaid i ((r.capabilities.getD ∅).insert concurrentAllocationCapKey
    (.ofInt i.concurrentAllocationCap))

def overlaidBy (instances : List LocalLibvirtInstance) (rows : List ResourceRow) (r : ResourceRow) :
    ResourceRow :=
  if localAt rows r.hostUri = some r then
    match (instances.filter (fun i => i.hostUri = r.hostUri)).getLast? with
    | some i => overlaidWith r i
    | none => r
  else r

theorem adoptedBy_kind (upserts : List ConfigResourceUpsert) : (adoptedBy upserts r).kind = r.kind := by
  rw [adoptedBy]
  split
  · split <;> rfl
  · rfl

theorem adoptedBy_id (upserts : List ConfigResourceUpsert) : (adoptedBy upserts r).id = r.id := by
  rw [adoptedBy]
  split
  · split <;> rfl
  · rfl

theorem adoptedBy_name (upserts : List ConfigResourceUpsert) : (adoptedBy upserts r).name = r.name := by
  rw [adoptedBy]
  split
  · rename_i u found
    have named : Named u r := by simpa using List.find?_some found
    split
    · exact named.2.symm
    · rfl
  · rfl

theorem adoptedBy_eq {upserts : List ConfigResourceUpsert} {u : ConfigResourceUpsert}
    (distinct : upserts.Pairwise (fun u v =>
      (u.declared.kind, u.declared.name) ≠ (v.declared.kind, v.declared.name)))
    (member : u ∈ upserts) (named : Named u r) : upserts.find? (fun u => Named u r) = some u := by
  induction upserts with
  | nil => exact absurd member List.not_mem_nil
  | cons v rest ih =>
    obtain ⟨apart, distinct⟩ := List.pairwise_cons.mp distinct
    rcases List.mem_cons.mp member with rfl | member
    · exact List.find?_cons_of_pos (decide_eq_true named)
    · rw [List.find?_cons_of_neg, ih distinct member]
      intro theirs
      have other : Named v r := of_decide_eq_true theirs
      have names := other.2.symm.trans named.2
      rw [Option.some.injEq] at names
      exact apart u member (by rw [← other.1, ← named.1, names])

end Written

section Rows

variable {env : Surroundings} {doc : InventoryDoc} {overrides : List InventoryOverride}
  {s s' : Catalog × ReconcileDiff} {r : ResourceRow} {u : ConfigResourceUpsert}

theorem upsertConfigResource_detached (valid : ResourcesValid s.1.resources)
    (there : r ∈ s.1.resources) (named : Named u r) (detached : u.detached = true)
    (done : upsertConfigResource env u s = .ok s') :
    (if r.needsConfigAdoption then r.adopted u.declared (mergedCaps u (r.capabilities.getD ∅))
      else r) ∈ s'.1.resources := by
  rw [upsertConfigResource, findExisting_named valid there named] at done
  dsimp only at done
  split at done
  · cases done
  rename_i held caps
  split at done
  · rename_i needed
    rw [if_pos needed, caps, Option.getD_some, (writeResource_ok done).1]
    exact set_own there
  · rename_i adopted
    rw [Except.ok.injEq] at done
    rw [if_neg adopted, ← done]
    exact there

theorem upsertRows_row (checked : doc.Checked) (valid : ResourcesValid s.1.resources)
    (there : r ∈ s.1.resources) {name : String} (named : r.name = some name)
    (detached : disposition overrides (r.key name) = some .detached)
    (ran : Sweep.run (upsertConfigResource env) (configResourceUpserts doc overrides) s = .ok s') :
    adoptedBy (configResourceUpserts doc overrides) r ∈ s'.1.resources := by
  have distinct := upserts_distinct checked overrides
  have hasName : r.name ≠ none := by
    rw [named]
    exact nofun
  have own : ∀ u ∈ configResourceUpserts doc overrides, Named u r → u.detached = true := by
    intro u member mine
    rw [(mem_upserts member).2.2, (named_iff named).mp mine]
    exact detached
  rw [adoptedBy]
  cases found : (configResourceUpserts doc overrides).find? (fun u => Named u r) with
  | none =>
    refine (upsertPhase_ok checked valid ran).2.2.2.2 r there hasName ?_
    intro u member mine
    exact absurd (decide_eq_true mine) (List.find?_eq_none.mp found u member)
  | some u =>
    have member := List.mem_of_find?_eq_some found
    have mine : Named u r := by simpa using List.find?_some found
    -- the row waits for its own upsert, which no other one meets
    have rule : Sweep.Establishes (upsertConfigResource env)
        (fun u v => (u.declared.kind, u.declared.name) ≠ (v.declared.kind, v.declared.name))
        (fun v s => (ResourcesValid s.1.resources ∧ v.declared.kind ≠ .localLibvirt) ∧
          (v.detached = true ∨ ¬ Named v r) ∧ (Named v r → r ∈ s.1.resources))
        (fun v s => Named v r → (if r.needsConfigAdoption then
          r.adopted v.declared (mergedCaps v (r.capabilities.getD ∅)) else r) ∈ s.1.resources) := by
      have apart {v w : ConfigResourceUpsert} (differ : (v.declared.kind, v.declared.name) ≠
          (w.declared.kind, w.declared.name)) (left : Named v r) : ¬ Named w r := by
        intro right
        have names := left.2.symm.trans right.2
        rw [Option.some.injEq] at names
        exact differ (by rw [← left.1, ← right.1, names])
      refine ⟨?_, ?_, ?_⟩
      · rintro v t t' ⟨ready, own, here⟩ moved named
        exact upsertConfigResource_detached ready.1 (here named) named
          (own.resolve_right (not_not.mpr named)) moved
      · rintro v w t t' differ ⟨ready, -, -⟩ ⟨ready', own, here⟩ moved
        have step := upsertConfigResource_ok ready.1 ready.2 moved
        refine ⟨⟨step.valid, ready'.2⟩, own, fun named => ?_⟩
        exact step.forward r (here named) hasName (fun theirs => apart differ theirs named)
      · rintro v w t t' differ settled ⟨ready, -, -⟩ moved named
        have step := upsertConfigResource_ok ready.1 ready.2 moved
        have other := apart differ named
        refine step.forward _ (settled named) ?_ ?_
        · split
          · exact nofun
          · exact hasName
        · split
          · rintro ⟨kind, same⟩
            refine other ⟨kind, named.2.trans ?_⟩
            simpa [ResourceRow.adopted] using same
          · exact other
    have ready : ∀ v ∈ configResourceUpserts doc overrides,
        (ResourcesValid s.1.resources ∧ v.declared.kind ≠ .localLibvirt) ∧
          (v.detached = true ∨ ¬ Named v r) ∧ (Named v r → r ∈ s.1.resources) := by
      intro v listed
      refine ⟨⟨valid, declared_kind (mem_upserts listed).1⟩, ?_, fun _ => there⟩
      by_cases theirs : Named v r
      · exact .inl (own v listed theirs)
      · exact .inr theirs
    exact Sweep.run_establishes rule distinct ready ran u member mine

theorem localAt_filter {rows : List ResourceRow} {host : String} :
    localAt rows host = (rows.filter (fun r => r.kind = .localLibvirt)).find?
      (fun r => r.hostUri = host) := by
  rw [localAt, List.find?_filter]
  congr 1
  funext r
  simp

theorem upsertConfigResource_locals (valid : ResourcesValid s.1.resources)
    (kind : u.declared.kind ≠ .localLibvirt) (done : upsertConfigResource env u s = .ok s') :
    s'.1.resources.filter (fun r => r.kind = .localLibvirt) =
      s.1.resources.filter (fun r => r.kind = .localLibvirt) := by
  have written {row : ResourceRow} {f : ResourceRow → ResourceRow} (keeps : KeepsResource f)
      (found : findExisting s.1.resources u = some row)
      (done : writeResource u.declared row.id f s = .ok s') :
      s'.1.resources.filter (fun r => r.kind = .localLibvirt) =
        s.1.resources.filter (fun r => r.kind = .localLibvirt) := by
    obtain ⟨there, same, -⟩ := findExisting_cases found
    rw [(writeResource_ok done).1, setResource, List.filter_map]
    have unchanged : ∀ q ∈ s.1.resources.filter (fun r => r.kind = .localLibvirt),
        (if q.id = row.id then f q else q) = q := by
      intro q member
      obtain ⟨held, discovered⟩ := List.mem_filter.mp member
      rw [if_neg]
      intro own
      rw [valid.id_unique held there own, same] at discovered
      exact kind (of_decide_eq_true discovered)
    have predicate : ((fun r : ResourceRow => decide (r.kind = .localLibvirt)) ∘
        fun q => if q.id = row.id then f q else q) = fun r => decide (r.kind = .localLibvirt) := by
      funext q
      by_cases own : q.id = row.id <;> simp [own, keeps.kind]
    rw [predicate, List.map_congr_left unchanged, List.map_id']
  unfold upsertConfigResource at done
  split at done
  · split at done
    · rw [Except.ok.injEq] at done
      rw [done]
    · unfold insertConfigResource at done
      simp only [bind, Except.bind] at done
      split at done
      · cases done
      rename_i c stored
      simp only [pure, Except.pure, Except.ok.injEq] at done
      rw [← done, (checkedResources_ok stored).1, List.filter_append]
      simp [kind]
  rename_i row found
  split at done
  · cases done
  split at done
  · exact written (adopted_keeps _ _) found done
  split at done
  · rw [Except.ok.injEq] at done
    rw [done]
  unfold updateConfigResource at done
  split at done
  · rw [Except.ok.injEq] at done
    rw [done]
  · exact written (configured_keeps _ _) found done

theorem upsertRows_locals (checked : doc.Checked) (valid : ResourcesValid s.1.resources)
    (ran : Sweep.run (upsertConfigResource env) (configResourceUpserts doc overrides) s = .ok s')
    (host : String) : localAt s'.1.resources host = localAt s.1.resources host := by
  have ready : ∀ u ∈ configResourceUpserts doc overrides,
      ResourcesValid s.1.resources ∧ u.declared.kind ≠ .localLibvirt :=
    fun u member => ⟨valid, declared_kind (mem_upserts member).1⟩
  refine Sweep.run_keeps_ready (upsertRows_establish env) (upserts_distinct checked overrides)
    ready ran (fun t => localAt t.1.resources host = localAt s.1.resources host) ?_ rfl
  intro u member t t' due moved held
  rw [← held, localAt_filter, localAt_filter, upsertConfigResource_locals due.1 due.2 moved]

end Rows

section Hosts

variable {rows : List ResourceRow} {instances : List LocalLibvirtInstance}
  {i : LocalLibvirtInstance} {s s' : Catalog × ReconcileDiff} {r : ResourceRow}

theorem overlaidWith_keeps (i : LocalLibvirtInstance) : KeepsResource (fun q => overlaidWith q i) :=
  ⟨fun _ => rfl, fun _ => rfl⟩

/-- An overlay writes the row at its host, and nothing where the row is as it should be. -/
theorem overlayOneLocal_rows (valid : ResourcesValid s.1.resources)
    (done : overlayOneLocal i s = .ok s') :
    s'.1.resources = match localAt s.1.resources i.hostUri with
      | some row => setResource s.1.resources row.id (fun q => overlaidWith q i)
      | none => s.1.resources := by
  unfold overlayOneLocal at done
  split at done
  · rename_i absent
    rw [absent]
    rw [Except.ok.injEq] at done
    rw [← done]
  rename_i row found
  obtain ⟨there, -, -⟩ := localAt_mem found
  rw [found]
  split at done
  · cases done
  rename_i held caps
  have written : overlaidWith row i = row.overlaid i (held.insert concurrentAllocationCapKey
      (.ofInt i.concurrentAllocationCap)) := by
    rw [overlaidWith, caps, Option.getD_some]
  dsimp only at done
  split at done
  · simp only [bind, Except.bind] at done
    split at done
    · cases done
    rename_i c stored
    simp only [pure, Except.pure, Except.ok.injEq] at done
    rw [← done, (checkedResources_ok stored).1]
    refine List.map_congr_left ?_
    intro q member
    by_cases own : q.id = row.id
    · rw [if_pos own, if_pos own, valid.id_unique member there own]
      exact written.symm
    · rw [if_neg own, if_neg own]
  · rename_i same
    rw [Except.ok.injEq] at done
    simp only [not_or, not_not] at same
    obtain ⟨name, cost, merged, pool⟩ := same
    have settled : overlaidWith row i = row := by
      rw [written, ResourceRow.overlaid, ← name, ← cost, ← merged, ← pool]
    have still : setResource s.1.resources row.id (fun q => overlaidWith q i) = s.1.resources :=
      @setResource_settled _ _ (fun q => overlaidWith q i) valid there settled
    dsimp only
    rw [still, done]

theorem overlays_at {host : String} (valid : ResourcesValid s.1.resources)
    (found : localAt s.1.resources host = some r)
    (ran : Sweep.run overlayOneLocal instances s = .ok s') :
    localAt s'.1.resources host =
      some ((instances.filter (fun i => i.hostUri = host)).foldl overlaidWith r) := by
  induction instances generalizing s r with
  | nil =>
    cases ran
    exact found
  | cons i rest ih =>
    obtain ⟨t, one, ran⟩ := Sweep.run_cons_ok ran
    have step := overlayOneLocal_ok valid one
    by_cases here : i.hostUri = host
    · subst here
      have rows := overlayOneLocal_rows valid one
      rw [found] at rows
      dsimp only at rows
      have next : localAt t.1.resources i.hostUri = some (overlaidWith r i) := by
        rw [rows, localAt_set (overlaidWith_keeps i) (fun _ => rfl), found, Option.map_some,
          if_pos rfl]
      rw [List.filter_cons_of_pos (by simp), List.foldl_cons]
      exact ih step.valid next ran
    · rw [List.filter_cons_of_neg (by simpa using here)]
      exact ih step.valid ((step.others host (Ne.symm here)).trans found) ran

theorem foldl_overlaidWith (instances : List LocalLibvirtInstance) (r : ResourceRow) :
    instances.foldl overlaidWith r =
      match instances.getLast? with
      | some i => overlaidWith r i
      | none => r := by
  induction instances using List.reverseRecOn with
  | nil => rfl
  | append_singleton rest i ih =>
    rw [List.foldl_append, List.getLast?_append, ih]
    cases rest.getLast? with
    | none => rfl
    | some j =>
      have caps (held : Dict) (a b : Json) : (held.insert concurrentAllocationCapKey a).insert
          concurrentAllocationCapKey b = held.insert concurrentAllocationCapKey b :=
        Finmap.insert_insert ..
      simp [overlaidWith, ResourceRow.overlaid, caps]

theorem overlays_pass (valid : ResourcesValid s.1.resources) (there : r ∈ s.1.resources)
    (other : ∀ q, localAt s.1.resources r.hostUri = some q → q.id ≠ r.id)
    (ran : Sweep.run overlayOneLocal instances s = .ok s') : r ∈ s'.1.resources := by
  induction instances generalizing s with
  | nil =>
    cases ran
    exact there
  | cons i rest ih =>
    obtain ⟨t, one, ran⟩ := Sweep.run_cons_ok ran
    have step := overlayOneLocal_ok valid one
    have rows := overlayOneLocal_rows valid one
    cases found : localAt s.1.resources i.hostUri with
    | none =>
      rw [found] at rows
      refine ih step.valid (rows ▸ there) ?_ ran
      rw [rows]
      exact other
    | some row =>
      rw [found] at rows
      dsimp only at rows
      obtain ⟨held, -, host⟩ := localAt_mem found
      have apart : r.id ≠ row.id := by
        intro own
        have same := valid.id_unique there held own
        rw [← host, ← same] at found
        exact other r found rfl
      refine ih step.valid (rows ▸ set_forward there apart) ?_ ran
      intro q again
      rw [rows, localAt_set (overlaidWith_keeps i) (fun _ => rfl)] at again
      obtain ⟨p, before, rfl⟩ := Option.map_eq_some_iff.mp again
      have distinct := other p before
      by_cases mine : p.id = row.id
      · rw [if_pos mine]
        exact distinct
      · rw [if_neg mine]
        exact distinct

theorem overlays_row (valid : ResourcesValid s.1.resources) (there : r ∈ s.1.resources)
    (ran : Sweep.run overlayOneLocal instances s = .ok s') :
    overlaidBy instances s.1.resources r ∈ s'.1.resources := by
  rw [overlaidBy]
  by_cases found : localAt s.1.resources r.hostUri = some r
  · rw [if_pos found, ← foldl_overlaidWith]
    exact (localAt_mem (overlays_at valid found ran)).1
  · rw [if_neg found]
    refine overlays_pass valid there ?_ ran
    intro q held own
    rw [valid.id_unique (localAt_mem held).1 there own] at held
    exact found held

theorem overlaidBy_foreign (foreign : r.kind ≠ .localLibvirt) : overlaidBy instances rows r = r := by
  rw [overlaidBy, if_neg]
  intro found
  exact foreign (localAt_mem found).2.1

theorem overlaidBy_named (named : r.name ≠ none) : (overlaidBy instances rows r).name ≠ none := by
  rw [overlaidBy]
  split
  · split
    · exact nofun
    · exact named
  · exact named

theorem overlaidBy_key : (overlaidBy instances rows r).id = r.id ∧
    (overlaidBy instances rows r).kind = r.kind := by
  rw [overlaidBy]
  split
  · split <;> exact ⟨rfl, rfl⟩
  · exact ⟨rfl, rfl⟩

end Hosts

section Pass

variable {env : Surroundings} {doc : InventoryDoc} {c : Catalog} {s s' : Catalog × ReconcileDiff}
  {r : ResourceRow} {name : String}

/-- A row that no prune disposes of stays, whatever part of the prune was reached. -/
theorem reconcileCoefficients_resources (ran : reconcileCoefficients env doc s = .ok s') :
    s'.1.resources = s.1.resources := by
  refine Sweep.run_keeps (fun t => t.1.resources = s.1.resources) ?_ ran rfl
  intro entry _ t t' moved held
  rw [(upsertCoefficient_ok moved).rest]
  exact held

def rowAfter (doc : InventoryDoc) (c : Catalog) (parts : Nat) (r : ResourceRow) : ResourceRow :=
  let q := if 3 ≤ parts then adoptedBy (configResourceUpserts doc c.overrides) r else r
  if 4 ≤ parts then overlaidBy doc.localLibvirt c.resources q else q

structure RowStands (doc : InventoryDoc) (c : Catalog) (r : ResourceRow) (parts : Nat)
    (s : Catalog × ReconcileDiff) : Prop where
  valid : ResourcesValid s.1.resources
  row : rowAfter doc c parts r ∈ s.1.resources
  start : parts = 0 → s.1 = c
  locals : parts ≤ 3 → ∀ host, localAt s.1.resources host = localAt c.resources host

theorem rowAfter_key (parts : Nat) : (rowAfter doc c parts r).id = r.id ∧
    (rowAfter doc c parts r).kind = r.kind := by
  have first : (if 3 ≤ parts then adoptedBy (configResourceUpserts doc c.overrides) r else r).id =
      r.id ∧ (if 3 ≤ parts then adoptedBy (configResourceUpserts doc c.overrides) r else r).kind =
      r.kind := by
    split
    · exact ⟨adoptedBy_id _, adoptedBy_kind _⟩
    · exact ⟨rfl, rfl⟩
  rw [rowAfter]
  split
  · exact ⟨overlaidBy_key.1.trans first.1, overlaidBy_key.2.trans first.2⟩
  · exact first

theorem rowAfter_named {parts : Nat} (named : r.name ≠ none) :
    (rowAfter doc c parts r).name ≠ none := by
  have first : (if 3 ≤ parts then adoptedBy (configResourceUpserts doc c.overrides) r else r).name ≠
      none := by
    split
    · rw [adoptedBy_name]
      exact named
    · exact named
  rw [rowAfter]
  split
  · exact overlaidBy_named first
  · exact first

/-- A discovered host is never the document's, and another row keeps its identity. -/
theorem rowAfter_stays {parts : Nat} (valid : ResourcesValid s.1.resources)
    (there : rowAfter doc c parts r ∈ s.1.resources) (named : r.name = some name)
    (detached : disposition c.overrides (r.key name) = some .detached) :
    ¬ Departed doc c.overrides (rowAfter doc c parts r) := by
  rintro ⟨managed, exposed⟩
  by_cases discovered : r.kind = .localLibvirt
  · exact valid.discovered _ there ((rowAfter_key parts).2.trans discovered) managed
  · have same : (rowAfter doc c parts r).name = some name := by
      rw [rowAfter]
      have first : (if 3 ≤ parts then adoptedBy (configResourceUpserts doc c.overrides) r
          else r).kind ≠ .localLibvirt := by
        split
        · rw [adoptedBy_kind]
          exact discovered
        · exact discovered
      rw [overlaidBy_foreign first, ite_self]
      split
      · rw [adoptedBy_name, named]
      · exact named
    refine exposed ⟨name, same, .inr ?_⟩
    rw [ResourceRow.key, (rowAfter_key parts).2]
    exact detached

theorem RowStands.part (checked : doc.Checked) (valid : c.Valid) {pruned k : Nat}
    {part : Catalog × ReconcileDiff → Pass} (named : r.name = some name)
    (detached : disposition c.overrides (r.key name) = some .detached)
    (listed : (reconcileParts env doc c.overrides pruned)[k]? = some part)
    (done : part s = .ok s') (stands : RowStands doc c r k s) : RowStands doc c r (k + 1) s' := by
  have hasName : r.name ≠ none := by
    rw [named]
    exact nofun
  match k with
  | 0 =>
    simp only [reconcileParts, List.getElem?_cons_zero, Option.some.injEq] at listed
    subst listed
    have images : ImagesValid s.1.images := by
      rw [stands.start rfl]
      exact valid.images
    have same : s'.1.resources = s.1.resources := by
      rw [(reconcileImages_ok checked images done).rest]
    refine ⟨same ▸ stands.valid, same ▸ stands.row, nofun, fun early => ?_⟩
    rw [same]
    exact stands.locals (by omega)
  | 1 =>
    simp only [reconcileParts, List.getElem?_cons_succ, List.getElem?_cons_zero,
      Option.some.injEq] at listed
    subst listed
    have same := reconcileCoefficients_resources done
    refine ⟨same ▸ stands.valid, same ▸ stands.row, nofun, fun early => ?_⟩
    rw [same]
    exact stands.locals (by omega)
  | 2 =>
    simp only [reconcileParts, List.getElem?_cons_succ, List.getElem?_cons_zero,
      Option.some.injEq] at listed
    subst listed
    refine ⟨(upsertPhase_ok checked stands.valid done).2.1, ?_, nofun, fun early host => ?_⟩
    · exact upsertRows_row checked stands.valid stands.row named detached done
    · rw [upsertRows_locals checked stands.valid done]
      exact stands.locals (by omega) host
  | 3 =>
    simp only [reconcileParts, List.getElem?_cons_succ, List.getElem?_cons_zero,
      Option.some.injEq] at listed
    subst listed
    refine ⟨(overlayPhase_ok stands.valid done).2.1, ?_, nofun, fun early => absurd early (by omega)⟩
    have moved := overlays_row stands.valid stands.row done
    have located : overlaidBy doc.localLibvirt s.1.resources (rowAfter doc c 3 r) =
        rowAfter doc c 4 r := by
      rw [overlaidBy, stands.locals le_rfl]
      rfl
    exact located ▸ moved
  | 4 =>
    simp only [reconcileParts, List.getElem?_cons_succ, List.getElem?_cons_zero,
      Option.some.injEq] at listed
    subst listed
    obtain ⟨-, valid', -, -, -, forward, -⟩ := namePhase_ok stands.valid done
    exact ⟨valid', forward _ stands.row (rowAfter_named hasName), nofun,
      fun early => absurd early (by omega)⟩
  | 5 =>
    simp only [reconcileParts, List.getElem?_cons_succ, List.getElem?_cons_zero,
      Option.some.injEq] at listed
    subst listed
    obtain ⟨valid', kept⟩ := prunes_spare (List.take_sublist _ _) stands.valid done stands.row
      (rowAfter_stays stands.valid stands.row named detached)
    exact ⟨valid', kept, nofun, fun early => absurd early (by omega)⟩
  | 6 =>
    simp only [reconcileParts, List.getElem?_cons_succ, List.getElem?_cons_zero,
      Option.some.injEq] at listed
    subst listed
    rw [Except.ok.injEq] at done
    rw [← done]
    exact ⟨stands.valid, stands.row, nofun, fun early => absurd early (by omega)⟩
  | later + 7 =>
    simp [reconcileParts] at listed

def AdoptionRewrites (doc : InventoryDoc) (overrides : List InventoryOverride) (r : ResourceRow) :
    Prop :=
  r.needsConfigAdoption = true ∧ ∃ u ∈ configResourceUpserts doc overrides, Named u r ∧
    r.values ≠ ⟨u.declared.costClass, u.declared.pool, u.declared.hostUri,
      some (mergedCaps u (r.capabilities.getD ∅))⟩

/-- The row is the discovered one at its host, and the last instance there declares other values. -/
def OverlayRewrites (doc : InventoryDoc) (rows : List ResourceRow) (r : ResourceRow) : Prop :=
  localAt rows r.hostUri = some r ∧
    ∃ i, (doc.localLibvirt.filter (fun i => i.hostUri = r.hostUri)).getLast? = some i ∧
      r.values ≠ ⟨i.costClass, i.pool, r.hostUri, some ((r.capabilities.getD ∅).insert
        concurrentAllocationCapKey (.ofInt i.concurrentAllocationCap))⟩

theorem adoptedBy_values (checked : doc.Checked) (overrides : List InventoryOverride) :
    (adoptedBy (configResourceUpserts doc overrides) r).values = r.values ↔
      ¬ AdoptionRewrites doc overrides r := by
  rw [adoptedBy]
  cases found : (configResourceUpserts doc overrides).find? (fun u => Named u r) with
  | none =>
    refine iff_of_true rfl ?_
    rintro ⟨-, u, member, named, -⟩
    exact absurd (decide_eq_true named) (List.find?_eq_none.mp found u member)
  | some u =>
    have member := List.mem_of_find?_eq_some found
    have named : Named u r := by simpa using List.find?_some found
    dsimp only
    split
    · rename_i needed
      constructor
      · rintro same ⟨-, v, listed, theirs, differ⟩
        rw [adoptedBy_eq (upserts_distinct checked overrides) listed theirs,
          Option.some.injEq] at found
        subst found
        exact differ same.symm
      · intro kept
        by_contra differ
        exact kept ⟨needed, u, member, named, Ne.symm differ⟩
    · rename_i adopted
      exact iff_of_true rfl (fun rewritten => adopted rewritten.1)

theorem overlaidBy_values (rows : List ResourceRow) :
    (overlaidBy doc.localLibvirt rows r).values = r.values ↔ ¬ OverlayRewrites doc rows r := by
  rw [overlaidBy]
  split
  · rename_i found
    split
    · rename_i i last
      constructor
      · rintro same ⟨-, j, again, differ⟩
        rw [last, Option.some.injEq] at again
        subst again
        exact differ same.symm
      · intro kept
        by_contra differ
        exact kept ⟨found, i, last, Ne.symm differ⟩
    · rename_i empty
      refine iff_of_true rfl ?_
      rintro ⟨-, i, last, -⟩
      rw [empty] at last
      cases last
  · rename_i elsewhere
    exact iff_of_true rfl (fun rewritten => elsewhere rewritten.1)

theorem rowAfter_values (checked : doc.Checked) (parts : Nat) :
    (rowAfter doc c parts r).values = r.values ↔
      ¬ (3 ≤ parts ∧ AdoptionRewrites doc c.overrides r) ∧
      ¬ (4 ≤ parts ∧ OverlayRewrites doc c.resources r) := by
  have adopted := @adoptedBy_values doc r checked c.overrides
  have overlaid := @overlaidBy_values doc r c.resources
  by_cases discovered : r.kind = .localLibvirt
  · -- the config-owned kinds are others
    have still : adoptedBy (configResourceUpserts doc c.overrides) r = r := by
      have absent : (configResourceUpserts doc c.overrides).find? (fun u => Named u r) = none := by
        refine List.find?_eq_none.mpr ?_
        intro u member named
        have kind : r.kind = u.declared.kind := (of_decide_eq_true named).1
        exact declared_kind (mem_upserts member).1 (kind.symm.trans discovered)
      rw [adoptedBy, absent]
    rw [still] at adopted
    have never := adopted.mp rfl
    rw [rowAfter, still, ite_self]
    by_cases late : 4 ≤ parts
    · simp only [late, if_true, overlaid, never, and_false, not_false_eq_true, true_and]
    · simp only [late, if_false, never, and_false, false_and, not_false_eq_true, and_self]
  · have never : ¬ OverlayRewrites doc c.resources r :=
      fun rewritten => discovered (localAt_mem rewritten.1).2.1
    have foreign : (if 3 ≤ parts then adoptedBy (configResourceUpserts doc c.overrides) r
        else r).kind ≠ .localLibvirt := by
      split
      · rw [adoptedBy_kind]
        exact discovered
      · exact discovered
    rw [rowAfter, overlaidBy_foreign foreign, ite_self]
    by_cases late : 3 ≤ parts
    · simp only [late, if_true, adopted, never, and_false, not_false_eq_true, true_and, and_true]
    · simp only [late, if_false, never, and_false, false_and, not_false_eq_true, and_self]

theorem rowAfter_min (parts : Nat) : rowAfter doc c (min parts 7) r = rowAfter doc c parts r := by
  have third : 3 ≤ min parts 7 ↔ 3 ≤ parts := by omega
  have fourth : 4 ≤ min parts 7 ↔ 4 ≤ parts := by omega
  simp only [rowAfter, third, fourth]

/-- The values of a detached row survive a pass, however far it gets, exactly when the row is not
adopted with other values and the row of a discovered host is not overlaid with other values. -/
theorem detached_values_kept_iff (env : Surroundings) (doc : InventoryDoc) (c c' : Catalog)
    (diff : ReconcileDiff) (parts pruned : Nat) (r : ResourceRow) (name : String)
    (checked : doc.Checked) (valid : c.Valid) (there : r ∈ c.resources)
    (named : r.name = some name)
    (detached : disposition c.overrides (r.key name) = some .detached)
    (done : reconcileUpTo env doc parts pruned c = .ok (c', diff)) :
    (∃ q ∈ c'.resources, q.id = r.id ∧ q.values = r.values) ↔
      ¬ (3 ≤ parts ∧ AdoptionRewrites doc c.overrides r) ∧
      ¬ (4 ≤ parts ∧ OverlayRewrites doc c.resources r) := by
  have start : RowStands doc c r 0 (c, {}) :=
    ⟨valid.resources, there, fun _ => rfl, fun _ _ => rfl⟩
  have moves : ∀ k part, ((reconcileParts env doc c.overrides pruned).take parts)[k]? = some part →
      ∀ t t', part t = .ok t' → RowStands doc c r (0 + k) t → RowStands doc c r (0 + k + 1) t' := by
    intro k part listed t t' moved held
    rw [Nat.zero_add] at held ⊢
    rw [List.getElem?_take] at listed
    split at listed
    · exact held.part checked valid named detached listed moved
    · cases listed
  have stands := Sweep.run_stages (RowStands doc c r) moves done start
  have length : ((reconcileParts env doc c.overrides pruned).take parts).length = min parts 7 := by
    rw [List.length_take]
    rfl
  rw [length, Nat.zero_add] at stands
  have row := stands.row
  rw [rowAfter_min] at row
  rw [← rowAfter_values checked parts]
  constructor
  · rintro ⟨q, member, own, same⟩
    rw [← stands.valid.id_unique member row (own.trans (rowAfter_key parts).1.symm)]
    exact same
  · intro same
    exact ⟨_, row, (rowAfter_key parts).1, same⟩

theorem reconcileUpTo_all (checked : doc.Checked) (valid : c.Valid) :
    ∃ rows, ∀ pruned ≥ rows, reconcileUpTo env doc 7 pruned c = reconcileAll env doc c := by
  simp only [reconcileUpTo, reconcileParts, List.take_succ_cons, List.take_zero, Sweep.run,
    reconcileAll, bind, Except.bind]
  cases images : reconcileImages env doc (c, {}) with
  | error e => exact ⟨0, fun _ _ => rfl⟩
  | ok s₁ =>
    have first := reconcileImages_ok checked valid.images images
    have classes : (s₁.1.coefficients.map Coefficient.costClass).Nodup := by
      rw [first.rest]
      exact valid.classes
    dsimp only
    cases coefficients : reconcileCoefficients env doc s₁ with
    | error e => exact ⟨0, fun _ _ => rfl⟩
    | ok s₂ =>
      have ledger : s₂.1.overrides = c.overrides := by
        rw [(reconcileCoefficients_ok checked classes coefficients).1, first.rest]
      simp only [reconcileResources, bind, Except.bind, ledger]
      cases upserted : Sweep.run (upsertConfigResource env)
          (configResourceUpserts doc c.overrides) s₂ with
      | error e => exact ⟨0, fun _ _ => rfl⟩
      | ok s₃ =>
        dsimp only
        cases overlaid : Sweep.run overlayOneLocal doc.localLibvirt s₃ with
        | error e => exact ⟨0, fun _ _ => rfl⟩
        | ok s₄ =>
          dsimp only
          cases named : Sweep.run (nameDiscovered env doc) (unnamedDiscovered s₄.1.resources) s₄ with
          | error e => exact ⟨0, fun _ _ => rfl⟩
          | ok s₅ =>
            refine ⟨(configResources s₅.1.resources).length, fun pruned enough => ?_⟩
            dsimp only
            rw [List.take_of_length_le enough]
            rfl

end Pass

section Samples

def tunedHost (lease : Option Instant) : ResourceRow where
  id := 1
  kind := .faultInject
  name := some "lab"
  hostUri := faultInjectHostUri
  costClass := "gold"
  capabilities := some (declaredCaps 4 8192 7)
  pool := "default"
  managedBy := .config
  leaseExpiresAt := lease

def tunedCatalog (lease : Option Instant) : Catalog where
  resources := [tunedHost lease]
  images := []
  coefficients := []
  overrides := [⟨("fault-inject", "lab"), .detached⟩]

def tunedDoc : InventoryDoc where
  faultInject := [{ name := "lab", costClass := "gold", vcpus := 4, memoryMb := 8192 }]

theorem tunedCatalog_valid (lease : Option Instant) : (tunedCatalog lease).Valid := by
  refine ⟨?_, ?_, ?_, ?_⟩
  · constructor <;> simp [tunedCatalog]
  · refine ⟨by simp [tunedCatalog], by simp [tunedCatalog, tunedHost, ResourceRow.identity], ?_⟩
    intro r member
    rw [List.mem_singleton.mp member]
    intro absent
    cases absent
  · simp [tunedCatalog]
  · simp [tunedCatalog]

theorem tunedDoc_checked : tunedDoc.Checked := by
  constructor <;> decide

/-- The pass leaves the tuned capacity of a row that is the document's already. -/
theorem tuned_host_kept :
    reconcileAll bareSurroundings tunedDoc (tunedCatalog none) = .ok (tunedCatalog none, {}) ∧
    ∃ q ∈ (tunedCatalog none).resources, q.id = (tunedHost none).id ∧
      q.values = (tunedHost none).values := by
  refine ⟨by decide +kernel, ?_⟩
  refine (detached_values_kept_iff bareSurroundings tunedDoc (tunedCatalog none) (tunedCatalog none)
    {} 7 1 (tunedHost none) "lab" tunedDoc_checked (tunedCatalog_valid none) ?_ rfl ?_ ?_).mpr ?_
  · exact List.mem_singleton_self _
  · decide
  · decide +kernel
  · refine ⟨fun rewritten => ?_, fun rewritten => ?_⟩
    · exact absurd rewritten.2.1 (by decide)
    · exact absurd (localAt_mem rewritten.2.1).2.1 (by decide)

/-- A lease on the row has it adopted, and with that given the document's capacity. -/
theorem leased_host_rewritten :
    (tunedCatalog (some 5)).Valid ∧ tunedDoc.Checked ∧
    disposition (tunedCatalog (some 5)).overrides ((tunedHost (some 5)).key "lab") =
      some .detached ∧
    ∃ c' diff, reconcileAll bareSurroundings tunedDoc (tunedCatalog (some 5)) = .ok (c', diff) ∧
      c'.resources = [{ tunedHost none with capabilities := some (declaredCaps 4 8192 1) }] ∧
      ¬ ∃ q ∈ c'.resources, q.id = (tunedHost (some 5)).id ∧
        q.values = (tunedHost (some 5)).values := by
  refine ⟨tunedCatalog_valid _, tunedDoc_checked, by decide, ?_⟩
  refine ⟨{ tunedCatalog none with
    resources := [{ tunedHost none with capabilities := some (declaredCaps 4 8192 1) }]
    overrides := [] }, { updated := [⟨"lab", "resource[fault-inject/lab]", ""⟩] }, ?_, rfl, ?_⟩
  · decide +kernel
  · rintro ⟨q, member, -, same⟩
    rw [List.mem_singleton.mp member] at same
    exact absurd (congrArg RuntimeValues.capabilities same) (by decide +kernel)

end Samples

end Kdive.Inventory
