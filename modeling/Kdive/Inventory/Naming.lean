import Kdive.Inventory.Convergence
import Kdive.Lib.Renaming

/-!
The names of the discovered local hosts. Rows are renamed one at a time, and the index on kind and
name is checked after each: a name that another host still carries cannot be given, although that
host is to get another one in the same pass.
-/
namespace Kdive.Inventory
open Renaming (assign Taken)

section Names

variable {env : Surroundings} {doc : InventoryDoc} {rows : List ResourceRow} {row : ResourceRow}
  {keys : List String} {s s' : Catalog × ReconcileDiff}

def nameAt (rows : List ResourceRow) (host : String) : Option String :=
  (localAt rows host).bind ResourceRow.name

/-- The local hosts: rows of discovery, each at a URI of its own, with capabilities that can be
read. -/
structure HostsAt (keys : List String) (s : Catalog × ReconcileDiff) : Prop where
  valid : ResourcesValid s.1.resources
  hosts : localHosts s.1.resources = keys
  distinct : keys.Nodup
  discovered : ∀ r ∈ s.1.resources, r.kind = .localLibvirt → r.managedBy = .discovery
  objects : ∀ r ∈ s.1.resources, r.kind = .localLibvirt → r.capabilities ≠ none

theorem localAt_of_mem (distinct : (localHosts rows).Nodup) (there : row ∈ rows)
    (kind : row.kind = .localLibvirt) : localAt rows row.hostUri = some row := by
  have member : row.hostUri ∈ localHosts rows :=
    List.mem_map_of_mem (List.mem_filter.mpr ⟨there, decide_eq_true kind⟩)
  cases found : localAt rows row.hostUri with
  | none => exact absurd member (localAt_eq_none.mp found)
  | some r =>
    obtain ⟨there', kind', host⟩ := localAt_mem found
    have same := List.inj_on_of_nodup_map distinct
      (List.mem_filter.mpr ⟨there', decide_eq_true kind'⟩)
      (List.mem_filter.mpr ⟨there, decide_eq_true kind⟩) host
    rw [same]

/-- A rename keeps the index unless another row of the kind carries the name. -/
theorem rename_nodup_iff (valid : ResourcesValid rows) (there : row ∈ rows)
    {f : ResourceRow → ResourceRow} {name : String} (keeps : KeepsResource f)
    (named : (f row).name = some name) :
    ((setResource rows row.id f).filterMap ResourceRow.identity).Nodup ↔
      ∀ q ∈ rows, q.id ≠ row.id → q.kind = row.kind → q.name ≠ some name := by
  have renamed : (f row).identity = some (row.kind, name) := by
    rw [ResourceRow.identity, named, keeps.kind]
    rfl
  let apart (r q : ResourceRow) : Prop := ∀ b, r.identity = some b → ∀ b', q.identity = some b' → b ≠ b'
  let moved (r : ResourceRow) : ResourceRow := if r.id = row.id then f r else r
  have split : ((setResource rows row.id f).filterMap ResourceRow.identity).Nodup ↔
      rows.Pairwise (fun r q => apart (moved r) (moved q)) := by
    rw [List.Nodup, List.pairwise_filterMap, setResource, List.pairwise_map]
  have own : moved row = f row := if_pos rfl
  have same {q : ResourceRow} (other : q.id ≠ row.id) : moved q = q := if_neg other
  rw [split]
  constructor
  · intro pairs q member other kind holds
    have clash : q.identity = some (row.kind, name) := by
      rw [ResourceRow.identity, holds, kind]
      rfl
    have : Std.Symm (fun r q => apart (moved r) (moved q)) :=
      ⟨fun r q differ b left b' right => Ne.symm (differ b' right b left)⟩
    have differ := pairs.forall there member (fun equal => other (by rw [equal]))
    rw [own, same other] at differ
    exact differ _ renamed _ clash rfl
  · intro free
    have before : rows.Pairwise apart := List.pairwise_filterMap.mp valid.names
    refine ((List.pairwise_map.mp valid.ids).and before).imp_of_mem ?_
    rintro r q left right ⟨ids, differ⟩
    -- at most one of the two is the renamed row
    by_cases first : r.id = row.id
    · have second : q.id ≠ row.id := fun equal => ids (first.trans equal.symm)
      obtain rfl := valid.id_unique left there first
      rw [own, same second]
      intro b hb b' hb' equal
      rw [renamed, Option.some.injEq] at hb
      rw [← equal, ← hb] at hb'
      obtain ⟨name', holds, pair⟩ := Option.map_eq_some_iff.mp hb'
      obtain ⟨kind, rfl⟩ := Prod.mk.inj pair
      exact free q right second kind holds
    · rw [same first]
      by_cases second : q.id = row.id
      · obtain rfl := valid.id_unique right there second
        rw [own]
        intro b hb b' hb' equal
        rw [renamed, Option.some.injEq] at hb'
        rw [equal, ← hb'] at hb
        obtain ⟨name', holds, pair⟩ := Option.map_eq_some_iff.mp hb
        obtain ⟨kind, rfl⟩ := Prod.mk.inj pair
        exact free r left first kind holds
      · rw [same second]
        exact differ

theorem taken_iff (at' : HostsAt keys s) (there : row ∈ s.1.resources)
    (kind : row.kind = .localLibvirt) {name : String} :
    Taken keys (nameAt s.1.resources) row.hostUri name ↔
      ∃ q ∈ s.1.resources, q.id ≠ row.id ∧ q.kind = row.kind ∧ q.name = some name := by
  have distinct := at'.hosts ▸ at'.distinct
  constructor
  · rintro ⟨host, member, other, holds⟩
    obtain ⟨q, found, named⟩ := Option.bind_eq_some_iff.mp holds
    obtain ⟨member, kind', host'⟩ := localAt_mem found
    refine ⟨q, member, ?_, kind'.trans kind.symm, named⟩
    intro same
    rw [at'.valid.id_unique member there same] at host'
    exact other host'.symm
  · rintro ⟨q, member, other, kind', named⟩
    have found := localAt_of_mem distinct member (kind'.trans kind)
    refine ⟨q.hostUri, ?_, ?_, ?_⟩
    · rw [← at'.hosts]
      exact List.mem_map_of_mem (List.mem_filter.mpr ⟨member, decide_eq_true (kind'.trans kind)⟩)
    · intro same
      rw [same, localAt_of_mem distinct there kind] at found
      exact other (by rw [Option.some.inj found])
    · rw [nameAt, found]
      exact named

inductive Simulated (keys : List String) : Pass → Option (String → Option String) → Prop
  | ok {s : Catalog × ReconcileDiff} (at' : HostsAt keys s) :
      Simulated keys (.ok s) (some (nameAt s.1.resources))
  | error {e : ReconcileError} : Simulated keys (.error e) none

theorem Simulated.of_ok {given : Option (String → Option String)}
    (simulated : Simulated keys (.ok s) given) :
    HostsAt keys s ∧ given = some (nameAt s.1.resources) := by
  cases simulated with
  | ok at' => exact ⟨at', rfl⟩

theorem Simulated.ok_of_isSome {pass : Pass} {given : Option (String → Option String)}
    (simulated : Simulated keys pass given) (isSome : given.isSome) : ∃ s, pass = .ok s := by
  cases simulated with
  | ok at' => exact ⟨_, rfl⟩
  | error => cases isSome

theorem rename_simulated (at' : HostsAt keys s) (there : row ∈ s.1.resources)
    (kind : row.kind = .localLibvirt) {f : ResourceRow → ResourceRow} {name : String}
    (keeps : KeepsResource f) (named : ∀ r, (f r).name = some name)
    (hosts : ∀ r, (f r).hostUri = r.hostUri) (managers : ∀ r, (f r).managedBy = r.managedBy)
    (objects : ∀ r, r.capabilities ≠ none → (f r).capabilities ≠ none)
    (report : ReconcileDiff → ReconcileDiff) :
    Simulated keys (do
      let c ← checkedResources s.1 (setResource s.1.resources row.id f)
      return (c, report s.2)) (assign keys (nameAt s.1.resources) (row.hostUri, name)) := by
  have distinct := at'.hosts ▸ at'.distinct
  have present : row.hostUri ∈ keys := by
    rw [← at'.hosts]
    exact List.mem_map_of_mem (List.mem_filter.mpr ⟨there, decide_eq_true kind⟩)
  by_cases taken : Taken keys (nameAt s.1.resources) row.hostUri name
  · obtain ⟨q, member, other, kind', holds⟩ := (taken_iff at' there kind).mp taken
    have clash : ¬ ((setResource s.1.resources row.id f).filterMap ResourceRow.identity).Nodup := by
      rw [rename_nodup_iff at'.valid there keeps (named row)]
      exact fun free => free q member other kind' holds
    rw [Renaming.assign_taken present taken, checkedResources, if_neg clash]
    exact .error
  · have names : ((setResource s.1.resources row.id f).filterMap ResourceRow.identity).Nodup := by
      rw [rename_nodup_iff at'.valid there keeps (named row)]
      intro q member other kind' holds
      exact taken ((taken_iff at' there kind).mpr ⟨q, member, other, kind', holds⟩)
    have renamed : nameAt (setResource s.1.resources row.id f) =
        Function.update (nameAt s.1.resources) row.hostUri (some name) := by
      funext host
      by_cases own : host = row.hostUri
      · rw [own, Function.update_self, nameAt, localAt_set keeps hosts,
          localAt_of_mem distinct there kind]
        simp [named]
      · rw [Function.update_of_ne own, nameAt,
          localAt_set_other keeps hosts at'.valid there (Ne.symm own), nameAt]
    rw [Renaming.assign_free present taken, ← renamed, checkedResources, if_pos names]
    refine .ok ⟨at'.valid.set keeps names ?_, ?_, at'.distinct, ?_, ?_⟩
    · intro r member _ local'
      rw [managers]
      exact at'.valid.discovered r member local'
    · exact (localHosts_set keeps (fun r _ _ _ => hosts r)).trans at'.hosts
    · intro r member local'
      rcases set_backward member with old | ⟨old, member', -, rfl⟩
      · exact at'.discovered r old local'
      · rw [managers]
        exact at'.discovered old member' (keeps.kind old ▸ local')
    · intro r member local'
      rcases set_backward member with old | ⟨old, member', -, rfl⟩
      · exact at'.objects r old local'
      · exact objects old (at'.objects old member' (keeps.kind old ▸ local'))

theorem overlayOneLocal_simulated (at' : HostsAt keys s) (i : LocalLibvirtInstance) :
    Simulated keys (overlayOneLocal i s)
      (assign keys (nameAt s.1.resources) (i.hostUri, i.name)) := by
  have distinct := at'.hosts ▸ at'.distinct
  rw [overlayOneLocal]
  split
  · rename_i absent
    have missing : i.hostUri ∉ keys := at'.hosts ▸ localAt_eq_none.mp absent
    rw [Renaming.assign_absent missing]
    exact .ok ⟨at'.valid, at'.hosts, at'.distinct, at'.discovered, at'.objects⟩
  rename_i row found
  obtain ⟨there, kind, host⟩ := localAt_mem found
  split
  · rename_i broken
    exact absurd broken (at'.objects row there kind)
  rename_i held caps
  dsimp only
  rw [← host]
  split
  · exact rename_simulated at' there kind (overlaid_keeps _ _) (fun _ => rfl) (fun _ => rfl)
      (fun _ => rfl) (fun _ _ => nofun)
      (fun diff => { diff with updated := diff.updated ++ [resourceRecord .localLibvirt i.name ""] })
  · -- the row carries the name already, so nobody else does
    rename_i same
    simp only [not_or, not_not] at same
    have present : row.hostUri ∈ keys := by
      rw [← at'.hosts]
      exact List.mem_map_of_mem (List.mem_filter.mpr ⟨there, decide_eq_true kind⟩)
    have free : ¬ Taken keys (nameAt s.1.resources) row.hostUri i.name := by
      rw [taken_iff at' there kind]
      rintro ⟨q, member, other, kind', holds⟩
      exact other (by rw [at'.valid.name_unique member there kind' holds same.1])
    have carried : nameAt s.1.resources row.hostUri = some i.name := by
      rw [nameAt, localAt_of_mem distinct there kind]
      exact same.1
    rw [Renaming.assign_free present free, ← carried, Function.update_eq_self]
    exact .ok at'

theorem overlays_simulated (at' : HostsAt keys s) (instances : List LocalLibvirtInstance) :
    Simulated keys (Sweep.run overlayOneLocal instances s)
      (Renaming.run keys (nameAt s.1.resources) (instances.map (fun i => (i.hostUri, i.name)))) := by
  induction instances generalizing s with
  | nil => exact .ok at'
  | cons i rest ih =>
    have first := overlayOneLocal_simulated at' i
    rw [List.map_cons, Renaming.run_cons, Sweep.run]
    generalize overlayOneLocal i s = outcome at first
    generalize assign keys (nameAt s.1.resources) (i.hostUri, i.name) = given at first
    cases first with
    | ok at'' => exact ih at''
    | error => exact .error

def unconfigured (doc : InventoryDoc) (host : String) : Bool :=
  host ∉ doc.localLibvirt.map LocalLibvirtInstance.hostUri

def derivedNames (env : Surroundings) (doc : InventoryDoc) (rows : List ResourceRow) :
    List (String × String) :=
  (rows.filter (fun r => unconfigured doc r.hostUri)).map
    (fun r => (r.hostUri, deterministicName env r.hostUri))

theorem nameDiscovered_simulated (at' : HostsAt keys s) (there : row ∈ s.1.resources)
    (kind : row.kind = .localLibvirt) (free : unconfigured doc row.hostUri = true) :
    Simulated keys (nameDiscovered env doc row s) (assign keys (nameAt s.1.resources)
      (row.hostUri, deterministicName env row.hostUri)) := by
  have keeps : KeepsResource
      (fun r => { r with name := some (deterministicName env row.hostUri) }) :=
    ⟨fun _ => rfl, fun _ => rfl⟩
  rw [nameDiscovered, if_neg (by simpa [unconfigured] using free)]
  exact rename_simulated at' there kind keeps (fun _ => rfl) (fun _ => rfl) (fun _ => rfl)
    (fun _ held => held) (fun diff => diff)

structure Waits (row : ResourceRow) (s : Catalog × ReconcileDiff) : Prop where
  there : row ∈ s.1.resources
  kind : row.kind = .localLibvirt
  discovered : row.managedBy = .discovery
  unnamed : row.name = none

theorem names_simulated (at' : HostsAt keys s) {waiting : List ResourceRow}
    (distinct : waiting.Pairwise (fun r q => r.id ≠ q.id)) (waits : ∀ r ∈ waiting, Waits r s) :
    Simulated keys (Sweep.run (nameDiscovered env doc) waiting s)
      (Renaming.run keys (nameAt s.1.resources) (derivedNames env doc waiting)) := by
  induction waiting generalizing s with
  | nil => exact .ok at'
  | cons row rest ih =>
    obtain ⟨others, distinct⟩ := List.pairwise_cons.mp distinct
    have own := waits row (.head rest)
    rw [Sweep.run]
    by_cases free : unconfigured doc row.hostUri = true
    · have first := @nameDiscovered_simulated env _ _ _ _ at' own.there own.kind free
      have list : derivedNames env doc (row :: rest) =
          (row.hostUri, deterministicName env row.hostUri) :: derivedNames env doc rest := by
        simp [derivedNames, free]
      rw [list, Renaming.run_cons]
      cases outcome : nameDiscovered env doc row s with
      | error e =>
        rw [outcome] at first
        cases given : assign keys (nameAt s.1.resources)
            (row.hostUri, deterministicName env row.hostUri) with
        | none => exact .error
        | some f =>
          rw [given] at first
          cases first
      | ok s' =>
        have step := nameDiscovered_ok at'.valid own.there own.discovered own.unnamed outcome
        rw [outcome] at first
        generalize assign keys (nameAt s.1.resources)
          (row.hostUri, deterministicName env row.hostUri) = given at first
        cases first with
        | ok at'' =>
          refine ih at'' distinct ?_
          intro r member
          have due := waits r (.tail row member)
          exact ⟨step.forward r due.there (Ne.symm (others r member)), due.kind, due.discovered,
            due.unnamed⟩
    · have skipped : nameDiscovered env doc row s = .ok s := by
        rw [nameDiscovered, if_pos (by simpa [unconfigured] using free)]
      have list : derivedNames env doc (row :: rest) = derivedNames env doc rest := by
        simp [derivedNames, free]
      rw [skipped, list]
      exact ih at' distinct (fun r member => waits r (.tail row member))

def bareHosts (doc : InventoryDoc) (rows : List ResourceRow) : List String :=
  (localHosts rows).filter (fun host => unconfigured doc host ∧ nameAt rows host = none)

theorem mem_bareHosts {host : String} : host ∈ bareHosts doc rows ↔
    host ∈ localHosts rows ∧ unconfigured doc host = true ∧ nameAt rows host = none := by
  simp [bareHosts]

theorem mem_derivedNames (at' : HostsAt keys s)
    (only : ∀ r ∈ unnamedDiscovered s.1.resources, r.kind = .localLibvirt) {a : String × String} :
    a ∈ derivedNames env doc (unnamedDiscovered s.1.resources) ↔
      a.1 ∈ bareHosts doc s.1.resources ∧ a.2 = deterministicName env a.1 := by
  have distinct := at'.hosts ▸ at'.distinct
  rw [mem_bareHosts]
  constructor
  · intro member
    obtain ⟨r, held, rfl⟩ := List.mem_map.mp member
    obtain ⟨waiting, free⟩ := List.mem_filter.mp held
    have kind := only r waiting
    simp only [unnamedDiscovered, List.mem_filter, decide_eq_true_eq] at waiting
    refine ⟨⟨?_, free, ?_⟩, rfl⟩
    · exact List.mem_map_of_mem (List.mem_filter.mpr ⟨waiting.1, decide_eq_true kind⟩)
    · rw [nameAt, localAt_of_mem distinct waiting.1 kind]
      exact waiting.2.2
  · rintro ⟨⟨member, free, unnamed⟩, derived⟩
    obtain ⟨r, held, host⟩ := List.mem_map.mp member
    obtain ⟨there, kind⟩ := List.mem_filter.mp held
    have kind := of_decide_eq_true kind
    rw [← host, nameAt, localAt_of_mem distinct there kind] at unnamed
    refine List.mem_map.mpr ⟨r, List.mem_filter.mpr ⟨?_, host ▸ free⟩, ?_⟩
    · simp only [unnamedDiscovered, List.mem_filter, decide_eq_true_eq]
      exact ⟨there, at'.discovered r there kind, unnamed⟩
    · rw [host, ← derived]

theorem derivedNames_distinct (at' : HostsAt keys s)
    (only : ∀ r ∈ unnamedDiscovered s.1.resources, r.kind = .localLibvirt) :
    ((derivedNames env doc (unnamedDiscovered s.1.resources)).map Prod.fst).Nodup := by
  have distinct := List.pairwise_map.mp (at'.hosts ▸ at'.distinct : (localHosts s.1.resources).Nodup)
  have hosts : (derivedNames env doc (unnamedDiscovered s.1.resources)).map Prod.fst =
      ((unnamedDiscovered s.1.resources).filter (fun r => unconfigured doc r.hostUri)).map
        ResourceRow.hostUri := by
    rw [derivedNames, List.map_map]
    rfl
  have locals : (unnamedDiscovered s.1.resources).Sublist
      (s.1.resources.filter (fun r => r.kind = .localLibvirt)) := by
    have same : (unnamedDiscovered s.1.resources).filter (fun r => r.kind = .localLibvirt) =
        unnamedDiscovered s.1.resources :=
      List.filter_eq_self.mpr (fun r member => decide_eq_true (only r member))
    rw [← same]
    exact List.filter_sublist.filter _
  rw [hosts, List.Nodup, List.pairwise_map]
  exact distinct.sublist (List.filter_sublist.trans locals)

end Names

section Settling

variable {env : Surroundings} {doc : InventoryDoc} {rows : List ResourceRow}
  {keys : List String} {s s' : Catalog × ReconcileDiff}

def namingSteps (env : Surroundings) (doc : InventoryDoc) (s : Catalog × ReconcileDiff) : Pass := do
  let s ← Sweep.run overlayOneLocal doc.localLibvirt s
  Sweep.run (nameDiscovered env doc) (unnamedDiscovered s.1.resources) s

def settledName (doc : InventoryDoc) (rows : List ResourceRow) (host : String) : Option String :=
  match doc.localLibvirt.find? (fun i => i.hostUri = host) with
  | some i => some i.name
  | none => nameAt rows host

/-- Every host that is there ends with its declared name, the others with names of their own. -/
structure HostsNamed (env : Surroundings) (doc : InventoryDoc) (rows rows' : List ResourceRow) :
    Prop where
  configured : ∀ i ∈ doc.localLibvirt, i.hostUri ∈ localHosts rows →
    nameAt rows' i.hostUri = some i.name
  derived : ∀ host ∈ bareHosts doc rows, nameAt rows' host = some (deterministicName env host)
  distinct : ∀ host ∈ bareHosts doc rows, ∀ other ∈ bareHosts doc rows, host ≠ other →
    nameAt rows' host ≠ nameAt rows' other

/-- The declared names that others carry are given up in time, and the derived names are new. -/
structure NamesSettle (env : Surroundings) (doc : InventoryDoc) (rows : List ResourceRow) :
    Prop where
  once : HostsClaimedOnce doc (localHosts rows)
  freed : Renaming.Freed (localHosts rows) (nameAt rows) []
    (doc.localLibvirt.map (fun i => (i.hostUri, i.name)))
  apart : ∀ host ∈ bareHosts doc rows, ∀ other ∈ bareHosts doc rows, host ≠ other →
    deterministicName env host ≠ deterministicName env other
  fresh : ∀ host ∈ bareHosts doc rows, ∀ other ∈ localHosts rows,
    settledName doc rows other ≠ some (deterministicName env host)

theorem unconfigured_iff {host : String} :
    unconfigured doc host = true ↔ ∀ i ∈ doc.localLibvirt, i.hostUri ≠ host := by
  simp [unconfigured]

theorem settledName_unconfigured {host : String} (free : unconfigured doc host = true) :
    settledName doc rows host = nameAt rows host := by
  have absent : doc.localLibvirt.find? (fun i => i.hostUri = host) = none := by
    simpa using unconfigured_iff.mp free
  rw [settledName, absent]

theorem overlaid_own {f : String → Option String} {i : LocalLibvirtInstance}
    (once : HostsClaimedOnce doc keys)
    (ran : Renaming.run keys (nameAt rows) (doc.localLibvirt.map (fun i => (i.hostUri, i.name))) =
      some f) (declared : i ∈ doc.localLibvirt) (present : i.hostUri ∈ keys) :
    f i.hostUri = some i.name := by
  have once' : (doc.localLibvirt.map (fun i => (i.hostUri, i.name))).Pairwise
      (fun a b => a.1 = b.1 → a.1 ∉ keys) := List.pairwise_map.mpr once
  exact Renaming.run_own ran once'
    (List.mem_map_of_mem (f := fun i => (i.hostUri, i.name)) declared) present

theorem overlaid_names {f : String → Option String} (once : HostsClaimedOnce doc keys)
    (ran : Renaming.run keys (nameAt rows) (doc.localLibvirt.map (fun i => (i.hostUri, i.name))) =
      some f) {host : String} (present : host ∈ keys) : f host = settledName doc rows host := by
  cases found : doc.localLibvirt.find? (fun i => i.hostUri = host) with
  | none =>
    have free : unconfigured doc host = true := by
      rw [unconfigured_iff]
      simpa using found
    rw [settledName_unconfigured free]
    refine Renaming.run_other ran ?_
    intro a member _ same
    obtain ⟨i, declared, rfl⟩ := List.mem_map.mp member
    exact unconfigured_iff.mp free i declared same.symm
  | some i =>
    have host' : i.hostUri = host := by simpa using List.find?_some found
    rw [settledName, found, ← host']
    exact overlaid_own once ran (List.mem_of_find?_eq_some found) (host' ▸ present)

/-- The second step ends exactly when the derived names differ and nobody carries one. -/
theorem names_isSome_iff (at' : HostsAt keys s)
    (only : ∀ r ∈ unnamedDiscovered s.1.resources, r.kind = .localLibvirt) :
    (Renaming.run keys (nameAt s.1.resources)
        (derivedNames env doc (unnamedDiscovered s.1.resources))).isSome ↔
      (∀ host ∈ bareHosts doc s.1.resources, ∀ other ∈ bareHosts doc s.1.resources, host ≠ other →
        deterministicName env host ≠ deterministicName env other) ∧
      ∀ host ∈ bareHosts doc s.1.resources, ∀ other ∈ keys,
        nameAt s.1.resources other ≠ some (deterministicName env host) := by
  have given {a : String × String} := @mem_derivedNames env doc keys s at' only a
  have distinct := @derivedNames_distinct env doc keys s at' only
  generalize derivedNames env doc (unnamedDiscovered s.1.resources) = names at given distinct
  rw [Renaming.run_isSome_iff_fresh distinct]
  · have hosts {host : String} : host ∈ names.map Prod.fst ↔ host ∈ bareHosts doc s.1.resources := by
      constructor
      · intro member
        obtain ⟨a, held, rfl⟩ := List.mem_map.mp member
        exact (given.mp held).1
      · intro bare
        exact List.mem_map.mpr ⟨(host, deterministicName env host), given.mpr ⟨bare, rfl⟩, rfl⟩
    have derived : names.map Prod.snd = (names.map Prod.fst).map (deterministicName env) := by
      rw [List.map_map]
      exact List.map_congr_left (fun a member => (given.mp member).2)
    rw [derived, List.nodup_map_iff_inj_on distinct]
    refine and_congr ?_ ?_
    · constructor
      · intro injective host bare other bare' differ same
        exact differ (injective host (hosts.mpr bare) other (hosts.mpr bare') same)
      · intro apart host member other member' same
        by_contra differ
        exact apart host (hosts.mp member) other (hosts.mp member') differ same
    · constructor
      · intro new host bare other present
        exact new (host, deterministicName env host) (given.mpr ⟨bare, rfl⟩) other present
      · intro new a member other present
        rw [(given.mp member).2]
        exact new a.1 (given.mp member).1 other present
  · intro a member
    rw [← at'.hosts]
    exact (mem_bareHosts.mp (given.mp member).1).1
  · intro a member
    exact (mem_bareHosts.mp (given.mp member).1).2.2

theorem bareHosts_overlaid {rows' : List ResourceRow} (hosts : localHosts rows' = localHosts rows)
    (ran : Renaming.run (localHosts rows) (nameAt rows)
      (doc.localLibvirt.map (fun i => (i.hostUri, i.name))) = some (nameAt rows')) {host : String} :
    host ∈ bareHosts doc rows' ↔ host ∈ bareHosts doc rows := by
  rw [mem_bareHosts, mem_bareHosts, hosts]
  refine and_congr_right fun _ => and_congr_right fun free => ?_
  have kept : nameAt rows' host = nameAt rows host := by
    refine Renaming.run_other ran ?_
    intro a member _ same
    obtain ⟨i, declared, rfl⟩ := List.mem_map.mp member
    exact unconfigured_iff.mp free i declared same.symm
  rw [kept]

theorem overlays_isSome_iff (checked : doc.Checked) :
    (Renaming.run keys (nameAt rows) (doc.localLibvirt.map (fun i => (i.hostUri, i.name)))).isSome ↔
      Renaming.Freed keys (nameAt rows) [] (doc.localLibvirt.map (fun i => (i.hostUri, i.name))) := by
  refine Renaming.run_isSome_iff_freed ?_ (fun _ _ _ => rfl) (fun _ _ early => ?_)
  · rw [List.map_map]
    exact checked.locals
  · exact absurd early List.not_mem_nil

theorem waiting_simulated (at' : HostsAt keys s)
    (only : ∀ r ∈ unnamedDiscovered s.1.resources, r.kind = .localLibvirt) :
    Simulated keys (Sweep.run (nameDiscovered env doc) (unnamedDiscovered s.1.resources) s)
      (Renaming.run keys (nameAt s.1.resources)
        (derivedNames env doc (unnamedDiscovered s.1.resources))) := by
  refine names_simulated at' ?_ ?_
  · exact (List.pairwise_map.mp at'.valid.ids).sublist List.filter_sublist
  · intro r member
    have kind := only r member
    simp only [unnamedDiscovered, List.mem_filter, decide_eq_true_eq] at member
    exact ⟨member.1, kind, member.2.1, member.2.2⟩

theorem namingSteps_ok (done : namingSteps env doc s = .ok s') :
    ∃ s₁, Sweep.run overlayOneLocal doc.localLibvirt s = .ok s₁ ∧
      Sweep.run (nameDiscovered env doc) (unnamedDiscovered s₁.1.resources) s₁ = .ok s' := by
  rw [namingSteps] at done
  cases overlaid : Sweep.run overlayOneLocal doc.localLibvirt s with
  | error e =>
    rw [overlaid] at done
    cases done
  | ok s₁ =>
    rw [overlaid] at done
    exact ⟨s₁, rfl, done⟩

theorem unnamed_local (valid : ResourcesValid s.1.resources)
    (only : ∀ r ∈ unnamedDiscovered s.1.resources, r.kind = .localLibvirt)
    (ran : Sweep.run overlayOneLocal doc.localLibvirt s = .ok s') :
    ∀ r ∈ unnamedDiscovered s'.1.resources, r.kind = .localLibvirt := by
  intro r member
  by_contra foreign
  obtain ⟨-, -, -, -, -, backward⟩ := overlayPhase_ok valid ran
  simp only [unnamedDiscovered, List.mem_filter, decide_eq_true_eq] at member only
  exact foreign (only r ⟨backward r member.1 foreign, member.2⟩)

theorem naming_names_hosts_iff (env : Surroundings) (doc : InventoryDoc)
    (s : Catalog × ReconcileDiff) (checked : doc.Checked)
    (at' : HostsAt (localHosts s.1.resources) s)
    (only : ∀ r ∈ unnamedDiscovered s.1.resources, r.kind = .localLibvirt) :
    (∃ s', namingSteps env doc s = .ok s' ∧ HostsNamed env doc s.1.resources s'.1.resources) ↔
      NamesSettle env doc s.1.resources := by
  have first := overlays_simulated at' doc.localLibvirt
  have overlays := @overlays_isSome_iff doc s.1.resources (localHosts s.1.resources) checked
  constructor
  · rintro ⟨s', done, named⟩
    obtain ⟨s₁, overlaid, done⟩ := namingSteps_ok done
    rw [overlaid] at first
    obtain ⟨at₁, given⟩ := first.of_ok
    have only₁ := unnamed_local at'.valid only overlaid
    have second := @waiting_simulated env doc _ s₁ at₁ only₁
    rw [done] at second
    obtain ⟨at₂, given₂⟩ := second.of_ok
    have once : HostsClaimedOnce doc (localHosts s.1.resources) := by
      rw [← at₂.hosts]
      refine claimedOnce_of_named checked ?_
      intro i declared r found
      have present : i.hostUri ∈ localHosts s'.1.resources := by
        by_contra absent
        rw [localAt_eq_none.mpr absent] at found
        cases found
      have held := named.configured i declared (at₂.hosts ▸ present)
      rw [nameAt, found] at held
      exact held
    have bare {host : String} := @bareHosts_overlaid doc _ _ at₁.hosts given host
    have fresh := (@names_isSome_iff env doc _ s₁ at₁ only₁).mp (by rw [given₂]; rfl)
    refine ⟨once, overlays.mp (by rw [given]; rfl), ?_, ?_⟩
    · intro host member other member'
      exact fresh.1 host (bare.mpr member) other (bare.mpr member')
    · intro host member other present
      rw [← overlaid_names once given present]
      exact fresh.2 host (bare.mpr member) other present
  · intro settle
    obtain ⟨s₁, overlaid⟩ := first.ok_of_isSome (overlays.mpr settle.freed)
    rw [overlaid] at first
    obtain ⟨at₁, given⟩ := first.of_ok
    have only₁ := unnamed_local at'.valid only overlaid
    have second := @waiting_simulated env doc _ s₁ at₁ only₁
    have bare {host : String} := @bareHosts_overlaid doc _ _ at₁.hosts given host
    have fresh := (@names_isSome_iff env doc _ s₁ at₁ only₁).mpr ⟨?_, ?_⟩
    · obtain ⟨s', done⟩ := second.ok_of_isSome fresh
      rw [done] at second
      obtain ⟨at₂, given₂⟩ := second.of_ok
      have derived : ∀ host ∈ bareHosts doc s.1.resources,
          nameAt s'.1.resources host = some (deterministicName env host) := by
        intro host member
        have distinct := @derivedNames_distinct env doc _ s₁ at₁ only₁
        have once := (List.pairwise_map.mp distinct).imp
          (fun differ same => absurd same differ : ∀ {a b : String × String}, a.1 ≠ b.1 →
            a.1 = b.1 → a.1 ∉ localHosts s.1.resources)
        have waits := (@mem_derivedNames env doc _ s₁ at₁ only₁ (host, deterministicName env host)).mpr
          ⟨bare.mpr member, rfl⟩
        exact Renaming.run_own given₂ once waits (mem_bareHosts.mp member).1
      refine ⟨s', by rw [namingSteps, overlaid]; exact done, ?_, derived, ?_⟩
      · intro i declared present
        have kept : nameAt s'.1.resources i.hostUri = nameAt s₁.1.resources i.hostUri := by
          refine Renaming.run_other given₂ ?_
          intro a member _ same
          have waits := (mem_derivedNames at₁ only₁).mp member
          exact unconfigured_iff.mp (mem_bareHosts.mp waits.1).2.1 i declared same
        rw [kept]
        exact overlaid_own settle.once given declared present
      · intro host member other member' differ
        rw [derived host member, derived other member']
        intro same
        exact settle.apart host member other member' differ (Option.some.inj same)
    · intro host member other member'
      exact settle.apart host (bare.mp member) other (bare.mp member')
    · intro host member other present
      rw [overlaid_names settle.once given present]
      exact settle.fresh host (bare.mp member) other present

def localHost (id : Uuid) (hostUri : String) (name : Option String) : ResourceRow where
  id := id
  kind := .localLibvirt
  name := name
  hostUri := hostUri
  costClass := "local"
  capabilities := some ∅
  pool := "default"
  managedBy := .discovery
  leaseExpiresAt := none
  ownerProject := none
  affinityAllowlist := []
  cordoned := false

def hostsCatalog (rows : List ResourceRow) : Catalog × ReconcileDiff :=
  ({ resources := rows, images := [], coefficients := [], overrides := [] }, {})

theorem configured_and_bare_host_named :
    let doc : InventoryDoc := { localLibvirt := [labInstance] }
    let rows := [localHost 1 "qemu:///system" (some "old"), localHost 2 "qemu+ssh://far/system" none]
    ∃ s', namingSteps bareSurroundings doc (hostsCatalog rows) = .ok s' ∧
      HostsNamed bareSurroundings doc rows s'.1.resources := by
  refine (naming_names_hosts_iff bareSurroundings { localLibvirt := [labInstance] }
    (hostsCatalog [localHost 1 "qemu:///system" (some "old"),
      localHost 2 "qemu+ssh://far/system" none]) ?_ ?_ ?_).mpr ?_
  · constructor <;> decide
  · refine ⟨?_, rfl, ?_, ?_, ?_⟩
    · constructor <;> decide
    · decide
    · decide
    · decide
  · decide
  · constructor <;> decide +kernel

/-- Two hosts exchange their names, and two hosts without an instance share a derived name. -/
theorem exchanged_names_end_pass :
    let swap : InventoryDoc := { localLibvirt := [{ labInstance with name := "b" },
      { labInstance with name := "a", hostUri := "qemu+ssh://far/system" }] }
    let named := [localHost 1 "qemu:///system" (some "a"),
      localHost 2 "qemu+ssh://far/system" (some "b")]
    let alike := [localHost 1 "qemu+ssh://far-lab/system" none,
      localHost 2 "qemu+ssh://far.lab/system" none]
    swap.Checked ∧ HostsAt (localHosts named) (hostsCatalog named) ∧
      namingSteps bareSurroundings swap (hostsCatalog named) = .error .uniqueViolation ∧
      HostsAt (localHosts alike) (hostsCatalog alike) ∧
      namingSteps bareSurroundings {} (hostsCatalog alike) = .error .uniqueViolation := by
  have hosts (rows : List ResourceRow) (valid : ResourcesValid rows)
      (distinct : (localHosts rows).Nodup)
      (locals : ∀ r ∈ rows, r.managedBy = .discovery ∧ r.capabilities ≠ none) :
      HostsAt (localHosts rows) (hostsCatalog rows) :=
    ⟨valid, rfl, distinct, fun r member _ => (locals r member).1, fun r member _ => (locals r member).2⟩
  refine ⟨?_, hosts _ ?_ ?_ ?_, ?_, hosts _ ?_ ?_ ?_, ?_⟩
  · constructor <;> decide
  · constructor <;> decide
  · decide
  · decide
  · decide +kernel
  · constructor <;> decide
  · decide
  · decide
  · decide +kernel

end Settling

end Kdive.Inventory
