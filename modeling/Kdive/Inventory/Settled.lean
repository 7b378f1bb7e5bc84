import Kdive.Inventory.Resources
import Mathlib.Data.List.Find

/-!
What the resource pass leaves behind: each of its four sweeps settles its own items, and none of them
disturbs what the sweeps before it settled.
-/
namespace Kdive.Inventory
open Json (Dict)

section Rows

variable {rows : List ResourceRow} {id : Uuid} {f : ResourceRow → ResourceRow} {r : ResourceRow}

theorem set_forward (member : r ∈ rows) (other : r.id ≠ id) : r ∈ setResource rows id f :=
  List.mem_map.mpr ⟨r, member, by simp [other]⟩

theorem set_own (member : r ∈ rows) : f r ∈ setResource rows r.id f :=
  List.mem_map.mpr ⟨r, member, by simp⟩

theorem set_backward (member : r ∈ setResource rows id f) :
    r ∈ rows ∨ ∃ old ∈ rows, old.id = id ∧ r = f old := by
  obtain ⟨old, there, rfl⟩ := List.mem_map.mp member
  by_cases own : old.id = id
  · exact .inr ⟨old, there, own, by simp [own]⟩
  · exact .inl (by simpa [own] using there)

/-- An update that leaves the id and the kind, and no discovered host config-managed. -/
structure KeepsResource (f : ResourceRow → ResourceRow) : Prop where
  id : ∀ r, (f r).id = r.id
  kind : ∀ r, (f r).kind = r.kind

theorem ResourcesValid.set (valid : ResourcesValid rows) (keeps : KeepsResource f)
    (names : ((setResource rows id f).filterMap ResourceRow.identity).Nodup)
    (discovered : ∀ r ∈ rows, r.id = id → r.kind = .localLibvirt → (f r).managedBy ≠ .config) :
    ResourcesValid (setResource rows id f) where
  ids := by
    have same : (setResource rows id f).map ResourceRow.id = rows.map ResourceRow.id := by
      simp only [setResource, List.map_map, List.map_inj_left, Function.comp_apply]
      intro r _
      by_cases own : r.id = id <;> simp [own, keeps.id]
    rw [same]
    exact valid.ids
  names := names
  discovered := by
    intro r member kind
    rcases set_backward member with old | ⟨old, there, own, rfl⟩
    · exact valid.discovered r old kind
    · exact discovered old there own (keeps.kind old ▸ kind)

theorem ResourcesValid.filter (valid : ResourcesValid rows) (p : ResourceRow → Bool) :
    ResourcesValid (rows.filter p) where
  ids := valid.ids.sublist (List.filter_sublist.map ResourceRow.id)
  names := valid.names.sublist (List.filter_sublist.filterMap ResourceRow.identity)
  discovered r member := valid.discovered r (List.mem_of_mem_filter member)

theorem ResourcesValid.append (valid : ResourcesValid rows) (fresh : r.id ∉ rows.map ResourceRow.id)
    (names : ((rows ++ [r]).filterMap ResourceRow.identity).Nodup)
    (kind : r.kind ≠ .localLibvirt) : ResourcesValid (rows ++ [r]) where
  ids := by
    rw [List.map_append, List.map_singleton]
    refine List.nodup_append.mpr ⟨valid.ids, List.nodup_singleton _, ?_⟩
    intro a held b new same
    rw [List.mem_singleton] at new
    exact fresh (new ▸ same ▸ held)
  names := names
  discovered := by
    intro s member discovered
    rcases List.mem_append.mp member with old | new
    · exact valid.discovered s old discovered
    · rw [List.mem_singleton.mp new] at discovered
      exact absurd discovered kind

theorem ResourcesValid.id_unique (valid : ResourcesValid rows) {s : ResourceRow} (left : r ∈ rows)
    (right : s ∈ rows) (same : r.id = s.id) : r = s :=
  List.inj_on_of_nodup_map valid.ids left right same

theorem ResourcesValid.name_unique (valid : ResourcesValid rows) {s : ResourceRow} {name : String}
    (left : r ∈ rows) (right : s ∈ rows) (kind : r.kind = s.kind) (named : r.name = some name)
    (named' : s.name = some name) : r = s := by
  have names := valid.names
  clear valid
  induction rows with
  | nil => cases left
  | cons t rest ih =>
    have key : ∀ {u : ResourceRow}, u.name = some name → u.identity = some (u.kind, name) := by
      intro u held
      simp [ResourceRow.identity, held]
    have tail : (rest.filterMap ResourceRow.identity).Nodup :=
      names.sublist (List.Sublist.filterMap _ (List.sublist_cons_self t rest))
    have clash : ∀ {u v : ResourceRow}, u = t → v ∈ rest → u.kind = v.kind →
        u.name = some name → v.name = some name → False := by
      rintro u v rfl there kinds name' name''
      rw [List.filterMap_cons_some (key name'), List.nodup_cons] at names
      refine names.1 (List.mem_filterMap.mpr ⟨v, there, ?_⟩)
      rw [key name'', kinds]
    rcases List.mem_cons.mp left with first | left' <;>
      rcases List.mem_cons.mp right with second | right'
    · rw [first, second]
    · exact (clash first right' kind named named').elim
    · exact (clash second left' kind.symm named' named).elim
    · exact ih left' right' tail

def localHosts (rows : List ResourceRow) : List String :=
  (rows.filter (fun r => r.kind = .localLibvirt)).map ResourceRow.hostUri

theorem localHosts_cons : localHosts (r :: rows) =
    (if r.kind = .localLibvirt then [r.hostUri] else []) ++ localHosts rows := by
  by_cases kind : r.kind = .localLibvirt <;> simp [localHosts, kind]

theorem localHosts_set (keeps : KeepsResource f)
    (hosts : ∀ r ∈ rows, r.id = id → r.kind = .localLibvirt → (f r).hostUri = r.hostUri) :
    localHosts (setResource rows id f) = localHosts rows := by
  induction rows with
  | nil => rfl
  | cons r rest ih =>
    have tail := ih (fun s member => hosts s (.tail r member))
    have head := hosts r (.head rest)
    rw [setResource, List.map_cons, localHosts_cons, localHosts_cons, ← setResource, tail]
    by_cases own : r.id = id <;> by_cases kind : r.kind = .localLibvirt <;>
      simp [own, kind, keeps.kind, head]

theorem localHosts_append (kind : r.kind ≠ .localLibvirt) :
    localHosts (rows ++ [r]) = localHosts rows := by
  simp [localHosts, List.filter_append, kind]

theorem localHosts_filter {p : ResourceRow → Bool}
    (kept : ∀ r ∈ rows, r.kind = .localLibvirt → p r = true) :
    localHosts (rows.filter p) = localHosts rows := by
  unfold localHosts
  rw [List.filter_filter]
  congr 1
  apply List.filter_congr
  intro r member
  by_cases kind : r.kind = .localLibvirt
  · simp [kind, kept r member kind]
  · simp [kind]

theorem checkedResources_ok {c c' : Catalog} (done : checkedResources c rows = .ok c') :
    c' = { c with resources := rows } ∧ (rows.filterMap ResourceRow.identity).Nodup := by
  unfold checkedResources at done
  split at done
  · rename_i names
    simp only [Except.ok.injEq] at done
    exact ⟨done.symm, names⟩
  · cases done

theorem findNamed_eq_some_iff (valid : ResourcesValid rows) {kind : ResourceKind} {name : String} :
    findNamed rows kind name = some r ↔ r ∈ rows ∧ r.kind = kind ∧ r.name = some name := by
  constructor
  · intro found
    have held := List.find?_some found
    simp only [decide_eq_true_eq] at held
    exact ⟨List.mem_of_find?_eq_some found, held⟩
  · rintro ⟨member, kind', named⟩
    cases found : findNamed rows kind name with
    | none =>
      have absent := List.find?_eq_none.mp found r member
      simp [kind', named] at absent
    | some s =>
      have held := List.find?_some found
      simp only [decide_eq_true_eq] at held
      rw [valid.name_unique (List.mem_of_find?_eq_some found) member (held.1.trans kind'.symm)
        held.2 named]

end Rows

section Merging

variable {u : ConfigResourceUpsert} {held : Dict} {key : String}

theorem lookup_owned (keys : List String) (base : Dict) :
    (keys.foldl (keepHeld held) base).lookup key =
      if key ∈ keys ∧ (held.lookup key).isSome then held.lookup key else base.lookup key := by
  induction keys generalizing base with
  | nil => simp
  | cons k rest ih =>
    rw [List.foldl_cons, ih, keepHeld]
    by_cases own : key = k
    · subst own
      cases found : held.lookup key with
      | none => simp
      | some value => simp
    · cases found : held.lookup k with
      | none => simp [own]
      | some value => simp [own, Finmap.lookup_insert_of_ne _ own]

theorem lookup_mergedCaps : (mergedCaps u held).lookup key =
    if key ∈ u.discoveryOwnedKeys ∧ (held.lookup key).isSome then held.lookup key
    else (u.declared.caps.lookup key).or (held.lookup key) := by
  rw [mergedCaps, lookup_owned, Dict.lookup_merge]

theorem mergedCaps_merged : mergedCaps u (mergedCaps u held) = mergedCaps u held := by
  apply Finmap.ext_lookup
  intro key
  rw [lookup_mergedCaps, lookup_mergedCaps]
  by_cases owned : key ∈ u.discoveryOwnedKeys <;>
    cases was : held.lookup key <;> cases new : u.declared.caps.lookup key <;> simp [owned]

theorem mergedCaps_declared : mergedCaps u u.declared.caps = u.declared.caps := by
  apply Finmap.ext_lookup
  intro key
  rw [lookup_mergedCaps]
  by_cases owned : key ∈ u.discoveryOwnedKeys <;>
    cases new : u.declared.caps.lookup key <;> simp [owned]

end Merging

section Upserts

variable {env : Surroundings} {u v : ConfigResourceUpsert} {s s' : Catalog × ReconcileDiff}

def Named (u : ConfigResourceUpsert) (r : ResourceRow) : Prop :=
  r.kind = u.declared.kind ∧ r.name = some u.declared.name

structure Conforms (u : ConfigResourceUpsert) (r : ResourceRow) : Prop where
  named : Named u r
  adopted : r.needsConfigAdoption = false
  caps : ∃ held, r.capabilities = some held ∧ (u.detached = false → mergedCaps u held = held)
  fields : u.detached = false → r.hostUri = u.declared.hostUri ∧
    r.costClass = u.declared.costClass ∧ r.pool = u.declared.pool

structure UpsertedRow (u : ConfigResourceUpsert) (c c' : Catalog) : Prop where
  rest : c' = { c with resources := c'.resources }
  valid : ResourcesValid c'.resources
  own : (∃ r ∈ c'.resources, Conforms u r) ∨
    c' = c ∧ u.detached = true ∧ findExisting c.resources u = none
  forward : ∀ r ∈ c.resources, r.name ≠ none → ¬ Named u r → r ∈ c'.resources
  backward : ∀ r ∈ c'.resources, r ∈ c.resources ∨ Named u r
  hosts : localHosts c'.resources = localHosts c.resources
  steady : u.detached = true → (∃ r ∈ c.resources, Named u r ∧ r.needsConfigAdoption = false) →
    c' = c

theorem findExisting_named {rows : List ResourceRow} {r : ResourceRow} (valid : ResourcesValid rows)
    (there : r ∈ rows) (named : Named u r) : findExisting rows u = some r := by
  have found := (findNamed_eq_some_iff valid).mpr ⟨there, named.1, named.2⟩
  simp only [findExisting, found]

theorem findExisting_cases {rows : List ResourceRow} {r : ResourceRow}
    (found : findExisting rows u = some r) : r ∈ rows ∧ r.kind = u.declared.kind ∧
      (r.name = some u.declared.name ∨ r.name = none) := by
  unfold findExisting at found
  split at found
  · rename_i named
    simp only [Option.some.injEq] at found
    subst found
    have held := List.find?_some named
    simp only [decide_eq_true_eq] at held
    exact ⟨List.mem_of_find?_eq_some named, held.1, .inl held.2⟩
  · split at found
    · have held := List.find?_some found
      simp only [decide_eq_true_eq] at held
      exact ⟨List.mem_of_find?_eq_some found, held.1, .inr held.2.2⟩
    · cases found

theorem writeResource_ok {d : DeclaredResource} {r : ResourceRow} {f : ResourceRow → ResourceRow}
    (done : writeResource d r.id f s = .ok s') :
    s'.1 = { s.1 with resources := setResource s.1.resources r.id f } ∧
      ((setResource s.1.resources r.id f).filterMap ResourceRow.identity).Nodup := by
  unfold writeResource at done
  simp only [bind, Except.bind] at done
  split at done
  · cases done
  rename_i c written
  simp only [pure, Except.pure, Except.ok.injEq] at done
  subst done
  exact checkedResources_ok written

theorem adopted_keeps (d : DeclaredResource) (caps : Dict) :
    KeepsResource (ResourceRow.adopted d caps) :=
  ⟨fun _ => rfl, fun _ => rfl⟩

theorem configured_keeps (d : DeclaredResource) (caps : Dict) :
    KeepsResource (ResourceRow.configured d caps) :=
  ⟨fun _ => rfl, fun _ => rfl⟩

theorem UpsertedRow.of_write {r : ResourceRow} {f : ResourceRow → ResourceRow}
    (valid : ResourcesValid s.1.resources) (kind : u.declared.kind ≠ .localLibvirt)
    (keeps : KeepsResource f) (found : findExisting s.1.resources u = some r)
    (done : writeResource u.declared r.id f s = .ok s') (conforms : Conforms u (f r))
    (written : u.detached = true → r.needsConfigAdoption = true) :
    UpsertedRow u s.1 s'.1 := by
  obtain ⟨there, same, named⟩ := findExisting_cases found
  obtain ⟨rest, names⟩ := writeResource_ok done
  have rows : s'.1.resources = setResource s.1.resources r.id f := by rw [rest]
  have foreign : ∀ old ∈ s.1.resources, old.id = r.id → old.kind ≠ .localLibvirt := by
    intro old member own
    rw [valid.id_unique member there own, same]
    exact kind
  refine ⟨by rw [rest], ?_, .inl ⟨f r, ?_, conforms⟩, ?_, ?_, ?_, ?_⟩
  · rw [rows]
    refine valid.set keeps names ?_
    intro old member own discovered
    exact absurd discovered (foreign old member own)
  · rw [rows]
    exact set_own there
  · intro old member hasName other
    rw [rows]
    refine set_forward member ?_
    intro own
    have equal := valid.id_unique member there own
    rcases named with named | unnamed
    · exact other ⟨equal ▸ same, equal ▸ named⟩
    · exact hasName (equal ▸ unnamed)
  · intro new member
    rw [rows] at member
    rcases set_backward member with old | ⟨old, member', own, rfl⟩
    · exact .inl old
    · rw [valid.id_unique member' there own]
      exact .inr conforms.named
  · rw [rows]
    refine localHosts_set keeps ?_
    intro old member own discovered
    exact absurd discovered (foreign old member own)
  · rintro detached ⟨q, member, mine, adopted⟩
    rw [findExisting_named valid member mine, Option.some.injEq] at found
    rw [found, written detached] at adopted
    cases adopted

theorem upsertConfigResource_ok (valid : ResourcesValid s.1.resources)
    (kind : u.declared.kind ≠ .localLibvirt) (done : upsertConfigResource env u s = .ok s') :
    UpsertedRow u s.1 s'.1 := by
  have unchanged (own : (∃ r ∈ s.1.resources, Conforms u r) ∨
      u.detached = true ∧ findExisting s.1.resources u = none) : UpsertedRow u s.1 s.1 :=
    ⟨rfl, valid, own.imp_right (fun ghost => ⟨rfl, ghost⟩), fun _ member _ _ => member,
      fun _ member => .inl member, rfl, fun _ _ => rfl⟩
  unfold upsertConfigResource at done
  split at done
  · rename_i absent
    split at done
    · rename_i detached
      simp only [Except.ok.injEq] at done
      subst done
      exact unchanged (.inr ⟨detached, absent⟩)
    · rename_i attached
      unfold insertConfigResource at done
      simp only [bind, Except.bind] at done
      split at done
      · cases done
      rename_i c written
      simp only [pure, Except.pure, Except.ok.injEq] at done
      subst done
      obtain ⟨rfl, names⟩ := checkedResources_ok written
      refine ⟨rfl, valid.append (env.fresh _) names kind,
        .inl ⟨_, List.mem_append_right _ (List.mem_singleton_self _), ⟨rfl, rfl⟩, ?_,
          ⟨_, rfl, fun _ => mergedCaps_declared⟩, fun _ => ⟨rfl, rfl, rfl⟩⟩, ?_, ?_,
        localHosts_append kind, fun detached => absurd detached attached⟩
      · simp [ResourceRow.needsConfigAdoption]
      · intro old member _ _
        exact List.mem_append_left _ member
      · intro new member
        rcases List.mem_append.mp member with old | new'
        · exact .inl old
        · rw [List.mem_singleton.mp new']
          exact .inr ⟨rfl, rfl⟩
  rename_i row found
  obtain ⟨there, same, named⟩ := findExisting_cases found
  split at done
  · cases done
  rename_i held caps
  split at done
  · rename_i needed
    refine .of_write valid kind (adopted_keeps _ _) found done ?_ (fun _ => needed)
    refine ⟨⟨same, rfl⟩, by simp [ResourceRow.adopted, ResourceRow.needsConfigAdoption],
      ⟨_, rfl, fun _ => mergedCaps_merged⟩, fun _ => ⟨rfl, rfl, rfl⟩⟩
  rename_i adopted
  rw [Bool.not_eq_true] at adopted
  have hasName : row.name = some u.declared.name := by
    rcases named with named | unnamed
    · exact named
    · simp [ResourceRow.needsConfigAdoption, unnamed] at adopted
  split at done
  · rename_i detached
    simp only [Except.ok.injEq] at done
    subst done
    refine unchanged (.inl ⟨row, there, ⟨same, hasName⟩, adopted, ⟨held, caps, ?_⟩, ?_⟩) <;>
    · intro attached
      simp [attached] at detached
  rename_i attached
  unfold updateConfigResource at done
  split at done
  · rename_i fields
    simp only [Except.ok.injEq] at done
    subst done
    refine unchanged (.inl ⟨row, there, ⟨same, hasName⟩, adopted, ⟨held, caps, fun _ => ?_⟩,
      fun _ => ⟨fields.1, fields.2.1, fields.2.2.2⟩⟩)
    rw [caps, Option.some.injEq] at fields
    exact fields.2.2.1.symm
  · refine .of_write valid kind (configured_keeps _ _) found done ?_
      (fun detached => absurd detached attached)
    refine ⟨⟨same, hasName⟩, ?_, ⟨_, rfl, fun _ => mergedCaps_merged⟩, fun _ => ⟨rfl, rfl, rfl⟩⟩
    exact adopted

def SettledRow (u : ConfigResourceUpsert) (rows : List ResourceRow) : Prop :=
  (∃ r ∈ rows, Conforms u r) ∨ u.detached = true ∧ ∀ r ∈ rows, ¬ Named u r

theorem unnamed_of_absent {rows : List ResourceRow} (absent : findExisting rows u = none) :
    ∀ r ∈ rows, ¬ Named u r := by
  unfold findExisting at absent
  split at absent
  · cases absent
  · rename_i none
    intro r member named
    have unmatched := List.find?_eq_none.mp none r member
    simp [named.1, named.2] at unmatched

theorem upsertRows_establish (env : Surroundings) :
    Sweep.Establishes (upsertConfigResource env)
      (fun u v => (u.declared.kind, u.declared.name) ≠ (v.declared.kind, v.declared.name))
      (fun u s => ResourcesValid s.1.resources ∧ u.declared.kind ≠ .localLibvirt)
      (fun u s => ResourcesValid s.1.resources ∧ SettledRow u s.1.resources) where
  own := by
    intro u s s' ready done
    have step := upsertConfigResource_ok ready.1 ready.2 done
    refine ⟨step.valid, step.own.imp_right ?_⟩
    rintro ⟨same, detached, absent⟩
    rw [same]
    exact ⟨detached, unnamed_of_absent absent⟩
  waiting := by
    intro u v s s' _ ready due done
    exact ⟨(upsertConfigResource_ok ready.1 ready.2 done).valid, due.2⟩
  done := by
    intro u v s s' apart settled due done
    have step := upsertConfigResource_ok due.1 due.2 done
    have other : ∀ r, Named u r → ¬ Named v r := by
      intro r mine theirs
      have names := mine.2.symm.trans theirs.2
      rw [Option.some.injEq] at names
      exact apart (by rw [← mine.1, ← theirs.1, names])
    refine ⟨step.valid, settled.2.imp ?_ ?_⟩
    · rintro ⟨r, member, conforms⟩
      refine ⟨r, step.forward r member ?_ (other r conforms.named), conforms⟩
      rw [conforms.named.2]
      exact nofun
    · rintro ⟨detached, ghost⟩
      refine ⟨detached, fun r member named => ?_⟩
      rcases step.backward r member with old | theirs
      · exact ghost r old named
      · exact other r named theirs

end Upserts

section Overlays

variable {rows : List ResourceRow} {i j : LocalLibvirtInstance} {s s' : Catalog × ReconcileDiff}

def Overlaid (i : LocalLibvirtInstance) (rows : List ResourceRow) : Prop :=
  ∀ r, localAt rows i.hostUri = some r → r.name = some i.name ∧ r.costClass = i.costClass ∧
    r.pool = i.pool ∧ ∃ held, r.capabilities = some held ∧
      held.insert concurrentAllocationCapKey (.ofInt i.concurrentAllocationCap) = held

theorem localAt_mem {r : ResourceRow} {host : String} (found : localAt rows host = some r) :
    r ∈ rows ∧ r.kind = .localLibvirt ∧ r.hostUri = host := by
  have held := List.find?_some found
  simp only [decide_eq_true_eq] at held
  exact ⟨List.mem_of_find?_eq_some found, held⟩

theorem localAt_eq_none {host : String} : localAt rows host = none ↔ host ∉ localHosts rows := by
  simp only [localAt, List.find?_eq_none, decide_eq_true_eq, not_and, localHosts, List.mem_map,
    List.mem_filter, not_exists]
  constructor
  · rintro absent r ⟨member, kind⟩ rfl
    exact absent r member kind rfl
  · intro absent r member kind same
    exact absent r ⟨member, kind⟩ same

theorem overlaid_keeps (i : LocalLibvirtInstance) (caps : Dict) :
    KeepsResource (ResourceRow.overlaid i caps) :=
  ⟨fun _ => rfl, fun _ => rfl⟩

theorem localAt_set {id : Uuid} {host : String} {f : ResourceRow → ResourceRow}
    (keeps : KeepsResource f) (hosts : ∀ r, (f r).hostUri = r.hostUri) :
    localAt (setResource rows id f) host =
      (localAt rows host).map (fun r => if r.id = id then f r else r) := by
  simp only [localAt, setResource, List.find?_map]
  congr 2
  funext r
  by_cases own : r.id = id <;> simp [own, keeps.kind, hosts]

theorem localAt_set_other {host : String} {f : ResourceRow → ResourceRow} {row : ResourceRow}
    (keeps : KeepsResource f) (hosts : ∀ r, (f r).hostUri = r.hostUri)
    (valid : ResourcesValid rows) (there : row ∈ rows) (elsewhere : row.hostUri ≠ host) :
    localAt (setResource rows row.id f) host = localAt rows host := by
  rw [localAt_set keeps hosts]
  cases found : localAt rows host with
  | none => rfl
  | some r =>
    have distinct : r.id ≠ row.id := by
      intro same
      obtain ⟨member, -, at'⟩ := localAt_mem found
      rw [valid.id_unique member there same] at at'
      exact elsewhere at'
    simp [distinct]

structure OverlaidRow (i : LocalLibvirtInstance) (c c' : Catalog) : Prop where
  rest : c' = { c with resources := c'.resources }
  valid : ResourcesValid c'.resources
  own : Overlaid i c'.resources
  others : ∀ host, host ≠ i.hostUri → localAt c'.resources host = localAt c.resources host
  hosts : localHosts c'.resources = localHosts c.resources
  forward : ∀ r ∈ c.resources, r.kind ≠ .localLibvirt → r ∈ c'.resources
  backward : ∀ r ∈ c'.resources, r ∈ c.resources ∨ r.kind = .localLibvirt ∧ r.name ≠ none

theorem overlayOneLocal_ok (valid : ResourcesValid s.1.resources)
    (done : overlayOneLocal i s = .ok s') : OverlaidRow i s.1 s'.1 := by
  have unchanged (own : Overlaid i s.1.resources) : OverlaidRow i s.1 s.1 :=
    ⟨rfl, valid, own, fun _ _ => rfl, rfl, fun _ member _ => member, fun _ member => .inl member⟩
  unfold overlayOneLocal at done
  split at done
  · rename_i absent
    simp only [Except.ok.injEq] at done
    subst done
    refine unchanged (fun r found => ?_)
    rw [absent] at found
    cases found
  rename_i row found
  obtain ⟨there, kind, host⟩ := localAt_mem found
  split at done
  · cases done
  rename_i held caps
  dsimp only at done
  split at done
  · simp only [bind, Except.bind] at done
    split at done
    · cases done
    rename_i c written
    simp only [pure, Except.pure, Except.ok.injEq] at done
    subst done
    obtain ⟨rfl, names⟩ := checkedResources_ok written
    refine ⟨rfl, valid.set (overlaid_keeps _ _) names ?_, ?_, ?_,
      localHosts_set (overlaid_keeps _ _) (fun _ _ _ _ => rfl), ?_, ?_⟩
    · intro r member own discovered
      exact valid.discovered r member discovered
    · intro r again
      rw [localAt_set (overlaid_keeps _ _) (fun _ => rfl), found] at again
      simp only [Option.map_some, if_true, Option.some.injEq] at again
      subst again
      refine ⟨rfl, rfl, rfl, _, rfl, ?_⟩
      exact Finmap.insert_insert ..
    · intro other differs
      refine localAt_set_other (overlaid_keeps _ _) (fun _ => rfl) valid there ?_
      rw [host]
      exact Ne.symm differs
    · intro r member discovered
      refine set_forward member ?_
      intro same
      exact discovered (valid.id_unique member there same ▸ kind)
    · intro r member
      rcases set_backward member with old | ⟨old, member', own, rfl⟩
      · exact .inl old
      · rw [valid.id_unique member' there own]
        exact .inr ⟨kind, nofun⟩
  · rename_i same
    simp only [Except.ok.injEq] at done
    subst done
    refine unchanged (fun r again => ?_)
    rw [found, Option.some.injEq] at again
    subst again
    simp only [not_or, not_not] at same
    refine ⟨same.1, same.2.1, same.2.2.2, held, caps, ?_⟩
    rw [caps, Option.some.injEq] at same
    exact same.2.2.1.symm

theorem overlays_establish (hosts : List String) :
    Sweep.Establishes overlayOneLocal
      (fun i j => i.hostUri = j.hostUri → i.hostUri ∉ hosts)
      (fun _ s => ResourcesValid s.1.resources ∧ localHosts s.1.resources = hosts)
      (fun i s => localHosts s.1.resources = hosts ∧ Overlaid i s.1.resources) where
  own := by
    intro i s s' ready done
    have step := overlayOneLocal_ok ready.1 done
    exact ⟨step.hosts.trans ready.2, step.own⟩
  waiting := by
    intro i j s s' _ ready _ done
    have step := overlayOneLocal_ok ready.1 done
    exact ⟨step.valid, step.hosts.trans ready.2⟩
  done := by
    intro i j s s' apart settled due done
    have step := overlayOneLocal_ok due.1 done
    refine ⟨step.hosts.trans due.2, ?_⟩
    by_cases shared : i.hostUri = j.hostUri
    · intro r found
      have none := localAt_eq_none.mpr (step.hosts.trans due.2 ▸ apart shared)
      rw [none] at found
      cases found
    · intro r found
      rw [step.others _ shared] at found
      exact settled.2 r found

end Overlays

section Naming

variable {env : Surroundings} {doc : InventoryDoc} {row : ResourceRow}
  {s s' : Catalog × ReconcileDiff}

/-- Discovered rows without a name wait for an instance at their host. -/
def NamedDone (doc : InventoryDoc) (rows : List ResourceRow) : Prop :=
  ∀ r ∈ rows, r.managedBy = .discovery → r.name = none →
    r.hostUri ∈ doc.localLibvirt.map LocalLibvirtInstance.hostUri

structure NamedRow (doc : InventoryDoc) (row : ResourceRow) (c c' : Catalog) : Prop where
  rest : c' = { c with resources := c'.resources }
  valid : ResourcesValid c'.resources
  own : row.hostUri ∈ doc.localLibvirt.map LocalLibvirtInstance.hostUri ∨ row ∉ c'.resources
  forward : ∀ r ∈ c.resources, r.id ≠ row.id → r ∈ c'.resources
  backward : ∀ r ∈ c'.resources, r ∈ c.resources ∨ r.managedBy = .discovery ∧ r.name ≠ none
  hosts : localHosts c'.resources = localHosts c.resources
  overlays : ∀ i ∈ doc.localLibvirt, Overlaid i c.resources → Overlaid i c'.resources

theorem nameDiscovered_ok (valid : ResourcesValid s.1.resources) (there : row ∈ s.1.resources)
    (discovered : row.managedBy = .discovery) (unnamed : row.name = none)
    (done : nameDiscovered env doc row s = .ok s') : NamedRow doc row s.1 s'.1 := by
  unfold nameDiscovered at done
  split at done
  · rename_i configured
    simp only [Except.ok.injEq] at done
    subst done
    exact ⟨rfl, valid, .inl configured, fun _ member _ => member, fun _ member => .inl member, rfl,
      fun _ _ held => held⟩
  rename_i claimed
  simp only [bind, Except.bind] at done
  split at done
  · cases done
  rename_i c written
  simp only [pure, Except.pure, Except.ok.injEq] at done
  subst done
  obtain ⟨rfl, names⟩ := checkedResources_ok written
  have keeps : KeepsResource
      (fun r => { r with name := some (deterministicName env row.hostUri) }) :=
    ⟨fun _ => rfl, fun _ => rfl⟩
  refine ⟨rfl, valid.set keeps names ?_, .inr ?_, fun r member => set_forward member, ?_,
    localHosts_set keeps (fun _ _ _ _ => rfl), ?_⟩
  · intro r member _ kind
    exact valid.discovered r member kind
  · intro still
    obtain ⟨old, -, same⟩ := List.mem_map.mp still
    split at same
    · rw [← same] at unnamed
      cases unnamed
    · rename_i other
      exact other (by rw [same])
  · intro r member
    rcases set_backward member with old | ⟨old, member', own, rfl⟩
    · exact .inl old
    · rw [valid.id_unique member' there own]
      exact .inr ⟨discovered, nofun⟩
  · intro i member overlaid r found
    rw [localAt_set_other keeps (fun _ => rfl) valid there] at found
    · exact overlaid r found
    · intro same
      exact claimed (same ▸ List.mem_map_of_mem member)

theorem names_establish (env : Surroundings) (doc : InventoryDoc) :
    Sweep.Establishes (nameDiscovered env doc) (fun r q => r.id ≠ q.id)
      (fun r s => ResourcesValid s.1.resources ∧ r ∈ s.1.resources ∧ r.managedBy = .discovery ∧
        r.name = none)
      (fun r s => r.hostUri ∈ doc.localLibvirt.map LocalLibvirtInstance.hostUri ∨
        r ∉ s.1.resources ∧ r.name = none) where
  own := by
    intro r s s' ready done
    have step := nameDiscovered_ok ready.1 ready.2.1 ready.2.2.1 ready.2.2.2 done
    exact step.own.imp_right (fun gone => ⟨gone, ready.2.2.2⟩)
  waiting := by
    intro r q s s' apart ready due done
    have step := nameDiscovered_ok ready.1 ready.2.1 ready.2.2.1 ready.2.2.2 done
    exact ⟨step.valid, step.forward q due.2.1 (Ne.symm apart), due.2.2⟩
  done := by
    intro r q s s' _ settled due done
    have step := nameDiscovered_ok due.1 due.2.1 due.2.2.1 due.2.2.2 done
    refine settled.imp_right ?_
    rintro ⟨gone, unnamed⟩
    refine ⟨fun member => ?_, unnamed⟩
    rcases step.backward r member with old | ⟨-, named⟩
    · exact gone old
    · exact named unnamed

end Naming

section Prunes

variable {env : Surroundings} {doc : InventoryDoc} {overrides : List InventoryOverride}
  {row : ResourceRow} {s s' : Catalog × ReconcileDiff}

def ResourceRow.key (r : ResourceRow) (name : String) : ResourceIdentity := (r.kind.value, name)

def Spared (doc : InventoryDoc) (overrides : List InventoryOverride) (r : ResourceRow)
    (name : String) : Prop :=
  r.key name ∈ declaredConfigIdentities doc ∧ disposition overrides (r.key name) ≠ some .removed ∨
    disposition overrides (r.key name) = some .detached

def heldBack (env : Surroundings) (overrides : List InventoryOverride) (r : ResourceRow)
    (name : String) : Bool :=
  if disposition overrides (r.key name) = some .removed then env.anyAllocation r.id
  else env.liveAllocation r.id

def Kept (env : Surroundings) (doc : InventoryDoc) (overrides : List InventoryOverride)
    (r : ResourceRow) : Prop :=
  ∃ name, r.name = some name ∧
    (Spared doc overrides r name ∨ r.cordoned = true ∧ heldBack env overrides r name = true)

structure PrunedRow (env : Surroundings) (doc : InventoryDoc) (overrides : List InventoryOverride)
    (row : ResourceRow) (c c' : Catalog) : Prop where
  rest : c' = { c with resources := c'.resources }
  valid : ResourcesValid c'.resources
  own : ∀ r ∈ c'.resources, r.id = row.id → Kept env doc overrides r
  forward : ∀ r ∈ c.resources, (r.id ≠ row.id ∨ ∃ name, r.name = some name ∧
    Spared doc overrides r name) → r ∈ c'.resources
  backward : ∀ r ∈ c'.resources, r ∈ c.resources ∨ ∃ old ∈ c.resources, old.id = row.id ∧
    r.id = row.id ∧ r.name = old.name ∧ r.kind = old.kind ∧ r.managedBy = .config ∧
      ¬ ∃ name, old.name = some name ∧ Spared doc overrides old name
  hosts : localHosts c'.resources = localHosts c.resources
  locals : ∀ host, localAt c'.resources host = localAt c.resources host

theorem set_names {rows : List ResourceRow} {id : Uuid} {f : ResourceRow → ResourceRow}
    (keeps : KeepsResource f) (names : ∀ r, (f r).name = r.name) :
    (setResource rows id f).filterMap ResourceRow.identity =
      rows.filterMap ResourceRow.identity := by
  rw [setResource, List.filterMap_map]
  congr 1
  funext r
  by_cases own : r.id = id <;> simp [own, ResourceRow.identity, keeps.kind, names]

theorem config_foreign (valid : ResourcesValid s.1.resources) (there : row ∈ s.1.resources)
    (managed : row.managedBy = .config) : row.kind ≠ .localLibvirt :=
  fun kind => valid.discovered row there kind managed

structure Cordons (f : ResourceRow → ResourceRow) : Prop extends KeepsResource f where
  names : ∀ r, (f r).name = r.name
  hosts : ∀ r, (f r).hostUri = r.hostUri
  managers : ∀ r, (f r).managedBy = r.managedBy
  cordoned : ∀ r, (f r).cordoned = true
  settled : ∀ r, r.cordoned = true → f r = r

theorem cordon_cordons : Cordons ResourceRow.cordon := by
  refine ⟨⟨?_, ?_⟩, ?_, ?_, ?_, ?_, ?_⟩ <;>
  · intro r
    by_cases held : r.cordoned <;> simp [ResourceRow.cordon, held]

theorem cordonRemoved_cordons : Cordons ResourceRow.cordonRemoved := by
  refine ⟨⟨?_, ?_⟩, ?_, ?_, ?_, ?_, ?_⟩ <;>
  · intro r
    by_cases held : r.cordoned <;> simp [ResourceRow.cordonRemoved, held]

theorem PrunedRow.of_cordon {f : ResourceRow → ResourceRow} {diff : ReconcileDiff}
    (valid : ResourcesValid s.1.resources) (there : row ∈ s.1.resources)
    (managed : row.managedBy = .config) (cordons : Cordons f) (kept : Kept env doc overrides (f row))
    (exposed : ¬ ∃ name, row.name = some name ∧ Spared doc overrides row name)
    (done : s' = ({ s.1 with resources := setResource s.1.resources row.id f }, diff)) :
    PrunedRow env doc overrides row s.1 s'.1 := by
  subst done
  have foreign := config_foreign valid there managed
  have keeps := cordons.toKeepsResource
  refine ⟨rfl, valid.set keeps ?_ ?_, ?_, ?_, ?_, localHosts_set keeps
    (fun r _ _ _ => cordons.hosts r), ?_⟩
  · rw [set_names keeps cordons.names]
    exact valid.names
  · intro r member _ kind
    rw [cordons.managers]
    exact valid.discovered r member kind
  · intro r member own
    obtain ⟨old, member', rfl⟩ := List.mem_map.mp member
    have same : old.id = row.id := by
      split at own
      · assumption
      · exact own
    rw [if_pos same, valid.id_unique member' there same]
    exact kept
  · rintro r member (other | spared)
    · exact set_forward member other
    · refine set_forward member ?_
      intro same
      rw [valid.id_unique member there same] at spared
      exact exposed spared
  · intro r member
    rcases set_backward member with old | ⟨old, member', own, rfl⟩
    · exact .inl old
    · have same := valid.id_unique member' there own
      refine .inr ⟨old, member', own, ?_, cordons.names old, keeps.kind old, ?_, ?_⟩
      · rw [keeps.id, own]
      · rw [cordons.managers, same, managed]
      · rw [same]
        exact exposed
  · intro host
    rw [localAt_set keeps cordons.hosts]
    cases found : localAt s.1.resources host with
    | none => rfl
    | some r =>
      have distinct : r.id ≠ row.id := by
        intro same
        obtain ⟨member, kind, -⟩ := localAt_mem found
        rw [valid.id_unique member there same] at kind
        exact foreign kind
      simp [distinct]

theorem PrunedRow.of_delete {name : String} (valid : ResourcesValid s.1.resources)
    (there : row ∈ s.1.resources) (managed : row.managedBy = .config)
    (exposed : ¬ ∃ name, row.name = some name ∧ Spared doc overrides row name)
    (done : deleteResource env row name s = .ok s') : PrunedRow env doc overrides row s.1 s'.1 := by
  have foreign := config_foreign valid there managed
  unfold deleteResource at done
  split at done
  · cases done
  simp only [Except.ok.injEq] at done
  subst done
  have others : ∀ r ∈ s.1.resources, r.kind = .localLibvirt →
      decide (r.id ≠ row.id) = true := by
    intro r member kind
    rw [decide_eq_true_eq]
    intro same
    rw [valid.id_unique member there same] at kind
    exact foreign kind
  refine ⟨rfl, valid.filter _, ?_, ?_, ?_, localHosts_filter others, ?_⟩
  · intro r member own
    simp [own] at member
  · rintro r member (other | spared)
    · simp [member, other]
    · have other : r.id ≠ row.id := by
        intro same
        rw [valid.id_unique member there same] at spared
        exact exposed spared
      simp [member, other]
  · intro r member
    exact .inl (List.mem_of_mem_filter member)
  · intro host
    simp only [localAt]
    rw [List.find?_filter]
    apply List.find?_congr
    intro r member
    by_cases kind : r.kind = .localLibvirt
    · have other := others r member kind
      simp [of_decide_eq_true other]
    · simp [kind]

theorem find_config (valid : ResourcesValid s.1.resources) (there : row ∈ s.1.resources)
    (managed : row.managedBy = .config) :
    s.1.resources.find? (fun r => r.id = row.id ∧ r.managedBy = .config) = some row := by
  cases found : s.1.resources.find? (fun r => r.id = row.id ∧ r.managedBy = .config) with
  | none =>
    have absent := List.find?_eq_none.mp found row there
    simp [managed] at absent
  | some r =>
    have held := List.find?_some found
    simp only [decide_eq_true_eq] at held
    rw [valid.id_unique (List.mem_of_find?_eq_some found) there held.1]

theorem kept_of_cordon {f : ResourceRow → ResourceRow} {name : String} (cordons : Cordons f)
    (named : row.name = some name)
    (used : heldBack env overrides row name = true) : Kept env doc overrides (f row) := by
  refine ⟨name, (cordons.names row).trans named, .inr ⟨cordons.cordoned row, ?_⟩⟩
  have key : (f row).key name = row.key name := by
    rw [ResourceRow.key, cordons.kind, ResourceRow.key]
  rw [heldBack, key, cordons.id]
  exact used

theorem pruneDeparted_ok (valid : ResourcesValid s.1.resources) (there : row ∈ s.1.resources)
    (managed : row.managedBy = .config) (done : pruneDeparted env doc overrides row s = .ok s') :
    PrunedRow env doc overrides row s.1 s'.1 := by
  unfold pruneDeparted at done
  split at done
  · cases done
  rename_i name named
  have spared_ok (spared : Spared doc overrides row name) (same : s' = s) :
      PrunedRow env doc overrides row s.1 s'.1 := by
    subst same
    refine ⟨rfl, valid, ?_, fun _ member _ => member, fun _ member => .inl member, rfl,
      fun _ => rfl⟩
    intro r member own
    rw [valid.id_unique member there own]
    exact ⟨name, named, .inl spared⟩
  dsimp only at done
  split at done
  · rename_i declared
    simp only [Except.ok.injEq] at done
    exact spared_ok (.inl declared) done.symm
  rename_i undeclared
  split at done
  · rename_i detached
    simp only [Except.ok.injEq] at done
    exact spared_ok (.inr detached) done.symm
  rename_i attached
  have exposed : ¬ ∃ name, row.name = some name ∧ Spared doc overrides row name := by
    rintro ⟨other, again, spared⟩
    rw [named, Option.some.injEq] at again
    subst again
    rcases spared with declared | detached
    · exact undeclared declared
    · exact attached detached
  simp only [find_config valid there managed] at done
  split at done
  · rename_i removed
    unfold pruneOrCordonRemovedResource at done
    split at done
    · rename_i allocated
      simp only [Except.ok.injEq] at done
      refine .of_cordon valid there managed cordonRemoved_cordons ?_ exposed done.symm
      refine kept_of_cordon cordonRemoved_cordons named ?_
      exact (if_pos removed).trans allocated
    · exact .of_delete valid there managed exposed done
  · rename_i departed
    unfold pruneOrCordonResource at done
    split at done
    · rename_i live
      simp only [Except.ok.injEq] at done
      refine .of_cordon valid there managed cordon_cordons ?_ exposed done.symm
      refine kept_of_cordon cordon_cordons named ?_
      exact (if_neg departed).trans live
    · exact .of_delete valid there managed exposed done

theorem pruneRows_establish (env : Surroundings) (doc : InventoryDoc)
    (overrides : List InventoryOverride) :
    Sweep.Establishes (pruneDeparted env doc overrides) (fun r q => r.id ≠ q.id)
      (fun r s => ResourcesValid s.1.resources ∧ r ∈ s.1.resources ∧ r.managedBy = .config)
      (fun r s => ∀ q ∈ s.1.resources, q.id = r.id → Kept env doc overrides q) where
  own := by
    intro r s s' ready done
    exact (pruneDeparted_ok ready.1 ready.2.1 ready.2.2 done).own
  waiting := by
    intro r q s s' apart ready due done
    have step := pruneDeparted_ok ready.1 ready.2.1 ready.2.2 done
    exact ⟨step.valid, step.forward q due.2.1 (.inl (Ne.symm apart)), due.2.2⟩
  done := by
    intro r q s s' apart settled due done p member own
    have step := pruneDeparted_ok due.1 due.2.1 due.2.2 done
    rcases step.backward p member with old | ⟨-, -, -, id, -⟩
    · exact settled p old own
    · exact absurd (own.symm.trans id) apart

end Prunes

section Requests

variable {doc : InventoryDoc} {overrides : List InventoryOverride} {u : ConfigResourceUpsert}
  {d : DeclaredResource} {identity : ResourceIdentity}

theorem upsertOf_eq_some {adopt : Bool} {owned : List String}
    (made : upsertOf overrides d adopt owned = some u) : u.declared = d ∧
      disposition overrides d.identity ≠ some .removed ∧
      (u.detached = true ↔ disposition overrides d.identity = some .detached) := by
  unfold upsertOf at made
  split at made
  · cases made
  all_goals
    rename_i held
    simp only [Option.some.injEq] at made
    subst made
    simp [held]

theorem exists_upsertOf (adopt : Bool) (owned : List String)
    (present : disposition overrides d.identity ≠ some .removed) :
    ∃ u, upsertOf overrides d adopt owned = some u := by
  unfold upsertOf
  split
  · rename_i removed
    exact absurd removed present
  · exact ⟨_, rfl⟩
  · exact ⟨_, rfl⟩

def declaredResources (doc : InventoryDoc) : List DeclaredResource :=
  doc.faultInject.map FaultInjectInstance.declared ++
    doc.remoteLibvirt.map RemoteLibvirtInstance.declared ++
    doc.byoHost.map ByoHostInstance.declared

theorem mem_upserts (member : u ∈ configResourceUpserts doc overrides) :
    u.declared ∈ declaredResources doc ∧
      disposition overrides u.declared.identity ≠ some .removed ∧
      (u.detached = true ↔ disposition overrides u.declared.identity = some .detached) := by
  simp only [configResourceUpserts, List.mem_append, List.mem_filterMap] at member
  simp only [declaredResources, List.mem_append, List.mem_map]
  rcases member with (⟨i, there, made⟩ | ⟨i, there, made⟩) | ⟨i, there, made⟩
  · obtain ⟨same, rest⟩ := upsertOf_eq_some made
    rw [same]
    exact ⟨.inl (.inl ⟨i, there, rfl⟩), rest⟩
  · obtain ⟨same, rest⟩ := upsertOf_eq_some made
    rw [same]
    exact ⟨.inl (.inr ⟨i, there, rfl⟩), rest⟩
  · obtain ⟨same, rest⟩ := upsertOf_eq_some made
    rw [same]
    exact ⟨.inr ⟨i, there, rfl⟩, rest⟩

theorem exists_upsert (declared : identity ∈ declaredConfigIdentities doc)
    (present : disposition overrides identity ≠ some .removed) :
    ∃ u ∈ configResourceUpserts doc overrides, u.declared.identity = identity := by
  simp only [declaredConfigIdentities, List.mem_append, List.mem_map] at declared
  simp only [configResourceUpserts, List.mem_append, List.mem_filterMap]
  rcases declared with (⟨i, there, rfl⟩ | ⟨i, there, rfl⟩) | ⟨i, there, rfl⟩
  · obtain ⟨u, made⟩ := exists_upsertOf false [] present
    exact ⟨u, .inl (.inl ⟨i, there, made⟩), by rw [(upsertOf_eq_some made).1]⟩
  · obtain ⟨u, made⟩ := exists_upsertOf true [vcpusKey, memoryMbKey] present
    exact ⟨u, .inl (.inr ⟨i, there, made⟩), by rw [(upsertOf_eq_some made).1]⟩
  · obtain ⟨u, made⟩ := exists_upsertOf false [] present
    exact ⟨u, .inr ⟨i, there, made⟩, by rw [(upsertOf_eq_some made).1]⟩

theorem identity_mem_declared : identity ∈ declaredConfigIdentities doc ↔
    ∃ d ∈ declaredResources doc, d.identity = identity := by
  simp only [declaredConfigIdentities, declaredResources, List.mem_append, List.mem_map]
  constructor
  · rintro ((⟨i, there, rfl⟩ | ⟨i, there, rfl⟩) | ⟨i, there, rfl⟩)
    · exact ⟨_, .inl (.inl ⟨i, there, rfl⟩), rfl⟩
    · exact ⟨_, .inl (.inr ⟨i, there, rfl⟩), rfl⟩
    · exact ⟨_, .inr ⟨i, there, rfl⟩, rfl⟩
  · rintro ⟨d, (⟨i, there, rfl⟩ | ⟨i, there, rfl⟩) | ⟨i, there, rfl⟩, rfl⟩
    · exact .inl (.inl ⟨i, there, rfl⟩)
    · exact .inl (.inr ⟨i, there, rfl⟩)
    · exact .inr ⟨i, there, rfl⟩

theorem declared_kind (member : d ∈ declaredResources doc) : d.kind ≠ .localLibvirt := by
  simp only [declaredResources, List.mem_append, List.mem_map] at member
  rcases member with (⟨i, -, rfl⟩ | ⟨i, -, rfl⟩) | ⟨i, -, rfl⟩ <;> exact nofun

theorem upserts_sublist (doc : InventoryDoc) (overrides : List InventoryOverride) :
    ((configResourceUpserts doc overrides).map ConfigResourceUpsert.declared).Sublist
      (declaredResources doc) := by
  have each {α : Type} (items : List α) (declared : α → DeclaredResource)
      (make : α → Option ConfigResourceUpsert)
      (made : ∀ i u, make i = some u → u.declared = declared i) :
      ((items.filterMap make).map ConfigResourceUpsert.declared).Sublist (items.map declared) := by
    induction items with
    | nil => exact .slnil
    | cons i rest ih =>
      rw [List.filterMap_cons, List.map_cons]
      cases outcome : make i with
      | none => exact ih.cons _
      | some u =>
        rw [List.map_cons, made i u outcome]
        exact ih.cons_cons _
  rw [configResourceUpserts, List.map_append, List.map_append, declaredResources]
  refine ((each _ _ _ ?_).append (each _ _ _ ?_)).append (each _ _ _ ?_) <;>
  · intro i u made
    exact (upsertOf_eq_some made).1

theorem declared_distinct (checked : doc.Checked) : (declaredResources doc).Pairwise
    (fun d e => (d.kind, d.name) ≠ (e.kind, e.name)) := by
  have each {α : Type} {items : List α} {declared : α → DeclaredResource} {name : α → String}
      (names : (items.map name).Nodup) (same : ∀ i, (declared i).name = name i) :
      (items.map declared).Pairwise (fun d e => (d.kind, d.name) ≠ (e.kind, e.name)) := by
    rw [List.pairwise_map]
    refine (List.pairwise_map.mp names).imp ?_
    intro i j differ equal
    rw [Prod.mk.injEq, same, same] at equal
    exact differ equal.2
  rw [declaredResources, List.pairwise_append, List.pairwise_append]
  refine ⟨⟨each checked.faults (fun _ => rfl), each checked.remotes (fun _ => rfl), ?_⟩,
    each checked.byos (fun _ => rfl), ?_⟩
  · intro d left e right equal
    obtain ⟨i, -, rfl⟩ := List.mem_map.mp left
    obtain ⟨j, -, rfl⟩ := List.mem_map.mp right
    exact absurd (congrArg Prod.fst equal) nofun
  · intro d left e right equal
    obtain ⟨j, -, rfl⟩ := List.mem_map.mp right
    rcases List.mem_append.mp left with left | left <;>
    · obtain ⟨i, -, rfl⟩ := List.mem_map.mp left
      exact absurd (congrArg Prod.fst equal) nofun

theorem upserts_distinct (checked : doc.Checked) (overrides : List InventoryOverride) :
    (configResourceUpserts doc overrides).Pairwise (fun u v =>
      (u.declared.kind, u.declared.name) ≠ (v.declared.kind, v.declared.name)) := by
  have pairs := (declared_distinct checked).sublist (upserts_sublist doc overrides)
  rw [List.pairwise_map] at pairs
  exact pairs

theorem named_iff {r : ResourceRow} {name : String} (named : r.name = some name) :
    Named u r ↔ u.declared.identity = r.key name := by
  simp only [Named, DeclaredResource.identity, ResourceRow.key, Prod.mk.injEq, named,
    Option.some.injEq]
  constructor
  · rintro ⟨kind, same⟩
    exact ⟨by rw [kind], same.symm⟩
  · rintro ⟨kind, same⟩
    exact ⟨(ResourceKind.value_injective kind).symm, same.symm⟩

end Requests

end Kdive.Inventory
