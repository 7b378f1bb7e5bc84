import Kdive.Capacity.Specs

/-!
The admission gate under PROJECT and RESOURCE: what it found to be free is still free at the
commit, because nobody else can add to what these locks protect.
-/
namespace Kdive.Capacity
open Table Txn

variable {steady : Prop} {H : Set LockScope} {s t : AllocDb}

section Counts

theorem filter_length_le {p : Allocation → Bool} {q : Allocation → Bool}
    (shrinks : ∀ id a', find t.allocations id = some a' → p a' = true →
      ∃ a, find s.allocations id = some a ∧ q a = true) :
    (t.allocations.rows.filter p).length ≤ (s.allocations.rows.filter q).length := by
  have distinct : ((t.allocations.rows.filter p).map Allocation.id).Nodup :=
    t.allocations.distinct.sublist (List.filter_sublist.map _)
  have inside : (t.allocations.rows.filter p).map Allocation.id ⊆
      (s.allocations.rows.filter q).map Allocation.id := by
    intro id member
    obtain ⟨a', listed, rfl⟩ := List.mem_map.mp member
    obtain ⟨row, hit⟩ := List.mem_filter.mp listed
    obtain ⟨a, found, hit'⟩ := shrinks a'.id a' (find_of_mem row) hit
    exact List.mem_map.mpr ⟨a, List.mem_filter.mpr ⟨find_mem found, hit'⟩, find_key found⟩
  have fewer := (List.subperm_of_subset distinct inside).length_le
  simpa using fewer

theorem projectOccupying_le {project : String} (rely : Rely steady H s t)
    (held : .project project ∈ H) :
    (projectOccupying t project).length ≤ (projectOccupying s project).length := by
  refine filter_length_le ?_
  intro id a' found hit
  obtain ⟨mine, busy⟩ := of_decide_eq_true hit
  obtain ⟨a, before⟩ := rely.fresh id a' found (mine ▸ held)
  obtain ⟨_, again, sameProject, same⟩ := rely.rows id a before
  rw [found, Option.some.injEq] at again
  subst again
  refine ⟨a, before, decide_eq_true ⟨sameProject ▸ mine, ?_⟩⟩
  rw [← occupies_of_unstamped (same (by rw [← sameProject, mine]; exact held))]
  exact busy

theorem resourceOccupying_le {resource : Uuid} (rely : Rely steady H s t)
    (held : .resource resource ∈ H) :
    (resourceOccupying t resource).length ≤ (resourceOccupying s resource).length := by
  refine filter_length_le ?_
  intro id a' found hit
  obtain ⟨on, busy⟩ := of_decide_eq_true hit
  obtain ⟨a, before, on', _, _, occupies⟩ :=
    rely.occupancy id a' resource found on held (live_of_occupies busy)
  exact ⟨a, before, decide_eq_true ⟨on', occupies busy⟩⟩

end Counts

section Stable

theorem quotaFree_rely {project : String} (assumed : steady) (rely : Rely steady H s t)
    (held : .project project ∈ H) (free : QuotaFree s project) : QuotaFree t project := by
  obtain ⟨q, found, below⟩ := free
  obtain ⟨q', found', raised⟩ := (rely.unlowered assumed).quotas project q found
  have fewer : ((projectOccupying t project).length : Int) ≤ (projectOccupying s project).length :=
    Int.ofNat_le.mpr (projectOccupying_le rely held)
  exact ⟨q', found', lt_of_lt_of_le (lt_of_le_of_lt fewer below) raised⟩

theorem affordable_rely {project : String} {amount : ℚ} (assumed : steady)
    (rely : Rely steady H s t) (held : .project project ∈ H) (free : Affordable s project amount) :
    Affordable t project amount := by
  obtain ⟨b, found, within⟩ := free
  obtain ⟨b', found', spent⟩ := rely.budgets project b found
  obtain ⟨b'', found'', raised⟩ := (rely.unlowered assumed).limits project b found
  rw [found', Option.some.injEq] at found''
  subst found''
  refine ⟨b', found', ?_⟩
  rw [spent held]
  exact within.trans raised

theorem devicesFree_rely {resource : Uuid} {devices : List PCIeClaim} (rely : Rely steady H s t)
    (held : .resource resource ∈ H) (free : DevicesFree s resource devices) :
    DevicesFree t resource devices := by
  intro id a' found on live d member c claimed
  obtain ⟨a, before, on', claim, live', _⟩ := rely.occupancy id a' resource found on held live
  exact free id a before on' live' d member c (by rw [claim]; exact claimed)

theorem hostFree_rely {resource : Uuid} (assumed : steady) (rely : Rely steady H s t)
    (held : .resource resource ∈ H) (free : HostFree s resource) : HostFree t resource := by
  obtain ⟨host, cap, found, advertised, below⟩ := free
  obtain ⟨host', found', raised⟩ := (rely.unlowered assumed).caps resource host found
  obtain ⟨cap', advertised', le⟩ := raised cap advertised
  have fewer := resourceOccupying_le rely held
  exact ⟨host', cap', found', advertised', by omega⟩

theorem room_rely {project : String} {resource : Uuid} {amount : ℚ} {devices : List PCIeClaim}
    (rely : Rely steady H s t) (held : .project project ∈ H) (locked : .resource resource ∈ H)
    (room : Room steady s project resource amount devices) :
    Room steady t project resource amount devices where
  free := devicesFree_rely rely locked room.free
  distinct := room.distinct
  quota := fun assumed => quotaFree_rely assumed rely held (room.quota assumed)
  budget := fun assumed => affordable_rely assumed rely held (room.budget assumed)
  host := fun assumed => hostFree_rely assumed rely locked (room.host assumed)

/-- A host as it was read: its row is still there, with a cap that is no lower. -/
structure HostKnown (s : AllocDb) (r : Resource) : Prop where
  row : ∃ host, find s.resources r.id = some host ∧
    ∀ cap, r.allocationCap = some cap → ∃ cap', host.allocationCap = some cap' ∧ cap ≤ cap'
  distinct : (r.pcieDevices.map PCIeDescriptor.bdf).Nodup

theorem hostKnown_rely {r : Resource} (assumed : steady) (rely : Rely steady H s t)
    (known : HostKnown s r) : HostKnown t r := by
  obtain ⟨host, found, low⟩ := known.row
  obtain ⟨host', found', raised⟩ := (rely.unlowered assumed).caps r.id host found
  refine ⟨⟨host', found', ?_⟩, known.distinct⟩
  intro cap advertised
  obtain ⟨cap', here, le⟩ := low cap advertised
  obtain ⟨cap'', there, le'⟩ := raised cap' here
  exact ⟨cap'', there, le.trans le'⟩

theorem hostKnown_of_mem {r : Resource} (assumed : steady) (sound : (capacity steady).Sound s)
    (member : r ∈ s.resources.rows) : HostKnown s r where
  row := ⟨r, find_of_mem member, fun cap here => ⟨cap, here, le_refl cap⟩⟩
  distinct := (sound.assumes assumed).distinct r member

end Stable

section Gate

theorem wp_withinAllocQuota {Q : Bool → Set LockScope → (AllocDb → AllocDb) → AllocDb → Prop}
    {project : String}
    (post : ∀ answer t, (capacity steady).Sound t → Rely steady H s t →
      (answer = true → steady → QuotaFree t project) → Q answer H id t) :
    wp (capacity steady) Q (withinAllocQuota project) H id s := by
  simp only [withinAllocQuota, quotaStatus, countProjectOccupying, wp_bind, wp_get, wp_pure, id]
  intro t _ moved u sound moved'
  have relied := rely_trans moved moved'
  cases found : find t.quotas project with
  | none =>
    refine post false u sound relied ?_
    intro impossible
    cases impossible
  | some q =>
    refine post _ u sound relied ?_
    intro within assumed
    obtain ⟨q', found', raised⟩ := (Rely.unlowered moved' assumed).quotas project q found
    have below : ((projectOccupying u project).length : Int) < q.maxConcurrentAllocations :=
      of_decide_eq_true within
    exact ⟨q', found', lt_of_lt_of_le below raised⟩

theorem wp_withinBudget {Q : Bool → Set LockScope → (AllocDb → AllocDb) → AllocDb → Prop}
    {project : String} {estimate : ℚ} (recordable : quantizeKcu estimate = .ok estimate)
    (post : ∀ answer t, (capacity steady).Sound t → Rely steady H s t →
      (answer = true → steady → Affordable t project estimate) → Q answer H id t) :
    wp (capacity steady) Q (withinBudget project estimate) H id s := by
  simp only [withinBudget, wp_bind, wp_get, id]
  intro t sound moved
  cases found : find t.budgets project with
  | none =>
    refine post false t sound moved ?_
    intro impossible
    cases impossible
  | some b =>
    refine post _ t sound moved ?_
    intro within assumed
    refine ⟨b, found, ?_⟩
    -- The one place where the rounding of the remaining budget matters.
    have safe := (sound.assumes assumed).rounding b (find_mem found) estimate recordable
      (of_decide_eq_true within)
    linarith

theorem inUse_eq (rows : List Allocation) (project : String) :
    rows.countP (fun a => a.project = project) + rows.countP (fun a => ¬ a.project = project) =
      rows.length := by
  have split := List.length_eq_countP_add_countP (fun a : Allocation => decide (a.project = project))
    (l := rows)
  rw [split]
  congr 1
  exact List.countP_congr fun a _ => by simp

theorem wp_hostCapCheck {Q : Option Denial → Set LockScope → (AllocDb → AllocDb) → AllocDb → Prop}
    {r : Resource} {project : String} (known : steady → HostKnown s r)
    (post : ∀ answer t, (capacity steady).Sound t → Rely steady H s t →
      (answer = none → steady → HostFree t r.id) → Q answer H id t) :
    wp (capacity steady) Q (hostCapCheck r project) H id s := by
  unfold hostCapCheck
  cases advertised : r.allocationCap with
  | none => trivial
  | some cap =>
    simp only [countOccupying, wp_bind, wp_get, wp_pure, id]
    intro t sound moved
    split
    · refine post _ t sound moved ?_
      intro impossible
      cases impossible
    · rename_i below
      refine post none t sound moved ?_
      intro _ assumed
      obtain ⟨host, found, raised⟩ := (hostKnown_rely assumed moved (known assumed)).row
      obtain ⟨cap', advertised', le⟩ := raised cap advertised
      refine ⟨host, cap', found, advertised', ?_⟩
      rw [OccupancyBreakdown.inUse, inUse_eq] at below
      omega

theorem claimsOn_mem {r id : Uuid} {a : Allocation} {c : PCIeClaim}
    (found : find s.allocations id = some a) (on : a.resourceId = some r)
    (live : a.state.terminal = false) (claimed : c ∈ a.pcieClaim) : c ∈ claimsOn s r := by
  refine List.mem_flatMap.mpr ⟨a, List.mem_filter.mpr ⟨find_mem found, ?_⟩, claimed⟩
  simp [on, live]

theorem claimsFrom_bdf (devices : List PCIeDescriptor) :
    (claimsFrom devices).map PCIeClaim.bdf = devices.map PCIeDescriptor.bdf := by
  simp [claimsFrom, Function.comp_def]

theorem wp_resolvePcieClaim {Q : GateResult → Set LockScope → (AllocDb → AllocDb) → AllocDb → Prop}
    {request : AllocationRequest} (sound : (capacity steady).Sound s)
    (known : steady → HostKnown s request.resource)
    (denied : ∀ denial t, (capacity steady).Sound t → Rely steady H s t → Q (.denied denial) H id t)
    (placed : ∀ claims t, (capacity steady).Sound t → Rely steady H s t →
      DevicesFree t request.resource.id claims →
      (steady → (claims.map PCIeClaim.bdf).Nodup) → Q (.devices claims) H id t) :
    wp (capacity steady) Q (resolvePcieClaim request) H id s := by
  unfold resolvePcieClaim
  split
  · refine placed [] s sound (rely_refl s) ?_ fun _ => List.nodup_nil
    intro _ _ _ _ _ d member
    cases member
  · simp only [activeClaims, wp_bind, wp_get, wp_pure, id]
    intro t sound' moved
    apply wp_liftExcept
    intro resolution resolved
    cases outcome : resolution.outcome with
    | config => exact denied _ t sound' moved
    | capacity => exact denied _ t sound' moved
    | matched =>
      refine placed _ t sound' moved ?_ ?_
      · intro id a found on live d member c claimed
        obtain ⟨descriptor, listed, rfl⟩ := List.mem_map.mp member
        exact resolveMultiset_free resolved descriptor listed c
          (claimsOn_mem found on live claimed)
      · intro assumed
        rw [claimsFrom_bdf]
        exact resolveMultiset_distinct (known assumed).distinct resolved

theorem wp_admissionGate {Q : GateResult → Set LockScope → (AllocDb → AllocDb) → AllocDb → Prop}
    {request : AllocationRequest} {estimate : ℚ} (sound : (capacity steady).Sound s)
    (held : .project request.project ∈ H) (locked : .resource request.resource.id ∈ H)
    (known : steady → HostKnown s request.resource)
    (recordable : quantizeKcu estimate = .ok estimate)
    (denied : ∀ denial t, (capacity steady).Sound t → Rely steady H s t → Q (.denied denial) H id t)
    (placed : ∀ claims t, (capacity steady).Sound t → Rely steady H s t →
      Room steady t request.project request.resource.id estimate claims →
      Q (.devices claims) H id t) :
    wp (capacity steady) Q (admissionGate request estimate) H id s := by
  unfold admissionGate
  split
  · exact denied _ s sound (rely_refl s)
  rw [wp_bind]
  apply wp_withinAllocQuota
  intro quota t₁ sound₁ moved₁ quotaFree
  split
  · exact denied _ t₁ sound₁ moved₁
  rename_i within
  rw [wp_bind]
  apply wp_withinBudget recordable
  intro budget t₂ sound₂ moved₂ affordable
  have moved := rely_trans moved₁ moved₂
  split
  · exact denied _ t₂ sound₂ moved
  rename_i paid
  rw [wp_bind]
  apply wp_hostCapCheck (fun assumed => hostKnown_rely assumed moved (known assumed))
  intro host t₃ sound₃ moved₃ hostFree
  have moved := rely_trans moved moved₃
  cases host with
  | some denial => exact denied denial t₃ sound₃ moved
  | none =>
    apply wp_resolvePcieClaim sound₃ (fun assumed => hostKnown_rely assumed moved (known assumed))
    · intro denial t sound' moved'
      exact denied denial t sound' (rely_trans moved moved')
    · intro claims t sound' moved₄ free distinct
      refine placed claims t sound' (rely_trans moved moved₄) ⟨free, distinct, ?_, ?_, ?_⟩
      · intro assumed
        have open' := quotaFree (by simpa using within) assumed
        exact quotaFree_rely assumed (rely_trans moved₂ (rely_trans moved₃ moved₄)) held open'
      · intro assumed
        have open' := affordable (by simpa using paid) assumed
        exact affordable_rely assumed (rely_trans moved₃ moved₄) held open'
      · intro assumed
        exact hostFree_rely assumed moved₄ locked (hostFree rfl assumed)

end Gate

end Kdive.Capacity
