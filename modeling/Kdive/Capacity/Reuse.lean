import Kdive.Capacity.Admission
import Kdive.Capacity.Matching
import Kdive.Capacity.SpecGrammar

/-!
The assertion that a System may be reused: its sizing snapshot against the asserted axes, and the
devices of its allocation against a list of match specs. The devices are looked up spec by spec, so
that one device serves every spec of its model; at allocation the same list takes a device for each.
-/
namespace Kdive.Capacity

section Assertion

structure AllocationSizing where
  vcpu : Int
  memoryMb : Int
  diskGb : Int

structure ReuseRequirement where
  vcpus : Option Int := none
  memoryGb : Option Int := none
  diskGb : Option Int := none
  pcie : List String := []

def ReuseRequirement.isEmpty (req : ReuseRequirement) : Bool :=
  req.vcpus.isNone && req.memoryGb.isNone && req.diskGb.isNone && req.pcie.isEmpty

/-- The errors behind a refused assertion, all of the category `CONFIGURATION_ERROR`. -/
inductive ReuseError where
  | malformedSpec (spec : String)
  | notVendorDevice (spec : String)
  | missingSizing (fields : List String)
  | nonIntegerSizing (fields : List String)
  deriving DecidableEq

inductive ProfileValue where
  | null
  | int (n : Int)
  | other
  deriving DecidableEq

abbrev ProvisioningProfile := List (String × ProfileValue)

def sizingFields : List String := ["vcpu", "memory_mb", "disk_gb"]

def ProvisioningProfile.value (profile : ProvisioningProfile) (field : String) :
    Option ProfileValue :=
  match profile.lookup field with
  | some .null => none
  | found => found

def concreteSizingFromMapping (profile : ProvisioningProfile) : Except ReuseError AllocationSizing :=
  match profile.value "vcpu", profile.value "memory_mb", profile.value "disk_gb" with
  | some (.int vcpu), some (.int memoryMb), some (.int diskGb) => .ok ⟨vcpu, memoryMb, diskGb⟩
  | _, _, _ =>
    let missing := sizingFields.filter fun field => (profile.value field).isNone
    if missing ≠ [] then .error (.missingSizing missing)
    else .error (.nonIntegerSizing (sizingFields.filter fun field => profile.value field = some .other))

structure GrantedSnapshot where
  requestedVcpus : Option Int
  requestedMemoryGb : Option Int
  requestedDiskGb : Option Int
  pcieClaim : List PCIeClaim

def readSystemSizing (alloc : GrantedSnapshot) (profile : ProvisioningProfile) :
    Except ReuseError AllocationSizing :=
  match alloc.requestedVcpus, alloc.requestedMemoryGb, alloc.requestedDiskGb with
  | some vcpus, some memoryGb, some diskGb => .ok ⟨vcpus, memoryGb * mbPerGb, diskGb⟩
  | _, _, _ => concreteSizingFromMapping profile

def parseVendorDevice (spec : String) : Except ReuseError (String × String) :=
  match parseMatchSpec spec with
  | .error _ => .error (.malformedSpec spec)
  | .ok (.vendorDevice vendorId deviceId) => .ok (vendorId, deviceId)
  | .ok (.classPrefix _) => .error (.notVendorDevice spec)

def pcieClaimsContainAll (claims : List PCIeClaim) (specs : List String) : Except ReuseError Bool :=
  (specs.mapM parseVendorDevice).map fun parsed =>
    parsed.all fun (vendorId, deviceId) =>
      claims.any fun claim => claim.vendorId = vendorId && claim.deviceId = deviceId

def snapshotSatisfies (sizing : AllocationSizing) (claims : List PCIeClaim) (req : ReuseRequirement) :
    Except ReuseError Bool :=
  (pcieClaimsContainAll claims req.pcie).map fun pcieOk =>
    if req.vcpus.any (sizing.vcpu < ·) then false
    else if req.memoryGb.any (sizing.memoryMb < · * mbPerGb) then false
    else if req.diskGb.any (sizing.diskGb < ·) then false
    else pcieOk

inductive RunCreateError where
  | categorized (systemId : String) (error : ReuseError)
  | reuseRequirementUnmet (systemId : String)
  deriving DecidableEq

def checkReuseAssertion (systemId : String) (profile : ProvisioningProfile) (alloc : GrantedSnapshot)
    (req : ReuseRequirement) : Except ReuseError (Option RunCreateError) :=
  if req.isEmpty then .ok none
  else
    (readSystemSizing alloc profile).map fun sizing =>
      match snapshotSatisfies sizing alloc.pcieClaim req with
      | .error error => some (.categorized systemId error)
      | .ok false => some (.reuseRequirementUnmet systemId)
      | .ok true => none

end Assertion

section Containment

variable {claims : List PCIeClaim} {specs : List String} {spec : String} {claim : PCIeClaim}

structure PCIeClaim.Normalized (claim : PCIeClaim) : Prop where
  vendor : claim.vendorId.toList.length = 4 ∧ claim.vendorId.toList.all isHex = true
  device : claim.deviceId.toList.length = 4 ∧ claim.deviceId.toList.all isHex = true

def IsDeviceSpec (spec : String) : Prop := ∃ vendor device, DeviceForm vendor device spec.toList

def Names (spec : String) (claim : PCIeClaim) : Prop :=
  DeviceForm claim.vendorId.toList claim.deviceId.toList spec.toList

def Assigned (specs : List String) (claims : List PCIeClaim) : Prop :=
  ∃ devices, List.Forall₂ Names specs devices ∧ devices ⊆ claims ∧
    (devices.map PCIeClaim.bdf).Nodup

def PCIeClaim.model (claim : PCIeClaim) : String := claim.vendorId ++ ":" ++ claim.deviceId

theorem model_toList (claim : PCIeClaim) :
    claim.model.toList = claim.vendorId.toList ++ ':' :: claim.deviceId.toList := by
  simp [PCIeClaim.model, String.toList_append]

theorem Names.eq_model (names : Names spec claim) : spec = claim.model := by
  obtain ⟨-, -, -, -, form⟩ := names
  rw [← String.toList_inj, form, model_toList]

theorem names_model (normal : claim.Normalized) : Names claim.model claim :=
  ⟨normal.vendor.1, normal.vendor.2, normal.device.1, normal.device.2, model_toList claim⟩

theorem parseVendorDevice_of_names (names : Names spec claim) :
    parseVendorDevice spec = .ok (claim.vendorId, claim.deviceId) := by
  obtain ⟨taken, dropped⟩ := DeviceForm.parts names
  have clean : dropFinalNewline spec.toList = spec.toList :=
    dropFinalNewline_eq_self (InGrammar.newline_not_mem (.inl ⟨_, _, names⟩))
  have form : DeviceForm claim.vendorId.toList claim.deviceId.toList (dropFinalNewline spec.toList) := by
    rw [clean]
    exact names
  rw [parseVendorDevice, parse_deviceForm form]
  simp only [taken, dropped, String.ofList_toList]

/-- A spec that finds a normalized claim names it: with a newline behind it, it finds none. -/
theorem names_of_parseVendorDevice (normal : claim.Normalized)
    (parsed : parseVendorDevice spec = .ok (claim.vendorId, claim.deviceId)) : Names spec claim := by
  rw [parseVendorDevice] at parsed
  cases matched : parseMatchSpec spec with
  | error e =>
    rw [matched] at parsed
    cases parsed
  | ok found =>
    have shape := grammar_of_parse matched
    rcases shape with ⟨vendor, device, form⟩ | ⟨digits, form⟩
    · rw [parse_deviceForm form] at parsed
      simp only [Except.ok.injEq, Prod.mk.injEq] at parsed
      have vendorIs : claim.vendorId.toList = spec.toList.take 4 := by
        rw [← parsed.1, String.toList_ofList]
      have deviceIs : claim.deviceId.toList = spec.toList.drop 5 := by
        rw [← parsed.2, String.toList_ofList]
      rcases dropFinalNewline_cases spec.toList with same | newline
      · rw [same] at form
        obtain ⟨taken, dropped⟩ := form.parts
        rw [Names, vendorIs, deviceIs, taken, dropped]
        exact form
      · -- the device id would have five characters
        have long := form.2.2.1
        have size := normal.device.1
        obtain ⟨-, dropped⟩ := form.parts
        have whole := congrArg List.length newline
        have bodySize := congrArg List.length dropped
        rw [deviceIs, List.length_drop] at size
        simp only [List.length_drop, List.length_append, List.length_cons, List.length_nil] at *
        omega
    · rw [parse_classForm form] at parsed
      cases parsed

theorem pcieClaimsContainAll_true (normal : ∀ claim ∈ claims, claim.Normalized) :
    pcieClaimsContainAll claims specs = .ok true ↔
      ∀ spec ∈ specs, ∃ claim ∈ claims, Names spec claim := by
  induction specs with
  | nil => exact ⟨nofun, fun _ => rfl⟩
  | cons spec specs ih =>
    rw [List.forall_mem_cons, ← ih]
    simp only [pcieClaimsContainAll, List.mapM_cons]
    cases parsed : parseVendorDevice spec with
    | error error =>
      have unnamed : ¬ ∃ claim ∈ claims, Names spec claim := by
        rintro ⟨claim, -, names⟩
        rw [parseVendorDevice_of_names names] at parsed
        cases parsed
      simp only [unnamed, false_and, iff_false]
      exact nofun
    | ok pair =>
      have named : (claims.any fun claim => claim.vendorId = pair.1 && claim.deviceId = pair.2) = true ↔
          ∃ claim ∈ claims, Names spec claim := by
        rw [List.any_eq_true]
        simp only [Bool.and_eq_true, decide_eq_true_eq]
        constructor
        · rintro ⟨claim, held, vendor, device⟩
          refine ⟨claim, held, names_of_parseVendorDevice (normal claim held) ?_⟩
          rw [parsed, vendor, device]
        · rintro ⟨claim, held, names⟩
          rw [parseVendorDevice_of_names names] at parsed
          obtain rfl := Except.ok.inj parsed
          exact ⟨claim, held, rfl, rfl⟩
      rw [← named]
      cases others : specs.mapM parseVendorDevice with
      | error error => simp [bind, Except.bind, Except.map]
      | ok rest => simp [bind, Except.bind, Except.map, pure, Except.pure]

/-- Distinct devices can be given to all the specs if no model is required more often than it is
claimed. -/
theorem assigned_iff (normal : ∀ claim ∈ claims, claim.Normalized)
    (distinct : (claims.map PCIeClaim.bdf).Nodup) :
    Assigned specs claims ↔
      ∀ spec ∈ specs, specs.count spec ≤ (claims.map PCIeClaim.model).count spec := by
  rw [← List.subperm_ext_iff]
  constructor
  · rintro ⟨devices, named, held, once⟩
    have models : specs = devices.map PCIeClaim.model := by
      rw [← List.forall₂_eq_eq_eq, List.forall₂_map_right_iff]
      exact named.imp fun spec claim names => names.eq_model
    rw [models]
    obtain ⟨kept, perm, sub⟩ := List.subperm_of_subset once.of_map held
    exact ⟨_, perm.map _, sub.map _⟩
  · rintro ⟨models, perm, sub⟩
    obtain ⟨devices, kept, rfl⟩ := List.sublist_map_iff.mp sub
    have named : List.Forall₂ Names (devices.map PCIeClaim.model) devices := by
      rw [List.forall₂_map_left_iff, List.forall₂_same]
      exact fun claim member => names_model (normal claim (kept.subset member))
    obtain ⟨ordered, named, same⟩ := List.perm_comp_forall₂ perm.symm named
    refine ⟨ordered, named, fun claim member => kept.subset (same.subset member), ?_⟩
    rw [(same.map PCIeClaim.bdf).nodup_iff]
    exact (kept.map PCIeClaim.bdf).nodup distinct

end Containment

section Reused

variable {sizing : AllocationSizing} {claims : List PCIeClaim} {req : ReuseRequirement}

def Axes (sizing : AllocationSizing) (req : ReuseRequirement) : Prop :=
  (∀ n ∈ req.vcpus, n ≤ sizing.vcpu) ∧ (∀ n ∈ req.memoryGb, n * 1024 ≤ sizing.memoryMb) ∧
    ∀ n ∈ req.diskGb, n ≤ sizing.diskGb

theorem snapshotSatisfies_true (normal : ∀ claim ∈ claims, claim.Normalized) :
    snapshotSatisfies sizing claims req = .ok true ↔
      Axes sizing req ∧ ∀ spec ∈ req.pcie, ∃ claim ∈ claims, Names spec claim := by
  rw [← pcieClaimsContainAll_true normal, snapshotSatisfies]
  have vcpus : req.vcpus.any (sizing.vcpu < ·) = true ↔ ¬ ∀ n ∈ req.vcpus, n ≤ sizing.vcpu := by
    cases req.vcpus <;> simp
  have memory : req.memoryGb.any (sizing.memoryMb < · * mbPerGb) = true ↔
      ¬ ∀ n ∈ req.memoryGb, n * 1024 ≤ sizing.memoryMb := by
    cases req.memoryGb with
    | none => simp
    | some n =>
      simp only [Option.any_some, mbPerGb, Option.mem_some_iff, forall_eq', not_le]
      exact decide_eq_true_iff
  have disk : req.diskGb.any (sizing.diskGb < ·) = true ↔ ¬ ∀ n ∈ req.diskGb, n ≤ sizing.diskGb := by
    cases req.diskGb <;> simp
  cases pcieClaimsContainAll claims req.pcie with
  | error error => simp [Except.map]
  | ok pcieOk =>
    simp only [Except.map, Except.ok.injEq, Axes, vcpus, memory, disk]
    split
    · rename_i small
      simp only [small, false_and, Bool.false_eq_true]
    split
    · rename_i small
      simp only [small, false_and, and_false, Bool.false_eq_true]
    split
    · rename_i small
      simp only [small, false_and, and_false, Bool.false_eq_true]
    · rename_i vcpusFit memoryFits diskFits
      rw [not_not] at vcpusFit memoryFits diskFits
      exact ⟨fun found => ⟨⟨vcpusFit, memoryFits, diskFits⟩, found⟩, fun both => both.2⟩

theorem checkReuseAssertion_none {systemId : String} {profile : ProvisioningProfile}
    {alloc : GrantedSnapshot} (read : readSystemSizing alloc profile = .ok sizing) :
    checkReuseAssertion systemId profile alloc req = .ok none ↔
      req.isEmpty = true ∨ snapshotSatisfies sizing alloc.pcieClaim req = .ok true := by
  rw [checkReuseAssertion, read]
  split
  · rename_i empty
    simp [empty]
  · rename_i asserts
    simp only [asserts, Except.map]
    cases satisfied : snapshotSatisfies sizing alloc.pcieClaim req with
    | error error => simp
    | ok answer => cases answer <;> simp

theorem satisfied_of_isEmpty (empty : req.isEmpty = true) :
    Axes sizing req ∧ ∀ spec ∈ req.pcie, ∃ claim ∈ claims, Names spec claim := by
  simp only [ReuseRequirement.isEmpty, Bool.and_eq_true, Option.isNone_iff_eq_none,
    List.isEmpty_iff] at empty
  obtain ⟨⟨⟨vcpus, memory⟩, disk⟩, pcie⟩ := empty
  simp [Axes, vcpus, memory, disk, pcie]

theorem Assigned.found {specs : List String} (assigned : Assigned specs claims) :
    ∀ spec ∈ specs, ∃ claim ∈ claims, Names spec claim := by
  obtain ⟨devices, named, held, -⟩ := assigned
  induction named with
  | nil => exact nofun
  | cons names rest ih =>
    rw [List.cons_subset] at held
    exact List.forall_mem_cons.mpr ⟨⟨_, held.1, names⟩, ih held.2⟩

end Reused

section Allocated

variable {specs : List String} {descriptors : List PCIeDescriptor}

theorem parse_deviceSpecs (valid : ∀ spec ∈ specs, IsDeviceSpec spec) :
    ∃ parsed, List.Forall₂ (fun text spec => parseMatchSpec text = .ok spec) specs parsed := by
  induction specs with
  | nil => exact ⟨[], .nil⟩
  | cons spec specs ih =>
    rw [List.forall_mem_cons] at valid
    obtain ⟨⟨vendor, device, form⟩, others⟩ := valid
    obtain ⟨parsed, each⟩ := ih others
    have clean := dropFinalNewline_eq_self (InGrammar.newline_not_mem (.inl ⟨_, _, form⟩))
    exact ⟨_, .cons (parse_deviceForm (clean.symm ▸ form)) each⟩

theorem matches_iff_claim_named {spec : String} (valid : IsDeviceSpec spec) {m : MatchSpec}
    (parsed : parseMatchSpec spec = .ok m) (d : PCIeDescriptor) :
    descriptorMatches m d = true ↔ Names spec ⟨d.bdf, d.vendorId, d.deviceId⟩ := by
  rw [matches_iff_names (.inl valid) parsed]
  constructor
  · rintro (⟨_, _, form, rfl, rfl⟩ | ⟨digits, form, -⟩)
    · exact form
    · obtain ⟨vendor, device, vendorLong, _, deviceLong, _, same⟩ := valid
      refine absurd ?_ form.length
      rw [same]
      simp only [List.length_append, List.length_cons]
      omega
  · intro names
    exact .inl ⟨_, _, names, rfl, rfl⟩

theorem forall₂_names {parsed : List MatchSpec} (valid : ∀ spec ∈ specs, IsDeviceSpec spec)
    (each : List.Forall₂ (fun text spec => parseMatchSpec text = .ok spec) specs parsed)
    {devices : List PCIeDescriptor} :
    List.Forall₂ (fun spec d => descriptorMatches spec d = true) parsed devices ↔
      List.Forall₂ Names specs (claimsFrom devices) := by
  induction each generalizing devices with
  | nil => cases devices <;> simp [claimsFrom]
  | cons first rest ih =>
    rw [List.forall_mem_cons] at valid
    cases devices with
    | nil => simp [claimsFrom]
    | cons d devices =>
      simp only [claimsFrom, List.map_cons, List.forall₂_cons]
      rw [matches_iff_claim_named valid.1 first, ih valid.2, claimsFrom]

theorem exists_devices {held : List PCIeClaim} (pooled : held ⊆ claimsFrom descriptors) :
    ∃ devices ⊆ descriptors, claimsFrom devices = held := by
  induction held with
  | nil => exact ⟨[], List.nil_subset _, rfl⟩
  | cons claim held ih =>
    rw [List.cons_subset] at pooled
    obtain ⟨d, member, rfl⟩ := List.mem_map.mp pooled.1
    obtain ⟨devices, inside, rfl⟩ := ih pooled.2
    exact ⟨d :: devices, List.cons_subset.mpr ⟨member, inside⟩, rfl⟩

/-- At allocation the same specs take distinct devices: the free ones that become the claims. -/
theorem resolveMultiset_assigned (valid : ∀ spec ∈ specs, IsDeviceSpec spec)
    (distinct : (descriptors.map PCIeDescriptor.bdf).Nodup) :
    (∃ r, resolveMultiset specs descriptors [] = .ok r ∧ r.outcome = .matched) ↔
      Assigned specs (claimsFrom descriptors) := by
  obtain ⟨parsed, each⟩ := parse_deviceSpecs valid
  obtain ⟨r, resolved, resolves⟩ :=
    @resolveMultiset_resolves parsed _ _ [] (parseMatchSpecs_forall₂.mpr each) distinct
  have free : unclaimed descriptors [] = descriptors := by simp [unclaimed]
  have outcome : (∃ r, resolveMultiset specs descriptors [] = .ok r ∧ r.outcome = .matched) ↔
      r.outcome = .matched := by
    simp [resolved]
  rw [outcome, resolves.matched, free]
  constructor
  · rintro ⟨devices, matching, pooled, once⟩
    refine ⟨claimsFrom devices, (forall₂_names valid each).mp matching, List.map_subset _ pooled, ?_⟩
    rw [claimsFrom, List.map_map]
    refine List.Nodup.map_on (fun d member d' member' same => ?_) once
    exact List.inj_on_of_nodup_map distinct (pooled member) (pooled member') same
  · rintro ⟨held, named, pooled, once⟩
    obtain ⟨devices, inside, rfl⟩ := exists_devices pooled
    refine ⟨devices, (forall₂_names valid each).mpr named, inside, ?_⟩
    rw [claimsFrom, List.map_map] at once
    exact once.of_map

end Allocated

section Meets

variable {sizing : AllocationSizing}

/-- What the assertion is for: the axes hold and each spec has a device of its own, as on a host with
those devices free. A spec that is not of the form `vendor:device` is refused. -/
structure ReuseMeets (systemId : String) (profile : ProvisioningProfile) (alloc : GrantedSnapshot)
    (sizing : AllocationSizing) (req : ReuseRequirement) : Prop where
  satisfied : (∀ spec ∈ req.pcie, IsDeviceSpec spec) →
    (checkReuseAssertion systemId profile alloc req = .ok none ↔
      Axes sizing req ∧ Assigned req.pcie alloc.pcieClaim)
  allocated : (∀ spec ∈ req.pcie, IsDeviceSpec spec) →
    ∀ descriptors, claimsFrom descriptors = alloc.pcieClaim →
      (checkReuseAssertion systemId profile alloc req = .ok none ↔ Axes sizing req ∧
        ∃ r, resolveMultiset req.pcie descriptors [] = .ok r ∧ r.outcome = .matched)
  refused : (∃ spec ∈ req.pcie, ¬ IsDeviceSpec spec) →
    checkReuseAssertion systemId profile alloc req ≠ .ok none

/-- The axes hold, every required model is among the claimed devices, and one of them is required
more often than it is claimed. -/
def Overdrawn (sizing : AllocationSizing) (claims : List PCIeClaim) (req : ReuseRequirement) : Prop :=
  Axes sizing req ∧ (∀ spec ∈ req.pcie, ∃ claim ∈ claims, Names spec claim) ∧
    ∃ spec ∈ req.pcie, (claims.map PCIeClaim.model).count spec < req.pcie.count spec

/-- With distinct devices of four hex digits each, the assertion does what it is for unless it is
overdrawn. -/
theorem reuseMeets_iff (systemId : String) (profile : ProvisioningProfile) (alloc : GrantedSnapshot)
    (req : ReuseRequirement) (read : readSystemSizing alloc profile = .ok sizing)
    (normal : ∀ claim ∈ alloc.pcieClaim, claim.Normalized)
    (distinct : (alloc.pcieClaim.map PCIeClaim.bdf).Nodup) :
    ReuseMeets systemId profile alloc sizing req ↔ ¬ Overdrawn sizing alloc.pcieClaim req := by
  have checked : checkReuseAssertion systemId profile alloc req = .ok none ↔
      Axes sizing req ∧ ∀ spec ∈ req.pcie, ∃ claim ∈ alloc.pcieClaim, Names spec claim := by
    rw [checkReuseAssertion_none read, snapshotSatisfies_true normal]
    exact ⟨fun either => either.elim satisfied_of_isEmpty id, .inr⟩
  constructor
  · rintro ⟨satisfied, -, -⟩ ⟨axes, found, spec, required, more⟩
    have valid : ∀ spec ∈ req.pcie, IsDeviceSpec spec := by
      intro spec member
      obtain ⟨claim, -, names⟩ := found spec member
      exact ⟨_, _, names⟩
    have assigned := ((satisfied valid).mp (checked.mpr ⟨axes, found⟩)).2
    have enough := (assigned_iff normal distinct).mp assigned spec required
    omega
  · intro within
    have satisfied : checkReuseAssertion systemId profile alloc req = .ok none ↔
        Axes sizing req ∧ Assigned req.pcie alloc.pcieClaim := by
      rw [checked]
      constructor
      · rintro ⟨axes, found⟩
        refine ⟨axes, (assigned_iff normal distinct).mpr fun spec required => ?_⟩
        by_contra more
        exact within ⟨axes, found, spec, required, Nat.lt_of_not_le more⟩
      · rintro ⟨axes, assigned⟩
        exact ⟨axes, assigned.found⟩
    refine ⟨fun _ => satisfied, fun valid descriptors same => ?_, ?_⟩
    · have once : (descriptors.map PCIeDescriptor.bdf).Nodup := by
        rw [← same, claimsFrom, List.map_map] at distinct
        exact distinct
      rw [satisfied, resolveMultiset_assigned valid once, same]
    · rintro ⟨spec, required, invalid⟩ holds
      obtain ⟨claim, -, names⟩ := (checked.mp holds).2 spec required
      exact invalid ⟨_, _, names⟩

def nic : PCIeClaim := ⟨"0000:3b:00.0", "8086", "1572"⟩

def secondNic : PCIeClaim := ⟨"0000:3b:00.1", "8086", "1572"⟩

theorem normalized_nics : ∀ claim ∈ [nic, secondNic], claim.Normalized := by
  intro claim member
  simp only [List.mem_cons, List.not_mem_nil, or_false] at member
  rcases member with rfl | rfl
  · exact ⟨⟨by decide +kernel, by decide +kernel⟩, by decide +kernel, by decide +kernel⟩
  · exact ⟨⟨by decide +kernel, by decide +kernel⟩, by decide +kernel, by decide +kernel⟩

def twoNics : ReuseRequirement := { memoryGb := some 4, pcie := ["8086:1572", "8086:1572"] }

/-- With two such devices, two of them may be asked for. -/
theorem two_nics_met : ReuseMeets "s" [] ⟨some 2, some 4, some 20, [nic, secondNic]⟩ ⟨2, 4096, 20⟩
    twoNics := by
  refine (reuseMeets_iff "s" [] ⟨some 2, some 4, some 20, [nic, secondNic]⟩ twoNics rfl normalized_nics
    (by decide +kernel)).mpr ?_
  rintro ⟨-, -, spec, required, more⟩
  simp only [twoNics, List.mem_cons, List.not_mem_nil, or_false, or_self] at required
  subst required
  exact absurd more (by decide +kernel)

/-- With one such device the assertion of two holds, though there is no second. -/
theorem one_nic_serves_two :
    checkReuseAssertion "s" [] ⟨some 2, some 4, some 20, [nic]⟩ twoNics = .ok none ∧
      ¬ ReuseMeets "s" [] ⟨some 2, some 4, some 20, [nic]⟩ ⟨2, 4096, 20⟩ twoNics := by
  have holds : checkReuseAssertion "s" [] ⟨some 2, some 4, some 20, [nic]⟩ twoNics = .ok none := by
    decide +kernel
  refine ⟨holds, fun meets => ?_⟩
  have valid : ∀ spec ∈ twoNics.pcie, IsDeviceSpec spec := by
    intro spec required
    simp only [twoNics, List.mem_cons, List.not_mem_nil, or_false, or_self] at required
    subst required
    exact ⟨_, _, names_model (normalized_nics nic List.mem_cons_self)⟩
  have assigned := ((meets.satisfied valid).mp holds).2
  have normal : ∀ claim ∈ [nic], claim.Normalized :=
    fun claim member => normalized_nics claim (List.mem_cons.mpr (.inl (List.mem_singleton.mp member)))
  have enough := (assigned_iff normal (by decide +kernel)).mp assigned "8086:1572" List.mem_cons_self
  exact absurd enough (by decide +kernel)

end Meets

end Kdive.Capacity
