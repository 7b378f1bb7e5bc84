import Kdive.Capacity.Pcie

/-!
The matcher is complete. An attempt that fails has seen every device of its spec and of the owners
of all devices it saw, so those specs together have fewer devices than there are of them; an attempt
that succeeds leaves every spec that had a device with one.
-/
namespace Kdive.Capacity

section Augmenting

variable {fits : Nat → Nat → Bool} {devices : List Nat}

/-- Between two attempts: the two maps of the matching are inverse, and a spec is given only a
device that fits it. -/
structure Matching.Exact (fits : Nat → Nat → Bool) (devices : List Nat) (m : Matching) : Prop where
  owned : m.Owned
  placed : ∀ device spec, m.deviceToSpec device = some spec → m.specToDevice spec = some device
  fitting : ∀ spec device, m.specToDevice spec = some device →
    fits spec device = true ∧ device ∈ devices

/-- A successful attempt places its spec. Only its spec may be named by a device that it has left,
and a spec whose devices have all been seen stays where it was. -/
structure Attempt.Placed (fits : Nat → Nat → Bool) (devices : List Nat) (before : Matching)
    (seen : List Nat) (spec : Nat) (after : Attempt) : Prop where
  fitting : ∀ s device, after.matching.specToDevice s = some device →
    fits s device = true ∧ device ∈ devices
  stale : ∀ device s, after.matching.deviceToSpec device = some s →
    after.matching.specToDevice s = some device ∨
      (s = spec ∧ before.specToDevice spec = some device)
  stays : ∀ s, s ≠ spec → (∀ device, before.deviceToSpec device = some s → device ∈ seen) →
    after.matching.specToDevice s = before.specToDevice s
  domain : ∀ s, after.matching.specToDevice s ≠ none ↔ s = spec ∨ before.specToDevice s ≠ none

/-- A failed attempt changes nothing, and what it saw is closed: the devices of the spec, and those
of the owner of every device it saw. -/
structure Attempt.Exhausted (fits : Nat → Nat → Bool) (devices rest : List Nat) (before : Matching)
    (seen : List Nat) (spec : Nat) (after : Attempt) : Prop where
  same : after.matching = before
  grows : seen ⊆ after.visited
  inside : after.visited ⊆ devices
  nodup : after.visited.Nodup
  covers : ∀ device ∈ rest, fits spec device = true → device ∈ after.visited
  closed : ∀ device ∈ after.visited, device ∉ seen → ∃ owner,
    before.deviceToSpec device = some owner ∧
      ∀ other ∈ devices, fits owner other = true → other ∈ after.visited

theorem domain_assign {m : Matching} {spec device s : Nat} :
    (m.assign spec device).specToDevice s ≠ none ↔ s = spec ∨ m.specToDevice s ≠ none := by
  by_cases same : s = spec
  · subst same
    simp [Matching.assign]
  · simp [Matching.assign, same]

theorem fitting_assign {m : Matching} {spec device : Nat}
    (fitting : ∀ s d, m.specToDevice s = some d → fits s d = true ∧ d ∈ devices)
    (fit : fits spec device = true) (member : device ∈ devices) (s d : Nat)
    (held : (m.assign spec device).specToDevice s = some d) : fits s d = true ∧ d ∈ devices := by
  by_cases same : s = spec
  · subst same
    simp only [Matching.assign, Function.update_self, Option.some.injEq] at held
    subst held
    exact ⟨fit, member⟩
  · simp only [Matching.assign, Function.update_of_ne same] at held
    exact fitting s d held

theorem placed_free {m : Matching} {visited : List Nat} {spec device : Nat}
    (inverse : m.Exact fits devices) (fit : fits spec device = true) (member : device ∈ devices) :
    Attempt.Placed fits devices m visited spec ⟨true, m.assign spec device, device :: visited⟩ where
  fitting := fitting_assign inverse.fitting fit member
  stale := by
    intro d s held
    by_cases here : d = device
    · subst here
      simp only [Matching.assign, Function.update_self, Option.some.injEq] at held
      subst held
      exact .inl (by simp [Matching.assign])
    · simp only [Matching.assign, Function.update_of_ne here] at held
      have placed := inverse.placed d s held
      by_cases same : s = spec
      · subst same
        exact .inr ⟨rfl, placed⟩
      · exact .inl (by simpa [Matching.assign, same] using placed)
  stays := fun s other _ => by simp [Matching.assign, other]
  domain := fun _ => domain_assign

theorem placed_displaced {m : Matching} {visited : List Nat} {spec device owner : Nat}
    {moved : Attempt} (inverse : m.Exact fits devices) (fit : fits spec device = true)
    (member : device ∈ devices) (unseen : device ∉ visited)
    (guarded : ∀ d, m.deviceToSpec d = some spec → d ∈ visited)
    (taken : m.deviceToSpec device = some owner)
    (placed : moved.Placed fits devices m (device :: visited) owner) :
    Attempt.Placed fits devices m visited spec
      ⟨true, moved.matching.assign spec device, moved.visited⟩ := by
  have other : spec ≠ owner := by
    rintro rfl
    exact unseen (guarded device taken)
  have owns := inverse.placed device owner taken
  refine ⟨fitting_assign placed.fitting fit member, ?_, ?_, ?_⟩
  · intro d s held
    by_cases here : d = device
    · subst here
      simp only [Matching.assign, Function.update_self, Option.some.injEq] at held
      subst held
      exact .inl (by simp [Matching.assign])
    · simp only [Matching.assign, Function.update_of_ne here] at held
      have now : moved.matching.specToDevice s = some d := by
        rcases placed.stale d s held with now | ⟨rfl, was⟩
        · exact now
        · rw [owns] at was
          exact absurd (Option.some.inj was).symm here
      by_cases same : s = spec
      · subst same
        right
        refine ⟨rfl, ?_⟩
        rw [← placed.stays s other (fun d held => List.mem_cons_of_mem _ (guarded d held))]
        exact now
      · exact .inl (by simpa [Matching.assign, same] using now)
  · intro s apart seen
    have elsewhere : s ≠ owner := by
      rintro rfl
      exact unseen (seen device taken)
    rw [← placed.stays s elsewhere (fun d held => List.mem_cons_of_mem _ (seen d held))]
    simp [Matching.assign, apart]
  · intro s
    rw [domain_assign, placed.domain]
    constructor
    · rintro (same | rfl | before)
      · exact .inl same
      · exact .inr (by simp [owns])
      · exact .inr before
    · rintro (same | before)
      · exact .inl same
      · exact .inr (.inr before)

def Displaces (fits : Nat → Nat → Bool) (devices : List Nat) (room : Nat)
    (displace : Nat → Matching → List Nat → Attempt) : Prop :=
  ∀ owner m visited, m.Exact fits devices → visited ⊆ devices → visited.Nodup →
    devices.length < room + visited.length →
    (∀ d, m.deviceToSpec d = some owner → d ∈ visited) →
    ((displace owner m visited).found = true →
      (displace owner m visited).Placed fits devices m visited owner) ∧
    ((displace owner m visited).found = false →
      (displace owner m visited).Exhausted fits devices devices m visited owner)

theorem Attempt.Exhausted.skip {rest : List Nat} {m : Matching} {visited : List Nat}
    {spec device : Nat} {after : Attempt} (done : after.Exhausted fits devices rest m visited spec)
    (ineligible : device ∈ visited ∨ fits spec device = false) :
    after.Exhausted fits devices (device :: rest) m visited spec where
  same := done.same
  grows := done.grows
  inside := done.inside
  nodup := done.nodup
  covers := by
    intro d member fit
    rcases List.mem_cons.mp member with rfl | later
    · rcases ineligible with seen | unfit
      · exact done.grows seen
      · rw [fit] at unfit
        cases unfit
    · exact done.covers d later fit
  closed := done.closed

/-- The owner of the device could not move, and neither do the devices after it help. -/
theorem Attempt.Exhausted.continue {rest : List Nat} {m : Matching} {visited : List Nat}
    {spec device owner : Nat} {moved after : Attempt}
    (stuck : moved.Exhausted fits devices devices m (device :: visited) owner)
    (done : after.Exhausted fits devices rest moved.matching moved.visited spec)
    (taken : m.deviceToSpec device = some owner) :
    after.Exhausted fits devices (device :: rest) m visited spec := by
  have same := stuck.same
  rw [same] at done
  have here : device ∈ after.visited := done.grows (stuck.grows List.mem_cons_self)
  refine ⟨done.same, ?_, done.inside, done.nodup, ?_, ?_⟩
  · intro d seen
    exact done.grows (stuck.grows (List.mem_cons_of_mem _ seen))
  · intro d member fit
    rcases List.mem_cons.mp member with rfl | later
    · exact here
    · exact done.covers d later fit
  · intro d member unseen
    by_cases before : d ∈ moved.visited
    · by_cases isDevice : d = device
      · subst isDevice
        exact ⟨owner, taken, fun e held fit => done.grows (stuck.covers e held fit)⟩
      · obtain ⟨o, owns, all⟩ := stuck.closed d before (by simp [isDevice, unseen])
        exact ⟨o, owns, fun e held fit => done.grows (all e held fit)⟩
    · exact done.closed d member before

theorem tryDevices_outcome {room : Nat} {displace : Nat → Matching → List Nat → Attempt}
    (displaces : Displaces fits devices room displace) (spec : Nat) (rest : List Nat)
    (m : Matching) (visited : List Nat) (inverse : m.Exact fits devices) (within : rest ⊆ devices)
    (inside : visited ⊆ devices) (nodup : visited.Nodup)
    (enough : devices.length < room + 1 + visited.length)
    (guarded : ∀ d, m.deviceToSpec d = some spec → d ∈ visited) :
    ((tryDevices fits displace spec rest m visited).found = true →
      (tryDevices fits displace spec rest m visited).Placed fits devices m visited spec) ∧
    ((tryDevices fits displace spec rest m visited).found = false →
      (tryDevices fits displace spec rest m visited).Exhausted fits devices rest m visited spec) := by
  induction rest generalizing visited with
  | nil =>
    refine ⟨by simp [tryDevices], fun _ => ?_⟩
    exact ⟨rfl, fun _ seen => seen, inside, nodup, by simp, fun d seen unseen => absurd seen unseen⟩
  | cons device rest ih =>
    have withinRest : rest ⊆ devices := fun d held => within (List.mem_cons_of_mem _ held)
    unfold tryDevices
    split
    · rename_i ineligible
      obtain ⟨placed, exhausted⟩ := ih visited withinRest inside nodup enough guarded
      exact ⟨placed, fun failed => (exhausted failed).skip ineligible⟩
    · rename_i eligible
      have unseen : device ∉ visited := fun seen => eligible (.inl seen)
      have fit : fits spec device = true := by
        cases fit : fits spec device with
        | true => rfl
        | false => exact absurd (.inr fit) eligible
      have member : device ∈ devices := within List.mem_cons_self
      split
      · exact ⟨fun _ => placed_free inverse fit member, by simp⟩
      · rename_i owner taken
        have inside' : device :: visited ⊆ devices := List.cons_subset.mpr ⟨member, inside⟩
        have nodup' : (device :: visited).Nodup := List.nodup_cons.mpr ⟨unseen, nodup⟩
        have owns := inverse.placed device owner taken
        obtain ⟨placed, exhausted⟩ := displaces owner m (device :: visited) inverse inside' nodup'
          (by rw [List.length_cons]; omega)
          (fun d held => by
            have there := inverse.placed d owner held
            rw [owns] at there
            simp [Option.some.inj there])
        simp only
        split
        · rename_i found
          exact ⟨fun _ => placed_displaced inverse fit member unseen guarded taken (placed found),
            by simp⟩
        · rename_i failed
          have stuck := exhausted (by simpa using failed)
          have unchanged := stuck.same
          rw [unchanged]
          have grown : (device :: visited).length ≤
              (displace owner m (device :: visited)).visited.length :=
            (List.subperm_of_subset nodup' stuck.grows).length_le
          obtain ⟨next, last⟩ := ih (displace owner m (device :: visited)).visited withinRest
            stuck.inside stuck.nodup (by rw [List.length_cons] at grown; omega)
            (fun d held => stuck.grows (List.mem_cons_of_mem _ (guarded d held)))
          refine ⟨?_, ?_⟩
          · intro found
            have placed := next found
            exact ⟨placed.fitting, placed.stale, fun s apart seen => placed.stays s apart
              (fun d held => stuck.grows (List.mem_cons_of_mem _ (seen d held))), placed.domain⟩
          · intro done
            refine stuck.continue ?_ taken
            rw [unchanged]
            exact last done

theorem augment_displaces (fuel : Nat) : Displaces fits devices fuel (augment fits devices fuel) := by
  induction fuel with
  | zero =>
    intro owner m visited _ inside nodup enough _
    have fewer := (List.subperm_of_subset nodup inside).length_le
    omega
  | succ fuel ih =>
    intro owner m visited inverse inside nodup enough guarded
    exact tryDevices_outcome ih owner devices m visited inverse (fun _ held => held) inside nodup
      enough guarded

/-- Every spec of the list has a device that fits it, and no two have the same. -/
structure Assignment (fits : Nat → Nat → Bool) (devices specs : List Nat) (f : Nat → Nat) : Prop where
  fitting : ∀ s ∈ specs, fits s (f s) = true ∧ f s ∈ devices
  injective : ∀ s ∈ specs, ∀ s' ∈ specs, f s = f s' → s = s'

theorem Attempt.Exhausted.no_assignment {m : Matching} {spec : Nat} {after : Attempt}
    (stuck : after.Exhausted fits devices devices m [] spec) (inverse : m.Exact fits devices)
    (unplaced : m.specToDevice spec = none) {specs : List Nat} (asked : spec ∈ specs)
    (placed : ∀ s, m.specToDevice s ≠ none → s ∈ specs) (f : Nat → Nat) :
    ¬ Assignment fits devices specs f := by
  intro assignment
  -- the specs that the attempt has met: its own, and the owner of each device it saw
  let owner := fun d => (m.deviceToSpec d).getD 0
  have owns : ∀ d ∈ after.visited, m.deviceToSpec d = some (owner d) ∧
      ∀ other ∈ devices, fits (owner d) other = true → other ∈ after.visited := by
    intro d seen
    obtain ⟨o, held, all⟩ := stuck.closed d seen (by simp)
    simp only [owner, held, Option.getD_some]
    exact ⟨trivial, all⟩
  have distinct : (spec :: after.visited.map owner).Nodup := by
    refine List.nodup_cons.mpr ⟨?_, ?_⟩
    · intro member
      obtain ⟨d, seen, same⟩ := List.mem_map.mp member
      have there := inverse.placed d (owner d) (owns d seen).1
      rw [same, unplaced] at there
      cases there
    · refine List.Nodup.map_on ?_ stuck.nodup
      intro d seen e seen' same
      have one := inverse.placed d (owner d) (owns d seen).1
      rw [same, inverse.placed e (owner e) (owns e seen').1] at one
      exact (Option.some.inj one).symm
  have inside : spec :: after.visited.map owner ⊆ specs := by
    refine List.cons_subset.mpr ⟨asked, ?_⟩
    intro s member
    obtain ⟨d, seen, rfl⟩ := List.mem_map.mp member
    exact placed _ (by simp [inverse.placed d (owner d) (owns d seen).1])
  have targets : (spec :: after.visited.map owner).map f ⊆ after.visited := by
    intro d member
    obtain ⟨s, met, rfl⟩ := List.mem_map.mp member
    obtain ⟨fit, there⟩ := assignment.fitting s (inside met)
    rcases List.mem_cons.mp met with rfl | owned
    · exact stuck.covers _ there fit
    · obtain ⟨d, seen, rfl⟩ := List.mem_map.mp owned
      exact (owns d seen).2 _ there fit
  have different : ((spec :: after.visited.map owner).map f).Nodup :=
    List.Nodup.map_on (fun s met s' met' same =>
      assignment.injective s (inside met) s' (inside met') same) distinct
  have fewer := (List.subperm_of_subset different targets).length_le
  simp only [List.length_map, List.length_cons] at fewer
  omega

theorem augment_outcome {m : Matching} {spec : Nat} (inverse : m.Exact fits devices)
    (unplaced : m.specToDevice spec = none) :
    ((augment fits devices (devices.length + 1) spec m []).found = true →
      (augment fits devices (devices.length + 1) spec m []).matching.Exact fits devices ∧
        ∀ s, (augment fits devices (devices.length + 1) spec m []).matching.specToDevice s ≠ none ↔
          s = spec ∨ m.specToDevice s ≠ none) ∧
    ((augment fits devices (devices.length + 1) spec m []).found = false →
      (augment fits devices (devices.length + 1) spec m []).Exhausted fits devices devices m []
        spec) := by
  have guarded : ∀ d, m.deviceToSpec d = some spec → d ∈ ([] : List Nat) := by
    intro d held
    rw [inverse.placed d spec held] at unplaced
    cases unplaced
  obtain ⟨placed, exhausted⟩ := @augment_displaces fits devices (devices.length + 1) spec m []
    inverse (by simp) (by simp) (by simp) guarded
  refine ⟨?_, exhausted⟩
  intro found
  have owned := (@augment_sound fits devices (devices.length + 1) spec m [] inverse.owned).owned
  refine ⟨⟨owned, ?_, (placed found).fitting⟩, (placed found).domain⟩
  intro d s held
  rcases (placed found).stale d s held with now | ⟨rfl, was⟩
  · exact now
  · rw [unplaced] at was
    cases was

/-- The specs that are still to be placed have no device after the attempt for another. -/
theorem unplaced_rest {m after : Matching} {spec : Nat} {rest : List Nat}
    (domain : ∀ s, after.specToDevice s ≠ none ↔ s = spec ∨ m.specToDevice s ≠ none)
    (last : spec ∉ rest) (unplaced : ∀ s ∈ spec :: rest, m.specToDevice s = none) :
    ∀ s ∈ rest, after.specToDevice s = none := by
  intro s later
  by_contra some
  rcases (domain s).mp some with rfl | before
  · exact last later
  · exact before (unplaced s (List.mem_cons_of_mem _ later))

theorem matchSpecs_matched {specs : List Nat} {m final : Matching} (inverse : m.Exact fits devices)
    (nodup : specs.Nodup) (unplaced : ∀ s ∈ specs, m.specToDevice s = none)
    (matched : matchSpecs fits devices specs m = some final) :
    final.Exact fits devices ∧
      ∀ s, final.specToDevice s ≠ none ↔ s ∈ specs ∨ m.specToDevice s ≠ none := by
  induction specs generalizing m with
  | nil =>
    cases matched
    exact ⟨inverse, by simp⟩
  | cons spec rest ih =>
    simp only [matchSpecs] at matched
    split at matched
    · rename_i found
      obtain ⟨last, others⟩ := List.nodup_cons.mp nodup
      obtain ⟨exactNow, domain⟩ :=
        (augment_outcome inverse (unplaced spec List.mem_cons_self)).1 found
      obtain ⟨done, all⟩ := ih exactNow others (unplaced_rest domain last unplaced) matched
      refine ⟨done, ?_⟩
      intro s
      rw [all, domain, List.mem_cons]
      tauto
    · cases matched

theorem matchSpecs_none {specs all : List Nat} {m : Matching} (inverse : m.Exact fits devices)
    (nodup : specs.Nodup) (unplaced : ∀ s ∈ specs, m.specToDevice s = none)
    (asked : specs ⊆ all) (placed : ∀ s, m.specToDevice s ≠ none → s ∈ all)
    (unmatched : matchSpecs fits devices specs m = none) (f : Nat → Nat) :
    ¬ Assignment fits devices all f := by
  induction specs generalizing m with
  | nil => cases unmatched
  | cons spec rest ih =>
    have free := unplaced spec List.mem_cons_self
    obtain ⟨last, others⟩ := List.nodup_cons.mp nodup
    simp only [matchSpecs] at unmatched
    split at unmatched
    · rename_i found
      obtain ⟨exactNow, domain⟩ := (augment_outcome inverse free).1 found
      refine ih exactNow others (unplaced_rest domain last unplaced) ?_ ?_ unmatched
      · exact fun s later => asked (List.mem_cons_of_mem _ later)
      · intro s some
        rcases (domain s).mp some with rfl | before
        · exact asked List.mem_cons_self
        · exact placed s before
    · rename_i failed
      exact ((augment_outcome inverse free).2 (by simpa using failed)).no_assignment inverse free
        (asked List.mem_cons_self) placed f

end Augmenting

section Resolution

/-- Devices of the pool, no two the same, the `i`-th matching the `i`-th spec. -/
structure Assigns (parsed : List MatchSpec) (pool devices : List PCIeDescriptor) : Prop where
  matching : List.Forall₂ (fun spec d => descriptorMatches spec d = true) parsed devices
  pooled : devices ⊆ pool
  distinct : devices.Nodup

def unclaimed (descriptors : List PCIeDescriptor) (claims : List PCIeClaim) : List PCIeDescriptor :=
  descriptors.filter (fun d => !claims.any (fun c => c.bdf = d.bdf))

def fitsAt (specs : List MatchSpec) (available : List PCIeDescriptor) (spec device : Nat) : Bool :=
  match specs[spec]?, available[device]? with
  | some s, some d => descriptorMatches s d
  | _, _ => false

theorem fitsAt_eq_true {specs : List MatchSpec} {available : List PCIeDescriptor}
    {spec device : Nat} : fitsAt specs available spec device = true ↔
      ∃ s d, specs[spec]? = some s ∧ available[device]? = some d ∧ descriptorMatches s d = true := by
  unfold fitsAt
  split
  · rename_i s d isSpec isDevice
    simp [isSpec, isDevice]
  · rename_i missing
    simp only [Bool.false_eq_true, false_iff]
    rintro ⟨s, d, isSpec, isDevice, _⟩
    exact missing s d isSpec isDevice

theorem empty_exact (fits : Nat → Nat → Bool) (devices : List Nat) :
    Matching.empty.Exact fits devices where
  owned _ _ held := by cases held
  placed _ _ held := by cases held
  fitting _ _ held := by cases held

theorem filterMap_positions {α : Type} (l : List α) :
    (List.range l.length).filterMap (fun i => l[i]?) = l := by
  induction l with
  | nil => rfl
  | cons a rest ih =>
    rw [List.length_cons, List.range_succ_eq_map, List.filterMap_cons_some List.getElem?_cons_zero,
      List.filterMap_map]
    congr 1

variable {parsed : List MatchSpec} {available : List PCIeDescriptor}

theorem assigns_of_some {assignment : List Nat}
    (matched : maxBipartiteMatch parsed available = some assignment) (distinct : available.Nodup) :
    Assigns parsed available (assignment.filterMap (fun i => available[i]?)) := by
  have nodup := maxBipartiteMatch_nodup matched
  rw [maxBipartiteMatch] at matched
  split at matched
  · rename_i final result
    obtain rfl := Option.some.inj matched
    obtain ⟨inverse, domain⟩ := matchSpecs_matched (empty_exact (fitsAt parsed available) _)
      List.nodup_range (fun _ _ => rfl) result
    have place : ∀ s < parsed.length, ∃ device d spec, final.specToDevice s = some device ∧
        parsed[s]? = some spec ∧ available[device]? = some d ∧ descriptorMatches spec d = true := by
      intro s bound
      obtain ⟨device, held⟩ := Option.ne_none_iff_exists'.mp
        ((domain s).mpr (.inl (List.mem_range.mpr bound)))
      obtain ⟨spec, d, isSpec, isDevice, fit⟩ := fitsAt_eq_true.mp (inverse.fitting s device held).1
      exact ⟨device, d, spec, held, isSpec, isDevice, fit⟩
    refine ⟨?_, ?_, ?_⟩
    · rw [List.filterMap_filterMap]
      -- spec by spec, over the positions
      have pairs : ∀ l : List Nat, (∀ s ∈ l, s < parsed.length) →
          List.Forall₂ (fun spec d => descriptorMatches spec d = true)
            (l.filterMap (fun s => parsed[s]?))
            (l.filterMap (fun s => (final.specToDevice s).bind (fun i => available[i]?))) := by
        intro l inside
        induction l with
        | nil => exact .nil
        | cons s rest ih =>
          obtain ⟨device, d, spec, held, isSpec, isDevice, fit⟩ :=
            place s (inside s List.mem_cons_self)
          rw [List.filterMap_cons_some isSpec, List.filterMap_cons_some (b := d)
            (by simp [held, isDevice])]
          exact .cons fit (ih (fun s later => inside s (List.mem_cons_of_mem _ later)))
      have all := pairs (List.range parsed.length) (fun s member => List.mem_range.mp member)
      rw [filterMap_positions] at all
      exact all
    · intro d member
      obtain ⟨i, _, found⟩ := List.mem_filterMap.mp member
      exact List.mem_of_getElem? found
    · refine List.Nodup.filterMap ?_ nodup
      intro left right d first second
      simp only [Option.mem_def] at first second
      obtain ⟨inside, _⟩ := List.getElem?_eq_some_iff.mp first
      exact (List.getElem?_inj inside distinct).mp (first.trans second.symm)
  · cases matched

theorem not_assigns_of_none (unmatched : maxBipartiteMatch parsed available = none)
    (devices : List PCIeDescriptor) : ¬ Assigns parsed available devices := by
  intro assigns
  rw [maxBipartiteMatch] at unmatched
  split at unmatched
  · cases unmatched
  · rename_i result
    have position : ∀ s < parsed.length, ∃ i, i < available.length ∧ ∃ spec d,
        parsed[s]? = some spec ∧ devices[s]? = some d ∧ available[i]? = some d ∧
          descriptorMatches spec d = true := by
      intro s bound
      have bound' : s < devices.length := by
        rw [← assigns.matching.length_eq]
        exact bound
      have fit := assigns.matching.get bound bound'
      obtain ⟨i, inside, same⟩ := List.getElem_of_mem (assigns.pooled (List.getElem_mem bound'))
      refine ⟨i, inside, _, _, List.getElem?_eq_getElem bound, List.getElem?_eq_getElem bound', ?_, fit⟩
      rw [List.getElem?_eq_getElem inside, same]
    choose f bounded chosen using position
    apply matchSpecs_none (empty_exact _ _) List.nodup_range (fun _ _ => rfl) (fun _ member => member)
      (fun _ some => absurd rfl some) result
      (fun s => if inside : s < parsed.length then f s inside else 0)
    constructor
    · intro s member
      have inside := List.mem_range.mp member
      obtain ⟨spec, d, isSpec, _, isDevice, fit⟩ := chosen s inside
      simp only [inside, dif_pos, List.mem_range]
      exact ⟨fitsAt_eq_true.mpr ⟨spec, d, isSpec, isDevice, fit⟩, bounded s inside⟩
    · intro s member s' member' clash
      have inside := List.mem_range.mp member
      have inside' := List.mem_range.mp member'
      simp only [inside, inside', dif_pos] at clash
      obtain ⟨_, d, _, here, isDevice, _⟩ := chosen s inside
      obtain ⟨_, d', _, there, isDevice', _⟩ := chosen s' inside'
      rw [clash, isDevice'] at isDevice
      have bound := (List.getElem?_eq_some_iff.mp here).1
      exact (List.getElem?_inj bound assigns.distinct).mp (by rw [here, there, isDevice])

theorem parseMatchSpecs_forall₂ {specs : List String} :
    parseMatchSpecs specs = .ok parsed ↔
      List.Forall₂ (fun text spec => parseMatchSpec text = .ok spec) specs parsed := by
  induction specs generalizing parsed with
  | nil =>
    constructor
    · intro ok
      cases ok
      exact .nil
    · intro all
      cases all
      rfl
  | cons text rest ih =>
    constructor
    · intro ok
      unfold parseMatchSpecs at ok
      cases first : parseMatchSpec text with
      | error e =>
        rw [first] at ok
        cases ok
      | ok spec =>
        rw [first] at ok
        cases others : parseMatchSpecs rest with
        | error e =>
          rw [others] at ok
          cases ok
        | ok more =>
          rw [others] at ok
          cases ok
          exact .cons first (ih.mp others)
    · intro all
      cases all with
      | cons first others =>
        unfold parseMatchSpecs
        rw [first, ih.mpr others]

theorem Assigns.perm {parsed' : List MatchSpec} {pool pool' devices : List PCIeDescriptor}
    (assigns : Assigns parsed pool devices) (specs : parsed'.Perm parsed) (pools : pool'.Perm pool) :
    ∃ devices', Assigns parsed' pool' devices' := by
  obtain ⟨devices', matching, perm⟩ := List.perm_comp_forall₂ specs assigns.matching
  refine ⟨devices', matching, ?_, perm.nodup_iff.mpr assigns.distinct⟩
  intro d member
  exact pools.mem_iff.mpr (assigns.pooled (perm.mem_iff.mp member))

def Unknown (parsed : List MatchSpec) (descriptors : List PCIeDescriptor) : Prop :=
  ∃ spec ∈ parsed, ∀ d ∈ descriptors, descriptorMatches spec d = false

theorem Unknown.perm {parsed' : List MatchSpec} {descriptors descriptors' : List PCIeDescriptor}
    (specs : parsed'.Perm parsed) (perm : descriptors'.Perm descriptors) :
    Unknown parsed' descriptors' ↔ Unknown parsed descriptors := by
  unfold Unknown
  simp only [specs.mem_iff, perm.mem_iff]

theorem Assigns.known {descriptors devices : List PCIeDescriptor} {claims : List PCIeClaim}
    (assigns : Assigns parsed (unclaimed descriptors claims) devices) :
    ¬ Unknown parsed descriptors := by
  rintro ⟨spec, member, unmatched⟩
  obtain ⟨n, bound, isSpec⟩ := List.getElem_of_mem member
  have bound' : n < devices.length := by
    rw [← assigns.matching.length_eq]
    exact bound
  have fit := assigns.matching.get bound bound'
  have there := (List.mem_filter.mp (assigns.pooled (List.getElem_mem bound'))).1
  simp only [List.get_eq_getElem, isSpec] at fit
  rw [unmatched _ there] at fit
  cases fit

structure Resolves (parsed : List MatchSpec) (descriptors : List PCIeDescriptor)
    (claims : List PCIeClaim) (r : MultisetResolution) : Prop where
  matched : r.outcome = .matched ↔ ∃ devices, Assigns parsed (unclaimed descriptors claims) devices
  devices : r.outcome = .matched → Assigns parsed (unclaimed descriptors claims) r.devices
  config : r.outcome = .config ↔ Unknown parsed descriptors
  capacity : r.outcome = .capacity ↔ (¬ ∃ devices,
    Assigns parsed (unclaimed descriptors claims) devices) ∧ ¬ Unknown parsed descriptors

theorem resolveMultiset_resolves {specs : List String} {descriptors : List PCIeDescriptor}
    {claims : List PCIeClaim} (valid : parseMatchSpecs specs = .ok parsed)
    (distinct : (descriptors.map PCIeDescriptor.bdf).Nodup) :
    ∃ r, resolveMultiset specs descriptors claims = .ok r ∧ Resolves parsed descriptors claims r := by
  have unknown : parsed.any (fun p => !descriptors.any (descriptorMatches p)) = true ↔
      Unknown parsed descriptors := by
    simp [Unknown]
  unfold resolveMultiset
  rw [valid]
  dsimp only
  split
  · rename_i some
    have isUnknown := unknown.mp some
    have none : ¬ ∃ devices, Assigns parsed (unclaimed descriptors claims) devices := by
      rintro ⟨devices, assigns⟩
      exact assigns.known isUnknown
    exact ⟨_, rfl, by simp [none], by simp, by simp [isUnknown], by simp [isUnknown]⟩
  · rename_i all
    have known : ¬ Unknown parsed descriptors := fun isUnknown => all (unknown.mpr isUnknown)
    rw [← unclaimed]
    cases result : maxBipartiteMatch parsed (unclaimed descriptors claims) with
    | none =>
      have none : ¬ ∃ devices, Assigns parsed (unclaimed descriptors claims) devices := by
        rintro ⟨devices, assigns⟩
        exact not_assigns_of_none result devices assigns
      exact ⟨_, rfl, by simp [none], by simp, by simp [known], by simp [none, known]⟩
    | some assignment =>
      have assigns := assigns_of_some result ((List.Nodup.of_map _ distinct).filter _)
      exact ⟨_, rfl, by simpa using ⟨_, assigns⟩, fun _ => assigns, by simp [known],
        by simpa using fun none => absurd assigns (none _)⟩

/-- The matcher finds an assignment whenever there is one, and says which of the two failures it is
otherwise; neither the order of the specs nor that of the descriptors changes what it says. -/
theorem resolveMultiset_complete {specs : List String} {descriptors : List PCIeDescriptor}
    {claims : List PCIeClaim} (valid : parseMatchSpecs specs = .ok parsed)
    (distinct : (descriptors.map PCIeDescriptor.bdf).Nodup) :
    ∃ r, resolveMultiset specs descriptors claims = .ok r ∧
      Resolves parsed descriptors claims r ∧
      ∀ specs' descriptors', specs'.Perm specs → descriptors'.Perm descriptors →
        ∃ r', resolveMultiset specs' descriptors' claims = .ok r' ∧ r'.outcome = r.outcome := by
  obtain ⟨r, resolved, resolves⟩ := @resolveMultiset_resolves _ _ _ claims valid distinct
  refine ⟨r, resolved, resolves, ?_⟩
  intro specs' descriptors' specsPerm perm
  obtain ⟨parsed', valid', parsedPerm⟩ :=
    List.perm_comp_forall₂ specsPerm (parseMatchSpecs_forall₂.mp valid)
  obtain ⟨r', resolved', resolves'⟩ := @resolveMultiset_resolves _ specs' descriptors' claims
    (parseMatchSpecs_forall₂.mpr valid') ((perm.map _).nodup_iff.mpr distinct)
  refine ⟨r', resolved', ?_⟩
  have pools : (unclaimed descriptors' claims).Perm (unclaimed descriptors claims) := perm.filter _
  have same : (∃ devices, Assigns parsed' (unclaimed descriptors' claims) devices) ↔
      ∃ devices, Assigns parsed (unclaimed descriptors claims) devices := by
    constructor
    · rintro ⟨devices, assigns⟩
      exact assigns.perm parsedPerm.symm pools.symm
    · rintro ⟨devices, assigns⟩
      exact assigns.perm parsedPerm pools
  have unknown := @Unknown.perm parsed parsed' descriptors descriptors' parsedPerm perm
  cases outcome : r.outcome with
  | matched => exact resolves'.matched.mpr (same.mpr (resolves.matched.mp outcome))
  | config => exact resolves'.config.mpr (unknown.mpr (resolves.config.mp outcome))
  | capacity =>
    obtain ⟨none, known⟩ := resolves.capacity.mp outcome
    exact resolves'.capacity.mpr ⟨fun some => none (same.mp some), fun is => known (unknown.mp is)⟩

/-- A broad spec before a narrow one that shares its card. -/
theorem overlapping_specs_matched :
    let card : PCIeDescriptor := ⟨"0000:01:00.0", "8086", "1572", "020000", "nic"⟩
    let other : PCIeDescriptor := ⟨"0000:02:00.0", "15b3", "1017", "020000", "nic"⟩
    resolveMultiset ["class=02", "8086:1572"] [card, other] [] = .ok ⟨.matched, [other, card]⟩ ∧
      ∃ r, resolveMultiset ["class=02", "8086:1572"] [card, other] [] = .ok r ∧
        Resolves [.classPrefix "02", .vendorDevice "8086" "1572"] [card, other] [] r ∧
        ∀ specs' descriptors', specs'.Perm ["class=02", "8086:1572"] →
          descriptors'.Perm [card, other] →
          ∃ r', resolveMultiset specs' descriptors' [] = .ok r' ∧ r'.outcome = r.outcome := by
  refine ⟨by decide +kernel, ?_⟩
  exact resolveMultiset_complete (by decide +kernel) (by decide +kernel)

end Resolution

end Kdive.Capacity
