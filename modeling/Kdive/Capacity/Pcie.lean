import Kdive.Capacity.Records

/-!
PCIe match specs and their resolution to distinct free devices: the spec grammar, and
the maximum bipartite matching by augmenting paths that assigns one device to each spec.
-/
namespace Kdive.Capacity

inductive MatchSpec where
  | vendorDevice (vendorId deviceId : String)
  | classPrefix (classPrefix : String)
  deriving DecidableEq

def isHex (c : Char) : Bool := ('0' ≤ c && c ≤ '9') || ('a' ≤ c && c ≤ 'f')

def dropFinalNewline (text : List Char) : List Char :=
  match text.getLast? with
  | some '\n' => text.dropLast
  | _ => text

def afterClass : List Char → Option (List Char)
  | 'c' :: 'l' :: 'a' :: 's' :: 's' :: '=' :: rest => some rest
  | _ => none

def parseMatchSpec (spec : String) : Except AllocError MatchSpec :=
  let text := spec.toList
  let body := dropFinalNewline text
  if body.length = 9 ∧ (body.take 4).all isHex ∧ body[4]? = some ':' ∧ (body.drop 5).all isHex then
    -- The device id is split off the whole text, so it keeps a final newline.
    .ok (.vendorDevice (String.ofList (text.take 4)) (String.ofList (text.drop 5)))
  else match afterClass body with
    | some digits =>
      if (digits.length = 2 ∨ digits.length = 4) ∧ digits.all isHex then
        .ok (.classPrefix (String.ofList digits))
      else .error (.malformedSpec spec)
    | none => .error (.malformedSpec spec)

def parseMatchSpecs : List String → Except AllocError (List MatchSpec)
  | [] => .ok []
  | spec :: rest =>
    match parseMatchSpec spec with
    | .error e => .error e
    | .ok parsed =>
      match parseMatchSpecs rest with
      | .error e => .error e
      | .ok more => .ok (parsed :: more)

def descriptorMatches (spec : MatchSpec) (d : PCIeDescriptor) : Bool :=
  match spec with
  | .vendorDevice vendorId deviceId => decide (d.vendorId = vendorId) && decide (d.deviceId = deviceId)
  | .classPrefix p => p.toList.isPrefixOf d.classCode.toList

inductive MatchOutcome where
  | matched | config | capacity
  deriving DecidableEq

structure MultisetResolution where
  outcome : MatchOutcome
  devices : List PCIeDescriptor
  deriving DecidableEq

section Matching

/-- The state of the matching: the device of each spec, and the owner of each device. -/
structure Matching where
  specToDevice : Nat → Option Nat
  deviceToSpec : Nat → Option Nat

def Matching.empty : Matching := ⟨fun _ => none, fun _ => none⟩

def Matching.assign (m : Matching) (spec device : Nat) : Matching :=
  ⟨Function.update m.specToDevice spec (some device),
    Function.update m.deviceToSpec device (some spec)⟩

/-- What an attempt to place a spec leaves behind: its success, the matching, the devices seen. -/
structure Attempt where
  found : Bool
  matching : Matching
  visited : List Nat

def tryDevices (fits : Nat → Nat → Bool) (displace : Nat → Matching → List Nat → Attempt)
    (spec : Nat) : List Nat → Matching → List Nat → Attempt
  | [], m, visited => ⟨false, m, visited⟩
  | device :: rest, m, visited =>
    if device ∈ visited ∨ fits spec device = false then
      tryDevices fits displace spec rest m visited
    else
      match m.deviceToSpec device with
      | none => ⟨true, m.assign spec device, device :: visited⟩
      | some owner =>
        let moved := displace owner m (device :: visited)
        if moved.found then ⟨true, moved.matching.assign spec device, moved.visited⟩
        else tryDevices fits displace spec rest moved.matching moved.visited

def augment (fits : Nat → Nat → Bool) (devices : List Nat) :
    Nat → Nat → Matching → List Nat → Attempt
  | 0, _, m, visited => ⟨false, m, visited⟩
  | fuel + 1, spec, m, visited =>
    tryDevices fits (augment fits devices fuel) spec devices m visited

def matchSpecs (fits : Nat → Nat → Bool) (devices : List Nat) :
    List Nat → Matching → Option Matching
  | [], m => some m
  | spec :: rest, m =>
    let attempt := augment fits devices (devices.length + 1) spec m []
    if attempt.found then matchSpecs fits devices rest attempt.matching else none

def maxBipartiteMatch (specs : List MatchSpec) (available : List PCIeDescriptor) :
    Option (List Nat) :=
  let fits := fun spec device =>
    match specs[spec]?, available[device]? with
    | some s, some d => descriptorMatches s d
    | _, _ => false
  match matchSpecs fits (List.range available.length) (List.range specs.length) .empty with
  | some m => some ((List.range specs.length).filterMap m.specToDevice)
  | none => none

end Matching

def resolveMultiset (specs : List String) (descriptors : List PCIeDescriptor)
    (claims : List PCIeClaim) : Except AllocError MultisetResolution :=
  match parseMatchSpecs specs with
  | .error e => .error e
  | .ok parsed =>
    if parsed.any (fun p => !descriptors.any (descriptorMatches p)) then .ok ⟨.config, []⟩
    else
      let available := descriptors.filter (fun d => !claims.any (fun c => c.bdf = d.bdf))
      match maxBipartiteMatch parsed available with
      | none => .ok ⟨.capacity, []⟩
      | some assignment => .ok ⟨.matched, assignment.filterMap (fun i => available[i]?)⟩

section Distinct

variable {fits : Nat → Nat → Bool}

def Matching.Owned (m : Matching) : Prop :=
  ∀ spec device, m.specToDevice spec = some device → m.deviceToSpec device = some spec

/-- What placing one spec keeps: ownership, and the owners of the devices seen before. -/
structure Attempt.Sound (before : Matching) (seen : List Nat) (spec : Nat) (after : Attempt) :
    Prop where
  owned : after.matching.Owned
  grows : ∀ device ∈ seen, device ∈ after.visited
  keeps : ∀ device ∈ seen, after.matching.deviceToSpec device = before.deviceToSpec device
  fresh : after.found = true → ∃ device, device ∉ seen ∧
    after.matching.specToDevice spec = some device

theorem assign_owned {m : Matching} {spec device : Nat} (owned : m.Owned)
    (unowned : ∀ other, other ≠ spec → m.specToDevice other ≠ some device) :
    (m.assign spec device).Owned := by
  intro other place held
  simp only [Matching.assign] at held ⊢
  by_cases same : other = spec
  · subst same
    rw [Function.update_self] at held
    cases held
    rw [Function.update_self]
  · rw [Function.update_of_ne same] at held
    have elsewhere : place ≠ device := by
      intro clash
      subst clash
      exact unowned other same held
    rw [Function.update_of_ne elsewhere]
    exact owned other place held

theorem tryDevices_sound {displace : Nat → Matching → List Nat → Attempt}
    (step : ∀ owner m visited, m.Owned → (displace owner m visited).Sound m visited owner)
    (spec : Nat) (devices : List Nat) (m : Matching) (visited : List Nat) (owned : m.Owned) :
    (tryDevices fits displace spec devices m visited).Sound m visited spec := by
  induction devices generalizing m visited with
  | nil => exact ⟨owned, fun _ seen => seen, fun _ _ => rfl, by simp [tryDevices]⟩
  | cons device rest ih =>
    unfold tryDevices
    split
    · exact ih m visited owned
    · rename_i eligible
      have unseen : device ∉ visited := fun seen => eligible (.inl seen)
      split
      · rename_i free
        refine ⟨?_, ?_, ?_, ?_⟩
        · refine assign_owned owned ?_
          intro other _ held
          rw [owned other device held] at free
          cases free
        · intro d seen
          exact List.mem_cons_of_mem device seen
        · intro d seen
          have other : d ≠ device := fun same => unseen (same ▸ seen)
          simp [Matching.assign, Function.update_of_ne other]
        · intro _
          exact ⟨device, unseen, by simp [Matching.assign]⟩
      · rename_i owner taken
        have moved := step owner m (device :: visited) owned
        simp only
        split
        · rename_i found
          obtain ⟨place, away, now⟩ := moved.fresh found
          have stale : (displace owner m (device :: visited)).matching.deviceToSpec device =
              some owner := by
            rw [moved.keeps device List.mem_cons_self]
            exact taken
          refine ⟨?_, ?_, ?_, ?_⟩
          · refine assign_owned moved.owned ?_
            -- Only the displaced owner could still name the device, and it has moved.
            intro other _ held
            have same : owner = other := by
              have := moved.owned other device held
              rw [stale] at this
              exact Option.some.inj this
            subst same
            rw [now] at held
            cases held
            exact away List.mem_cons_self
          · intro d seen
            exact moved.grows d (List.mem_cons_of_mem device seen)
          · intro d seen
            have other : d ≠ device := fun same => unseen (same ▸ seen)
            simp only [Matching.assign, Function.update_of_ne other]
            exact moved.keeps d (List.mem_cons_of_mem device seen)
          · intro _
            exact ⟨device, unseen, by simp [Matching.assign]⟩
        · have next := ih (displace owner m (device :: visited)).matching
            (displace owner m (device :: visited)).visited moved.owned
          refine ⟨next.owned, ?_, ?_, ?_⟩
          · intro d seen
            exact next.grows d (moved.grows d (List.mem_cons_of_mem device seen))
          · intro d seen
            rw [next.keeps d (moved.grows d (List.mem_cons_of_mem device seen))]
            exact moved.keeps d (List.mem_cons_of_mem device seen)
          · intro found
            obtain ⟨place, away, now⟩ := next.fresh found
            exact ⟨place, fun seen => away (moved.grows place (List.mem_cons_of_mem device seen)), now⟩

theorem augment_sound (devices : List Nat) (fuel spec : Nat) (m : Matching) (visited : List Nat)
    (owned : m.Owned) : (augment fits devices fuel spec m visited).Sound m visited spec := by
  induction fuel generalizing spec m visited with
  | zero => exact ⟨owned, fun _ seen => seen, fun _ _ => rfl, by simp [augment]⟩
  | succ fuel ih =>
    exact tryDevices_sound (fun owner m visited owned => ih owner m visited owned) spec devices m
      visited owned

theorem matchSpecs_owned {devices specs : List Nat} {m final : Matching} (owned : m.Owned)
    (matched : matchSpecs fits devices specs m = some final) : final.Owned := by
  induction specs generalizing m with
  | nil =>
    cases matched
    exact owned
  | cons spec rest ih =>
    simp only [matchSpecs] at matched
    split at matched
    · exact ih (augment_sound devices _ spec m [] owned).owned matched
    · cases matched

theorem maxBipartiteMatch_nodup {specs : List MatchSpec} {available : List PCIeDescriptor}
    {assignment : List Nat} (matched : maxBipartiteMatch specs available = some assignment) :
    assignment.Nodup := by
  simp only [maxBipartiteMatch] at matched
  split at matched
  · rename_i m final
    cases matched
    have owned : m.Owned := matchSpecs_owned (fun spec device held => by cases held) final
    refine List.Nodup.filterMap ?_ List.nodup_range
    intro left right device first second
    have one := owned left device first
    rw [owned right device second] at one
    exact (Option.some.inj one).symm
  · cases matched

theorem resolveMultiset_distinct {specs : List String} {descriptors : List PCIeDescriptor}
    {claims : List PCIeClaim} {r : MultisetResolution}
    (distinct : (descriptors.map PCIeDescriptor.bdf).Nodup)
    (resolved : resolveMultiset specs descriptors claims = .ok r) :
    (r.devices.map PCIeDescriptor.bdf).Nodup := by
  unfold resolveMultiset at resolved
  split at resolved
  · cases resolved
  · split at resolved
    · cases resolved
      simp
    · simp only at resolved
      split at resolved
      · cases resolved
        simp
      · rename_i assignment matched
        cases resolved
        simp only
        rw [List.map_filterMap]
        refine List.Nodup.filterMap ?_ (maxBipartiteMatch_nodup matched)
        intro left right bdf first second
        simp only [Option.mem_def, Option.map_eq_some_iff] at first second
        obtain ⟨d, atLeft, rfl⟩ := first
        obtain ⟨e, atRight, same⟩ := second
        have unique : ((descriptors.filter
            (fun d => !claims.any (fun c => c.bdf = d.bdf))).map PCIeDescriptor.bdf).Nodup :=
          distinct.sublist (List.filter_sublist.map _)
        have here : ((descriptors.filter
            (fun d => !claims.any (fun c => c.bdf = d.bdf))).map PCIeDescriptor.bdf)[left]? =
            some d.bdf := by simp [atLeft]
        have there : ((descriptors.filter
            (fun d => !claims.any (fun c => c.bdf = d.bdf))).map PCIeDescriptor.bdf)[right]? =
            some d.bdf := by simp [atRight, same]
        obtain ⟨inside, _⟩ := List.getElem?_eq_some_iff.mp here
        exact (List.getElem?_inj inside unique).mp (here.trans there.symm)

theorem resolveMultiset_free {specs : List String} {descriptors : List PCIeDescriptor}
    {claims : List PCIeClaim} {r : MultisetResolution}
    (resolved : resolveMultiset specs descriptors claims = .ok r) :
    ∀ d ∈ r.devices, ∀ c ∈ claims, d.bdf ≠ c.bdf := by
  intro d member c claimed clash
  unfold resolveMultiset at resolved
  split at resolved
  · cases resolved
  · split at resolved
    · cases resolved
      cases member
    · simp only at resolved
      split at resolved
      · cases resolved
        cases member
      · cases resolved
        obtain ⟨i, _, found⟩ := List.mem_filterMap.mp member
        have free := (List.mem_filter.mp (List.mem_of_getElem? found)).2
        simp only [Bool.not_eq_true', List.any_eq_false, decide_eq_true_eq] at free
        exact free c claimed clash.symm

end Distinct

end Kdive.Capacity
