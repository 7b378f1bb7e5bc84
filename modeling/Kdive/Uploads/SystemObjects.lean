import Kdive.Uploads.Retired
import Mathlib.Algebra.Order.BigOperators.Group.List
import Mathlib.Algebra.Order.Group.Nat
import Mathlib.Algebra.GroupWithZero.Nat

/-!
The sweep of the rowless object versions of retired Systems: a pass reads one page of the version
inventory after its cursor, gives every key on it a batch out of a common budget, deletes the batches
of retired keys, and moves the cursor to the last key it considered.
-/
namespace Kdive.Uploads

def maxTargetsPerLane : Nat := 200

def maxTargetsPerKey : Nat := 20

section Keys

def canonicalIndex : List Char → Bool
  | [] => false
  | c :: rest => (c == '0' && rest.isEmpty) || (decide ('1' ≤ c) && decide (c ≤ '9') && rest.all Char.isDigit)

def parseLocalSystemObjectKey : Key → Option Uuid
  | [.text tenant, .text kind, .uuid id, .text name] =>
    if tenant = "local" ∧ kind = "systems" ∧ name = "console-rotation-state.json" then some id else none
  | _ => none

def parseRemoteSystemObjectKey : Key → Option Uuid
  | [.text tenant, .text kind, .uuid id, .text name] =>
    if tenant = "remote-libvirt" ∧ kind = "systems" ∧ "console-parts-".toList <+: name.toList ∧
        canonicalIndex (name.toList.drop "console-parts-".length) then some id
    else none
  | _ => none

inductive Lane
  | localSystems
  | remoteSystems
  deriving DecidableEq

def Lane.parser : Lane → Key → Option Uuid
  | .localSystems => parseLocalSystemObjectKey
  | .remoteSystems => parseRemoteSystemObjectKey

end Keys

section Fences

/-- `SystemObjectHostingGate`: whether this process leads, which Systems it collects for, and which
ones `reserve_system_object_cleanup` permits. -/
structure HostingGate where
  isLeader : Bool
  has : Uuid → Bool
  permits : Uuid → Bool

/-- `gone_system_state_values`. -/
def goneSystemStates : List SystemState := [.tornDown, .failed]

/-- What a pass reads beside the store: the rows of the Systems, the keys the artifact rows name
and the gate of the remote lane. -/
structure Fences where
  lane : Lane
  systemState : Uuid → Option SystemState
  registered : Key → Bool
  gate : Option HostingGate

def Fences.gateOpen (f : Fences) (id : Uuid) : Bool :=
  match f.gate with
  | none => true
  | some gate => gate.isLeader && !gate.has id && gate.permits id

def Fences.systemKeyIsRetired (f : Fences) (id : Uuid) (key : Key) : Bool :=
  (f.systemState id).any (fun state => goneSystemStates.contains state) && !f.registered key

def Fences.retired (f : Fences) (key : Key) : Bool :=
  (f.lane.parser key).any (fun id => f.gateOpen id && f.systemKeyIsRetired id key)

def Fences.deleteIfFenced (f : Fences) (id : Uuid) (batch : VersionBatch) (bucket : Bucket) :
    Option Bucket :=
  if f.gateOpen id && f.systemKeyIsRetired id batch.key then
    (deletionOrder batch).map (fun order => order.foldl deleteVersion bucket)
  else some bucket

end Fences

section Pass

abbrev Captures := Bucket → Key → List VersionPage

variable (f : Fences) (captures : Captures)

def considerKey (charged : Nat) (key : Key) (bucket : Bucket) : Option (Nat × Bucket) :=
  match f.lane.parser key with
  | none => some (charged, bucket)
  | some id =>
    let limit := min maxTargetsPerKey (maxTargetsPerLane - charged)
    match captureExactVersions key limit (captures bucket key) with
    | none => some (charged + limit, bucket)
    | some batch =>
      (if batch.targets.isEmpty then some bucket else f.deleteIfFenced id batch bucket).map
        (fun left => (charged + max 1 batch.targets.length, left))

structure Considered where
  bucket : Bucket
  lastConsidered : Option Key
  consumed : Bool

/-- The loop of `_consider_keys`. The budget is also looked at after a key, unless it is the last. -/
def considerKeys : Nat → Option Key → List Key → Bucket → Option Considered
  | _, last, [], bucket => some ⟨bucket, last, true⟩
  | charged, last, key :: keys, bucket =>
    if maxTargetsPerLane ≤ charged then some ⟨bucket, last, false⟩
    else
      (considerKey f captures charged key bucket).bind (fun step =>
        if maxTargetsPerLane ≤ step.1 ∧ keys ≠ [] then some ⟨step.2, some key, false⟩
        else considerKeys step.1 (some key) keys step.2)

def pageKeysFrom : Option Key → List ObjectVersion → List Key
  | _, [] => []
  | last, entry :: rest =>
    if last = some entry.key then pageKeysFrom last rest
    else entry.key :: pageKeysFrom (some entry.key) rest

def pageKeys (page : VersionPage) : List Key := pageKeysFrom none page.entries

structure SweepState where
  bucket : Bucket
  cursor : Option Key

def nextCursor (observed : Option Key) (page : VersionPage) (done : Considered) : Option Key :=
  if done.consumed && !page.isTruncated then none else done.lastConsidered.or observed

/-- `_sweep_lane` on the page the store answers with. Nothing when the pass raises. -/
def sweepLane (page : VersionPage) (s : SweepState) : Option SweepState :=
  if page.isTruncated && (pageKeys page).isEmpty then none
  else
    (considerKeys f captures 0 none (pageKeys page) s.bucket).map
      (fun done => ⟨done.bucket, nextCursor s.cursor page done⟩)

end Pass

section Store

/-- How the store answers the captures of a pass: pages as it likes, but two entries at least on one
it truncates. -/
structure Answers (siblings : Key → List Key) (captures : Captures) : Prop where
  longer : ∀ key, key ∉ siblings key
  paged : ∀ bucket key, Paged (listingUnder key (siblings key) bucket) (captures bucket key)
  wide : ∀ bucket key, ∀ page ∈ captures bucket key, page.isTruncated = true →
    2 ≤ page.entries.length

variable {key : Key} {bucket : Bucket} {siblings : List Key} {pages : List VersionPage}
  {newest : StoredVersion} {older : List StoredVersion}

theorem entriesOf_cons (held : bucket.history key = newest :: older) :
    entriesOf bucket key = newest.entry key true :: older.map (fun v => v.entry key false) := by
  simp only [entriesOf, held]

theorem captureOrder_latest {front page : List ObjectVersion}
    (held : bucket.history key = newest :: older)
    (lead : newest.entry key true :: front <+: entriesOf bucket key)
    (sorted : page.Perm (newest.entry key true :: front)) :
    (captureOrder false page).take 1 = [newest.entry key true] := by
  have latest : page.filter (·.isLatest) = [newest.entry key true] := by
    have same := sorted.filter (fun entry => entry.isLatest)
    have none : front.filter (·.isLatest) = [] := by
      rw [List.filter_eq_nil_iff]
      intro entry isFront
      rw [entriesOf_cons held] at lead
      obtain ⟨_, rest⟩ := List.cons_prefix_cons.mp lead
      obtain ⟨version, _, rfl⟩ := List.mem_map.mp (rest.mem isFront)
      simp [StoredVersion.entry]
    rw [List.filter_cons_of_pos (by rfl), none] at same
    exact List.perm_singleton.mp same
  rw [captureOrder, if_neg Bool.false_ne_true, latest]
  rfl

theorem capture_one_page {page : VersionPage} {front : List ObjectVersion}
    (held : bucket.history key = newest :: older)
    (lead : newest.entry key true :: front <+: entriesOf bucket key)
    (exact : (page.entries.filter (fun entry => entry.key == key)).Perm
      (newest.entry key true :: front)) :
    captureExactVersions key 1 (page :: pages) = some ⟨key, [newest.entry key true],
      !(decide (front ≠ []) || (page.isTruncated && page.nextKeyMarker == some key))⟩ := by
  have size := exact.length_eq
  have latest := captureOrder_latest held lead exact
  rw [captureExactVersions, captureFrom]
  generalize page.entries.filter (fun entry => entry.key == key) = found at exact size latest ⊢
  generalize (page.isTruncated && page.nextKeyMarker == some key) = more
  have filled : decide (1 < found.length) = decide (front ≠ []) := by
    cases front with
    | nil => simp [size]
    | cons entry front => simp [size]
  simp only [List.nil_append, List.length_nil, Nat.sub_zero, filled]
  have taken : (captureOrder (!(decide (front ≠ []) || more)) found).take 1
      = [newest.entry key true] := by
    cases complete : !(decide (front ≠ []) || more) with
    | false => exact latest
    | true =>
      have single : front = [] := by
        simp only [Bool.not_eq_true', Bool.or_eq_false_iff, decide_eq_false_iff_not, not_not]
          at complete
        exact complete.1
      rw [single] at exact
      rw [captureOrder, if_pos rfl, List.perm_singleton.mp exact]
      rfl
  rw [taken]
  rfl

/-- What one target captures of a history: the latest version, and completely only when there is no
other. -/
theorem capture_one (held : bucket.history key = newest :: older) (longer : key ∉ siblings)
    (paged : Paged (listingUnder key siblings bucket) pages) :
    ∃ complete, captureExactVersions key 1 pages = some ⟨key, [newest.entry key true], complete⟩ ∧
      (older ≠ [] → complete = false) ∧
      (older = [] → (∀ page ∈ pages, page.isTruncated = true → 2 ≤ page.entries.length) →
        complete = true) := by
  have own : ∀ entry ∈ entriesOf bucket key, entry.key = key :=
    fun entry listed => key_of_mem_entriesOf listed
  have foreign : ∀ entry ∈ siblings.flatMap (entriesOf bucket), entry.key ≠ key := by
    intro entry listed
    obtain ⟨sibling, isSibling, here⟩ := List.mem_flatMap.mp listed
    rw [key_of_mem_entriesOf here]
    rintro rfl
    exact longer isSibling
  have whole := entriesOf_cons held
  rw [listingUnder] at paged
  generalize siblings.flatMap (entriesOf bucket) = others at paged foreign
  generalize isListing : entriesOf bucket key ++ others = listing at paged
  cases paged with
  | @last _ page sorted =>
    rw [← isListing] at sorted
    have exact := filter_key_perm sorted own foreign
    rw [whole] at exact
    refine ⟨_, capture_one_page held (whole ▸ List.prefix_refl _) exact, ?_, ?_⟩
    · intro more
      simp [more]
    · rintro rfl _
      rfl
  | @more chunk rest page pages edge sorted filled named paged =>
    obtain ⟨front, rest', others', parts, isRest, foreign', exact, points⟩ :=
      page_split own foreign isListing.symm sorted named
    -- a page shows the first entry, which is the latest version
    obtain ⟨first, chunk', rfl⟩ := List.exists_cons_of_ne_nil filled
    obtain ⟨rfl, tail⟩ : newest.entry key true = first ∧
        older.map (fun v => v.entry key false) ++ others = chunk' ++ rest := by
      rw [whole, List.cons_append, List.cons_append] at isListing
      exact List.cons.inj isListing
    obtain ⟨front, rfl⟩ : ∃ others, front = newest.entry key true :: others := by
      have shown : newest.entry key true ∈ front := by
        refine exact.mem_iff.mp (List.mem_filter.mpr ⟨sorted.mem_iff.mpr List.mem_cons_self, ?_⟩)
        simp [StoredVersion.entry]
      obtain ⟨a, others, rfl⟩ := List.exists_cons_of_ne_nil (List.ne_nil_of_mem shown)
      rw [whole, List.cons_append] at parts
      exact ⟨others, by rw [(List.cons.inj parts).1]⟩
    refine ⟨_, capture_one_page held (parts ▸ List.prefix_append _ _) exact, ?_, ?_⟩
    · intro more
      by_cases single : front = []
      · have left : rest' ≠ [] := by
          rintro rfl
          rw [whole, single] at parts
          simp [more] at parts
        simp [points left]
      · simp [single]
    · rintro rfl wide
      have alone : front = [] := by
        rw [whole] at parts
        simp only [List.map_nil, List.cons_append, List.cons.injEq, true_and] at parts
        exact (List.append_eq_nil_iff.mp parts.symm).1
      have elsewhere : edge.key ≠ key := by
        have size := wide _ List.mem_cons_self rfl
        dsimp only at size
        rw [sorted.length_eq, List.length_cons] at size
        rw [List.map_nil, List.nil_append] at tail
        rcases named with ended | next
        · obtain ⟨second, chunk', rfl⟩ := List.exists_cons_of_ne_nil
            (List.length_pos_iff.mp (show 0 < chunk'.length by omega))
          rw [List.getLast?_cons_cons] at ended
          exact foreign edge (tail ▸ List.mem_append_left _ (List.mem_of_getLast? ended))
        · exact foreign edge (tail ▸ List.mem_append_right _ (List.mem_of_mem_head? next))
      simp [alone, elsewhere]

end Store

section Considering

variable {f : Fences} {captures : Captures} {siblings : Key → List Key} {key : Key}
  {bucket left : Bucket}

def batchLimit (charged : Nat) : Nat := min maxTargetsPerKey (maxTargetsPerLane - charged)

def charge (f : Fences) (bucket : Bucket) (limit : Nat) (key : Key) : Nat :=
  if (f.lane.parser key).isSome then max 1 (min limit (bucket.history key).length) else 0

structure Effect (f : Fences) (limit : Nat) (key : Key) (bucket left : Bucket) : Prop where
  others : ∀ other ≠ key, left.history other = bucket.history other
  kept : f.retired key = false → left = bucket
  fewer : (left.history key).length ≤ (bucket.history key).length
  progress : f.retired key = true → bucket.history key ≠ [] →
    (2 ≤ limit ∨ (bucket.history key).length = 1) →
    (left.history key).length < (bucket.history key).length
  stuck : limit = 1 → 2 ≤ (bucket.history key).length → left = bucket

theorem Effect.refl {limit : Nat} (idle : f.retired key = true → bucket.history key = []) :
    Effect f limit key bucket bucket :=
  ⟨fun _ _ => rfl, fun _ => rfl, le_rfl, fun mine held => absurd (idle mine) held, fun _ _ => rfl⟩

theorem Captured.length_targets {limit : Nat} {batch : VersionBatch}
    (captured : Captured key limit (entriesOf bucket key) batch) :
    batch.targets.length = min limit (bucket.history key).length := by
  have most := captured.inside.length_le
  have bounded := captured.bounded
  rw [length_entriesOf] at most
  cases complete : batch.historyComplete with
  | true =>
    have size := (captured.complete complete).length_eq
    rw [length_entriesOf] at size
    omega
  | false =>
    have size := captured.full complete
    omega

theorem Captured.fewer {limit : Nat} {batch : VersionBatch} {order : List ObjectVersion}
    (captured : Captured key limit (entriesOf bucket key) batch)
    (ordered : deletionOrder batch = some order) :
    (∀ other ≠ key, (order.foldl deleteVersion bucket).history other = bucket.history other) ∧
      ((order.foldl deleteVersion bucket).history key).length ≤ (bucket.history key).length := by
  have own : ∀ target ∈ order, target.key = key := by
    intro target isDeleted
    rw [← captured.sameKey]
    exact (deletionOrder_spec ordered target isDeleted).2
  obtain ⟨mine, others⟩ := history_deleteVersions order bucket own
  refine ⟨others, ?_⟩
  rw [mine]
  exact List.length_filter_le _ _

theorem effect_of_captured {limit : Nat} {batch : VersionBatch} {order : List ObjectVersion}
    (answers : Answers siblings captures) (some : 0 < limit) (retired : f.retired key = true)
    (isBatch : captureExactVersions key limit (captures bucket key) = .some batch)
    (captured : Captured key limit (entriesOf bucket key) batch)
    (ordered : deletionOrder batch = .some order) :
    Effect f limit key bucket (order.foldl deleteVersion bucket) := by
  obtain ⟨others, fewer⟩ := captured.fewer ordered
  refine ⟨others, fun bad => ?_, fewer, ?_, ?_⟩
  · rw [retired] at bad
    cases bad
  · intro _ held room
    rcases Nat.lt_or_ge 1 limit with wide | single
    · obtain ⟨order', ordered', deleted⟩ := captured.deleted wide
      obtain rfl : order = order' := Option.some.inj (ordered.symm.trans ordered')
      cases done : batch.historyComplete with
      | true =>
        rw [deleted.finished done, List.length_nil]
        exact List.length_pos_iff.mpr held
      | false => exact (deleted.retained done).2
    · obtain rfl : limit = 1 := by omega
      obtain ⟨newest, older, isHeld⟩ := List.exists_cons_of_ne_nil held
      have alone : older = [] := by
        rw [isHeld, List.length_cons] at room
        exact List.length_eq_zero_iff.mp (by omega)
      obtain ⟨complete, captured', _, whole⟩ :=
        capture_one isHeld (answers.longer key) (answers.paged bucket key)
      obtain rfl := Option.some.inj (isBatch.symm.trans captured')
      have isComplete := whole alone (answers.wide bucket key)
      subst isComplete
      have isOrder : deletionOrder ⟨key, [newest.entry key true], true⟩
          = .some [newest.entry key true] := by
        simp [deletionOrder, StoredVersion.entry]
      obtain rfl := Option.some.inj (ordered.symm.trans isOrder)
      simp [deleteVersion, StoredVersion.entry, isHeld, alone]
  · intro single many
    subst single
    obtain ⟨newest, older, isHeld⟩ := List.exists_cons_of_length_pos
      (show 0 < (bucket.history key).length by omega)
    have more : older ≠ [] := by
      rintro rfl
      rw [isHeld, List.length_singleton] at many
      omega
    obtain ⟨complete, captured', incomplete, _⟩ :=
      capture_one isHeld (answers.longer key) (answers.paged bucket key)
    obtain rfl := Option.some.inj (isBatch.symm.trans captured')
    have isIncomplete := incomplete more
    subst isIncomplete
    have isOrder : deletionOrder ⟨key, [newest.entry key true], false⟩ = .some [] := by
      simp [deletionOrder, StoredVersion.entry]
    obtain rfl := Option.some.inj (ordered.symm.trans isOrder)
    rfl

theorem considerKey_spec (f : Fences) (key : Key) (bucket : Bucket)
    (answers : Answers siblings captures) {charged : Nat} (room : charged < maxTargetsPerLane) :
    ∃ left,
      considerKey f captures charged key bucket
        = some (charged + charge f bucket (batchLimit charged) key, left) ∧
      Effect f (batchLimit charged) key bucket left := by
  have positive : 0 < batchLimit charged := by
    unfold batchLimit maxTargetsPerKey maxTargetsPerLane at *
    omega
  unfold considerKey charge
  cases parsed : f.lane.parser key with
  | none =>
    refine ⟨bucket, rfl, .refl ?_⟩
    intro mine
    simp [Fences.retired, parsed] at mine
  | some id =>
    obtain ⟨batch, isBatch, captured⟩ :=
      capture_listing (answers.longer key) (answers.paged bucket key) positive
    have size := captured.length_targets
    have fence : f.retired key = (f.gateOpen id && f.systemKeyIsRetired id key) := by
      simp [Fences.retired, parsed]
    unfold batchLimit at isBatch
    simp only [isBatch, Option.isSome_some, if_true, size]
    cases empty : batch.targets.isEmpty with
    | true =>
      refine ⟨bucket, rfl, .refl ?_⟩
      intro _
      rw [List.isEmpty_iff.mp empty, List.length_nil] at size
      exact List.length_eq_zero_iff.mp (by omega)
    | false =>
      simp only [Bool.false_eq_true, if_false, Fences.deleteIfFenced, captured.sameKey, ← fence]
      cases retired : f.retired key with
      | false =>
        refine ⟨bucket, rfl, .refl ?_⟩
        rw [retired]
        exact fun bad => absurd bad Bool.false_ne_true
      | true =>
        have ordered := captured.order
        rw [ordered]
        exact ⟨_, rfl, effect_of_captured answers positive retired isBatch captured ordered⟩

def spent (f : Fences) (bucket : Bucket) (keys : List Key) : Nat :=
  (keys.map (fun key => if (f.lane.parser key).isSome then
    min maxTargetsPerKey (bucket.history key).length else 0)).sum

/-- No retired key with several versions comes to stand where all but one unit of the budget is
spent. -/
def Aligned (f : Fences) (bucket : Bucket) (charged : Nat) (keys : List Key) : Prop :=
  ∀ before key after, keys = before ++ key :: after → f.retired key = true →
    2 ≤ (bucket.history key).length → charged + spent f bucket before + 1 ≠ maxTargetsPerLane

/-- What a pass did with the keys of its page: it went through `passed` and left out `rest`. -/
structure Swept (f : Fences) (last : Option Key) (keys : List Key) (bucket : Bucket)
    (done : Considered) (passed rest : List Key) : Prop where
  parts : keys = passed ++ rest
  lastConsidered : done.lastConsidered = passed.getLast?.or last
  consumed : done.consumed = true → rest = []
  others : ∀ key, key ∉ passed ∨ f.retired key = false →
    done.bucket.history key = bucket.history key
  fewer : ∀ key, (done.bucket.history key).length ≤ (bucket.history key).length
  progress : ∀ key ∈ passed, f.retired key = true →
    (done.bucket.history key).length < (bucket.history key).length

theorem spent_congr {keys : List Key}
    (same : ∀ key ∈ keys, left.history key = bucket.history key) :
    spent f left keys = spent f bucket keys := by
  unfold spent
  congr 1
  apply List.map_congr_left
  intro key isKey
  rw [same key isKey]

theorem charge_eq {charged : Nat} (held : bucket.history key ≠ [])
    (room : charged + charge f bucket (batchLimit charged) key < maxTargetsPerLane) :
    charge f bucket (batchLimit charged) key = spent f bucket [key] := by
  have positive := List.length_pos_iff.mpr held
  unfold charge spent batchLimit maxTargetsPerKey maxTargetsPerLane at *
  cases parsed : (f.lane.parser key).isSome with
  | false => simp [parsed]
  | true =>
    simp only [parsed, if_true, List.map_cons, List.map_nil, List.sum_cons, List.sum_nil] at room ⊢
    omega

theorem swept_cons {charged : Nat} {last : Option Key} {keys passed rest : List Key}
    {done : Considered} (effect : Effect f (batchLimit charged) key bucket left)
    (room : charged < maxTargetsPerLane) (held : bucket.history key ≠ []) (fresh : key ∉ keys)
    (aligned : Aligned f bucket charged (key :: keys))
    (swept : Swept f (some key) keys left done passed rest) :
    Swept f last (key :: keys) bucket done (key :: passed) rest := by
  have unpassed : key ∉ passed := fun bad => fresh (swept.parts ▸ List.mem_append_left _ bad)
  have limited : f.retired key = true → 2 ≤ batchLimit charged ∨ (bucket.history key).length = 1 := by
    intro retired
    have positive := List.length_pos_iff.mpr held
    have notLast := aligned [] key keys rfl retired
    unfold batchLimit spent maxTargetsPerKey maxTargetsPerLane at *
    simp only [List.map_nil, List.sum_nil] at notLast
    omega
  constructor
  · rw [swept.parts, List.cons_append]
  · rw [swept.lastConsidered]
    cases passed with
    | nil => rfl
    | cons a passed =>
      obtain ⟨z, isLast⟩ : ∃ z, (a :: passed).getLast? = some z := by simp [List.getLast?_cons]
      rw [List.getLast?_cons_cons, isLast]
      rfl
  · exact swept.consumed
  · rintro other outside
    by_cases same : other = key
    · subst same
      have untouched : f.retired other = false := by
        rcases outside with bad | fine
        · exact absurd List.mem_cons_self bad
        · exact fine
      rw [swept.others other (.inl unpassed), effect.kept untouched]
    · rw [swept.others other ?_, effect.others other same]
      rcases outside with notPassed | fine
      · exact .inl (fun bad => notPassed (List.mem_cons_of_mem key bad))
      · exact .inr fine
  · intro other
    refine (swept.fewer other).trans ?_
    by_cases same : other = key
    · subst same
      exact effect.fewer
    · rw [effect.others other same]
  · intro other isPassed retired
    rcases List.mem_cons.mp isPassed with rfl | later
    · rw [swept.others other (.inl unpassed)]
      exact effect.progress retired held (limited retired)
    · have different : other ≠ key := fun same => unpassed (same ▸ later)
      have shorter := swept.progress other later retired
      rwa [effect.others other different] at shorter

theorem considerKeys_swept (answers : Answers siblings captures) : ∀ (keys : List Key)
    (charged : Nat) (last : Option Key) (bucket : Bucket), charged < maxTargetsPerLane →
    keys.Nodup → (∀ key ∈ keys, bucket.history key ≠ []) → Aligned f bucket charged keys →
    ∃ done passed rest, considerKeys f captures charged last keys bucket = some done ∧
      Swept f last keys bucket done passed rest ∧ (keys ≠ [] → passed ≠ []) := by
  intro keys
  induction keys with
  | nil =>
    intro charged last bucket _ _ _ _
    exact ⟨_, [], [], rfl, ⟨rfl, rfl, fun _ => rfl, fun _ _ => rfl, fun _ => le_rfl, by simp⟩,
      fun bad => absurd rfl bad⟩
  | cons key keys ih =>
    intro charged last bucket room nodup held aligned
    obtain ⟨fresh, others⟩ := List.nodup_cons.mp nodup
    have heldKey := held key List.mem_cons_self
    obtain ⟨left, considered, effect⟩ := considerKey_spec f key bucket answers room
    have idle (consumed : Bool) (stop : consumed = true → keys = []) :
        Swept f (some key) keys left ⟨left, some key, consumed⟩ [] keys :=
      ⟨rfl, rfl, stop, fun _ _ => rfl, fun _ => le_rfl, by simp⟩
    rw [considerKeys, if_neg (Nat.not_le.mpr room), considered]
    simp only [Option.bind_some]
    split
    · rename_i full
      exact ⟨_, [key], keys, rfl,
        swept_cons effect room heldKey fresh aligned (idle false (by simp)), by simp⟩
    · rename_i more
      rcases Nat.lt_or_ge (charged + charge f bucket (batchLimit charged) key) maxTargetsPerLane with
        within | full
      · have same : ∀ other ∈ keys, left.history other = bucket.history other :=
          fun other isLater => effect.others other (fun bad => fresh (bad ▸ isLater))
        have next : Aligned f left (charged + charge f bucket (batchLimit charged) key) keys := by
          intro before other after parts retired many
          have isLater : other ∈ keys := by
            rw [parts]
            simp
          rw [same other isLater] at many
          have early : spent f left before = spent f bucket before := by
            apply spent_congr
            intro k isBefore
            exact same k (parts ▸ List.mem_append_left _ isBefore)
          have whole := aligned (key :: before) other after (by rw [parts]; rfl) retired many
          have added : spent f bucket (key :: before)
              = spent f bucket [key] + spent f bucket before := by simp [spent]
          rw [charge_eq heldKey within, early]
          omega
        obtain ⟨done, passed, rest, isDone, swept, _⟩ := ih _ (some key) left within others
          (fun other isLater => (same other isLater).symm ▸ held other (List.mem_cons_of_mem key isLater))
          next
        exact ⟨done, key :: passed, rest, isDone,
          swept_cons effect room heldKey fresh aligned swept, by simp⟩
      · obtain rfl : keys = [] := by
          by_contra filled
          exact more ⟨full, filled⟩
        exact ⟨_, [key], [], rfl,
          swept_cons effect room heldKey fresh aligned (idle true (fun _ => rfl)), by simp⟩

/-- A key of several versions that comes when one unit is left keeps all of them. -/
theorem considerKeys_stuck (answers : Answers siblings captures)
    (many : 2 ≤ (bucket.history key).length) : ∀ {live : List Key} {charged : Nat}
    {last : Option Key}, charged + spent f bucket live + 1 = maxTargetsPerLane →
    (∀ k ∈ live, f.retired k = false ∧ bucket.history k ≠ []) →
    considerKeys f captures charged last (live ++ [key]) bucket = some ⟨bucket, some key, true⟩ := by
  intro live
  induction live with
  | nil =>
    intro charged last budget _
    have room : charged < maxTargetsPerLane := by
      unfold spent at budget
      simp only [List.map_nil, List.sum_nil] at budget
      omega
    have single : batchLimit charged = 1 := by
      unfold batchLimit spent maxTargetsPerKey maxTargetsPerLane at *
      simp only [List.map_nil, List.sum_nil] at budget
      omega
    obtain ⟨left, considered, effect⟩ := considerKey_spec f key bucket answers room
    obtain rfl := effect.stuck single many
    rw [List.nil_append, considerKeys, if_neg (Nat.not_le.mpr room), considered]
    simp [considerKeys]
  | cons k live ih =>
    intro charged last budget quiet
    obtain ⟨notRetired, held⟩ := quiet k List.mem_cons_self
    have added : spent f bucket (k :: live) = spent f bucket [k] + spent f bucket live := by
      simp [spent]
    have room : charged < maxTargetsPerLane := by omega
    obtain ⟨left, considered, effect⟩ := considerKey_spec f k bucket answers room
    obtain rfl := effect.kept notRetired
    have cost : charge f left (batchLimit charged) k = spent f left [k] := by
      have positive := List.length_pos_iff.mpr held
      have short : charged + spent f left [k] < maxTargetsPerLane := by omega
      unfold charge spent batchLimit maxTargetsPerKey maxTargetsPerLane at *
      cases parsed : (f.lane.parser k).isSome with
      | false => simp [parsed]
      | true =>
        simp only [parsed, if_true, List.map_cons, List.map_nil, List.sum_cons, List.sum_nil]
          at short ⊢
        omega
    have within : ¬ maxTargetsPerLane ≤ charged + charge f left (batchLimit charged) k := by omega
    rw [List.cons_append, considerKeys, if_neg (Nat.not_le.mpr room), considered]
    simp only [Option.bind_some, within, false_and, if_false]
    exact ih (by omega) (fun other isLater => quiet other (List.mem_cons_of_mem k isLater))

end Considering

section Pages

structure KeyOrder where
  precedes : Key → Key → Bool
  irrefl : ∀ a, precedes a a = false
  trans : ∀ a b c, precedes a b = true → precedes b c = true → precedes a c = true

theorem KeyOrder.asymm (order : KeyOrder) {a b : Key} (before : order.precedes a b = true) :
    order.precedes b a = false := by
  by_contra after
  have loop := order.trans a b a before (by simpa using after)
  rw [order.irrefl] at loop
  cases loop

def KeyOrder.follows (order : KeyOrder) (cursor : Option Key) (key : Key) : Bool :=
  cursor.all (fun marker => order.precedes marker key)

def listed (bucket : Bucket) (keys : List Key) : List Key :=
  keys.filter (fun key => !(bucket.history key).isEmpty)

/-- `list_version_page` with a key marker: the first entries of the listing after it, sorted by key,
and all of them unless the page is truncated. A truncated page is not empty. -/
structure LanePage (order : KeyOrder) (listing : List ObjectVersion) (page : VersionPage) : Prop where
  entries : ∃ chunk rest, listing = chunk ++ rest ∧ page.entries.Perm chunk ∧
    (page.isTruncated = false → rest = []) ∧ (page.isTruncated = true → chunk ≠ [])
  sorted : page.entries.Pairwise (fun a b => a.key = b.key ∨ order.precedes a.key b.key = true)

variable {order : KeyOrder} {bucket : Bucket} {page : VersionPage}

theorem pageKeysFrom_congr : ∀ {entries others : List ObjectVersion} {last : Option Key},
    entries.map ObjectVersion.key = others.map ObjectVersion.key →
    pageKeysFrom last entries = pageKeysFrom last others := by
  intro entries
  induction entries with
  | nil =>
    intro others last same
    rw [List.map_nil] at same
    rw [List.map_eq_nil_iff.mp same.symm]
  | cons entry entries ih =>
    intro others last same
    cases others with
    | nil => simp at same
    | cons other others =>
      obtain ⟨first, rest⟩ := List.cons.inj same
      rw [pageKeysFrom, pageKeysFrom, first, ih rest, ih rest]

theorem pageKeysFrom_same {key : Key} : ∀ {entries : List ObjectVersion} (rest : List ObjectVersion),
    (∀ entry ∈ entries, entry.key = key) →
    pageKeysFrom (some key) (entries ++ rest) = pageKeysFrom (some key) rest := by
  intro entries
  induction entries with
  | nil =>
    intro rest _
    rfl
  | cons entry entries ih =>
    intro rest own
    have here : entry.key = key := own entry List.mem_cons_self
    rw [List.cons_append, pageKeysFrom, if_pos (by rw [here])]
    exact ih rest (fun later isLater => own later (List.mem_cons_of_mem entry isLater))

theorem pageKeysFrom_chunk : ∀ {keys : List Key} {last : Option Key} {chunk rest : List ObjectVersion},
    keys.Nodup → (∀ key ∈ last, key ∉ keys) →
    keys.flatMap (entriesOf bucket) = chunk ++ rest →
    pageKeysFrom last chunk <+: listed bucket keys ∧
      (rest = [] → pageKeysFrom last chunk = listed bucket keys) ∧
      (chunk ≠ [] → pageKeysFrom last chunk ≠ []) := by
  intro keys
  induction keys with
  | nil =>
    intro last chunk rest _ _ whole
    obtain ⟨rfl, _⟩ := List.append_eq_nil_iff.mp whole.symm
    exact ⟨List.prefix_rfl, fun _ => rfl, fun bad => absurd rfl bad⟩
  | cons key keys ih =>
    intro last chunk rest nodup unseen whole
    obtain ⟨fresh, others⟩ := List.nodup_cons.mp nodup
    rw [List.flatMap_cons] at whole
    cases held : bucket.history key with
    | nil =>
      have none : entriesOf bucket key = [] := by simp only [entriesOf, held]
      have skipped : listed bucket (key :: keys) = listed bucket keys := by simp [listed, held]
      rw [none, List.nil_append] at whole
      rw [skipped]
      exact ih others (fun k isLast bad => unseen k isLast (List.mem_cons_of_mem key bad)) whole
    | cons newest older =>
      have kept : listed bucket (key :: keys) = key :: listed bucket keys := by simp [listed, held]
      have different : last ≠ some key := fun same => unseen key same List.mem_cons_self
      have first := entriesOf_cons held
      have sameKey : ∀ entry ∈ older.map (fun v => v.entry key false), entry.key = key := by
        intro entry isOlder
        obtain ⟨version, _, rfl⟩ := List.mem_map.mp isOlder
        rfl
      rw [first, List.cons_append] at whole
      cases chunk with
      | nil =>
        refine ⟨List.nil_prefix, ?_, fun bad => absurd rfl bad⟩
        rintro rfl
        cases whole
      | cons entry chunk =>
        obtain ⟨rfl, tail⟩ := List.cons.inj whole
        have opened : pageKeysFrom last (newest.entry key true :: chunk)
            = key :: pageKeysFrom (some key) chunk := by
          rw [pageKeysFrom, if_neg (show last ≠ some (newest.entry key true).key from different)]
          rfl
        have later (gap rest : List ObjectVersion)
            (parts : keys.flatMap (entriesOf bucket) = gap ++ rest) :=
          ih others (show ∀ k ∈ some key, k ∉ keys by simpa using fresh) parts
        rw [opened, kept]
        -- the page ends within the history of the key, or goes on behind it
        rcases List.append_eq_append_iff.mp tail with ⟨gap, rfl, parts⟩ | ⟨gap, whole', rfl⟩
        · rw [pageKeysFrom_same gap sameKey]
          obtain ⟨front, all, _⟩ := later gap rest parts
          refine ⟨List.cons_prefix_cons.mpr ⟨rfl, front⟩, ?_, fun _ => by simp⟩
          intro ended
          rw [all ended]
        · have inside : pageKeysFrom (some key) chunk = [] := by
            have own : ∀ entry ∈ chunk, entry.key = key := by
              intro entry isShown
              exact sameKey entry (whole' ▸ List.mem_append_left _ isShown)
            have same := pageKeysFrom_same [] own
            rwa [List.append_nil] at same
          rw [inside]
          refine ⟨List.cons_prefix_cons.mpr ⟨rfl, List.nil_prefix⟩, ?_, fun _ => by simp⟩
          intro ended
          obtain ⟨_, none⟩ := List.append_eq_nil_iff.mp ended
          have rest := (later [] [] none).2.1 rfl
          rw [← rest]
          rfl

structure Roster where
  order : KeyOrder
  keys : List Key
  sorted : keys.Pairwise (fun a b => order.precedes a b = true)

def Roster.after (roster : Roster) (cursor : Option Key) : List Key :=
  roster.keys.filter (roster.order.follows cursor)

def Roster.listing (roster : Roster) (s : SweepState) : List ObjectVersion :=
  (roster.after s.cursor).flatMap (entriesOf s.bucket)

def Roster.ahead (roster : Roster) (s : SweepState) : List Key :=
  listed s.bucket (roster.after s.cursor)

variable {roster : Roster} {s : SweepState}

theorem Roster.nodup (roster : Roster) : roster.keys.Nodup := by
  refine roster.sorted.imp ?_
  rintro a b before rfl
  rw [roster.order.irrefl] at before
  cases before

theorem Roster.ahead_sorted (roster : Roster) (s : SweepState) :
    (roster.ahead s).Pairwise (fun a b => roster.order.precedes a b = true) :=
  (roster.sorted.sublist List.filter_sublist).sublist List.filter_sublist

theorem Roster.mem_of_mem_ahead {key : Key} (isAhead : key ∈ roster.ahead s) :
    key ∈ roster.keys ∧ roster.order.follows s.cursor key = true ∧ s.bucket.history key ≠ [] := by
  obtain ⟨isAfter, held⟩ := List.mem_filter.mp isAhead
  obtain ⟨isKey, follows⟩ := List.mem_filter.mp isAfter
  exact ⟨isKey, follows, by simpa using held⟩

theorem listing_sorted (bucket : Bucket) {keys : List Key}
    (sorted : keys.Pairwise (fun a b => order.precedes a b = true)) :
    (keys.flatMap (entriesOf bucket)).Pairwise
      (fun a b => a.key = b.key ∨ order.precedes a.key b.key = true) := by
  rw [List.pairwise_flatMap]
  constructor
  · intro key _
    rw [List.pairwise_iff_forall_sublist]
    intro a b both
    have first := key_of_mem_entriesOf (both.subset List.mem_cons_self)
    have second := key_of_mem_entriesOf (both.subset (List.mem_cons_of_mem a List.mem_cons_self))
    exact .inl (first.trans second.symm)
  · refine sorted.imp ?_
    intro a b before x isX y isY
    rw [key_of_mem_entriesOf isX, key_of_mem_entriesOf isY]
    exact .inr before

theorem LanePage.keys (lane : LanePage roster.order (roster.listing s) page) :
    pageKeys page <+: roster.ahead s ∧
      (page.isTruncated = false → pageKeys page = roster.ahead s) ∧
      (page.isTruncated = true → pageKeys page ≠ []) := by
  obtain ⟨chunk, rest, whole, shown, ended, filled⟩ := lane.entries
  have inOrder := listing_sorted s.bucket
    (roster.sorted.sublist (List.filter_sublist (p := roster.order.follows s.cursor)))
  have same : page.entries.map ObjectVersion.key = chunk.map ObjectVersion.key := by
    have antisymm : ∀ a b : Key, a = b ∨ roster.order.precedes a b = true →
        b = a ∨ roster.order.precedes b a = true → a = b := by
      rintro a b (same | before) (same' | after)
      · exact same
      · exact same
      · exact same'.symm
      · rw [roster.order.asymm before] at after
        cases after
    refine (shown.map ObjectVersion.key).eq_of_pairwise (fun a b _ _ => antisymm a b)
      (List.pairwise_map.mpr lane.sorted) (List.pairwise_map.mpr ?_)
    have front : chunk <+: roster.listing s := ⟨rest, whole.symm⟩
    exact inOrder.sublist front.sublist
  rw [pageKeys, pageKeysFrom_congr same]
  have nodup : (roster.after s.cursor).Nodup := roster.nodup.filter _
  obtain ⟨lead, all, some⟩ := pageKeysFrom_chunk nodup
    (show ∀ key ∈ (none : Option Key), key ∉ roster.after s.cursor by simp) whole
  exact ⟨lead, fun isLast => all (ended isLast), fun isTruncated => some (filled isTruncated)⟩

theorem Roster.ahead_advance {passed rest : List Key} {key : Key} {s' : SweepState}
    (parts : roster.ahead s = passed ++ rest) (isLast : passed.getLast? = some key)
    (moved : s'.cursor = some key)
    (same : ∀ k, s'.bucket.history k = s.bucket.history k) : roster.ahead s' = rest := by
  have sorted := roster.ahead_sorted s
  obtain ⟨front, rfl⟩ : ∃ front, passed = front ++ [key] := List.getLast?_eq_some_iff.mp isLast
  rw [parts, List.append_assoc, List.singleton_append, List.pairwise_append] at sorted
  obtain ⟨_, later, cross⟩ := sorted
  have isAhead : key ∈ roster.ahead s := by
    rw [parts]
    simp
  obtain ⟨_, follows, _⟩ := roster.mem_of_mem_ahead isAhead
  have narrowed : roster.ahead s' = (roster.ahead s).filter (roster.order.precedes key) := by
    unfold Roster.ahead listed Roster.after
    rw [List.filter_filter, List.filter_filter, List.filter_filter, moved]
    apply List.filter_congr
    intro k _
    rw [same k]
    cases before : roster.order.precedes key k with
    | false => simp [KeyOrder.follows, before]
    | true =>
      have further : roster.order.follows s.cursor k = true := by
        cases isCursor : s.cursor with
        | none => rfl
        | some marker =>
          rw [isCursor] at follows
          exact roster.order.trans marker key k follows before
      simp [KeyOrder.follows, before] at further ⊢
      exact fun _ => further
  have front' : front.filter (roster.order.precedes key) = [] := by
    rw [List.filter_eq_nil_iff]
    intro k isFront
    rw [roster.order.asymm (cross k isFront key List.mem_cons_self)]
    exact Bool.false_ne_true
  have rest' : rest.filter (roster.order.precedes key) = rest := by
    rw [List.filter_eq_self]
    exact (List.pairwise_cons.mp later).1
  rw [narrowed, parts, List.filter_append, List.filter_append, front', rest']
  simp [roster.order.irrefl]

end Pages

section Passes

variable {f : Fences} {captures : Captures} {siblings : Key → List Key} {roster : Roster}
  {page : VersionPage} {s s' : SweepState}

/-- What one pass does: it goes through the first keys ahead of the cursor, deletes something of each
retired one and nothing else, and moves the cursor to the last of them or back to the start. -/
structure Passed (f : Fences) (roster : Roster) (s s' : SweepState) (passed rest : List Key) :
    Prop where
  parts : roster.ahead s = passed ++ rest
  others : ∀ key, key ∉ passed ∨ f.retired key = false →
    s'.bucket.history key = s.bucket.history key
  fewer : ∀ key, (s'.bucket.history key).length ≤ (s.bucket.history key).length
  progress : ∀ key ∈ passed, f.retired key = true →
    (s'.bucket.history key).length < (s.bucket.history key).length
  moved : (s'.cursor = none ∧ rest = []) ∨ ∃ key, passed.getLast? = some key ∧ s'.cursor = some key

theorem sweepLane_passed (answers : Answers siblings captures)
    (lane : LanePage roster.order (roster.listing s) page)
    (aligned : Aligned f s.bucket 0 (pageKeys page)) : ∃ s' passed rest,
      sweepLane f captures page s = some s' ∧ Passed f roster s s' passed rest := by
  obtain ⟨⟨tail, isAhead⟩, all, some⟩ := lane.keys
  have nodup : (pageKeys page).Nodup := by
    have whole : (roster.ahead s).Nodup := (roster.nodup.filter _).filter _
    exact whole.sublist (List.IsPrefix.sublist ⟨tail, isAhead⟩)
  have held : ∀ key ∈ pageKeys page, s.bucket.history key ≠ [] := by
    intro key isShown
    exact (roster.mem_of_mem_ahead (isAhead ▸ List.mem_append_left tail isShown)).2.2
  obtain ⟨done, passed, rest, isDone, swept, filled⟩ :=
    considerKeys_swept answers (pageKeys page) 0 none s.bucket (by decide) nodup held aligned
  have notEmpty : (page.isTruncated && (pageKeys page).isEmpty) = false := by
    cases truncated : page.isTruncated with
    | false => rfl
    | true => simpa using some truncated
  refine ⟨⟨done.bucket, nextCursor s.cursor page done⟩, passed, rest ++ tail, ?_, ?_⟩
  · rw [sweepLane, notEmpty, isDone]
    rfl
  · refine ⟨?_, swept.others, swept.fewer, swept.progress, ?_⟩
    · rw [← isAhead, swept.parts, List.append_assoc]
    · unfold nextCursor
      dsimp only
      cases ended : done.consumed && !page.isTruncated with
      | true =>
        left
        rw [Bool.and_eq_true, Bool.not_eq_true'] at ended
        refine ⟨rfl, ?_⟩
        have none : tail = [] := by
          have whole := all ended.2
          rw [← isAhead] at whole
          simpa using whole.symm
        rw [swept.consumed ended.1, none]
        rfl
      | false =>
        right
        have shown : pageKeys page ≠ [] := by
          intro empty
          have consumed : done.consumed = true := by
            rw [empty] at isDone
            rw [← Option.some.inj isDone]
          rw [consumed, Bool.true_and, Bool.not_eq_false'] at ended
          exact some ended empty
        obtain ⟨key, isLast⟩ := Option.isSome_iff_exists.mp
          (List.getLast?_isSome.mpr (filled shown))
        refine ⟨key, isLast, ?_⟩
        rw [if_neg Bool.false_ne_true, swept.lastConsidered, isLast]
        rfl

def owing (f : Fences) (roster : Roster) (s : SweepState) : Nat :=
  ((roster.keys.filter f.retired).map (fun key => (s.bucket.history key).length)).sum

def waiting (f : Fences) (roster : Roster) (s : SweepState) : Nat :=
  if (roster.ahead s).any f.retired then (roster.ahead s).length
  else (roster.ahead s).length + (listed s.bucket roster.keys).length + 1

theorem Passed.owing_lt {passed rest : List Key} {key : Key}
    (pass : Passed f roster s s' passed rest) (isPassed : key ∈ passed)
    (retired : f.retired key = true) : owing f roster s' < owing f roster s := by
  have isAhead : key ∈ roster.ahead s := pass.parts ▸ List.mem_append_left rest isPassed
  have isKey := (roster.mem_of_mem_ahead isAhead).1
  refine List.sum_lt_sum _ _ (fun k _ => pass.fewer k) ⟨key, ?_, pass.progress key isPassed retired⟩
  exact List.mem_filter.mpr ⟨isKey, retired⟩

theorem Passed.same {passed rest : List Key} (pass : Passed f roster s s' passed rest)
    (none : ∀ key ∈ passed, f.retired key = false) :
    ∀ key, s'.bucket.history key = s.bucket.history key := by
  intro key
  by_cases isPassed : key ∈ passed
  · exact pass.others key (.inr (none key isPassed))
  · exact pass.others key (.inl isPassed)

theorem listed_congr {bucket left : Bucket} (same : ∀ key, left.history key = bucket.history key)
    (keys : List Key) : listed left keys = listed bucket keys := by
  unfold listed
  apply List.filter_congr
  intro key _
  rw [same key]

theorem exists_owing (owed : 0 < owing f roster s) :
    ∃ key ∈ listed s.bucket roster.keys, f.retired key = true := by
  by_contra none
  have zero : owing f roster s = 0 := by
    apply List.sum_eq_zero
    intro n isLength
    obtain ⟨key, isRetired, rfl⟩ := List.mem_map.mp isLength
    obtain ⟨isKey, retired⟩ := List.mem_filter.mp isRetired
    by_contra held
    refine none ⟨key, List.mem_filter.mpr ⟨isKey, ?_⟩, retired⟩
    simpa using held
  omega

theorem Passed.measure {passed rest : List Key} (pass : Passed f roster s s' passed rest)
    (owed : 0 < owing f roster s) : owing f roster s' < owing f roster s ∨
      (owing f roster s' = owing f roster s ∧ waiting f roster s' < waiting f roster s) := by
  by_cases found : ∃ key ∈ passed, f.retired key = true
  · obtain ⟨key, isPassed, retired⟩ := found
    exact .inl (pass.owing_lt isPassed retired)
  right
  have none : ∀ key ∈ passed, f.retired key = false := by
    intro key isPassed
    simpa using fun retired => found ⟨key, isPassed, retired⟩
  have same := pass.same none
  have unpaid : owing f roster s' = owing f roster s := by
    unfold owing
    simp only [same]
  refine ⟨unpaid, ?_⟩
  have noneAny : passed.any f.retired = false := by
    rw [List.any_eq_false]
    intro key isPassed
    rw [none key isPassed]
    exact Bool.false_ne_true
  unfold waiting
  rw [listed_congr same]
  rcases pass.moved with ⟨reset, ended⟩ | ⟨key, isLast, moved⟩
  · -- the cycle ends without a retired key, and the next one starts before all of them
    have parts := pass.parts
    rw [ended, List.append_nil] at parts
    have fresh : roster.ahead s' = listed s.bucket roster.keys := by
      unfold Roster.ahead Roster.after
      rw [reset, listed_congr same]
      congr 1
      exact List.filter_eq_self.mpr (fun _ _ => rfl)
    obtain ⟨key, isListed, retired⟩ := exists_owing owed
    have some : (roster.ahead s').any f.retired = true := by
      rw [fresh, List.any_eq_true]
      exact ⟨key, isListed, retired⟩
    rw [some, parts, noneAny, fresh]
    simp only [if_true, Bool.false_eq_true, if_false]
    omega
  · have moved := roster.ahead_advance pass.parts isLast moved same
    have shorter : rest.length < (roster.ahead s).length := by
      rw [pass.parts, List.length_append]
      have filled : passed ≠ [] := by
        rintro rfl
        cases isLast
      have := List.length_pos_iff.mpr filled
      omega
    have sameAny : (roster.ahead s).any f.retired = rest.any f.retired := by
      rw [pass.parts, List.any_append, noneAny, Bool.false_or]
    rw [moved, sameAny]
    split <;> omega

/-- The state after so many passes, the store paging the inventory as it likes. Nothing when one of
them raises. -/
def passes (f : Fences) (captures : Captures) (pager : Nat → SweepState → VersionPage)
    (start : SweepState) : Nat → Option SweepState
  | 0 => some start
  | n + 1 => (passes f captures pager start n).bind (fun s => sweepLane f captures (pager n s) s)

variable {pager : Nat → SweepState → VersionPage} {start : SweepState}

theorem passes_step (answers : Answers siblings captures)
    (lanes : ∀ i s, LanePage roster.order (roster.listing s) (pager i s))
    (aligned : ∀ i s, passes f captures pager start i = some s →
      Aligned f s.bucket 0 (pageKeys (pager i s)))
    {i : Nat} (reached : passes f captures pager start i = some s) : ∃ s' passed rest,
      passes f captures pager start (i + 1) = some s' ∧ Passed f roster s s' passed rest := by
  obtain ⟨s', passed, rest, swept, pass⟩ := sweepLane_passed answers (lanes i s)
    (aligned i s reached)
  refine ⟨s', passed, rest, ?_, pass⟩
  rw [passes, reached, Option.bind_some, swept]

/-- In every run the keys outside the roster and those that are not retired keep their versions. -/
theorem passes_keep (answers : Answers siblings captures)
    (lanes : ∀ i s, LanePage roster.order (roster.listing s) (pager i s))
    (aligned : ∀ i s, passes f captures pager start i = some s →
      Aligned f s.bucket 0 (pageKeys (pager i s))) : ∀ i, ∃ s,
      passes f captures pager start i = some s ∧
      ∀ key, key ∉ roster.keys ∨ f.retired key = false →
        s.bucket.history key = start.bucket.history key := by
  intro i
  induction i with
  | zero => exact ⟨start, rfl, fun _ _ => rfl⟩
  | succ i ih =>
    obtain ⟨s, reached, kept⟩ := ih
    obtain ⟨s', passed, rest, next, pass⟩ := passes_step answers lanes aligned reached
    refine ⟨s', next, ?_⟩
    intro key outside
    rw [pass.others key ?_, kept key outside]
    rcases outside with notKey | live
    · left
      intro isPassed
      exact notKey (roster.mem_of_mem_ahead (pass.parts ▸ List.mem_append_left rest isPassed)).1
    · exact .inr live

theorem passes_pay (answers : Answers siblings captures)
    (lanes : ∀ i s, LanePage roster.order (roster.listing s) (pager i s))
    (aligned : ∀ i s, passes f captures pager start i = some s →
      Aligned f s.bucket 0 (pageKeys (pager i s))) : ∀ (owed waits i : Nat) (s : SweepState),
      passes f captures pager start i = some s → owing f roster s = owed →
      waiting f roster s = waits →
      ∃ n s, passes f captures pager start n = some s ∧ owing f roster s = 0 := by
  intro owed
  induction owed using Nat.strong_induction_on with
  | _ owed ihOwed =>
    intro waits
    induction waits using Nat.strong_induction_on with
    | _ waits ihWaits =>
      intro i s reached isOwed isWaits
      rcases Nat.eq_zero_or_pos (owing f roster s) with paid | unpaid
      · exact ⟨i, s, reached, paid⟩
      · obtain ⟨s', passed, rest, next, pass⟩ := passes_step answers lanes aligned reached
        rcases pass.measure unpaid with less | ⟨same, nearer⟩
        · exact ihOwed _ (isOwed ▸ less) _ (i + 1) s' next rfl rfl
        · exact ihWaits _ (isWaits ▸ nearer) (i + 1) s' next (same.trans isOwed) rfl

/-- In every run in which no pass comes to a retired key of several versions with a single unit of
its budget left, all versions of the retired keys are deleted after some number of passes, and
never one of another key. -/
theorem passes_retire (f : Fences) (roster : Roster) (siblings : Key → List Key)
    (captures : Captures) (answers : Answers siblings captures)
    (pager : Nat → SweepState → VersionPage)
    (lanes : ∀ i s, LanePage roster.order (roster.listing s) (pager i s)) (start : SweepState)
    (covers : ∀ key, f.retired key = true → start.bucket.history key ≠ [] → key ∈ roster.keys)
    (aligned : ∀ i s, passes f captures pager start i = some s →
      Aligned f s.bucket 0 (pageKeys (pager i s))) :
    (∃ n s, passes f captures pager start n = some s ∧
      ∀ key, f.retired key = true → s.bucket.history key = []) ∧
    ∀ i, ∃ s, passes f captures pager start i = some s ∧
      ∀ key, f.retired key = false → s.bucket.history key = start.bucket.history key := by
  have kept := passes_keep answers lanes aligned
  refine ⟨?_, ?_⟩
  · obtain ⟨n, s, reached, paid⟩ := passes_pay answers lanes aligned _ _ 0 start rfl rfl rfl
    refine ⟨n, s, reached, ?_⟩
    intro key retired
    by_cases isKey : key ∈ roster.keys
    · have isLength : (s.bucket.history key).length ∈
          (roster.keys.filter f.retired).map (fun key => (s.bucket.history key).length) :=
        List.mem_map.mpr ⟨key, List.mem_filter.mpr ⟨isKey, retired⟩, rfl⟩
      have least := List.le_sum_of_mem isLength
      unfold owing at paid
      exact List.length_eq_zero_iff.mp (by omega)
    · obtain ⟨t, reached', same⟩ := kept n
      obtain rfl := Option.some.inj (reached.symm.trans reached')
      rw [same key (.inl isKey)]
      by_contra held
      exact isKey (covers key retired held)
  · intro i
    obtain ⟨s, reached, same⟩ := kept i
    exact ⟨s, reached, fun key live => same key (.inr live)⟩

/-- With one page for the whole inventory, a retired key of several versions behind keys that leave
it one unit is passed over for ever. -/
theorem passes_stuck (answers : Answers siblings captures) {bucket : Bucket} {live : List Key}
    {key : Key} (whole : roster.ahead ⟨bucket, none⟩ = live ++ [key])
    (many : 2 ≤ (bucket.history key).length)
    (budget : spent f bucket live + 1 = maxTargetsPerLane)
    (quiet : ∀ k ∈ live, f.retired k = false ∧ bucket.history k ≠ []) : ∀ n,
    passes f captures (fun _ s => ⟨roster.listing s, false, none⟩) ⟨bucket, none⟩ n
      = some ⟨bucket, none⟩ := by
  have lane : LanePage roster.order (roster.listing ⟨bucket, none⟩)
      ⟨roster.listing ⟨bucket, none⟩, false, none⟩ :=
    ⟨⟨_, [], by simp, List.Perm.refl _, fun _ => rfl, nofun⟩,
      listing_sorted bucket (roster.sorted.sublist List.filter_sublist)⟩
  have shown := (lane.keys.2.1 rfl).trans whole
  have stuck : considerKeys f captures 0 none (live ++ [key]) bucket
      = some ⟨bucket, some key, true⟩ := considerKeys_stuck answers many (by omega) quiet
  intro n
  induction n with
  | zero => rfl
  | succ n ih =>
    rw [passes, ih, Option.bind_some, sweepLane, shown, stuck]
    rfl

end Passes

section Examples

def sidecarKey (id : Uuid) : Key :=
  [.text "local", .text "systems", .uuid id, .text "console-rotation-state.json"]

def sidecars (count : Uuid → Nat) : Bucket where
  history key := ((parseLocalSystemObjectKey key).elim [] (fun id => (List.range (count id)).map
    (fun i => ⟨i, 0, false⟩)))
  distinct key := by
    cases parseLocalSystemObjectKey key with
    | none => exact List.nodup_nil
    | some system =>
      rw [Option.elim_some, List.map_map]
      show ((List.range (count system)).map id).Nodup
      rw [List.map_id]
      exact List.nodup_range

def sidecarOrder : KeyOrder where
  precedes a b := decide ((parseLocalSystemObjectKey a).getD 0 < (parseLocalSystemObjectKey b).getD 0)
  irrefl := by simp
  trans a b c := by
    simp only [decide_eq_true_eq]
    exact Nat.lt_trans

def sidecarRoster (n : Nat) : Roster where
  order := sidecarOrder
  keys := (List.range n).map (fun i => sidecarKey (i + 1))
  sorted := by
    rw [List.pairwise_map]
    refine List.pairwise_lt_range.imp ?_
    intro a b less
    simpa [sidecarOrder, sidecarKey, parseLocalSystemObjectKey] using less

def oneTornDown (gone : Uuid) : Fences where
  lane := .localSystems
  systemState id := some (if id = gone then .tornDown else .ready)
  registered _ := false
  gate := none

def onePage : Captures := fun bucket key => [⟨listingUnder key [] bucket, false, none⟩]

theorem onePage_answers : Answers (fun _ => []) onePage where
  longer := by simp
  paged bucket key := .last (List.Perm.refl _)
  wide bucket key page isPage truncated := by
    rw [List.mem_singleton.mp isPage] at truncated
    cases truncated

theorem onePage_lanes (roster : Roster) (s : SweepState) :
    LanePage roster.order (roster.listing s) ⟨roster.listing s, false, none⟩ :=
  ⟨⟨_, [], by simp, List.Perm.refl _, fun _ => rfl, nofun⟩,
    listing_sorted s.bucket (roster.sorted.sublist List.filter_sublist)⟩

theorem eq_sidecarKey {key : Key} {id : Uuid} (parsed : parseLocalSystemObjectKey key = some id) :
    key = sidecarKey id := by
  unfold parseLocalSystemObjectKey at parsed
  split at parsed
  · split at parsed
    · rename_i named
      obtain ⟨rfl, rfl, rfl⟩ := named
      obtain rfl := Option.some.inj parsed
      rfl
    · cases parsed
  · cases parsed

theorem retired_oneTornDown {gone : Uuid} {key : Key}
    (retired : (oneTornDown gone).retired key = true) : key = sidecarKey gone := by
  simp only [Fences.retired, oneTornDown, Lane.parser, Option.any_eq_true] at retired
  obtain ⟨id, parsed, fenced⟩ := retired
  by_cases same : id = gone
  · exact same ▸ eq_sidecarKey parsed
  · simp [Fences.systemKeyIsRetired, same, goneSystemStates] at fenced

theorem sidecarKey_mem_roster {n gone : Nat} (positive : 0 < gone) (bound : gone ≤ n) :
    sidecarKey gone ∈ (sidecarRoster n).keys := by
  refine List.mem_map.mpr ⟨gone - 1, List.mem_range.mpr (by omega), ?_⟩
  rw [Nat.sub_add_cancel positive]

theorem passes_retire_single :
    (∃ n s, passes (oneTornDown 1) onePage
        (fun _ s => ⟨(sidecarRoster 1).listing s, false, none⟩) ⟨sidecars (fun _ => 3), none⟩ n
        = some s ∧
      ∀ key, (oneTornDown 1).retired key = true → s.bucket.history key = []) ∧
    ∀ i, ∃ s, passes (oneTornDown 1) onePage
        (fun _ s => ⟨(sidecarRoster 1).listing s, false, none⟩) ⟨sidecars (fun _ => 3), none⟩ i
        = some s ∧
      ∀ key, (oneTornDown 1).retired key = false →
        s.bucket.history key = (sidecars (fun _ => 3)).history key := by
  refine passes_retire (oneTornDown 1) (sidecarRoster 1) (fun _ => []) onePage onePage_answers _
    (fun _ s => onePage_lanes (sidecarRoster 1) s) ⟨sidecars (fun _ => 3), none⟩ ?_ ?_
  · intro key retired _
    rw [retired_oneTornDown retired]
    exact sidecarKey_mem_roster (by decide) (by decide)
  · intro i s _ before key after parts _ _
    have alone : (pageKeys ⟨(sidecarRoster 1).listing s, false, none⟩).length ≤ 1 := by
      have lead := ((onePage_lanes (sidecarRoster 1) s).keys.1).length_le
      have fewer : ((sidecarRoster 1).ahead s).length ≤ (sidecarRoster 1).keys.length :=
        (List.filter_sublist.trans List.filter_sublist).length_le
      exact lead.trans fewer
    rw [parts, List.length_append, List.length_cons] at alone
    obtain rfl : before = [] := List.length_eq_zero_iff.mp (by omega)
    show 0 + 0 + 1 ≠ maxTargetsPerLane
    decide

/-- Nine live Systems with twenty versions each and one with nineteen leave the retired one behind
them one unit of the budget. -/
def crowded : Uuid → Nat
  | 10 => 19
  | 11 => 2
  | _ => 20

theorem crowded_never_retired :
    Answers (fun _ => []) onePage ∧
    (∀ s, LanePage (sidecarRoster 11).order ((sidecarRoster 11).listing s)
      ⟨(sidecarRoster 11).listing s, false, none⟩) ∧
    (∀ key, (oneTornDown 11).retired key = true → (sidecars crowded).history key ≠ [] →
      key ∈ (sidecarRoster 11).keys) ∧
    (oneTornDown 11).retired (sidecarKey 11) = true ∧
    ((sidecars crowded).history (sidecarKey 11)).length = 2 ∧
    ∀ n, ∃ s, passes (oneTornDown 11) onePage
        (fun _ s => ⟨(sidecarRoster 11).listing s, false, none⟩) ⟨sidecars crowded, none⟩ n
        = some s ∧ (s.bucket.history (sidecarKey 11)).length = 2 := by
  have whole : (sidecarRoster 11).ahead ⟨sidecars crowded, none⟩
      = (List.range 10).map (fun i => sidecarKey (i + 1)) ++ [sidecarKey 11] := by decide +kernel
  have two : ((sidecars crowded).history (sidecarKey 11)).length = 2 := by decide +kernel
  have budget : spent (oneTornDown 11) (sidecars crowded)
      ((List.range 10).map (fun i => sidecarKey (i + 1))) + 1 = maxTargetsPerLane := by
    decide +kernel
  have quiet : ∀ k ∈ (List.range 10).map (fun i => sidecarKey (i + 1)),
      (oneTornDown 11).retired k = false ∧ (sidecars crowded).history k ≠ [] := by decide +kernel
  refine ⟨onePage_answers, onePage_lanes (sidecarRoster 11), ?_, by decide +kernel, two, ?_⟩
  · intro key retired _
    rw [retired_oneTornDown retired]
    exact sidecarKey_mem_roster (by decide) (by decide)
  intro n
  exact ⟨_, passes_stuck onePage_answers whole two.ge budget quiet n, two⟩

end Examples

end Kdive.Uploads
