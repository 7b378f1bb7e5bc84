import Kdive.Uploads.Versions
import Mathlib.Data.List.Perm.Subperm

/-!
Deleting the history of a retired key batch by batch. The store lists the versions under the key in
pages of any size; a batch that does not reach the end of the history keeps the latest version, so
the key stays listed until the batch that deletes the rest of it.
-/
namespace Kdive.Uploads

section Store

structure StoredVersion where
  versionId : Nat
  lastModified : Instant
  isDeleteMarker : Bool
  deriving DecidableEq

/-- The histories of a versioned bucket, newest version first; the versions of a key have different
ids. -/
structure Bucket where
  history : Key → List StoredVersion
  distinct : ∀ key, ((history key).map StoredVersion.versionId).Nodup

def StoredVersion.entry (version : StoredVersion) (key : Key) (isLatest : Bool) : ObjectVersion :=
  ⟨key, version.versionId, version.lastModified, isLatest, version.isDeleteMarker⟩

def entriesOf (bucket : Bucket) (key : Key) : List ObjectVersion :=
  match bucket.history key with
  | [] => []
  | newest :: older => newest.entry key true :: older.map (fun version => version.entry key false)

/-- A listing of the store in pages: a truncated page names the key of its last entry or of the first
one it leaves out, and `list_version_page` sorts the entries of a page. -/
inductive Paged : List ObjectVersion → List VersionPage → Prop
  | last {listing entries : List ObjectVersion} :
      entries.Perm listing → Paged listing [⟨entries, false, none⟩]
  | more {chunk rest entries : List ObjectVersion} {pages : List VersionPage} (edge : ObjectVersion) :
      entries.Perm chunk → chunk ≠ [] → edge ∈ chunk.getLast? ∨ edge ∈ rest.head? → Paged rest pages →
      Paged (chunk ++ rest) (⟨entries, true, some edge.key⟩ :: pages)

def deleteVersion (bucket : Bucket) (target : ObjectVersion) : Bucket where
  history key :=
    if key = target.key then
      (bucket.history key).filter (fun version => version.versionId != target.versionId)
    else bucket.history key
  distinct key := by
    split
    · exact (bucket.distinct key).sublist (List.filter_sublist.map _)
    · exact bucket.distinct key

/-- `delete_retired_key_batch` on the pages the store answers with: what it returns and the bucket
it leaves. Nothing when the listing breaks off or the batch is refused. -/
def deleteRetiredKeyBatch (key : Key) (limit : Nat) (pages : List VersionPage) (bucket : Bucket) :
    Option (Bool × Bucket) := do
  let batch ← captureExactVersions key limit pages
  let order ← deletionOrder batch
  return (batch.historyComplete, order.foldl deleteVersion bucket)

end Store

section Entries

variable {bucket : Bucket} {key : Key}

theorem key_of_mem_entriesOf {entry : ObjectVersion} (listed : entry ∈ entriesOf bucket key) :
    entry.key = key := by
  unfold entriesOf at listed
  split at listed
  · cases listed
  · rcases List.mem_cons.mp listed with rfl | older
    · rfl
    · obtain ⟨version, _, rfl⟩ := List.mem_map.mp older
      rfl

theorem length_entriesOf : (entriesOf bucket key).length = (bucket.history key).length := by
  unfold entriesOf
  split <;> simp [*]

theorem map_versionId_entriesOf :
    (entriesOf bucket key).map ObjectVersion.versionId
      = (bucket.history key).map StoredVersion.versionId := by
  unfold entriesOf
  split
  · simp [*]
  · rename_i newest older held
    rw [held, List.map_cons, List.map_cons, List.map_map]
    rfl

theorem filter_latest_entriesOf :
    (entriesOf bucket key).filter (·.isLatest)
      = ((bucket.history key).head?.map (fun newest => newest.entry key true)).toList := by
  unfold entriesOf
  split
  · simp [*]
  · rename_i newest older held
    have none : (older.map (fun version => version.entry key false)).filter (·.isLatest) = [] := by
      rw [List.filter_eq_nil_iff]
      intro entry isOlder
      obtain ⟨version, _, rfl⟩ := List.mem_map.mp isOlder
      simp [StoredVersion.entry]
    rw [held, List.filter_cons, none]
    rfl

end Entries

section Capturing

variable {key : Key} {limit : Nat} {entries : List ObjectVersion}

structure Captured (key : Key) (limit : Nat) (entries : List ObjectVersion) (batch : VersionBatch) :
    Prop where
  sameKey : batch.key = key
  inside : batch.targets.Subperm entries
  complete : batch.historyComplete = true → batch.targets.Perm entries
  full : batch.historyComplete = false → batch.targets.length = limit
  bounded : batch.targets.length ≤ limit

theorem captureOrder_perm (complete : Bool) (exact : List ObjectVersion) :
    (captureOrder complete exact).Perm exact := by
  unfold captureOrder
  split
  · exact List.Perm.refl exact
  · exact List.filter_append_perm (fun entry : ObjectVersion => entry.isLatest) exact

theorem filter_key_perm {page front gap : List ObjectVersion} (sorted : page.Perm (front ++ gap))
    (own : ∀ entry ∈ front, entry.key = key) (foreign : ∀ entry ∈ gap, entry.key ≠ key) :
    (page.filter (fun entry => entry.key == key)).Perm front := by
  have kept : front.filter (fun entry => entry.key == key) = front := by
    rw [List.filter_eq_self]
    intro entry isFront
    simpa using own entry isFront
  have dropped : gap.filter (fun entry => entry.key == key) = [] := by
    rw [List.filter_eq_nil_iff]
    intro entry isGap
    simpa using foreign entry isGap
  have same := sorted.filter (fun entry => entry.key == key)
  rwa [List.filter_append, kept, dropped, List.append_nil] at same

/-- What one page takes off the history that is left: a front part, and where it is not all of it
the page points back into the key. -/
theorem page_split {rest others chunk listing page : List ObjectVersion} {edge : ObjectVersion}
    (own : ∀ entry ∈ rest, entry.key = key) (foreign : ∀ entry ∈ others, entry.key ≠ key)
    (whole : chunk ++ listing = rest ++ others) (sorted : page.Perm chunk)
    (named : edge ∈ chunk.getLast? ∨ edge ∈ listing.head?) :
    ∃ front rest' others', rest = front ++ rest' ∧ listing = rest' ++ others' ∧
      (∀ entry ∈ others', entry.key ≠ key) ∧
      (page.filter (fun entry => entry.key == key)).Perm front ∧
      (rest' ≠ [] → edge.key = key) := by
  rcases List.append_eq_append_iff.mp whole with ⟨rest', rfl, rfl⟩ | ⟨gap, rfl, rfl⟩
  · refine ⟨chunk, rest', others, rfl, rfl, foreign, ?_, ?_⟩
    · exact filter_key_perm (by rwa [List.append_nil])
        (fun entry isChunk => own entry (List.mem_append_left _ isChunk)) (by simp)
    · intro left
      rcases named with ended | next
      · exact own edge (List.mem_append_left _ (List.mem_of_getLast? ended))
      · obtain ⟨first, others', rfl⟩ := List.exists_cons_of_ne_nil left
        obtain rfl : first = edge := by simpa using next
        exact own first (List.mem_append_right _ List.mem_cons_self)
  · refine ⟨rest, [], listing, by simp, rfl, ?_, ?_, by simp⟩
    · exact fun entry isLater => foreign entry (List.mem_append_right _ isLater)
    · exact filter_key_perm sorted own
        (fun entry isGap => foreign entry (List.mem_append_left _ isGap))

theorem capture_page {page : VersionPage} {pages : List VersionPage}
    {targets front rest : List ObjectVersion}
    (exact : (page.entries.filter (fun entry => entry.key == key)).Perm front)
    (short : targets.length < limit) (whole : (targets ++ (front ++ rest)).Perm entries)
    (points : rest ≠ [] → (page.isTruncated && page.nextKeyMarker == some key) = true) :
    (∃ batch, captureFrom key limit targets (page :: pages) = some batch ∧
      Captured key limit entries batch) ∨
    ((page.isTruncated && page.nextKeyMarker == some key) = true ∧
      ∃ targets', targets'.length < limit ∧ (targets' ++ rest).Perm entries ∧
        captureFrom key limit targets (page :: pages) = captureFrom key limit targets' pages) := by
  have ordered (complete : Bool) := (captureOrder_perm complete
    (page.entries.filter (fun entry => entry.key == key))).trans exact
  have size := exact.length_eq
  rw [captureFrom]
  generalize isMore : (page.isTruncated && page.nextKeyMarker == some key) = more at points ⊢
  generalize isExact : page.entries.filter (fun entry => entry.key == key) = found at ordered size ⊢
  by_cases fits : found.length ≤ limit - targets.length
  · -- the page has no more versions of the key than are still wanted
    have room : decide (limit - targets.length < found.length) = false := by simpa using fits
    rw [room, Bool.false_or]
    have all : (captureOrder (!more) found).take (limit - targets.length)
        = captureOrder (!more) found := by
      apply List.take_of_length_le
      rw [(ordered (!more)).length_eq]
      omega
    rw [all]
    have taken : ((targets ++ captureOrder (!more) found) ++ rest).Perm entries := by
      rw [List.append_assoc]
      exact (List.Perm.append_left targets ((ordered (!more)).append_right rest)).trans whole
    have inside : (targets ++ captureOrder (!more) found).Subperm entries :=
      (List.sublist_append_left _ rest).subperm.trans taken.subperm
    have ended (noMore : more = false) : (targets ++ captureOrder (!more) found).Perm entries := by
      have empty : rest = [] := by
        by_contra left
        rw [noMore] at points
        exact absurd (points left) (by simp)
      rwa [empty, List.append_nil] at taken
    split
    · rename_i reached
      exact .inl ⟨_, rfl, rfl, inside, fun complete => ended (by simpa using complete),
        fun _ => reached, reached.le⟩
    · rename_i missing
      have bound : (targets ++ captureOrder (!more) found).length < limit := by
        have := (ordered (!more)).length_eq
        rw [List.length_append] at missing ⊢
        omega
      split
      · exact .inr ⟨‹_›, _, bound, taken, rfl⟩
      · rename_i noMore
        exact .inl ⟨_, rfl, rfl, inside, fun _ => ended (by simpa using noMore), by simp, bound.le⟩
  · have room : decide (limit - targets.length < found.length) = true := by simpa using fits
    rw [room, Bool.true_or, Bool.not_true]
    have reached : (targets ++ (captureOrder false found).take (limit - targets.length)).length
        = limit := by
      have := (ordered false).length_eq
      rw [List.length_append, List.length_take]
      omega
    rw [if_pos reached]
    refine .inl ⟨_, rfl, rfl, ?_, by simp, fun _ => reached, reached.le⟩
    have fewer : ((captureOrder false found).take (limit - targets.length)).Subperm front :=
      (List.take_sublist _ _).subperm.trans (ordered false).subperm
    have more : (targets ++ front).Subperm (targets ++ (front ++ rest)) := by
      rw [← List.append_assoc]
      exact (List.sublist_append_left _ rest).subperm
    exact ((List.subperm_append_left targets).mpr fewer).trans (more.trans whole.subperm)

/-- A capture reads pages until it has enough or the history ends, and says truly which. -/
theorem captureFrom_captured {listing rest others targets : List ObjectVersion}
    {pages : List VersionPage} (paged : Paged listing pages) (parts : listing = rest ++ others)
    (own : ∀ entry ∈ rest, entry.key = key) (foreign : ∀ entry ∈ others, entry.key ≠ key)
    (short : targets.length < limit) (whole : (targets ++ rest).Perm entries) :
    ∃ batch, captureFrom key limit targets pages = some batch ∧ Captured key limit entries batch := by
  induction paged generalizing rest others targets with
  | @last listing page sorted =>
    subst parts
    have exact : (page.filter (fun entry => entry.key == key)).Perm rest :=
      filter_key_perm sorted own foreign
    have all : (targets ++ (rest ++ [])).Perm entries := by rwa [List.append_nil]
    have step : (∃ batch, captureFrom key limit targets [⟨page, false, none⟩] = some batch ∧
        Captured key limit entries batch) ∨ _ := capture_page exact short all (by simp)
    rcases step with done | ⟨more, _⟩
    · exact done
    · cases more
  | @more chunk listing page pages edge sorted filled named paged ih =>
    obtain ⟨front, rest', others', rfl, isRest, foreign', exact, points⟩ :=
      page_split own foreign parts sorted named
    have step : (∃ batch, captureFrom key limit targets (⟨page, true, some edge.key⟩ :: pages)
        = some batch ∧ Captured key limit entries batch) ∨ _ :=
      capture_page exact short whole (by simpa using points)
    rcases step with done | ⟨_, targets', short', whole', same⟩
    · exact done
    · rw [same]
      exact ih isRest (fun entry isLater => own entry (List.mem_append_right _ isLater)) foreign'
        short' whole'

end Capturing

section Deleting

variable {key : Key} {limit : Nat} {bucket : Bucket} {batch : VersionBatch}

theorem history_deleteVersions (order : List ObjectVersion) : ∀ (bucket : Bucket),
    (∀ target ∈ order, target.key = key) →
    (order.foldl deleteVersion bucket).history key = (bucket.history key).filter
        (fun version => decide (version.versionId ∉ order.map ObjectVersion.versionId)) ∧
      ∀ other ≠ key, (order.foldl deleteVersion bucket).history other = bucket.history other := by
  induction order with
  | nil =>
    intro bucket _
    simp
  | cons target order ih =>
    intro bucket own
    have here : target.key = key := own target List.mem_cons_self
    obtain ⟨mine, others⟩ := ih (deleteVersion bucket target)
      (fun later isLater => own later (List.mem_cons_of_mem target isLater))
    rw [List.foldl_cons]
    constructor
    · rw [mine, deleteVersion]
      dsimp only
      rw [if_pos here.symm, List.filter_filter]
      apply List.filter_congr
      intro version _
      by_cases same : version.versionId = target.versionId
      · simp [same]
      · simp [same]
    · intro other isOther
      rw [others other isOther, deleteVersion]
      dsimp only
      rw [if_neg (fun same => isOther (same.trans here))]

theorem latest_le_one {targets : List ObjectVersion}
    (inside : targets.Subperm (entriesOf bucket key)) :
    (targets.filter (·.isLatest)).length ≤ 1 := by
  have fewer := (inside.filter (fun entry => entry.isLatest)).length_le
  rw [filter_latest_entriesOf] at fewer
  refine fewer.trans ?_
  cases (bucket.history key).head? <;> simp

theorem Captured.order (captured : Captured key limit (entriesOf bucket key) batch) :
    deletionOrder batch = some (batch.targets.filter (fun target => !target.isLatest) ++
      if batch.historyComplete then batch.targets.filter (·.isLatest) else []) := by
  have own : batch.targets.any (fun target => target.key != batch.key) = false := by
    rw [List.any_eq_false]
    intro target isTarget
    have same := key_of_mem_entriesOf (captured.inside.subset isTarget)
    simp [same, captured.sameKey]
  have few := latest_le_one captured.inside
  have notTwo : decide (1 < (batch.targets.filter (·.isLatest)).length) = false := by simpa using few
  rw [deletionOrder, own, notTwo]
  rfl

/-- What one call leaves: of the key everything older than what it deleted, its latest version
among them unless the history was complete, and of the other keys everything. -/
structure BatchDeleted (key : Key) (bucket : Bucket) (done : Bool) (left : Bucket) : Prop where
  others : ∀ other ≠ key, left.history other = bucket.history other
  finished : done = true → left.history key = []
  retained : done = false → (left.history key).head? = (bucket.history key).head? ∧
    (left.history key).length < (bucket.history key).length

/-- Two targets are enough to delete one, and the latest version is none of those deleted. -/
theorem retained_of_incomplete {targets : List ObjectVersion}
    (inside : targets.Subperm (entriesOf bucket key)) (enough : 2 ≤ targets.length) :
    ((bucket.history key).filter (fun version => decide (version.versionId ∉
        (targets.filter (fun target => !target.isLatest)).map ObjectVersion.versionId))).head?
      = (bucket.history key).head? ∧
    ((bucket.history key).filter (fun version => decide (version.versionId ∉
        (targets.filter (fun target => !target.isLatest)).map ObjectVersion.versionId))).length
      < (bucket.history key).length := by
  have distinct := bucket.distinct key
  cases held : bucket.history key with
  | nil =>
    have none := inside.length_le
    rw [length_entriesOf, held, List.length_nil] at none
    omega
  | cons newest older =>
    rw [held, List.map_cons, List.nodup_cons] at distinct
    have fromOlder : ∀ target ∈ targets.filter (fun target => !target.isLatest),
        ∃ version ∈ older, target.versionId = version.versionId := by
      intro target isDeleted
      obtain ⟨isTarget, notLatest⟩ := List.mem_filter.mp isDeleted
      have listed := inside.subset isTarget
      simp only [entriesOf, held] at listed
      rcases List.mem_cons.mp listed with rfl | isOlder
      · cases notLatest
      · obtain ⟨version, isVersion, rfl⟩ := List.mem_map.mp isOlder
        exact ⟨version, isVersion, rfl⟩
    have keeps : newest.versionId ∉
        (targets.filter (fun target => !target.isLatest)).map ObjectVersion.versionId := by
      intro bad
      obtain ⟨target, isDeleted, same⟩ := List.mem_map.mp bad
      obtain ⟨version, isVersion, other⟩ := fromOlder target isDeleted
      exact distinct.1 (List.mem_map.mpr ⟨version, isVersion, by rw [← other, same]⟩)
    constructor
    · rw [List.filter_cons_of_pos (by simpa using keeps)]
      rfl
    · have few := latest_le_one inside
      have count := List.length_eq_length_filter_add (fun target : ObjectVersion => target.isLatest)
        (l := targets)
      have positive : 0 < (targets.filter (fun target => !target.isLatest)).length := by omega
      obtain ⟨target, isDeleted⟩ := List.exists_mem_of_length_pos positive
      obtain ⟨version, isVersion, same⟩ := fromOlder target isDeleted
      rw [List.length_filter_lt_length_iff_exists]
      refine ⟨version, List.mem_cons_of_mem newest isVersion, ?_⟩
      rw [decide_eq_true_eq, not_not, ← same]
      exact List.mem_map_of_mem isDeleted

theorem Captured.deleted (captured : Captured key limit (entriesOf bucket key) batch)
    (enough : 2 ≤ limit) : ∃ order, deletionOrder batch = some order ∧
      BatchDeleted key bucket batch.historyComplete (order.foldl deleteVersion bucket) := by
  refine ⟨_, captured.order, ?_⟩
  have own : ∀ target ∈ batch.targets.filter (fun target => !target.isLatest) ++
      (if batch.historyComplete then batch.targets.filter (·.isLatest) else []),
      target.key = key := by
    intro target isDeleted
    rw [← captured.sameKey]
    exact (deletionOrder_spec captured.order target isDeleted).2
  obtain ⟨mine, others⟩ := history_deleteVersions _ bucket own
  refine ⟨others, ?_, ?_⟩
  · intro complete
    rw [mine, complete, if_pos rfl, List.filter_eq_nil_iff]
    intro version isHeld
    have listed : version.versionId ∈ (entriesOf bucket key).map ObjectVersion.versionId := by
      rw [map_versionId_entriesOf]
      exact List.mem_map_of_mem isHeld
    obtain ⟨entry, isEntry, same⟩ := List.mem_map.mp listed
    have isTarget : entry ∈ batch.targets := (captured.complete complete).mem_iff.mpr isEntry
    have isDeleted : version.versionId ∈ (batch.targets.filter (fun target => !target.isLatest) ++
        batch.targets.filter (·.isLatest)).map ObjectVersion.versionId := by
      refine List.mem_map.mpr ⟨entry, ?_, same⟩
      cases isLatest : entry.isLatest with
      | true => exact List.mem_append_right _ (List.mem_filter.mpr ⟨isTarget, isLatest⟩)
      | false => exact List.mem_append_left _ (List.mem_filter.mpr ⟨isTarget, by simp [isLatest]⟩)
    rw [decide_eq_true_eq, not_not]
    exact isDeleted
  · intro incomplete
    rw [mine, incomplete, if_neg Bool.false_ne_true, List.append_nil]
    exact retained_of_incomplete captured.inside (captured.full incomplete ▸ enough)

def listingUnder (key : Key) (siblings : List Key) (bucket : Bucket) : List ObjectVersion :=
  entriesOf bucket key ++ siblings.flatMap (entriesOf bucket)

theorem capture_listing {siblings : List Key} {pages : List VersionPage} (longer : key ∉ siblings)
    (paged : Paged (listingUnder key siblings bucket) pages) (some : 0 < limit) :
    ∃ batch, captureExactVersions key limit pages = .some batch ∧
      Captured key limit (entriesOf bucket key) batch := by
  refine captureFrom_captured paged rfl (fun entry listed => key_of_mem_entriesOf listed) ?_ some
    (List.Perm.refl _)
  intro entry listed
  obtain ⟨sibling, isSibling, here⟩ := List.mem_flatMap.mp listed
  rw [key_of_mem_entriesOf here]
  rintro rfl
  exact longer isSibling

theorem deleteRetiredKeyBatch_spec {siblings : List Key} {pages : List VersionPage}
    (longer : key ∉ siblings) (paged : Paged (listingUnder key siblings bucket) pages)
    (enough : 2 ≤ limit) : ∃ done left,
      deleteRetiredKeyBatch key limit pages bucket = some (done, left) ∧
        BatchDeleted key bucket done left := by
  obtain ⟨batch, isBatch, captured⟩ := capture_listing longer paged (show 0 < limit by omega)
  obtain ⟨order, isOrder, deleted⟩ := captured.deleted enough
  refine ⟨batch.historyComplete, order.foldl deleteVersion bucket, ?_, deleted⟩
  rw [deleteRetiredKeyBatch, isBatch]
  show (deletionOrder batch).bind _ = _
  rw [isOrder]
  rfl

end Deleting

section Repeating

/-- Calls of `delete_retired_key_batch` one after the other, the store paging the listing of the
`i`-th call as it likes: `between` are the buckets after the calls that returned False, `final` the
one after the first call that returned True. -/
inductive Finishes (key : Key) (limit : Nat) (pager : Nat → Bucket → List VersionPage) :
    Nat → Bucket → List Bucket → Bucket → Prop
  | done {i : Nat} {bucket final : Bucket} :
      deleteRetiredKeyBatch key limit (pager i bucket) bucket = some (true, final) →
      Finishes key limit pager i bucket [] final
  | again {i : Nat} {bucket next final : Bucket} {between : List Bucket} :
      deleteRetiredKeyBatch key limit (pager i bucket) bucket = some (false, next) →
      Finishes key limit pager (i + 1) next between final →
      Finishes key limit pager i bucket (next :: between) final

structure Finished (key : Key) (bucket : Bucket) (between : List Bucket) (final : Bucket) : Prop where
  emptied : final.history key = []
  retained : ∀ left ∈ between, left.history key ≠ [] ∧
    (left.history key).head? = (bucket.history key).head?
  others : ∀ left ∈ final :: between, ∀ other ≠ key, left.history other = bucket.history other

variable {key : Key} {limit : Nat} {siblings : List Key} {pager : Nat → Bucket → List VersionPage}

theorem finishes_from (enough : 2 ≤ limit) (longer : key ∉ siblings)
    (pages : ∀ i bucket, Paged (listingUnder key siblings bucket) (pager i bucket)) :
    ∀ (n i : Nat) (bucket : Bucket), (bucket.history key).length = n → ∃ between final,
      Finishes key limit pager i bucket between final ∧ Finished key bucket between final := by
  intro n
  induction n using Nat.strong_induction_on with
  | _ n ih =>
    intro i bucket size
    obtain ⟨done, left, called, deleted⟩ := deleteRetiredKeyBatch_spec longer (pages i bucket) enough
    cases done with
    | true =>
      refine ⟨[], left, .done called, deleted.finished rfl, by simp, ?_⟩
      intro other isLast
      rw [List.mem_singleton.mp isLast]
      exact deleted.others
    | false =>
      obtain ⟨latest, shorter⟩ := deleted.retained rfl
      obtain ⟨between, final, finishes, finished⟩ := ih _ (size ▸ shorter) (i + 1) left rfl
      have held : left.history key ≠ [] := by
        intro empty
        rw [empty, List.head?_nil] at latest
        rw [List.head?_eq_none_iff.mp latest.symm] at shorter
        exact absurd shorter (Nat.not_lt_zero _)
      refine ⟨left :: between, final, .again called finishes, finished.emptied, ?_, ?_⟩
      · intro later isBetween
        rcases List.mem_cons.mp isBetween with rfl | isLater
        · exact ⟨held, latest⟩
        · exact ⟨(finished.retained later isLater).1,
            (finished.retained later isLater).2.trans latest⟩
      · intro later isOne other isOther
        rcases List.mem_cons.mp isOne with rfl | isBetween
        · rw [finished.others later List.mem_cons_self other isOther, deleted.others other isOther]
        rcases List.mem_cons.mp isBetween with rfl | isLater
        · exact deleted.others other isOther
        · rw [finished.others later (List.mem_cons_of_mem final isLater) other isOther,
            deleted.others other isOther]

/-- Repeated calls end with nothing left of the key. Before that the latest version stays, and the
versions of the other keys stay throughout. -/
theorem deleteRetiredKeyBatch_finishes (key : Key) (limit : Nat) (enough : 2 ≤ limit)
    (siblings : List Key) (longer : key ∉ siblings) (pager : Nat → Bucket → List VersionPage)
    (pages : ∀ i bucket, Paged (listingUnder key siblings bucket) (pager i bucket))
    (bucket : Bucket) :
    ∃ between final, Finishes key limit pager 0 bucket between final ∧
      Finished key bucket between final :=
  finishes_from enough longer pages _ 0 bucket rfl

def threeVersions : Bucket where
  history key := if key = [.text "part"] then [⟨3, 30, true⟩, ⟨2, 20, false⟩, ⟨1, 10, false⟩] else []
  distinct key := by split <;> decide

theorem deleteRetiredKeyBatch_finishes_three : ∃ between final,
    Finishes [.text "part"] 2
      (fun _ bucket => [⟨listingUnder [.text "part"] [[.text "part2"]] bucket, false, none⟩]) 0
      threeVersions between final ∧
    Finished [.text "part"] threeVersions between final :=
  deleteRetiredKeyBatch_finishes [.text "part"] 2 (by decide) [[.text "part2"]] (by decide) _
    (fun _ _ => .last (List.Perm.refl _)) threeVersions

end Repeating

end Kdive.Uploads
