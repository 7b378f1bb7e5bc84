import Kdive.Bundles.BootMember
import Mathlib.Data.List.TakeWhile
import Mathlib.Algebra.Group.Nat.Defs

/-!
Two readers of the release banner of a ppc64le kernel. The first takes the first complete banner of
the file, the second whatever stands behind the first marker of a loaded segment up to white space:
it knows no terminator NUL and skips nothing.
-/
namespace Kdive.Bundles
open PosixPath (Str str)

section Banners

variable {data more token : Bytes}

theorem bannerToken_eq_some : bannerToken data = some token ↔ ∃ last rest,
    data = bannerMarker ++ (token ++ last :: rest) ∧ (∀ b ∈ token, releaseTail b.toNat = true) ∧
      token.head?.any (fun b => releaseHead b.toNat) = true ∧ token.length ≤ 64 ∧
      (last = 0x20 || last = 0x09 || last = 0x0D || last = 0x0A || last = 0) = true := by
  have ends : ∀ last : UInt8,
      (last = 0x20 || last = 0x09 || last = 0x0D || last = 0x0A || last = 0) = true →
        releaseTail last.toNat = false := by
    intro last isEnd
    simp only [Bool.or_eq_true, decide_eq_true_eq] at isEnd
    rcases isEnd with (((rfl | rfl) | rfl) | rfl) | rfl <;> decide
  constructor
  · intro read
    rw [bannerToken] at read
    split at read
    · rename_i starts
      obtain ⟨rest, rfl⟩ := List.isPrefixOf_iff_prefix.mp starts
      dsimp only at read
      rw [List.drop_left] at read
      split at read
      · rename_i complete
        obtain rfl := Option.some.inj read
        obtain ⟨first, short, terminated⟩ := complete
        have split : (rest.takeWhile fun b => releaseTail b.toNat) ++
            (rest.dropWhile fun b => releaseTail b.toNat) = rest := List.takeWhile_append_dropWhile
        have dropped := congrArg (List.drop (rest.takeWhile fun b => releaseTail b.toNat).length) split
        rw [List.drop_left] at dropped
        rw [← dropped] at terminated
        cases left : rest.dropWhile fun b => releaseTail b.toNat with
        | nil =>
          rw [left] at terminated
          cases terminated
        | cons last after =>
          rw [left] at terminated split
          refine ⟨last, after, by rw [split], fun b member => ?_, first, short, terminated⟩
          have isTail := List.mem_takeWhile_imp member
          exact isTail
      · cases read
    · cases read
  · rintro ⟨last, rest, rfl, tail, first, short, isEnd⟩
    have stops : (token ++ last :: rest).takeWhile (fun b => releaseTail b.toNat) = token := by
      rw [List.takeWhile_append_of_pos tail, List.takeWhile_cons_of_neg (by simp [ends last isEnd]),
        List.append_nil]
    rw [bannerToken, if_pos (List.isPrefixOf_iff_prefix.mpr (List.prefix_append _ _))]
    dsimp only
    rw [List.drop_left, stops, List.drop_left, if_pos ⟨first, short, isEnd⟩]

theorem bannerToken_append (read : bannerToken data = some token) (more : Bytes) :
    bannerToken (data ++ more) = some token := by
  obtain ⟨last, rest, rfl, banner⟩ := bannerToken_eq_some.mp read
  refine bannerToken_eq_some.mpr ⟨last, rest ++ more, ?_, banner⟩
  simp only [List.append_assoc, List.cons_append]

/-- A banner that more bytes complete is shorter than the overlap, and has no white space behind its
marker. -/
theorem bannerToken_cut (cut : bannerToken data = none)
    (read : bannerToken (data ++ more) = some token) :
    data.length < bannerScanOverlapBytes ∧
      ∀ b ∈ data.drop bannerMarker.length, releaseTail b.toNat = true := by
  obtain ⟨last, rest, whole, tail, first, short, isEnd⟩ := bannerToken_eq_some.mp read
  have within : data.length ≤ bannerMarker.length + token.length := by
    by_contra longer
    have long : (bannerMarker ++ (token ++ [last])).length ≤ data.length := by
      simp only [List.length_append, List.length_cons, List.length_nil]
      omega
    have same : bannerMarker ++ (token ++ last :: rest) =
        (bannerMarker ++ (token ++ [last])) ++ rest := by simp
    have starts : bannerMarker ++ (token ++ [last]) <+: data := by
      apply List.prefix_of_prefix_length_le _ (List.prefix_append data more) long
      rw [whole, same]
      exact List.prefix_append _ _
    obtain ⟨after, rfl⟩ := starts
    have complete : bannerToken (bannerMarker ++ (token ++ [last]) ++ after) = some token := by
      refine bannerToken_eq_some.mpr ⟨last, after, by simp, tail, first, short, isEnd⟩
    rw [complete] at cut
    cases cut
  have early : data <+: bannerMarker ++ token := by
    have other : bannerMarker ++ token <+: data ++ more := by
      rw [whole, ← List.append_assoc]
      exact List.prefix_append _ _
    exact List.prefix_of_prefix_length_le (List.prefix_append data more) other (by simpa using within)
  constructor
  · rw [bannerScanOverlapBytes]
    omega
  · intro b member
    have inside := (early.drop bannerMarker.length).subset member
    rw [List.drop_left] at inside
    exact tail b inside

def bannerAt (data : Bytes) (i : Nat) : Option Bytes := bannerToken (data.drop i)

attribute [local simp] bannerToken bannerSearch in
theorem bannerSearch_nil : bannerSearch [] = none := by decide

theorem bannerSearch_append {front : Bytes} (noBanner : ∀ i < front.length,
    bannerAt (front ++ data) i = none) : bannerSearch (front ++ data) = bannerSearch data := by
  induction front with
  | nil => rfl
  | cons b front ih =>
    have first : bannerToken (b :: (front ++ data)) = none := noBanner 0 (Nat.succ_pos _)
    rw [List.cons_append, bannerSearch, first]
    exact ih (fun i inside => noBanner (i + 1) (Nat.succ_lt_succ inside))

theorem bannerSearch_eq_some (read : bannerSearch data = some token) :
    ∃ i, bannerAt data i = some token ∧ i < data.length ∧ ∀ j < i, bannerAt data j = none := by
  induction data with
  | nil =>
    rw [bannerSearch_nil] at read
    cases read
  | cons b rest ih =>
    rw [bannerSearch] at read
    split at read
    · rename_i found here
      obtain rfl := Option.some.inj read
      exact ⟨0, here, Nat.succ_pos _, fun j before => absurd before (Nat.not_lt_zero j)⟩
    · rename_i here
      obtain ⟨i, there, inside, before⟩ := ih read
      refine ⟨i + 1, there, Nat.succ_lt_succ inside, fun j earlier => ?_⟩
      cases j with
      | zero => exact here
      | succ j => exact before j (Nat.lt_of_succ_lt_succ earlier)

theorem bannerSearch_eq_none (missing : bannerSearch data = none) (i : Nat) :
    bannerAt data i = none := by
  induction data generalizing i with
  | nil =>
    rw [bannerAt, List.drop_nil]
    decide
  | cons b rest ih =>
    rw [bannerSearch] at missing
    split at missing
    · cases missing
    · rename_i here
      cases i with
      | zero => exact here
      | succ i => exact ih missing i

theorem no_marker_in_cut {i j : Nat} (later : j < i) (cut : bannerAt data j = none)
    (completes : ∃ token, bannerToken (data.drop j ++ more) = some token) :
    bannerAt data i = none := by
  obtain ⟨token, read⟩ := completes
  obtain ⟨-, tail⟩ := bannerToken_cut cut read
  by_contra found
  obtain ⟨other, found⟩ := Option.ne_none_iff_exists'.mp found
  obtain ⟨last, rest, whole, -⟩ := bannerToken_eq_some.mp found
  -- the space that ends the marker at `i` lies behind the marker at `j`
  have ends : data[i + 13]? = some 0x20 := by
    rw [← List.getElem?_drop, whole, List.getElem?_append_left (by decide)]
    decide
  have space : (0x20 : UInt8) ∈ (data.drop j).drop bannerMarker.length := by
    apply List.mem_of_getElem? (i := i - j - 1)
    rw [List.getElem?_drop, List.getElem?_drop, ← ends]
    have length : bannerMarker.length = 14 := by decide
    congr 1
    omega
  exact absurd (tail _ space) (by decide)

end Banners

section Scanned

variable {data tail rest token : Bytes} {release : Str}

theorem scanLinuxRelease_some (read : scanLinuxRelease data = .ok (some release)) :
    ∃ token, bannerSearch data = some token ∧ validatedRelease token = .ok release := by
  rw [scanLinuxRelease] at read
  split at read
  · cases read
  · rename_i token found
    refine ⟨token, found, ?_⟩
    cases valid : validatedRelease token with
    | error e =>
      rw [valid] at read
      cases read
    | ok value =>
      rw [valid] at read
      exact congrArg Except.ok (Option.some.inj (Except.ok.inj read))

theorem scanLinuxRelease_none (read : scanLinuxRelease data = .ok none) :
    bannerSearch data = none := by
  rw [scanLinuxRelease] at read
  split at read
  · assumption
  · rename_i token found
    cases valid : validatedRelease token with
    | error e =>
      rw [valid] at read
      cases read
    | ok value =>
      rw [valid] at read
      cases read

/-- A banner that is complete in a part of the file is its first there, cut ones included. -/
theorem bannerSearch_extend (read : bannerSearch data = some token) (more : Bytes) :
    bannerSearch (data ++ more) = some token := by
  obtain ⟨i, here, inside, before⟩ := bannerSearch_eq_some read
  have first : ∀ j < i, bannerAt (data ++ more) j = none := by
    intro j earlier
    by_contra found
    obtain ⟨other, found⟩ := Option.ne_none_iff_exists'.mp found
    rw [bannerAt, List.drop_append_of_le_length (by omega)] at found
    rw [no_marker_in_cut earlier (before j earlier) ⟨other, found⟩] at here
    cases here
  have split : data ++ more = data.take i ++ (data.drop i ++ more) := by
    rw [← List.append_assoc, List.take_append_drop]
  have size : (data.take i).length = i := List.length_take_of_le inside.le
  rw [split, bannerSearch_append (by rw [size, ← split]; exact first)]
  have banner : bannerToken (data.drop i ++ more) = some token := bannerToken_append here more
  cases from' : data.drop i ++ more with
  | nil =>
    have none : bannerToken [] = none := by decide
    rw [from', none] at banner
    cases banner
  | cons b others =>
    rw [from'] at banner
    rw [bannerSearch, banner]

theorem bannerRelease_first {scanned : Nat} {front : Bytes}
    (noBanner : ∀ i < front.length, bannerAt (front ++ (tail ++ rest ++ [0])) i = none)
    (read : bannerRelease scanned tail rest = .ok release) :
    ∃ token, bannerSearch (front ++ (tail ++ rest ++ [0])) = some token ∧
      validatedRelease token = .ok release := by
  induction left : rest.length using Nat.strongRecOn generalizing scanned tail rest front with
  | ind size ih =>
    rw [bannerSearch_append noBanner]
    rw [bannerRelease] at read
    split at read
    · cases read
    split at read
    · rename_i ended
      subst ended
      rw [List.append_nil]
      cases scan : scanLinuxRelease (tail ++ [0]) with
      | error e =>
        rw [scan] at read
        cases read
      | ok value =>
        rw [scan] at read
        cases value with
        | none => cases read
        | some value =>
          obtain rfl := Except.ok.inj read
          exact scanLinuxRelease_some scan
    · rename_i more
      have whole : tail ++ rest ++ [0] =
          tail ++ rest.take bannerScanChunkBytes ++ (rest.drop bannerScanChunkBytes ++ [0]) := by
        conv_lhs => rw [← List.take_append_drop bannerScanChunkBytes rest]
        simp only [List.append_assoc]
      dsimp only at read
      cases scan : scanLinuxRelease (tail ++ rest.take bannerScanChunkBytes) with
      | error e =>
        rw [scan] at read
        cases read
      | ok value =>
        rw [scan] at read
        cases value with
        | some value =>
          obtain rfl := Except.ok.inj read
          obtain ⟨token, found, valid⟩ := scanLinuxRelease_some scan
          exact ⟨token, by rw [whole]; exact bannerSearch_extend found _, valid⟩
        | none =>
          have missing := bannerSearch_eq_none (scanLinuxRelease_none scan)
          have shorter : (rest.drop bannerScanChunkBytes).length < size := by
            have some' := List.length_pos_iff.mpr more
            have positive : 0 < bannerScanChunkBytes := by decide
            rw [List.length_drop]
            omega
          rw [whole]
          generalize tail ++ rest.take bannerScanChunkBytes = seen at read missing ⊢
          generalize rest.drop bannerScanChunkBytes = unseen at read shorter ⊢
          have split : seen ++ (unseen ++ [0]) =
              seen.take (seen.length - bannerScanOverlapBytes) ++
                (seen.drop (seen.length - bannerScanOverlapBytes) ++ unseen ++ [0]) := by
            conv_lhs => rw [← List.take_append_drop (seen.length - bannerScanOverlapBytes) seen]
            simp only [List.append_assoc]
          rw [split]
          refine ih unseen.length shorter (fun i inside => ?_) read rfl
          -- what is dropped starts no banner that the next part could complete
          have inside : i < seen.length - bannerScanOverlapBytes := by
            rw [List.length_take] at inside
            omega
          rw [← split, bannerAt, List.drop_append_of_le_length (by omega)]
          by_contra found
          obtain ⟨other, found⟩ := Option.ne_none_iff_exists'.mp found
          have cut := (bannerToken_cut (missing i) found).1
          rw [List.length_drop] at cut
          omega

end Scanned

section Metadata

def markedToken (data : Bytes) : Option Bytes :=
  match found bannerMarker data with
  | none => none
  | some banner =>
    let token := ((banner.drop bannerMarker.length).dropWhile isSpace).takeWhile (isSpace · = false)
    if token = [] then none else some token

/-- The parts of the loaded segments that the metadata pass looks through, as far as its bound on the
bytes it reads goes. -/
def loadedWindows : List Segment → BoundedElfReader → List Bytes
  | [], _ => []
  | s :: rest, r =>
    if s.type ≠ 1 then loadedWindows rest r
    else if elfMetadataMaxBytes ≤ r.measuredBytes then []
    else match r.read s.offset (min s.size (elfMetadataMaxBytes - r.measuredBytes)) with
      | .error _ => []
      | .ok (data, r) => data :: loadedWindows rest r

def kernelHeaders (kernel : Bytes) (arch : Arch) :
    Except Exc (List Segment × List String × BoundedElfReader) :=
  (BoundedElfReader.read ⟨kernel, []⟩ 0 64).bind fun (header, r) =>
  if header.take 6 ≠ elf64lePrefix then
    failed "decoded boot/vmlinuz is not a 64-bit little-endian ELF"
  else if littleEndian (slice header 0x12 0x14) ≠ arch.machine then
    failed "decoded boot/vmlinuz architecture does not match the build profile"
  else
    (elfProgramHeaders r header).bind fun (segments, r) =>
    (segmentBuildIds segments r).map fun (ids, r) => (segments, ids, r)

/-- An ELF kernel of the architecture with one build id. -/
structure KernelImage (kernel : Bytes) (arch : Arch) (segments : List Segment)
    (r : BoundedElfReader) : Prop where
  headers : ∃ ids buildId, kernelHeaders kernel arch = .ok (segments, ids, r) ∧ ids.dedup = [buildId]

def releaseFailures : List String :=
  ["boot/vmlinuz release disagrees with its decoded kernel", "boot/vmlinuz release is not canonical",
    "boot/vmlinuz release is not UTF-8"]

def RefusesRelease {α : Type} (outcome : Except Exc α) : Prop :=
  ∃ message ∈ releaseFailures, outcome = failed message

def TokenIs (windows : List Bytes) (release : Str) : Prop :=
  ∀ token, windows.findSome? markedToken = some token → validatedRelease token = .ok release

/-- A complete banner that names another release stands before every banner that names this one. -/
def Preceded (data : Bytes) (release : Str) : Prop :=
  ∃ i token, bannerAt data i = some token ∧ validatedRelease token ≠ .ok release ∧
    ∀ j own, bannerAt data j = some own → validatedRelease own = .ok release → i < j

def PrecededIn (windows : List Bytes) (release : Str) : Prop :=
  ∃ token, windows.findSome? bannerSearch = some token ∧ validatedRelease token ≠ .ok release

variable {segments : List Segment} {r : BoundedElfReader} {kernel : Bytes} {arch : Arch}
variable {release : Str}

theorem optionalLinuxRelease_eq (data : Bytes) : optionalLinuxRelease data =
    match markedToken data with
    | none => .ok none
    | some token => (validatedRelease token).map some := by
  rw [optionalLinuxRelease, markedToken]
  cases found bannerMarker data with
  | none => rfl
  | some banner =>
    dsimp only
    split
    · rfl
    · rfl

theorem validatedRelease_error {token : Bytes} {e : Exc} (refused : validatedRelease token = .error e) :
    ∃ message ∈ releaseFailures, e = .failure ⟨message⟩ := by
  rw [validatedRelease, strictDecode] at refused
  split at refused
  · change (if releaseMatches _ then _ else _) = _ at refused
    split at refused
    · cases refused
    · exact ⟨"boot/vmlinuz release is not canonical", by decide, (Except.error.inj refused).symm⟩
  · exact ⟨"boot/vmlinuz release is not UTF-8", by decide, (Except.error.inj refused).symm⟩

theorem read_error {offset length : Nat} {e : Exc} (refused : r.read offset length = .error e) :
    ∃ message, message ∉ releaseFailures ∧ e = .failure ⟨message⟩ := by
  rw [BoundedElfReader.read] at refused
  dsimp only at refused
  split at refused
  · exact ⟨"decoded boot/vmlinuz ELF metadata extends past the object", by decide,
      (Except.error.inj refused).symm⟩
  split at refused
  · exact ⟨"decoded boot/vmlinuz exceeds the ELF metadata read limit", by decide,
      (Except.error.inj refused).symm⟩
  split at refused
  · exact ⟨"decoded boot/vmlinuz ELF metadata is truncated", by decide,
      (Except.error.inj refused).symm⟩
  · cases refused

theorem segmentRelease_cases (segments : List Segment) (r : BoundedElfReader) :
    match (loadedWindows segments r).findSome? markedToken with
    | some token => ∃ r', segmentRelease segments r =
        (validatedRelease token).map (fun release => (some release, r'))
    | none => (∃ r', segmentRelease segments r = .ok (none, r')) ∨
        ∃ message, message ∉ releaseFailures ∧
          segmentRelease segments r = .error (.failure ⟨message⟩) := by
  induction segments generalizing r with
  | nil => exact .inl ⟨r, rfl⟩
  | cons s rest ih =>
    rw [loadedWindows, segmentRelease]
    by_cases unloaded : s.type ≠ 1
    · rw [if_pos unloaded, if_pos unloaded]
      exact ih r
    rw [if_neg unloaded, if_neg unloaded]
    by_cases spent : elfMetadataMaxBytes ≤ r.measuredBytes
    · rw [if_pos spent, if_pos spent]
      exact .inl ⟨r, rfl⟩
    rw [if_neg spent, if_neg spent]
    cases read : r.read s.offset (min s.size (elfMetadataMaxBytes - r.measuredBytes)) with
    | error e =>
      obtain ⟨message, other, rfl⟩ := read_error read
      exact .inr ⟨message, other, rfl⟩
    | ok result =>
      obtain ⟨data, r'⟩ := result
      dsimp only [Except.bind]
      rw [optionalLinuxRelease_eq, List.findSome?_cons]
      cases marked : markedToken data with
      | none => exact ih r'
      | some token =>
        dsimp only
        refine ⟨r', ?_⟩
        cases validatedRelease token with
        | error e => rfl
        | ok value => rfl

theorem elfKernelMetadata_eq (kernel : Bytes) (arch : Arch) (expectedRelease : Str) :
    elfKernelMetadata kernel arch expectedRelease =
      (kernelHeaders kernel arch).bind fun (segments, ids, r) =>
      (segmentRelease segments r).bind fun (decodedRelease, r) =>
      if decodedRelease ≠ none ∧ decodedRelease ≠ some expectedRelease then
        failed "boot/vmlinuz release disagrees with its decoded kernel"
      else
        match ids.dedup with
        | [buildId] =>
          if 4 ≤ buildId.length / 2 ∧ buildId.length / 2 ≤ 64 then
            .ok ⟨kernel.length, r.measuredBytes, arch, expectedRelease, buildId⟩
          else failed "decoded boot/vmlinuz GNU build ID has an invalid byte length"
        | _ => failed "decoded boot/vmlinuz must contain one unambiguous GNU build ID" := by
  rw [elfKernelMetadata, kernelHeaders]
  cases BoundedElfReader.read ⟨kernel, []⟩ 0 64 with
  | error e => rfl
  | ok result =>
    obtain ⟨header, r⟩ := result
    dsimp only [Except.bind]
    split
    · rfl
    split
    · rfl
    cases elfProgramHeaders r header with
    | error e => rfl
    | ok result =>
      obtain ⟨segments, r⟩ := result
      dsimp only
      cases segmentBuildIds segments r with
      | error e => rfl
      | ok result => rfl

/-- What is left to do when the release agrees: the length of the build id. -/
def withBuildId (kernel : Bytes) (arch : Arch) (release : Str) (buildId : String)
    (r : BoundedElfReader) : Except Exc KernelMetadata :=
  if 4 ≤ buildId.length / 2 ∧ buildId.length / 2 ≤ 64 then
    .ok ⟨kernel.length, r.measuredBytes, arch, release, buildId⟩
  else failed "decoded boot/vmlinuz GNU build ID has an invalid byte length"

theorem not_refuses_withBuildId {buildId : String} :
    ¬ RefusesRelease (withBuildId kernel arch release buildId r) := by
  rintro ⟨message, isOwn, same⟩
  rw [withBuildId] at same
  split at same
  · cases same
  · injection same with same
    injection same with same
    injection same with same
    rw [← same] at isOwn
    exact absurd isOwn (by decide)

/-- A kernel is refused on account of a release exactly when the first token is another text. -/
theorem not_refusesRelease_iff (image : KernelImage kernel arch segments r) :
    ¬ RefusesRelease (elfKernelMetadata kernel arch release) ↔
      TokenIs (loadedWindows segments r) release := by
  obtain ⟨ids, buildId, headers, one⟩ := image.headers
  have cases' := segmentRelease_cases segments r
  have outcome : elfKernelMetadata kernel arch release =
      (segmentRelease segments r).bind fun (decodedRelease, r) =>
      if decodedRelease ≠ none ∧ decodedRelease ≠ some release then
        failed "boot/vmlinuz release disagrees with its decoded kernel"
      else withBuildId kernel arch release buildId r := by
    rw [elfKernelMetadata_eq, headers]
    dsimp only [Except.bind]
    cases segmentRelease segments r with
    | error e => rfl
    | ok result =>
      dsimp only
      rw [one]
      rfl
  rw [TokenIs, outcome]
  cases first : (loadedWindows segments r).findSome? markedToken with
  | none =>
    rw [first] at cases'
    refine iff_of_true ?_ nofun
    rcases cases' with ⟨r', unread⟩ | ⟨message, other, failed'⟩
    · rw [unread]
      dsimp only [Except.bind]
      rw [if_neg (by simp)]
      exact not_refuses_withBuildId
    · rw [failed']
      rintro ⟨own, isOwn, same⟩
      have same : message = own := by injection same with same; injection same with same; injection same
      exact other (same ▸ isOwn)
  | some token =>
    rw [first] at cases'
    obtain ⟨r', came⟩ := cases'
    rw [came]
    simp only [Option.some.injEq, forall_eq']
    cases valid : validatedRelease token with
    | error e =>
      obtain ⟨message, isOwn, rfl⟩ := validatedRelease_error valid
      exact iff_of_false (fun fine => fine ⟨message, isOwn, rfl⟩) nofun
    | ok value =>
      dsimp only [Except.map, Except.bind]
      by_cases same : value = release
      · subst same
        rw [if_neg (by simp)]
        exact iff_of_true not_refuses_withBuildId rfl
      · rw [if_pos ⟨nofun, fun equal => same (Option.some.inj equal)⟩]
        refine iff_of_false (fun fine => fine ⟨_, by decide, rfl⟩) (fun equal => ?_)
        exact same (Except.ok.inj equal)

theorem not_preceded {boot : Bytes} (named : bootRelease boot .ppc64le = .ok release) :
    ¬ Preceded (boot ++ [0]) release := by
  have first := @bannerRelease_first [] boot release 0 [] (fun i none => absurd none (Nat.not_lt_zero i))
    named
  rw [List.nil_append, List.nil_append] at first
  obtain ⟨token, found, valid⟩ := first
  obtain ⟨k, here, -, before⟩ := bannerSearch_eq_some found
  rintro ⟨i, other, there, differs, precedes⟩
  have earlier := precedes k token here valid
  rw [before i earlier] at there
  cases there

/-- The metadata pass lets a kernel pass that the first scan took a release from, read in the order of
the file or of the segments, exactly when its own first token is that release. -/
theorem metadata_agrees_iff {boot : Bytes} {segments : List Segment} {r : BoundedElfReader}
    {release : Str} (image : KernelImage boot .ppc64le segments r)
    (named : bootRelease boot .ppc64le = .ok release) :
    (¬ RefusesRelease (elfKernelMetadata boot .ppc64le release) ∨ Preceded (boot ++ [0]) release ↔
      TokenIs (loadedWindows segments r) release) ∧
    (¬ RefusesRelease (elfKernelMetadata boot .ppc64le release) ∨
        PrecededIn (loadedWindows segments r) release ↔
      TokenIs (loadedWindows segments r) release ∨ PrecededIn (loadedWindows segments r) release) := by
  have agrees := @not_refusesRelease_iff segments r boot .ppc64le release image
  rw [agrees]
  exact ⟨or_iff_left (not_preceded named), Iff.rfl⟩

end Metadata

section Samples

deriving instance DecidableEq for Segment
deriving instance DecidableEq for BoundedElfReader

def littleBytes (width n : Nat) : Bytes := (List.range width).map fun i => UInt8.ofNat (n / 256 ^ i)

def zeros (n : Nat) : Bytes := List.replicate n 0

def programHeader (type offset size : Nat) : Bytes :=
  littleBytes 4 type ++ zeros 4 ++ littleBytes 8 offset ++ zeros 16 ++ littleBytes 8 size ++ zeros 16

def buildIdNote : Bytes :=
  littleBytes 4 4 ++ littleBytes 4 8 ++ littleBytes 4 3 ++ gnuName ++ [0, 1, 2, 3, 4, 5, 6, 7, 8]

def kernelFile (text : String) : Bytes :=
  elf64lePrefix ++ zeros 12 ++ littleBytes 2 21 ++ zeros 12 ++ littleBytes 8 64 ++ zeros 14 ++
    littleBytes 2 56 ++ littleBytes 2 2 ++ zeros 6 ++ programHeader 4 176 24 ++
    programHeader 1 200 text.length ++ buildIdNote ++
    text.toList.map (fun c => UInt8.ofNat c.toNat)

def kernelSegments (text : String) : List Segment := [⟨4, 176, 24⟩, ⟨1, 200, text.length⟩]

def kernelReader (text : String) : BoundedElfReader :=
  ⟨kernelFile text, [(0, 64), (64, 176), (176, 200)]⟩

theorem eq_ok_of_toOption {α : Type} {outcome : Except Exc α} {value : α}
    (came : outcome.toOption = some value) : outcome = .ok value := by
  cases outcome with
  | error e => cases came
  | ok other => exact congrArg Except.ok (Option.some.inj came)

theorem kernelFile_image {text : String} (headers : (kernelHeaders (kernelFile text) .ppc64le).toOption =
      some (kernelSegments text, ["0102030405060708"], kernelReader text)) :
    KernelImage (kernelFile text) .ppc64le (kernelSegments text) (kernelReader text) :=
  ⟨_, "0102030405060708", eq_ok_of_toOption headers, by decide⟩

def spacedBanner : String := "boot\nLinux version 6.1.0 (gcc 13)\n"

theorem spacedBanner_agrees :
    ¬ RefusesRelease (elfKernelMetadata (kernelFile spacedBanner) .ppc64le (str "6.1.0")) ∨
      Preceded (kernelFile spacedBanner ++ [0]) (str "6.1.0") := by
  have image := @kernelFile_image spacedBanner (by decide +kernel)
  have named : bootRelease (kernelFile spacedBanner) .ppc64le = .ok (str "6.1.0") :=
    eq_ok_of_toOption (by decide +kernel)
  have token : (loadedWindows (kernelSegments spacedBanner) (kernelReader spacedBanner)).findSome?
      markedToken = some ("6.1.0".toList.map fun c => UInt8.ofNat c.toNat) := by decide +kernel
  refine (metadata_agrees_iff image named).1.mpr (fun other isFirst => ?_)
  obtain rfl := Option.some.inj (token.symm.trans isFirst)
  exact eq_ok_of_toOption (by decide +kernel)

/-- The banner ends with NUL, and the text goes on without white space. -/
def nulBanner : String := "Linux version 6.1.0\x00quiet splash"

theorem nulBanner_refused :
    KernelImage (kernelFile nulBanner) .ppc64le (kernelSegments nulBanner) (kernelReader nulBanner) ∧
    bootRelease (kernelFile nulBanner) .ppc64le = .ok (str "6.1.0") ∧
    ¬ (¬ RefusesRelease (elfKernelMetadata (kernelFile nulBanner) .ppc64le (str "6.1.0")) ∨
      Preceded (kernelFile nulBanner ++ [0]) (str "6.1.0") ∨
      PrecededIn (loadedWindows (kernelSegments nulBanner) (kernelReader nulBanner))
        (str "6.1.0")) := by
  have image := @kernelFile_image nulBanner (by decide +kernel)
  have named : bootRelease (kernelFile nulBanner) .ppc64le = .ok (str "6.1.0") :=
    eq_ok_of_toOption (by decide +kernel)
  have token : (loadedWindows (kernelSegments nulBanner) (kernelReader nulBanner)).findSome?
      markedToken = some ("6.1.0\x00quiet".toList.map fun c => UInt8.ofNat c.toNat) := by
    decide +kernel
  have banner : (loadedWindows (kernelSegments nulBanner) (kernelReader nulBanner)).findSome?
      bannerSearch = some ("6.1.0".toList.map fun c => UInt8.ofNat c.toNat) := by decide +kernel
  refine ⟨image, named, ?_⟩
  rintro (accepted | preceded | ⟨other, isFirst, differs⟩)
  · have valid := (not_refusesRelease_iff image).mp accepted _ token
    have refused : (validatedRelease ("6.1.0\x00quiet".toList.map fun c =>
        UInt8.ofNat c.toNat)).toOption = none := by decide +kernel
    rw [valid] at refused
    cases refused
  · exact not_preceded named preceded
  · obtain rfl := Option.some.inj (banner.symm.trans isFirst)
    exact differs (eq_ok_of_toOption (by decide +kernel))

end Samples

end Kdive.Bundles
